import Cadsa.Lib.JsonText
import Cadsa.Lib.PyJson
import Cadsa.Lib.Utf16

/-! `json.dumps` and `json.loads`, with the settings they have by default: text that is all ASCII, `", "` and
`": "` between what is in a list or a dict. What is dumped can be loaded, and is the same value again. -/
namespace JsonDump
open PyJson Utf16
open JsonText (isBlank)
set_option autoImplicit false

/-! ## Strings -/

def hex4 (u : ℕ) : List Char :=
  [(u / 4096 % 16).digitChar, (u / 256 % 16).digitChar, (u / 16 % 16).digitChar, (u % 16).digitChar]

def escapeUnit (u : ℕ) : List Char := '\\' :: 'u' :: hex4 u

/-- Printable ASCII stands for itself, other characters for their UTF-16 units. -/
def escapeChar (c : Char) : List Char :=
  if c = '"' then ['\\', '"']
  else if c = '\\' then ['\\', '\\']
  else if c = '\n' then ['\\', 'n']
  else if c = '\r' then ['\\', 'r']
  else if c = '\t' then ['\\', 't']
  else if c = '\x0C' then ['\\', 'f']
  else if c = '\x08' then ['\\', 'b']
  else if ' ' ≤ c ∧ c ≤ '~' then [c]
  else (charUnits c).flatMap escapeUnit

def dumpString (s : String) : List Char := '"' :: (s.toList.flatMap escapeChar ++ ['"'])

def hexVal (c : Char) : Option ℕ :=
  if '0' ≤ c ∧ c ≤ '9' then some (c.toNat - '0'.toNat)
  else if 'a' ≤ c ∧ c ≤ 'f' then some (c.toNat - 'a'.toNat + 10)
  else if 'A' ≤ c ∧ c ≤ 'F' then some (c.toNat - 'A'.toNat + 10)
  else none

def readHex4 (a b c d : Char) : Option ℕ := do
  return (((← hexVal a) * 16 + (← hexVal b)) * 16 + (← hexVal c)) * 16 + (← hexVal d)

def unescape : Char → Option Char
  | '"' => some '"'
  | '\\' => some '\\'
  | '/' => some '/'
  | 'b' => some '\x08'
  | 'f' => some '\x0C'
  | 'n' => some '\n'
  | 'r' => some '\r'
  | 't' => some '\t'
  | _ => none

/-- The units of a string up to its closing quote, and what follows. -/
def scanString : List Char → Option (List ℕ × List Char)
  | [] => none
  | '"' :: s => some ([], s)
  | '\\' :: 'u' :: a :: b :: c :: d :: s =>
    (readHex4 a b c d).bind fun u => (scanString s).map fun p => (u :: p.1, p.2)
  | '\\' :: e :: s => (unescape e).bind fun c => (scanString s).map fun p => (charUnits c ++ p.1, p.2)
  | c :: s => if c < ' ' then none else (scanString s).map fun p => (charUnits c ++ p.1, p.2)

/-- Half a pair is a string in Python, and none here. -/
def textOf (us : List ℕ) : Option String :=
  if units (toWellFormed us) = us then some (String.ofList (toWellFormed us)) else none

def readString (s : List Char) : Option (String × List Char) := do
  let (us, s) ← scanString s
  return (← textOf us, s)

/-! ## Numbers -/

def dumpInt (n : ℤ) : List Char := if n < 0 then '-' :: Nat.toDigits 10 n.natAbs else Nat.toDigits 10 n.natAbs

/-- `0|[1-9]\d*`, and what follows. -/
def spanWhole (s : List Char) : Option (List Char × List Char) :=
  match s with
  | '0' :: s => some (['0'], s)
  | c :: s => if c.isDigit then some (c :: s.takeWhile Char.isDigit, s.dropWhile Char.isDigit) else none
  | [] => none

/-- `\.\d+`, or nothing. -/
def spanFrac (s : List Char) : List Char × List Char :=
  match s with
  | '.' :: s => if s.takeWhile Char.isDigit = [] then ([], '.' :: s)
    else ('.' :: s.takeWhile Char.isDigit, s.dropWhile Char.isDigit)
  | s => ([], s)

/-- `[eE][-+]?\d+`, or nothing. -/
def spanExponent (s : List Char) : List Char × List Char :=
  match s with
  | c :: t =>
    if c = 'e' ∨ c = 'E' then
      let sign := t.takeWhile (fun d => d = '+' || d = '-') |>.take 1
      let digits := (t.drop sign.length).takeWhile Char.isDigit
      if digits = [] then ([], s) else (c :: sign ++ digits, (t.drop sign.length).dropWhile Char.isDigit)
    else ([], s)
  | [] => ([], [])

/-- A float is kept as it is written, which is its `repr` where it was dumped. -/
def readNumber (negative : Bool) (s : List Char) : Option (Json × List Char) := do
  let (whole, s) ← spanWhole s
  let (frac, s) := spanFrac s
  let (exponent, s) := spanExponent s
  let n : ℤ := Nat.ofDigitChars 10 whole 0
  if frac = [] ∧ exponent = [] then
    return (.int (if negative then -n else n), s)
  else
    return (.float (String.ofList ((if negative then ['-'] else []) ++ whole ++ frac ++ exponent)), s)

/-! ## Values -/

def dumpFloat (r : String) : List Char :=
  if r = "nan" then "NaN".toList
  else if r = "inf" then "Infinity".toList
  else if r = "-inf" then "-Infinity".toList
  else r.toList

mutual

def dump : Json → List Char
  | .null => ['n', 'u', 'l', 'l']
  | .bool true => ['t', 'r', 'u', 'e']
  | .bool false => ['f', 'a', 'l', 's', 'e']
  | .int n => dumpInt n
  | .float r => dumpFloat r
  | .str s => dumpString s
  | .arr [] => ['[', ']']
  | .arr (j :: items) => '[' :: (dump j ++ dumpItems items)
  | .obj [] => ['{', '}']
  | .obj ((key, j) :: members) => '{' :: (dumpString key ++ (':' :: ' ' :: dump j) ++ dumpMembers members)

/-- The items after the first, and the bracket. -/
def dumpItems : List Json → List Char
  | [] => [']']
  | j :: items => ',' :: ' ' :: (dump j ++ dumpItems items)

def dumpMembers : List (String × Json) → List Char
  | [] => ['}']
  | (key, j) :: members => ',' :: ' ' :: (dumpString key ++ (':' :: ' ' :: dump j) ++ dumpMembers members)

end

def skipBlank (s : List Char) : List Char := s.dropWhile isBlank

/-- A word at the start of the text, and the value it stands for. -/
def constants : List (List Char × Json) :=
  [(['n', 'u', 'l', 'l'], .null), (['t', 'r', 'u', 'e'], .bool true), (['f', 'a', 'l', 's', 'e'], .bool false),
    ("NaN".toList, .float "nan"), ("Infinity".toList, .float "inf"), ("-Infinity".toList, .float "-inf")]

def readConstant (s : List Char) : Option (Json × List Char) :=
  constants.findSome? fun w => (s.dropPrefix? w.1).map fun rest => (w.2, rest)

mutual

/-- `scan_once`; the fuel is the length of the text. -/
def scan : ℕ → List Char → Option (Json × List Char)
  | 0, _ => none
  | fuel + 1, s =>
    match s with
    | '"' :: s => (readString s).map fun p => (.str p.1, p.2)
    | '[' :: s =>
      match skipBlank s with
      | ']' :: s => some (.arr [], s)
      | s => (scanItems fuel s).map fun p => (.arr p.1, p.2)
    | '{' :: s =>
      match skipBlank s with
      | '}' :: s => some (.obj [], s)
      | s => (scanMembers fuel s).map fun p => (.obj (p.1.foldl (fun d m => setItem d m.1 m.2) []), p.2)
    | s => (readConstant s).or (match s with
      | '-' :: s => readNumber true s
      | s => readNumber false s)

def scanItems : ℕ → List Char → Option (List Json × List Char)
  | 0, _ => none
  | fuel + 1, s =>
    match scan fuel s with
    | none => none
    | some (j, s) =>
      match skipBlank s with
      | ']' :: s => some ([j], s)
      | ',' :: s => (scanItems fuel (skipBlank s)).map fun p => (j :: p.1, p.2)
      | _ => none

def scanMembers : ℕ → List Char → Option (List (String × Json) × List Char)
  | 0, _ => none
  | fuel + 1, s =>
    match s with
    | '"' :: s =>
      match readString s with
      | none => none
      | some (key, s) =>
        match skipBlank s with
        | ':' :: s =>
          match scan fuel (skipBlank s) with
          | none => none
          | some (j, s) =>
            match skipBlank s with
            | '}' :: s => some ([(key, j)], s)
            | ',' :: s => (scanMembers fuel (skipBlank s)).map fun p => ((key, j) :: p.1, p.2)
            | _ => none
        | _ => none
    | _ => none

end

def dumps (j : Json) : String := String.ofList (dump j)

def loads (text : String) : Option Json :=
  let s := skipBlank text.toList
  match scan s.length s with
  | some (j, rest) => if skipBlank rest = [] then some j else none
  | none => none

/-! ## Strings come back -/

theorem hexVal_digitChar : ∀ d < 16, hexVal d.digitChar = some d := by decide

theorem readHex4_hex4 {u : ℕ} (hu : u < 65536) :
    readHex4 (u / 4096 % 16).digitChar (u / 256 % 16).digitChar (u / 16 % 16).digitChar (u % 16).digitChar = some u := by
  have h (n : ℕ) : hexVal (n % 16).digitChar = some (n % 16) := hexVal_digitChar _ (Nat.mod_lt _ (by decide))
  simp only [readHex4, h, Option.bind_eq_bind, Option.bind_some, Option.pure_def, Option.some.injEq]
  omega

theorem scanString_escapeUnit {u : ℕ} (hu : u < 65536) (s : List Char) :
    scanString (escapeUnit u ++ s) = (scanString s).map fun p => (u :: p.1, p.2) := by
  show scanString ('\\' :: 'u' :: _ :: _ :: _ :: _ :: s) = _
  rw [scanString, readHex4_hex4 hu, Option.bind_some]

theorem scanString_units {us : List ℕ} (hus : ∀ u ∈ us, u < 65536) (s : List Char) :
    scanString (us.flatMap escapeUnit ++ s) = (scanString s).map fun p => (us ++ p.1, p.2) := by
  induction us with
  | nil => exact Option.map_id'.symm
  | cons u us ih =>
    rw [List.flatMap_cons, List.append_assoc, scanString_escapeUnit (hus u List.mem_cons_self),
      ih fun v hv => hus v (List.mem_cons_of_mem u hv), Option.map_map]
    rfl

theorem unit_lt (c : Char) : ∀ u ∈ charUnits c, u < 65536 := by
  intro u hu
  have hvalid : c.val.toNat < 0xD800 ∨ 0xDFFF < c.val.toNat ∧ c.val.toNat < 0x110000 := c.valid
  rw [charUnits] at hu
  split_ifs at hu with hlt
  · rw [List.mem_singleton.mp hu]
    exact hlt
  · rcases List.mem_pair.mp hu with hhigh | hlow
    · omega
    · omega

theorem scanString_plain {c : Char} (hquote : c ≠ '"') (hslash : c ≠ '\\') (hspace : ' ' ≤ c) (s : List Char) :
    scanString (c :: s) = (scanString s).map fun p => (charUnits c ++ p.1, p.2) := by
  rw [scanString]
  · exact if_neg (Char.not_lt.mpr hspace)
  · exact hquote
  · exact fun _ _ _ _ _ h _ => hslash h
  · exact fun _ _ h _ => hslash h

theorem scanString_escapeChar (c : Char) (s : List Char) :
    scanString (escapeChar c ++ s) = (scanString s).map fun p => (charUnits c ++ p.1, p.2) := by
  rw [escapeChar]
  split_ifs with h1 h2 h3 h4 h5 h6 h7 h8
  · rw [h1]
    rfl
  · rw [h2]
    rfl
  · rw [h3]
    rfl
  · rw [h4]
    rfl
  · rw [h5]
    rfl
  · rw [h6]
    rfl
  · rw [h7]
    rfl
  · exact scanString_plain h1 h2 h8.1 s
  · exact scanString_units (unit_lt c) s

theorem scanString_escape (cs s : List Char) :
    scanString (cs.flatMap escapeChar ++ '"' :: s) = some (units cs, s) := by
  induction cs with
  | nil => rfl
  | cons c cs ih =>
    rw [List.flatMap_cons, List.append_assoc, scanString_escapeChar, ih]
    rfl

theorem readString_dumpString (t : String) (s : List Char) :
    dumpString t ++ s = '"' :: (t.toList.flatMap escapeChar ++ '"' :: s) ∧
      readString (t.toList.flatMap escapeChar ++ '"' :: s) = some (t, s) := by
  constructor
  · simp [dumpString]
  · rw [readString, scanString_escape]
    simp [textOf, toWellFormed_units]

/-! ## Numbers come back -/

/-- No number goes on with it. -/
def Ends (s : List Char) : Prop := ∀ c ∈ s.head?, c.isDigit = false ∧ c ≠ '.' ∧ c ≠ 'e' ∧ c ≠ 'E'

theorem ends_nil : Ends [] := nofun

theorem ends_cons {c : Char} (h : c.isDigit = false ∧ c ≠ '.' ∧ c ≠ 'e' ∧ c ≠ 'E') (s : List Char) : Ends (c :: s) := by
  intro d hd
  cases hd
  exact h

theorem digits_head {n : ℕ} (h : 0 < n) : ∃ c t, Nat.toDigits 10 n = c :: t ∧ c.isDigit = true ∧ c ≠ '0' := by
  induction n using Nat.strong_induction_on with
  | _ n ih =>
    rcases Nat.lt_or_ge n 10 with hlt | hge
    · refine ⟨n.digitChar, [], Nat.toDigits_of_lt_base hlt, ?_⟩
      have hdigit : ∀ d < 10, 0 < d → d.digitChar.isDigit = true ∧ d.digitChar ≠ '0' := by decide
      exact hdigit n hlt h
    · obtain ⟨c, t, ht, hc⟩ := ih (n / 10) (by omega) (by omega)
      refine ⟨c, t ++ [(n % 10).digitChar], ?_, hc⟩
      rw [Nat.toDigits_of_base_le (by decide) hge, ht]
      rfl

theorem takeWhile_digits {ds s : List Char} (hds : ∀ c ∈ ds, c.isDigit = true) (hs : Ends s) :
    (ds ++ s).takeWhile Char.isDigit = ds ∧ (ds ++ s).dropWhile Char.isDigit = s := by
  have hhead : s.takeWhile Char.isDigit = [] ∧ s.dropWhile Char.isDigit = s := by
    cases s with
    | nil => exact ⟨rfl, rfl⟩
    | cons c s =>
      have hc := (hs c rfl).1
      exact ⟨by rw [List.takeWhile_cons_of_neg (by simp [hc])], by rw [List.dropWhile_cons_of_neg (by simp [hc])]⟩
  constructor
  · rw [List.takeWhile_append_of_pos hds, hhead.1, List.append_nil]
  · rw [List.dropWhile_append_of_pos hds, hhead.2]

theorem spanWhole_digits (n : ℕ) {s : List Char} (hs : Ends s) :
    spanWhole (Nat.toDigits 10 n ++ s) = some (Nat.toDigits 10 n, s) := by
  rcases Nat.eq_zero_or_pos n with rfl | hpos
  · rfl
  · obtain ⟨c, t, ht, hdigit, hzero⟩ := digits_head hpos
    have hall : ∀ d ∈ t, d.isDigit = true := fun d hd =>
      Nat.isDigit_of_mem_toDigits (by decide) (by decide) (ht ▸ List.mem_cons_of_mem c hd)
    obtain ⟨htake, hdrop⟩ := takeWhile_digits hall hs
    rw [ht, List.cons_append, spanWhole]
    · rw [if_pos hdigit, htake, hdrop]
    · exact fun h => hzero h

theorem spanFrac_ends {s : List Char} (hs : Ends s) : spanFrac s = ([], s) := by
  rw [spanFrac]
  rintro t rfl
  exact (hs '.' rfl).2.1 rfl

theorem spanExponent_ends {s : List Char} (hs : Ends s) : spanExponent s = ([], s) := by
  cases s with
  | nil => rfl
  | cons c s =>
    have hc := (hs c rfl).2.2
    rw [spanExponent, if_neg]
    rintro (h | h)
    · exact hc.1 h
    · exact hc.2 h

theorem readNumber_digits (negative : Bool) (n : ℕ) {s : List Char} (hs : Ends s) :
    readNumber negative (Nat.toDigits 10 n ++ s) = some (.int (if negative then -n else n), s) := by
  rw [readNumber, spanWhole_digits n hs]
  simp only [Option.bind_eq_bind, Option.bind_some, spanFrac_ends hs, spanExponent_ends hs, and_self, if_true,
    Nat.ofDigitChars_ten_toDigits, Option.pure_def]

/-! ## Values come back -/

/-- The keys of every object are distinct, and there are no floats. -/
inductive Dumpable : Json → Prop
  | null : Dumpable .null
  | bool (b : Bool) : Dumpable (.bool b)
  | int (n : ℤ) : Dumpable (.int n)
  | str (s : String) : Dumpable (.str s)
  | arr {items : List Json} : (∀ j ∈ items, Dumpable j) → Dumpable (.arr items)
  | obj {members : List (String × Json)} : (members.map Prod.fst).Nodup → (∀ m ∈ members, Dumpable m.2) →
      Dumpable (.obj members)

/-- A value is read back from the front of a text, with fuel for its own text. -/
def ReadBack (j : Json) : Prop :=
  ∀ fuel rest, (dump j).length ≤ fuel → Ends rest → scan fuel (dump j ++ rest) = some (j, rest)

theorem digit_ne {c : Char} (h : c.isDigit = true) :
    isBlank c = false ∧ c ≠ ']' ∧ c ≠ '"' ∧ c ≠ '[' ∧ c ≠ '{' ∧ c ≠ '-' := by
  have hne (d : Char) (hd : d.isDigit = false) : c ≠ d := by
    rintro rfl
    rw [h] at hd
    cases hd
  refine ⟨?_, hne _ (by decide), hne _ (by decide), hne _ (by decide), hne _ (by decide), hne _ (by decide)⟩
  refine decide_eq_false fun hmem => ?_
  simp only [List.mem_cons, List.not_mem_nil, or_false] at hmem
  rcases hmem with hc | hc | hc | hc
  · exact hne _ (by decide) hc
  · exact hne _ (by decide) hc
  · exact hne _ (by decide) hc
  · exact hne _ (by decide) hc

theorem toDigits_cons (n : ℕ) : ∃ c t, Nat.toDigits 10 n = c :: t ∧ c.isDigit = true := by
  cases ht : Nat.toDigits 10 n with
  | nil => exact absurd ht Nat.toDigits_ne_nil
  | cons c t =>
    exact ⟨c, t, rfl, Nat.isDigit_of_mem_toDigits (by decide) (by decide) (ht ▸ List.mem_cons_self)⟩

theorem dump_head {j : Json} (h : Dumpable j) : ∃ c t, dump j = c :: t ∧ isBlank c = false ∧ c ≠ ']' := by
  cases h with
  | null => exact ⟨'n', ['u', 'l', 'l'], by rw [dump], by decide, by decide⟩
  | bool b =>
    cases b with
    | false => exact ⟨'f', ['a', 'l', 's', 'e'], by rw [dump], by decide, by decide⟩
    | true => exact ⟨'t', ['r', 'u', 'e'], by rw [dump], by decide, by decide⟩
  | int n =>
    rw [dump, dumpInt]
    split_ifs
    · exact ⟨'-', _, rfl, by decide, by decide⟩
    · obtain ⟨c, t, ht, hc⟩ := toDigits_cons n.natAbs
      exact ⟨c, t, ht, (digit_ne hc).1, (digit_ne hc).2.1⟩
  | str s => exact ⟨'"', _, by rw [dump, dumpString], by decide, by decide⟩
  | @arr items =>
    cases items with
    | nil => exact ⟨'[', _, by rw [dump], by decide, by decide⟩
    | cons j items => exact ⟨'[', _, by rw [dump], by decide, by decide⟩
  | @obj members =>
    cases members with
    | nil => exact ⟨'{', _, by rw [dump], by decide, by decide⟩
    | cons m members => exact ⟨'{', _, by rw [dump], by decide, by decide⟩

theorem skipBlank_cons {c : Char} (h : isBlank c = false) (s : List Char) : skipBlank (c :: s) = c :: s :=
  List.dropWhile_cons_of_neg (by simp [h])

theorem skipBlank_dump {j : Json} (h : Dumpable j) (s : List Char) : skipBlank (dump j ++ s) = dump j ++ s := by
  obtain ⟨c, t, ht, hc, -⟩ := dump_head h
  rw [ht, List.cons_append, skipBlank_cons hc]

theorem length_dump_pos {j : Json} (h : Dumpable j) : 0 < (dump j).length := by
  obtain ⟨c, t, ht, -⟩ := dump_head h
  rw [ht]
  exact Nat.succ_pos _

theorem readConstant_digit {c : Char} (h : c.isDigit = true) (s : List Char) : readConstant (c :: s) = none := by
  have hne (d : Char) (hd : d.isDigit = false) : (c == d) = false := by
    rw [beq_eq_false_iff_ne]
    rintro rfl
    rw [h] at hd
    cases hd
  simp [readConstant, constants, List.dropPrefix?, hne]

theorem readConstant_minus {c : Char} (h : c.isDigit = true) (s : List Char) : readConstant ('-' :: c :: s) = none := by
  have hne : (c == 'I') = false := by
    rw [beq_eq_false_iff_ne]
    rintro rfl
    exact absurd h (by decide)
  simp [readConstant, constants, List.dropPrefix?, hne]

/-- What begins with none of these is a constant or a number. -/
theorem scan_plain {c : Char} (h : c ≠ '"' ∧ c ≠ '[' ∧ c ≠ '{' ∧ c ≠ '-') (fuel : ℕ) (s : List Char) :
    scan (fuel + 1) (c :: s) = (readConstant (c :: s)).or (readNumber false (c :: s)) := by
  obtain ⟨hquote, hopen, hbrace, hminus⟩ := h
  rw [scan]
  · exact fun _ he => hquote (List.cons.inj he).1
  · exact fun _ he => hopen (List.cons.inj he).1
  · exact fun _ he => hbrace (List.cons.inj he).1
  · exact fun _ he => hminus (List.cons.inj he).1

theorem readBack_int (n : ℤ) : ReadBack (.int n) := by
  intro fuel rest hf hr
  have hpos := length_dump_pos (.int n)
  obtain ⟨fuel, rfl⟩ : ∃ k, fuel = k + 1 := ⟨fuel - 1, by omega⟩
  obtain ⟨c, t, ht, hc⟩ := toDigits_cons n.natAbs
  have hread (negative : Bool) := readNumber_digits negative n.natAbs hr
  rw [ht, List.cons_append] at hread
  rw [dump, dumpInt]
  split_ifs with hneg
  · rw [ht, List.cons_append, List.cons_append, scan]
    rw [readConstant_minus hc, Option.none_or]
    refine (hread true).trans ?_
    rw [if_pos rfl, Int.ofNat_natAbs_of_nonpos (Int.le_of_lt hneg), Int.neg_neg]
  · rw [ht, List.cons_append, scan_plain (digit_ne hc).2.2, readConstant_digit hc, Option.none_or]
    refine (hread false).trans ?_
    rw [if_neg Bool.false_ne_true, Int.natAbs_of_nonneg (Int.not_lt.mp hneg)]

theorem ends_comma (s : List Char) : Ends (',' :: s) := ends_cons (by decide) s

theorem ends_bracket (s : List Char) : Ends (']' :: s) := ends_cons (by decide) s

theorem ends_brace (s : List Char) : Ends ('}' :: s) := ends_cons (by decide) s

/-- The items of a list, from the first on. -/
theorem scanItems_dump {j : Json} {items : List Json} (hall : ∀ x ∈ j :: items, Dumpable x ∧ ReadBack x) :
    ∀ fuel rest, (dump j ++ dumpItems items).length ≤ fuel →
      scanItems fuel (dump j ++ (dumpItems items ++ rest)) = some (j :: items, rest) := by
  induction items generalizing j with
  | nil =>
    intro fuel rest hf
    rw [dumpItems, List.length_append, List.length_singleton] at hf
    obtain ⟨fuel, rfl⟩ : ∃ k, fuel = k + 1 := ⟨fuel - 1, by omega⟩
    have hj := (hall j List.mem_cons_self).2 fuel (']' :: rest) (by omega) (ends_bracket rest)
    rw [dumpItems, scanItems, List.singleton_append, hj]
    rfl
  | cons k items ih =>
    intro fuel rest hf
    rw [dumpItems, List.length_append, List.length_cons, List.length_cons] at hf
    obtain ⟨fuel, rfl⟩ : ∃ k, fuel = k + 1 := ⟨fuel - 1, by omega⟩
    have hj := (hall j List.mem_cons_self).2 fuel (',' :: ' ' :: (dump k ++ (dumpItems items ++ rest))) (by omega)
      (ends_comma _)
    have hk := (hall k (List.mem_cons_of_mem j List.mem_cons_self)).1
    have hrest := ih (fun x hx => hall x (List.mem_cons_of_mem j hx)) fuel rest (by omega)
    have hblank : skipBlank (' ' :: (dump k ++ (dumpItems items ++ rest))) = dump k ++ (dumpItems items ++ rest) :=
      skipBlank_dump hk _
    rw [dumpItems, scanItems, List.cons_append, List.cons_append, List.append_assoc, hj]
    show Option.map _ (scanItems fuel (skipBlank (' ' :: (dump k ++ (dumpItems items ++ rest))))) = _
    rw [hblank, hrest]
    rfl

theorem readBack_arr {items : List Json} (hall : ∀ j ∈ items, Dumpable j ∧ ReadBack j) : ReadBack (.arr items) := by
  intro fuel rest hf _
  cases items with
  | nil =>
    rw [dump, List.length_cons] at hf
    obtain ⟨fuel, rfl⟩ : ∃ k, fuel = k + 1 := ⟨fuel - 1, by omega⟩
    rw [dump]
    show scan (fuel + 1) ('[' :: ']' :: rest) = _
    rw [scan]
    rfl
  | cons j items =>
    rw [dump, List.length_cons] at hf
    obtain ⟨fuel, rfl⟩ : ∃ k, fuel = k + 1 := ⟨fuel - 1, by omega⟩
    have hitems := scanItems_dump hall fuel rest (by omega)
    obtain ⟨c, t, ht, hblank, hclose⟩ := dump_head (hall j List.mem_cons_self).1
    rw [dump, List.cons_append, List.append_assoc, scan, skipBlank_dump (hall j List.mem_cons_self).1]
    rw [ht, List.cons_append] at hitems ⊢
    split
    · rename_i heq
      exact absurd (List.cons.inj heq).1 hclose
    · rw [hitems]
      rfl

theorem skipBlank_dumpString (key : String) (s : List Char) : skipBlank (dumpString key ++ s) = dumpString key ++ s :=
  skipBlank_cons (by decide) _

theorem dumpMember (key : String) (j : Json) (rest : List Char) :
    dumpString key ++ (':' :: ' ' :: dump j) ++ rest =
      '"' :: (key.toList.flatMap escapeChar ++ '"' :: ':' :: ' ' :: (dump j ++ rest)) := by
  rw [List.append_assoc, (readString_dumpString key _).1]
  rfl

theorem scanMembers_dump {key : String} {j : Json} {members : List (String × Json)}
    (hall : ∀ m ∈ (key, j) :: members, Dumpable m.2 ∧ ReadBack m.2) :
    ∀ fuel rest, (dump j ++ dumpMembers members).length < fuel →
      scanMembers fuel (dumpString key ++ (':' :: ' ' :: dump j) ++ (dumpMembers members ++ rest)) =
        some ((key, j) :: members, rest) := by
  induction members generalizing key j with
  | nil =>
    intro fuel rest hf
    rw [dumpMembers, List.length_append, List.length_singleton] at hf
    obtain ⟨fuel, rfl⟩ : ∃ k, fuel = k + 1 := ⟨fuel - 1, by omega⟩
    obtain ⟨hdump, hread⟩ : Dumpable j ∧ ReadBack j := hall _ List.mem_cons_self
    have hj := hread fuel ('}' :: rest) (by omega) (ends_brace rest)
    rw [dumpMembers, List.singleton_append, dumpMember, scanMembers, (readString_dumpString key _).2]
    show (match scan fuel (skipBlank (dump j ++ '}' :: rest)) with | none => none | some (j, s) => _) = _
    rw [skipBlank_dump hdump, hj]
    rfl
  | cons m members ih =>
    obtain ⟨key', k⟩ := m
    intro fuel rest hf
    rw [dumpMembers] at hf
    simp only [List.length_append, List.length_cons] at hf
    obtain ⟨fuel, rfl⟩ : ∃ k, fuel = k + 1 := ⟨fuel - 1, by omega⟩
    obtain ⟨hdump, hread⟩ : Dumpable j ∧ ReadBack j := hall _ List.mem_cons_self
    have hj := hread fuel (',' :: ' ' :: (dumpString key' ++ (':' :: ' ' :: dump k) ++ (dumpMembers members ++ rest)))
      (by omega) (ends_comma _)
    have hrest := ih (fun x hx => hall x (List.mem_cons_of_mem _ hx)) fuel rest (by
      rw [List.length_append]
      omega)
    rw [dumpMembers, List.cons_append, List.cons_append, List.append_assoc _ _ rest, dumpMember, scanMembers,
      (readString_dumpString key _).2]
    show (match scan fuel (skipBlank (dump j ++ _)) with | none => none | some (j, s) => _) = _
    rw [skipBlank_dump hdump, hj]
    show Option.map _ (scanMembers fuel (skipBlank (dumpString key' ++ _ ++ _))) = _
    rw [List.append_assoc (dumpString key'), skipBlank_dumpString, ← List.append_assoc (dumpString key'), hrest]
    rfl

/-- The members of a dict are set one after the other. -/
theorem foldl_setItem {members before : List (String × Json)} (h : ((before ++ members).map Prod.fst).Nodup) :
    members.foldl (fun d m => setItem d m.1 m.2) before = before ++ members := by
  induction members generalizing before with
  | nil => exact (List.append_nil before).symm
  | cons m members ih =>
    have hnew : m.1 ∉ before.map Prod.fst := by
      rw [List.map_append, List.map_cons, List.nodup_append] at h
      exact fun hmem => h.2.2 m.1 hmem m.1 List.mem_cons_self rfl
    rw [List.foldl_cons, setItem_new hnew, ih]
    · exact List.append_assoc ..
    · rw [List.append_assoc]
      exact h

theorem readBack_obj {members : List (String × Json)} (hkeys : (members.map Prod.fst).Nodup)
    (hall : ∀ m ∈ members, Dumpable m.2 ∧ ReadBack m.2) : ReadBack (.obj members) := by
  intro fuel rest hf _
  cases members with
  | nil =>
    rw [dump, List.length_cons] at hf
    obtain ⟨fuel, rfl⟩ : ∃ k, fuel = k + 1 := ⟨fuel - 1, by omega⟩
    rw [dump]
    show scan (fuel + 1) ('{' :: '}' :: rest) = _
    rw [scan]
    rfl
  | cons m members =>
    obtain ⟨key, j⟩ := m
    rw [dump] at hf
    simp only [List.length_append, List.length_cons] at hf
    obtain ⟨fuel, rfl⟩ : ∃ k, fuel = k + 1 := ⟨fuel - 1, by omega⟩
    have hmembers := scanMembers_dump hall fuel rest (by
      rw [List.length_append]
      omega)
    rw [dump, List.cons_append, List.append_assoc, scan]
    rw [List.append_assoc (dumpString key), skipBlank_dumpString, ← List.append_assoc (dumpString key)]
    rw [dumpMember] at hmembers ⊢
    show Option.map _ (scanMembers fuel _) = _
    rw [hmembers, Option.map_some, foldl_setItem hkeys]
    rfl

theorem readBack {j : Json} (h : Dumpable j) : ReadBack j := by
  induction h with
  | null =>
    intro fuel rest hf _
    rw [dump] at hf
    obtain ⟨fuel, rfl⟩ : ∃ k, fuel = k + 1 := ⟨fuel - 1, (Nat.sub_add_cancel ((by decide : 1 ≤ 4).trans hf)).symm⟩
    rw [dump, List.cons_append, scan_plain (by decide)]
    simp [readConstant, constants, List.dropPrefix?]
  | bool b =>
    intro fuel rest hf _
    have hpos := length_dump_pos (.bool b)
    obtain ⟨fuel, rfl⟩ : ∃ k, fuel = k + 1 := ⟨fuel - 1, by omega⟩
    cases b with
    | false =>
      rw [dump, List.cons_append, scan_plain (by decide)]
      simp [readConstant, constants, List.dropPrefix?]
    | true =>
      rw [dump, List.cons_append, scan_plain (by decide)]
      simp [readConstant, constants, List.dropPrefix?]
  | int n => exact readBack_int n
  | str s =>
    intro fuel rest hf _
    have hpos := length_dump_pos (.str s)
    obtain ⟨fuel, rfl⟩ : ∃ k, fuel = k + 1 := ⟨fuel - 1, by omega⟩
    rw [dump, (readString_dumpString s rest).1, scan, (readString_dumpString s rest).2]
    rfl
  | arr hall ih => exact readBack_arr fun j hj => ⟨hall j hj, ih j hj⟩
  | obj hkeys hall ih => exact readBack_obj hkeys fun m hm => ⟨hall m hm, ih m hm⟩

/-- **Round trip.** -/
theorem loads_dumps {j : Json} (h : Dumpable j) : loads (dumps j) = some j := by
  have hread := readBack h (dump j).length [] le_rfl ends_nil
  have hblank := skipBlank_dump h []
  rw [List.append_nil] at hread hblank
  rw [loads, dumps, String.toList_ofList, hblank, hread]
  rfl

theorem dumps_ne_empty {j : Json} (h : Dumpable j) : dumps j ≠ "" := by
  intro hempty
  have htext : dump j = [] := by
    have hlist := congrArg String.toList hempty
    rw [dumps, String.toList_ofList] at hlist
    exact hlist
  have hpos := length_dump_pos h
  rw [htext] at hpos
  exact absurd hpos (Nat.lt_irrefl 0)

end JsonDump
