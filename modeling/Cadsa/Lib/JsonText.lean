import Mathlib.Data.List.Infix
import Cadsa.Lib.Lowercase
import Cadsa.Lib.PyText

/-! The tokens of a JSON text. A search for a quoted word followed by a colon and digits, which is blind to the
structure of the text, finds a string token that ends in the word (`search_text`). -/
namespace JsonText
open PyText
open Lowercase (alpha_bounds digit_bounds)
set_option autoImplicit false

/-! ## Tokens -/

def isBlank (c : Char) : Bool := c ∈ [' ', '\t', '\n', '\r']

def isMark (c : Char) : Bool := c ∈ ['{', '}', '[', ']', ',', ':']

def words : List (List Char) :=
  ["null".toList, "true".toList, "false".toList, "NaN".toList, "Infinity".toList, "-Infinity".toList]

/-- Without a point there are no digits behind it, and without an exponent no text of it. -/
structure Number where
  negative : Bool
  whole : List Char
  frac : List Char
  exponent : List Char
  whole_ne : whole ≠ []
  whole_digits : ∀ c ∈ whole, c.isDigit = true
  frac_digits : ∀ c ∈ frac, c.isDigit = true
  exponent_head : ∀ c ∈ exponent.head?, c = 'e' ∨ c = 'E'
  exponent_tail : ∀ c ∈ exponent.tail, c.isDigit = true ∨ c = '+' ∨ c = '-'

/-- The digits, with a point if there are some behind it. -/
def decimal (whole frac : List Char) : List Char := whole ++ if frac = [] then [] else '.' :: frac

def Number.text (n : Number) : List Char :=
  (if n.negative then ['-'] else []) ++ (decimal n.whole n.frac ++ n.exponent)

/-- What may stand between quotes: no quote but after a backslash. -/
def wellQuoted : List Char → Bool
  | [] => true
  | '\\' :: _ :: s => wellQuoted s
  | ['\\'] => false
  | c :: s => c ≠ '"' && wellQuoted s

inductive Token where
  | blank (s : List Char)
  | mark (c : Char)
  | word (s : List Char)
  | number (n : Number)
  | string (raw : List Char)

def Token.text : Token → List Char
  | .blank s => s
  | .mark c => [c]
  | .word s => s
  | .number n => n.text
  | .string raw => '"' :: (raw ++ ['"'])

def Token.Valid : Token → Prop
  | .blank s => s ≠ [] ∧ ∀ c ∈ s, isBlank c = true
  | .mark c => isMark c = true
  | .word s => s ∈ words
  | .number _ => True
  | .string raw => wellQuoted raw = true

instance : DecidablePred Token.Valid
  | .blank s => inferInstanceAs (Decidable (s ≠ [] ∧ ∀ c ∈ s, isBlank c = true))
  | .mark c => inferInstanceAs (Decidable (isMark c = true))
  | .word s => inferInstanceAs (Decidable (s ∈ words))
  | .number _ => inferInstanceAs (Decidable True)
  | .string raw => inferInstanceAs (Decidable (wellQuoted raw = true))

/-- Where such a token ends shows only from what follows. -/
def Token.loose : Token → Bool
  | .word _ | .number _ => true
  | _ => false

def Token.stops : Token → Bool
  | .blank _ | .mark _ => true
  | _ => false

def Separated : List Token → Prop
  | [] => True
  | t :: toks => (t.loose = true → ∀ u ∈ toks.head?, u.stops = true) ∧ Separated toks

instance : DecidablePred Separated
  | [] => inferInstanceAs (Decidable True)
  | t :: toks =>
    have : Decidable (Separated toks) := instDecidablePredListTokenSeparated toks
    inferInstanceAs (Decidable ((t.loose = true → ∀ u ∈ toks.head?, u.stops = true) ∧ Separated toks))

def text (toks : List Token) : List Char := toks.flatMap Token.text

structure Tokens (toks : List Token) (s : List Char) : Prop where
  valid : ∀ t ∈ toks, t.Valid
  separated : Separated toks
  text_eq : text toks = s

/-! ## The search -/

def isRegexSpace (c : Char) : Bool := c ∈ [' ', '\t', '\n', '\r', '\x0B', '\x0C']

/-- What follows a text. -/
def eat {α : Type} [DecidableEq α] (p s : List α) : Option (List α) := s.dropPrefix? p

/-- `([0-9]+(?:\.[0-9]+)?)`: the digits before the point and behind it. -/
def digitsAt (s : List Char) : Option (List Char × List Char) :=
  if s.takeWhile Char.isDigit = [] then none
  else some (s.takeWhile Char.isDigit, ((eat ['.'] (s.dropWhile Char.isDigit)).map (·.takeWhile Char.isDigit)).getD [])

/-- `\s*:\s*` and a number. -/
def valueAt (s : List Char) : Option (List Char × List Char) := do
  let s ← eat [':'] (s.dropWhile isRegexSpace)
  digitsAt (s.dropWhile isRegexSpace)

section
variable (key : List Char)

/-- The key between quotes, and its value. -/
def memberAt (s : List Char) : Option (List Char × List Char) := (eat ('"' :: (key ++ ['"'])) s).bind valueAt

def search : List Char → Option (List Char × List Char)
  | [] => none
  | c :: s => (memberAt key (c :: s)).or (search s)

/-! ## The same among tokens -/

/-- The text ends in the key between quotes, of which the first may be an escaped one. -/
def spelled (raw : List Char) : Bool := raw = key || '"' :: key <:+ raw

def numberAfter : List Token → Option (List Char × List Char)
  | .blank _ :: toks => numberAfter toks
  | .number n :: _ => if n.negative then none else some (n.whole, n.frac)
  | _ => none

def valueAfter : List Token → Option (List Char × List Char)
  | .blank _ :: toks => valueAfter toks
  | .mark c :: toks => if c = ':' then numberAfter toks else none
  | _ => none

/-- The digits of the first number that stands behind the key. -/
def firstValue : List Token → Option (List Char × List Char)
  | [] => none
  | .string raw :: toks => if spelled key raw then (valueAfter toks).or (firstValue toks) else firstValue toks
  | _ :: toks => firstValue toks

end

structure KeyWord (key : List Char) : Prop where
  ne : key ≠ []
  letters : ∀ c ∈ key, c.isAlpha = true

/-! ## Reading a text -/

section
variable {key : List Char}

theorem eat_eq_some_iff {α : Type} [DecidableEq α] {p s x : List α} : eat p s = some x ↔ s = p ++ x := by
  simp [eat, List.dropPrefix?_eq_some_iff]

theorem eat_append {α : Type} [DecidableEq α] (p s : List α) : eat p (p ++ s) = some s := eat_eq_some_iff.mpr rfl

theorem eat_eq_none {α : Type} [DecidableEq α] {p s : List α} (h : ∀ x, s ≠ p ++ x) : eat p s = none := by
  cases he : eat p s with
  | none => rfl
  | some x => exact absurd (eat_eq_some_iff.mp he) (h x)

theorem eat_cons {α : Type} [DecidableEq α] (c d : α) (p s : List α) :
    eat (c :: p) (d :: s) = if d = c then eat p s else none := by
  simp [eat, List.dropPrefix?]

theorem eat_head_ne {c d : Char} (h : d ≠ c) (p s : List Char) : eat (c :: p) (d :: s) = none :=
  eat_eq_none fun _ he => h (List.cons.inj he).1

theorem wellQuoted_cons {c : Char} (hc : c ≠ '\\') (s : List Char) :
    wellQuoted (c :: s) = (decide (c ≠ '"') && wellQuoted s) := by
  rw [wellQuoted]
  · exact fun d t he => absurd he hc
  · exact fun he => absurd he hc

/-- Between well placed quotes the key is read as the whole text only. -/
theorem eq_key_of_quoted (hk : ∀ c ∈ key, c.isAlpha = true) {raw : List Char} (hraw : wellQuoted raw = true)
    {x y : List Char} (h : raw ++ '"' :: x = key ++ '"' :: y) : raw = key := by
  induction key generalizing raw with
  | nil =>
    cases raw with
    | nil => rfl
    | cons c s =>
      obtain ⟨rfl, -⟩ := List.cons.inj h
      rw [wellQuoted_cons (by decide)] at hraw
      cases hraw
  | cons k key ih =>
    have hletter := hk k List.mem_cons_self
    cases raw with
    | nil =>
      obtain ⟨rfl, -⟩ := List.cons.inj h
      exact absurd hletter (by decide)
    | cons c s =>
      obtain ⟨rfl, hrest⟩ := List.cons.inj h
      have hc : c ≠ '\\' := by
        rintro rfl
        exact absurd hletter (by decide)
      rw [wellQuoted_cons hc, Bool.and_eq_true] at hraw
      rw [ih (fun d hd => hk d (List.mem_cons_of_mem c hd)) hraw.2 hrest]

theorem eat_quoted (hk : KeyWord key) {raw : List Char} (hraw : wellQuoted raw = true) (x : List Char) :
    eat (key ++ ['"']) (raw ++ '"' :: x) = if raw = key then some x else none := by
  split_ifs with h
  · have hsame : key ++ '"' :: x = (key ++ ['"']) ++ x := List.append_cons key '"' x
    rw [h, hsame]
    exact eat_append _ x
  · refine eat_eq_none fun y hy => h (eq_key_of_quoted (x := x) (y := y) hk.letters hraw ?_)
    rw [hy, List.append_assoc]
    rfl

theorem memberAt_of_ne {c : Char} (h : c ≠ '"') (s : List Char) : memberAt key (c :: s) = none := by
  rw [memberAt, eat_head_ne h]
  rfl

theorem memberAt_quote (s : List Char) : memberAt key ('"' :: s) = (eat (key ++ ['"']) s).bind valueAt := by
  rw [memberAt, eat_cons, if_pos rfl]

theorem search_of_ne {c : Char} (h : c ≠ '"') (s : List Char) : search key (c :: s) = search key s := by
  rw [search, memberAt_of_ne h, Option.none_or]

theorem search_append {s : List Char} (h : '"' ∉ s) (x : List Char) : search key (s ++ x) = search key x := by
  induction s with
  | nil => rfl
  | cons c s ih =>
    obtain ⟨hc, hs⟩ := not_or.mp (mt List.mem_cons.mpr h)
    rw [List.cons_append, search_of_ne (Ne.symm hc), ih hs]

theorem not_suffix_key : ¬ '"' :: key <:+ key := fun h => by
  have := h.length_le
  rw [List.length_cons] at this
  omega

/-- Inside a string only an escaped quote can open the key. -/
theorem search_quoted (hk : KeyWord key) {raw x : List Char} (hraw : wellQuoted raw = true)
    (hx : eat (key ++ ['"']) x = none) : search key (raw ++ '"' :: x) =
      if '"' :: key <:+ raw then (valueAt x).or (search key x) else search key x := by
  induction raw using wellQuoted.induct with
  | case1 =>
    rw [List.nil_append, search, memberAt_quote, hx, if_neg (by simp)]
    rfl
  | case2 c s ih =>
    have hs : wellQuoted s = true := hraw
    have hsuffix : '"' :: key <:+ '\\' :: c :: s ↔ ('"' = c ∧ key = s) ∨ '"' :: key <:+ s := by
      rw [List.suffix_cons_iff, List.suffix_cons_iff, List.cons.injEq, List.cons.injEq]
      simp
    rw [List.cons_append, List.cons_append, search_of_ne (by decide)]
    by_cases hc : c = '"'
    · subst hc
      rw [search, memberAt_quote, eat_quoted hk hs, ih hs]
      by_cases hkey : s = key
      · subst hkey
        rw [if_pos rfl, if_neg not_suffix_key, if_pos (hsuffix.mpr (.inl ⟨rfl, rfl⟩))]
        rfl
      · rw [if_neg hkey]
        simp only [hsuffix, true_and, Ne.symm hkey, false_or]
        rfl
    · rw [search_of_ne hc, ih hs]
      simp only [hsuffix, Ne.symm hc, false_and, false_or]
  | case3 => cases hraw
  | case4 c s h₁ h₂ ih =>
    have hc : c ≠ '\\' := by
      rintro rfl
      cases s with
      | nil => exact h₂ rfl rfl
      | cons d s => exact h₁ d s rfl rfl
    rw [wellQuoted_cons hc, Bool.and_eq_true, decide_eq_true_eq] at hraw
    have hsuffix : '"' :: key <:+ c :: s ↔ '"' :: key <:+ s := by
      rw [List.suffix_cons_iff, List.cons.injEq, or_iff_right]
      exact fun h => hraw.1 h.1.symm
    rw [List.cons_append, search_of_ne hraw.1, ih hraw.2]
    simp only [hsuffix]

theorem search_string (hk : KeyWord key) {raw x : List Char} (hraw : wellQuoted raw = true)
    (hx : eat (key ++ ['"']) x = none) : search key ('"' :: (raw ++ '"' :: x)) =
      if spelled key raw = true then (valueAt x).or (search key x) else search key x := by
  rw [search, memberAt_quote, eat_quoted hk hraw, search_quoted hk hraw hx]
  by_cases hkey : raw = key
  · subst hkey
    rw [if_pos rfl, if_neg not_suffix_key, spelled, decide_eq_true rfl, Bool.true_or, if_pos rfl]
    rfl
  · rw [if_neg hkey, Option.bind_none, Option.none_or]
    simp only [spelled, hkey, decide_false, Bool.false_or, decide_eq_true_eq]

end

/-! ## Heads of texts -/

/-- What may follow a word or a number. -/
def calm (c : Char) : Bool := isMark c || isSpace c

theorem space_bounds {c : Char} (h : isSpace c = true) : c.toNat < 0x21 ∨ 0x7F < c.toNat := by
  simp only [isSpace, Bool.or_eq_true, Bool.and_eq_true, decide_eq_true_eq, List.mem_cons, List.not_mem_nil,
    or_false] at h
  omega

theorem ne_of_toNat {c d : Char} (h : c.toNat ≠ d.toNat) : c ≠ d := fun he => h (congrArg Char.toNat he)

/-- Letters, digits, quotes and points are none of them. -/
theorem calm_spec {c : Char} (h : calm c = true) : c.isAlpha = false ∧ c.isDigit = false ∧ c ≠ '"' ∧ c ≠ '.' := by
  rcases Bool.or_eq_true_iff.mp h with hm | hs
  · simp only [isMark, List.mem_cons, List.not_mem_nil, or_false, decide_eq_true_eq] at hm
    obtain rfl | rfl | rfl | rfl | rfl | rfl := hm <;> decide
  · have hb := space_bounds hs
    refine ⟨Bool.eq_false_iff.mpr fun ha => ?_, Bool.eq_false_iff.mpr fun hd => ?_, ne_of_toNat ?_, ne_of_toNat ?_⟩
    · have := alpha_bounds ha
      omega
    · have := digit_bounds hd
      omega
    · change c.toNat ≠ 34
      omega
    · change c.toNat ≠ 46
      omega

theorem blank_space {c : Char} (h : isBlank c = true) : isRegexSpace c = true ∧ isSpace c = true := by
  simp only [isBlank, List.mem_cons, List.not_mem_nil, or_false, decide_eq_true_eq] at h
  obtain rfl | rfl | rfl | rfl := h <;> decide

theorem calm_mark {c : Char} (h : isMark c = true) : calm c = true := by
  rw [calm, h, Bool.true_or]

theorem calm_space {c : Char} (h : isSpace c = true) : calm c = true := by
  rw [calm, h, Bool.or_true]

theorem calm_blank {c : Char} (h : isBlank c = true) : calm c = true := calm_space (blank_space h).2

section
variable {key s x trail : List Char} {toks : List Token} {t : Token}

theorem text_cons (t : Token) (toks : List Token) : text (t :: toks) = t.text ++ text toks := List.flatMap_cons

theorem Tokens.tail (h : Tokens (t :: toks) (text (t :: toks))) : Tokens toks (text toks) :=
  ⟨fun u hu => h.valid u (List.mem_cons_of_mem t hu), h.separated.2, rfl⟩

theorem word_letters {w : List Char} (h : w ∈ words) : w.all Char.isAlpha = true ∧ w ≠ [] ∨ w.head? = some '-' := by
  have hall : ∀ w ∈ words, w.all Char.isAlpha = true ∧ w ≠ [] ∨ w.head? = some '-' := by decide
  exact hall w h

theorem head_append {p : Char → Prop} (hne : s ≠ []) (h : ∀ c ∈ s.head?, p c) (x : List Char) :
    ∀ c ∈ (s ++ x).head?, p c := by
  rwa [List.head?_append_of_ne_nil s hne]

theorem head_cons {p : Char → Prop} {d : Char} (h : p d) (x : List Char) : ∀ c ∈ (d :: x).head?, p c := by
  intro c hc
  rwa [← Option.some.inj hc]

theorem head_calm (htrail : Blank trail) : ∀ c ∈ trail.head?, calm c = true :=
  fun c hc => calm_space (htrail c (List.mem_of_mem_head? hc))

/-- Behind a word or a number. -/
theorem calm_rest (h : Tokens (t :: toks) (text (t :: toks))) (ht : t.loose = true) (htrail : Blank trail) :
    ∀ c ∈ (text toks ++ trail).head?, calm c = true := by
  cases toks with
  | nil => exact head_calm htrail
  | cons u toks =>
    have hstops := h.separated.1 ht u rfl
    have hvalid := h.valid u (List.mem_cons_of_mem t List.mem_cons_self)
    rw [text_cons, List.append_assoc]
    cases u with
    | blank s => exact head_append hvalid.1 (fun c hc => calm_blank (hvalid.2 c (List.mem_of_mem_head? hc))) _
    | mark d => exact head_cons (calm_mark hvalid) _
    | word | number | string => cases hstops

theorem takeWhile_append_head {p : Char → Bool} {w rest : List Char} (hw : ∀ c ∈ w, p c = true)
    (hrest : ∀ c ∈ rest.head?, p c = false) : (w ++ rest).takeWhile p = w ∧ (w ++ rest).dropWhile p = rest := by
  rw [List.takeWhile_append_of_pos hw, List.dropWhile_append_of_pos hw]
  cases rest with
  | nil => exact ⟨List.append_nil w, rfl⟩
  | cons c rest =>
    have hc := hrest c rfl
    rw [List.takeWhile_cons_of_neg (by simp [hc]), List.dropWhile_cons_of_neg (by simp [hc]), List.append_nil]
    exact ⟨rfl, rfl⟩

theorem takeWhile_head {p : Char → Bool} (h : ∀ c ∈ s.head?, p c = false) : s.takeWhile p = [] ∧ s.dropWhile p = s :=
  takeWhile_append_head (w := []) (fun _ hc => absurd hc List.not_mem_nil) h

theorem number_text_ne (n : Number) : n.text ≠ [] := by
  intro h
  rw [Number.text, List.append_eq_nil_iff, List.append_eq_nil_iff, decimal, List.append_eq_nil_iff] at h
  exact n.whole_ne h.2.1.1

theorem number_head (n : Number) : ∀ c ∈ n.text.head?, c = '-' ∨ c.isDigit = true := by
  intro c hc
  rw [Number.text] at hc
  cases hn : n.negative with
  | true =>
    rw [hn] at hc
    exact .inl (Option.some.inj hc).symm
  | false =>
    rw [hn, if_neg Bool.false_ne_true, List.nil_append, decimal, List.append_assoc] at hc
    refine .inr (n.whole_digits c (List.mem_of_mem_head? ?_))
    rwa [List.head?_append_of_ne_nil n.whole n.whole_ne] at hc

/-- The first character of a token that is no word. -/
theorem token_head (h : t.Valid) (hw : ∀ w, t ≠ .word w) : t.text ≠ [] ∧ ∀ c ∈ t.text.head?, c.isAlpha = false := by
  cases t with
  | blank s => exact ⟨h.1, fun c hc => (calm_spec (calm_blank (h.2 c (List.mem_of_mem_head? hc)))).1⟩
  | mark d => exact ⟨List.cons_ne_nil d [], head_cons (calm_spec (calm_mark h)).1 []⟩
  | word w => exact absurd rfl (hw w)
  | number n =>
    refine ⟨number_text_ne n, fun c hc => ?_⟩
    rcases number_head n c hc with rfl | hd
    · rfl
    · refine Bool.eq_false_iff.mpr fun ha => ?_
      have := alpha_bounds ha
      have := digit_bounds hd
      omega
  | string raw => exact ⟨List.cons_ne_nil _ _, head_cons (by rfl) _⟩

/-- Behind the closing quote of a string there is no key. -/
theorem eat_key_text (hk : KeyWord key) (h : Tokens toks (text toks)) (htrail : Blank trail) :
    eat (key ++ ['"']) (text toks ++ trail) = none := by
  refine eat_eq_none fun y hy => ?_
  have hkey : (text toks ++ trail).takeWhile Char.isAlpha = key := by
    rw [hy, List.append_assoc]
    exact (takeWhile_append_head hk.letters (head_cons (by rfl) y)).1
  have hnone : ¬ ∀ c ∈ (text toks ++ trail).head?, c.isAlpha = false := by
    intro hhead
    rw [(takeWhile_head hhead).1] at hkey
    exact hk.ne hkey.symm
  cases toks with
  | nil => exact hnone fun c hc => (calm_spec (head_calm htrail c hc)).1
  | cons t toks =>
    have hvalid := h.valid t List.mem_cons_self
    by_cases hw : ∃ w, t = .word w
    · obtain ⟨w, rfl⟩ := hw
      have hrest := calm_rest h rfl htrail
      have htext : text (.word w :: toks) ++ trail = w ++ (text toks ++ trail) := by
        rw [text_cons, List.append_assoc]
        rfl
      rw [htext] at hkey hnone hy
      rcases word_letters hvalid with ⟨hletters, hne⟩ | hminus
      · have htake := takeWhile_append_head (List.all_eq_true.mp hletters) fun c hc => (calm_spec (hrest c hc)).1
        rw [← hkey, htake.1, List.append_assoc] at hy
        have hquote : text toks ++ trail = '"' :: y := List.append_cancel_left hy
        exact (calm_spec (hrest '"' (by rw [hquote]; rfl))).2.2.1 rfl
      · cases w with
        | nil => cases hminus
        | cons d w =>
          obtain rfl : d = '-' := Option.some.inj hminus
          exact hnone (head_cons (by rfl) _)
    · have hhead := token_head hvalid fun w he => hw ⟨w, he⟩
      rw [text_cons, List.append_assoc] at hnone
      exact hnone (head_append hhead.1 hhead.2 _)

/-! ## The search among tokens -/

theorem digitsAt_of_head (h : ∀ c ∈ s.head?, c.isDigit = false) : digitsAt s = none := by
  rw [digitsAt, (takeWhile_head h).1, if_pos rfl]

theorem exponent_rest (n : Number) (hx : ∀ c ∈ x.head?, calm c = true) :
    ∀ c ∈ (n.exponent ++ x).head?, c.isDigit = false ∧ c ≠ '.' := by
  intro c hc
  cases he : n.exponent with
  | nil =>
    rw [he, List.nil_append] at hc
    obtain ⟨-, hdigit, -, hpoint⟩ := calm_spec (hx c hc)
    exact ⟨hdigit, hpoint⟩
  | cons d e =>
    have hhead := n.exponent_head c (by rw [he] at hc ⊢; exact hc)
    rcases hhead with rfl | rfl <;> decide

theorem head_point (x : List Char) : ∀ c ∈ ('.' :: x).head?, c.isDigit = false := head_cons (by rfl) x

theorem digitsAt_number (n : Number) (hx : ∀ c ∈ x.head?, calm c = true) :
    digitsAt (decimal n.whole n.frac ++ (n.exponent ++ x)) = some (n.whole, n.frac) := by
  have hexponent := exponent_rest n hx
  rw [decimal, List.append_assoc]
  by_cases hf : n.frac = []
  · have hwhole := takeWhile_append_head n.whole_digits fun c hc => (hexponent c hc).1
    rw [if_pos hf, List.nil_append, digitsAt, hwhole.1, hwhole.2, if_neg n.whole_ne, hf]
    have hnone : eat ['.'] (n.exponent ++ x) = none := by
      refine eat_eq_none fun y hy => ?_
      exact (hexponent '.' (by rw [hy]; rfl)).2 rfl
    rw [hnone]
    rfl
  · have hwhole := takeWhile_append_head n.whole_digits (head_point (n.frac ++ (n.exponent ++ x)))
    have hfrac := takeWhile_append_head n.frac_digits fun c hc => (hexponent c hc).1
    rw [if_neg hf, List.cons_append, digitsAt, hwhole.1, hwhole.2, if_neg n.whole_ne]
    have hsome : eat ['.'] ('.' :: (n.frac ++ (n.exponent ++ x))) = some (n.frac ++ (n.exponent ++ x)) :=
      eat_append ['.'] _
    rw [hsome, Option.map_some, Option.getD_some, hfrac.1]

theorem digitsAt_decimal (n : Number) : digitsAt (decimal n.whole n.frac) = some (n.whole, n.frac) := by
  let plain : Number := { n with
    exponent := []
    exponent_head := fun c hc => absurd hc (Option.not_mem_none c)
    exponent_tail := fun c hc => absurd hc List.not_mem_nil }
  have hplain := digitsAt_number plain (x := []) fun c hc => absurd hc (Option.not_mem_none c)
  change digitsAt (decimal n.whole n.frac ++ []) = _ at hplain
  rwa [List.append_nil] at hplain

theorem dropWhile_blank {b : List Char} (hb : ∀ c ∈ b, isBlank c = true) (x : List Char) :
    (b ++ x).dropWhile isRegexSpace = x.dropWhile isRegexSpace :=
  List.dropWhile_append_of_pos fun c hc => (blank_space (hb c hc)).1

theorem not_mem_blank {c : Char} (hc : isSpace c = false) (htrail : Blank trail) : c ∉ trail := fun h => by
  rw [htrail c h] at hc
  cases hc

theorem eat_of_head {c : Char} (h : ∀ d ∈ s.head?, d ≠ c) : eat [c] s = none :=
  eat_eq_none fun x hx => h c (by rw [hx]; rfl) rfl

theorem word_head {w : List Char} (h : w ∈ words) : w ≠ [] ∧
    ∀ c ∈ w.head?, isRegexSpace c = false ∧ c.isDigit = false ∧ c ≠ ':' := by
  have hall : ∀ w ∈ words, w ≠ [] ∧
      w.head?.all (fun c => !isRegexSpace c && (!c.isDigit && decide (c ≠ ':'))) = true := by decide
  obtain ⟨hne, hhead⟩ := hall w h
  refine ⟨hne, fun c hc => ?_⟩
  have htest := (Option.all_eq_true _ _).mp hhead c hc
  simpa only [Bool.and_eq_true, Bool.not_eq_true', decide_eq_true_eq] using htest

theorem number_start (n : Number) : ∀ c ∈ n.text.head?, isRegexSpace c = false ∧ c ≠ ':' := by
  intro c hc
  rcases number_head n c hc with rfl | hd
  · decide
  · have hb := digit_bounds hd
    constructor
    · rw [isRegexSpace, decide_eq_false_iff_not]
      intro hmem
      simp only [List.mem_cons, List.not_mem_nil, or_false] at hmem
      rcases hmem with rfl | rfl | rfl | rfl | rfl | rfl <;> cases hd
    · rintro rfl
      cases hd

/-- No token but a blank one begins with a space. -/
theorem dropWhile_text (h : t.Valid) (hb : ∀ b, t ≠ .blank b) (x : List Char) :
    (t.text ++ x).dropWhile isRegexSpace = t.text ++ x := by
  refine (takeWhile_head ?_).2
  cases t with
  | blank b => exact absurd rfl (hb b)
  | mark d =>
    intro c hc
    obtain rfl : d = c := Option.some.inj hc
    have hmark : isMark d = true := h
    simp only [isMark, List.mem_cons, List.not_mem_nil, or_false, decide_eq_true_eq] at hmark
    rcases hmark with rfl | rfl | rfl | rfl | rfl | rfl <;> rfl
  | word w => exact head_append (word_head h).1 (fun c hc => ((word_head h).2 c hc).1) x
  | number n => exact head_append (number_text_ne n) (fun c hc => (number_start n c hc).1) x
  | string raw => exact head_cons (by rfl) _

theorem digitsAt_text (h : Tokens toks (text toks)) (htrail : Blank trail) :
    digitsAt ((text toks ++ trail).dropWhile isRegexSpace) = numberAfter toks := by
  induction toks with
  | nil =>
    refine digitsAt_of_head fun c hc => ?_
    have hmem : c ∈ trail := (List.dropWhile_sublist _).subset (List.mem_of_mem_head? hc)
    exact (calm_spec (calm_space (htrail c hmem))).2.1
  | cons t toks ih =>
    have hvalid := h.valid t List.mem_cons_self
    rw [text_cons, List.append_assoc]
    by_cases hb : ∃ b, t = .blank b
    · obtain ⟨b, rfl⟩ := hb
      exact (congrArg digitsAt (dropWhile_blank hvalid.2 _)).trans (ih h.tail)
    · rw [dropWhile_text hvalid fun b he => hb ⟨b, he⟩]
      cases t with
      | blank b => exact absurd ⟨b, rfl⟩ hb
      | mark d => exact digitsAt_of_head (head_cons (calm_spec (calm_mark hvalid)).2.1 _)
      | word w => exact digitsAt_of_head (head_append (word_head hvalid).1 (fun c hc => ((word_head hvalid).2 c hc).2.1) _)
      | number n =>
        rw [numberAfter, Token.text, Number.text, List.append_assoc, List.append_assoc]
        cases hn : n.negative with
        | true => exact digitsAt_of_head (head_cons (by rfl) _)
        | false => exact digitsAt_number n (calm_rest h rfl htrail)
      | string raw => exact digitsAt_of_head (head_cons (by rfl) _)

theorem valueAt_text (h : Tokens toks (text toks)) (htrail : Blank trail) :
    valueAt (text toks ++ trail) = valueAfter toks := by
  induction toks with
  | nil =>
    have hcolon : eat [':'] (trail.dropWhile isRegexSpace) = none := by
      refine eat_of_head fun c hc he => ?_
      subst he
      exact not_mem_blank (by decide) htrail ((List.dropWhile_sublist _).subset (List.mem_of_mem_head? hc))
    rw [text, List.flatMap_nil, List.nil_append, valueAt, hcolon]
    rfl
  | cons t toks ih =>
    have hvalid := h.valid t List.mem_cons_self
    rw [text_cons, List.append_assoc]
    by_cases hb : ∃ b, t = .blank b
    · obtain ⟨b, rfl⟩ := hb
      have hsame : valueAt (b ++ (text toks ++ trail)) = valueAt (text toks ++ trail) := by
        rw [valueAt, dropWhile_blank hvalid.2, valueAt]
      exact hsame.trans (ih h.tail)
    · rw [valueAt, dropWhile_text hvalid fun b he => hb ⟨b, he⟩]
      cases t with
      | blank b => exact absurd ⟨b, rfl⟩ hb
      | mark d =>
        rw [valueAfter]
        split_ifs with hd
        · subst hd
          have hcolon : eat [':'] ((Token.mark ':').text ++ (text toks ++ trail)) = some (text toks ++ trail) :=
            eat_append [':'] _
          rw [hcolon]
          exact digitsAt_text h.tail htrail
        · rw [Token.text, List.singleton_append, eat_of_head (head_cons hd _)]
          rfl
      | word w =>
        rw [Token.text, eat_of_head (head_append (word_head hvalid).1 (fun c hc => ((word_head hvalid).2 c hc).2.2) _)]
        rfl
      | number n =>
        rw [Token.text, eat_of_head (head_append (number_text_ne n) (fun c hc => (number_start n c hc).2) _)]
        rfl
      | string raw =>
        rw [Token.text, List.cons_append, eat_of_head (head_cons (by decide) _)]
        rfl

theorem quote_not_mem_exponent (n : Number) : '"' ∉ n.exponent := by
  intro he
  cases hn : n.exponent with
  | nil =>
    rw [hn] at he
    cases he
  | cons d e =>
    have hhead := n.exponent_head d (by rw [hn]; rfl)
    have htail := n.exponent_tail '"'
    rw [hn] at he htail
    cases List.mem_cons.mp he with
    | inl hd =>
      subst hd
      rcases hhead with hd | hd <;> cases hd
    | inr he => rcases htail he with hd | hd | hd <;> cases hd

theorem quote_not_mem_number (n : Number) : '"' ∉ n.text := by
  have hdigit : ¬ '"'.isDigit = true := by decide
  intro hmem
  rw [Number.text, decimal, List.mem_append, List.mem_append, List.mem_append] at hmem
  obtain hsign | (hwhole | hpoint) | he := hmem
  · split_ifs at hsign
    · exact absurd (List.mem_singleton.mp hsign) (by decide)
    · cases hsign
  · exact hdigit (n.whole_digits _ hwhole)
  · split_ifs at hpoint
    · cases hpoint
    · cases List.mem_cons.mp hpoint with
      | inl hd => cases hd
      | inr hfrac => exact hdigit (n.frac_digits _ hfrac)
  · exact quote_not_mem_exponent n he

theorem quote_not_mem (h : t.Valid) (hs : ∀ raw, t ≠ .string raw) : '"' ∉ t.text := by
  intro hmem
  cases t with
  | blank b => exact absurd (h.2 _ hmem) (by decide)
  | mark d =>
    obtain rfl : '"' = d := List.mem_singleton.mp hmem
    exact absurd (show isMark '"' = true from h) (by decide)
  | word w =>
    have hall : ∀ w ∈ words, '"' ∉ w := by decide
    exact hall w h hmem
  | number n => exact quote_not_mem_number n hmem
  | string raw => exact hs raw rfl

/-- **The search finds what stands among the tokens.** -/
theorem search_text (hk : KeyWord key) (h : Tokens toks (text toks)) (htrail : Blank trail) :
    search key (text toks ++ trail) = firstValue key toks := by
  induction toks with
  | nil =>
    have hquote : '"' ∉ trail := not_mem_blank (by decide) htrail
    exact (congrArg (search key) (List.append_nil trail).symm).trans (search_append hquote [])
  | cons t toks ih =>
    have hvalid := h.valid t List.mem_cons_self
    have hrest := ih h.tail
    rw [text_cons, List.append_assoc]
    by_cases hs : ∃ raw, t = .string raw
    · obtain ⟨raw, rfl⟩ := hs
      have htext : (Token.string raw).text ++ (text toks ++ trail) = '"' :: (raw ++ '"' :: (text toks ++ trail)) := by
        simp [Token.text]
      rw [htext, search_string hk hvalid (eat_key_text hk h.tail htrail), hrest, valueAt_text h.tail htrail]
      rfl
    · rw [search_append (quote_not_mem hvalid fun raw he => hs ⟨raw, he⟩), hrest]
      cases t with
      | string raw => exact absurd ⟨raw, rfl⟩ hs
      | blank | mark | word | number => rfl

theorem numberAfter_number {d : List Char × List Char} (h : numberAfter toks = some d) :
    ∃ n : Number, d = (n.whole, n.frac) := by
  induction toks with
  | nil => cases h
  | cons t toks ih =>
    cases t with
    | blank b => exact ih h
    | number n =>
      rw [numberAfter] at h
      split_ifs at h
      exact ⟨n, (Option.some.inj h).symm⟩
    | mark | word | string => cases h

theorem valueAfter_number {d : List Char × List Char} (h : valueAfter toks = some d) :
    ∃ n : Number, d = (n.whole, n.frac) := by
  induction toks with
  | nil => cases h
  | cons t toks ih =>
    cases t with
    | blank b => exact ih h
    | mark c =>
      rw [valueAfter] at h
      split_ifs at h
      exact numberAfter_number h
    | word | number | string => cases h

theorem firstValue_number {d : List Char × List Char} (h : firstValue key toks = some d) :
    ∃ n : Number, d = (n.whole, n.frac) := by
  induction toks with
  | nil => cases h
  | cons t toks ih =>
    cases t with
    | string raw =>
      rw [firstValue] at h
      split_ifs at h
      · rcases Option.or_eq_some_iff.mp h with hvalue | ⟨-, hrest⟩
        · exact valueAfter_number hvalue
        · exact ih hrest
      · exact ih h
    | blank | mark | word | number => exact ih h

end

end JsonText
