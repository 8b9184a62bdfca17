import Mathlib.Data.List.TakeWhile
import Cadsa.Lib.Lowercase
import Cadsa.Lib.PyText

/-! How hosts are written: names, ports, and the addresses of the two versions of IP. -/
namespace AddressText
open PyText Lowercase
set_option autoImplicit false

/-! ## Texts without blanks -/

def Unspaced (s : List Char) : Prop := ∀ c ∈ s, isSpace c = false

theorem Unspaced.append {s t : List Char} (hs : Unspaced s) (ht : Unspaced t) : Unspaced (s ++ t) :=
  fun c hc => (List.mem_append.mp hc).elim (hs c) (ht c)

theorem Unspaced.cons {c : Char} {s : List Char} (hc : isSpace c = false) (hs : Unspaced s) : Unspaced (c :: s) :=
  List.forall_mem_cons.mpr ⟨hc, hs⟩

theorem rdropWhile_append {p : Char → Bool} {s : List Char} (hs : s.rdropWhile p = s) (t : List Char) :
    (s ++ t).rdropWhile p = s ++ t.rdropWhile p := by
  induction t using List.reverseRecOn with
  | nil => rw [List.append_nil, List.rdropWhile_nil, List.append_nil, hs]
  | append_singleton t c ih =>
    rw [← List.append_assoc]
    by_cases hc : p c = true
    · rw [List.rdropWhile_concat_pos _ _ _ hc, List.rdropWhile_concat_pos _ _ _ hc, ih]
    · rw [List.rdropWhile_concat_neg _ _ _ hc, List.rdropWhile_concat_neg _ _ _ hc, List.append_assoc]

theorem Unspaced.trimmed {s : List Char} (hs : Unspaced s) : Trimmed isSpace s :=
  ⟨fun c hc => hs c (List.mem_of_mem_head? hc), fun c hc => hs c (List.mem_of_getLast? hc)⟩

theorem strip_unspaced {s : List Char} (hs : Unspaced s) (hne : s ≠ []) (t : List Char) :
    strip (s ++ t) = s ++ t.rdropWhile isSpace := by
  have hhead : ∀ c ∈ (s ++ t).head?, isSpace c = false := by
    rw [List.head?_append_of_ne_nil s hne]
    exact hs.trimmed.1
  rw [strip, stripOf, dropWhile_of_head hhead, rdropWhile_append (rdropWhile_of_last hs.trimmed.2)]

theorem strip_eq_self {s : List Char} (hs : Unspaced s) : strip s = s := stripOf_of_trimmed hs.trimmed

theorem strip_surrounded {lead trail : List Char} (hlead : Blank lead) (htrail : Blank trail) (s : List Char) :
    strip (lead ++ s ++ trail) = strip s := by
  rw [strip_append_right htrail, strip_append_left hlead]

/-! ## Names -/

def isHostChar (c : Char) : Bool := c.isDigit || ('a' ≤ c.toLower && c.toLower ≤ 'z') || c = '-'

def IsLabel (l : List Char) : Prop := l ≠ [] ∧ ∀ c ∈ l, isHostChar c = true

inductive Hostname : List Char → Prop
  | label {l : List Char} : IsLabel l → Hostname l
  | dotted {l s : List Char} : IsLabel l → Hostname s → Hostname (l ++ '.' :: s)

/-- A decimal number. -/
def IsPort (p : List Char) : Prop := p ≠ [] ∧ ∀ c ∈ p, c.isDigit = true

/-- What follows a host that has a port. -/
def portText : Option (List Char) → List Char
  | none => []
  | some p => ':' :: p

/-! ## Addresses -/

/-- The four numbers of an address, in decimal. -/
def dotted (a b c d : UInt8) : List Char :=
  Nat.toDigits 10 a.toNat ++ '.' :: (Nat.toDigits 10 b.toNat ++ '.' :: (Nat.toDigits 10 c.toNat ++
    '.' :: Nat.toDigits 10 d.toNat))

def IsIpv4 (s : List Char) : Prop := ∃ a b c d : UInt8, s = dotted a b c d

def isHexDigit (c : Char) : Bool := c.isDigit || ('a' ≤ c.toLower && c.toLower ≤ 'f')

def IsGroup (g : List Char) : Prop := g ≠ [] ∧ g.length ≤ 4 ∧ ∀ c ∈ g, isHexDigit c = true

/-- So many pieces of 16 bits, of which the last two may be written as an IPv4 address. -/
inductive Units (embeds : Prop) : ℕ → List Char → Prop
  | group {g : List Char} : IsGroup g → Units embeds 1 g
  | embedded {q : List Char} : embeds → IsIpv4 q → Units embeds 2 q
  | cons {n : ℕ} {g s : List Char} : IsGroup g → Units embeds n s → Units embeds (n + 1) (g ++ ':' :: s)

/-- The pieces on one side of `::`, if there are any. -/
inductive Side (embeds : Prop) : ℕ → List Char → Prop
  | none : Side embeds 0 []
  | some {n : ℕ} {s : List Char} : Units embeds n s → Side embeds n s

inductive IsIpv6 : List Char → Prop
  | full {s : List Char} : Units True 8 s → IsIpv6 s
  | compressed {n m : ℕ} {l r : List Char} : Side False n l → Side True m r → n + m ≤ 7 → IsIpv6 (l ++ ':' :: ':' :: r)

/-! ## Their characters -/

def isAddressChar (c : Char) : Bool := isHostChar c || c = '.' || c = ':'

theorem ascii_of_isDigit {c : Char} (h : c.isDigit = true) : c.toNat < 128 := (digit_bounds h).2.trans_lt (by decide)

theorem ascii_of_isAddressChar {c : Char} (h : isAddressChar c = true) : c.toNat < 128 := by
  rw [isAddressChar, isHostChar, Bool.or_eq_true, Bool.or_eq_true, Bool.or_eq_true, Bool.or_eq_true,
    Bool.and_eq_true, decide_eq_true_eq, decide_eq_true_eq, decide_eq_true_eq, decide_eq_true_eq, decide_eq_true_eq] at h
  obtain (((hdigit | ⟨-, hletter⟩) | rfl) | rfl) | rfl := h
  · exact ascii_of_isDigit hdigit
  · have hle : c.toLower.toNat ≤ 122 := hletter
    exact ascii_of_toLower (by omega)
  all_goals decide

/-- None of the characters that hosts are cut at. -/
theorem isAddressChar_facts {c : Char} (h : isAddressChar c = true) :
    isSpace c = false ∧ c ≠ '[' ∧ c ≠ ']' ∧ c ≠ '%' :=
  ascii_cases (P := fun c => isAddressChar c = true → isSpace c = false ∧ c ≠ '[' ∧ c ≠ ']' ∧ c ≠ '%')
    (by decide +kernel) (ascii_of_isAddressChar h) h

theorem isHostChar_facts {c : Char} (h : isHostChar c = true) : isAddressChar c = true ∧ c ≠ '.' ∧ c ≠ ':' := by
  have haddress : isAddressChar c = true := by
    rw [isAddressChar, h, Bool.true_or, Bool.true_or]
  refine ⟨haddress, ?_, ?_⟩
  · rintro rfl
    exact absurd h (by decide)
  · rintro rfl
    exact absurd h (by decide)

theorem isHostChar_of_isDigit {c : Char} (h : c.isDigit = true) : isHostChar c = true := by
  rw [isHostChar, h, Bool.true_or, Bool.true_or]

theorem isHostChar_of_isHexDigit {c : Char} (h : isHexDigit c = true) : isHostChar c = true := by
  rw [isHexDigit, Bool.or_eq_true, Bool.and_eq_true, decide_eq_true_eq, decide_eq_true_eq] at h
  obtain hdigit | ⟨hlow, hhigh⟩ := h
  · exact isHostChar_of_isDigit hdigit
  · have hz : c.toLower ≤ 'z' := Char.le_trans hhigh (by decide)
    rw [isHostChar, decide_eq_true hlow, decide_eq_true hz, Bool.and_self, Bool.or_true, Bool.true_or]

theorem isHostChar_toLower (c : Char) : isHostChar c.toLower = isHostChar c := by
  by_cases hc : c.toNat < 128
  · exact ascii_cases (P := fun c => isHostChar c.toLower = isHostChar c) (by decide +kernel) hc
  · rw [toLower_other (by omega)]

/-! ## Their texts -/

def IsAddressText (s : List Char) : Prop := ∀ c ∈ s, isAddressChar c = true

section
variable {s t : List Char}

theorem IsAddressText.append (hs : IsAddressText s) (ht : IsAddressText t) : IsAddressText (s ++ t) :=
  fun c hc => (List.mem_append.mp hc).elim (hs c) (ht c)

theorem IsAddressText.cons {c : Char} (hc : isAddressChar c = true) (hs : IsAddressText s) : IsAddressText (c :: s) :=
  List.forall_mem_cons.mpr ⟨hc, hs⟩

theorem IsAddressText.unspaced (h : IsAddressText s) : Unspaced s := fun c hc => (isAddressChar_facts (h c hc)).1

theorem IsAddressText.ascii (h : IsAddressText s) : IsAscii s := fun c hc => ascii_of_isAddressChar (h c hc)

theorem IsAddressText.not_mem (h : IsAddressText s) : '[' ∉ s ∧ ']' ∉ s ∧ '%' ∉ s :=
  ⟨fun hc => (isAddressChar_facts (h _ hc)).2.1 rfl, fun hc => (isAddressChar_facts (h _ hc)).2.2.1 rfl,
    fun hc => (isAddressChar_facts (h _ hc)).2.2.2 rfl⟩

/-- A text of host characters: no dot, no colon. -/
theorem isAddressText_of_host (h : ∀ c ∈ s, isHostChar c = true) : IsAddressText s ∧ '.' ∉ s ∧ ':' ∉ s :=
  ⟨fun c hc => (isHostChar_facts (h c hc)).1, fun hc => (isHostChar_facts (h _ hc)).2.1 rfl,
    fun hc => (isHostChar_facts (h _ hc)).2.2 rfl⟩

/-- The text ends, and not with a dot. -/
def EndsPlain (s : List Char) : Prop := ∃ a c, s = a ++ [c] ∧ c ≠ '.'

theorem EndsPlain.append (h : EndsPlain t) : EndsPlain (s ++ t) := by
  obtain ⟨a, c, rfl, hc⟩ := h
  exact ⟨s ++ a, c, (List.append_assoc s a [c]).symm, hc⟩

theorem EndsPlain.cons {c : Char} (h : EndsPlain t) : EndsPlain (c :: t) := h.append (s := [c])

theorem endsPlain_of_host (hne : s ≠ []) (h : ∀ c ∈ s, isHostChar c = true) : EndsPlain s :=
  ⟨s.dropLast, s.getLast hne, (List.dropLast_append_getLast hne).symm,
    (isHostChar_facts (h _ (List.getLast_mem hne))).2.1⟩

theorem EndsPlain.rdropWhile (h : EndsPlain s) : s.rdropWhile (· = '.') = s := by
  obtain ⟨a, c, rfl, hc⟩ := h
  exact List.rdropWhile_concat_neg _ _ _ fun hdot => hc (of_decide_eq_true hdot)

theorem EndsPlain.ne_nil (h : EndsPlain s) : s ≠ [] := by
  obtain ⟨a, c, rfl, -⟩ := h
  exact List.append_ne_nil_of_right_ne_nil a (List.cons_ne_nil c [])

end

/-! ## Names and ports -/

section
variable {s n p : List Char}

theorem Hostname.facts (h : Hostname s) : IsAddressText s ∧ ':' ∉ s ∧ EndsPlain s := by
  induction h with
  | label hl =>
    obtain ⟨htext, -, hcolon⟩ := isAddressText_of_host hl.2
    exact ⟨htext, hcolon, endsPlain_of_host hl.1 hl.2⟩
  | @dotted l s hl _ ih =>
    obtain ⟨htext, -, hcolon⟩ := isAddressText_of_host hl.2
    obtain ⟨ihtext, ihcolon, ihends⟩ := ih
    refine ⟨htext.append (.cons (by decide) ihtext), ?_, ihends.cons.append⟩
    rw [List.mem_append, List.mem_cons, not_or, not_or]
    exact ⟨hcolon, by decide, ihcolon⟩

theorem isLabel_map : IsLabel (s.map Char.toLower) ↔ IsLabel s := by
  simp only [IsLabel, ne_eq, List.map_eq_nil_iff, List.forall_mem_map, isHostChar_toLower]

theorem Hostname.map (h : Hostname s) : Hostname (s.map Char.toLower) := by
  induction h with
  | label hl => exact .label (isLabel_map.mpr hl)
  | dotted hl _ ih =>
    rw [List.map_append, List.map_cons]
    exact .dotted (isLabel_map.mpr hl) ih

theorem of_toLower {c d : Char} (hd : ∀ n < 128, (Char.ofNat n).toLower = d → Char.ofNat n = d) (hascii : d.toNat < 128)
    (h : c.toLower = d) : c = d := by
  rw [← h] at hascii
  exact ascii_cases (P := fun c => c.toLower = d → c = d) hd (ascii_of_toLower hascii) h

theorem dot_of_toLower {c : Char} (h : c.toLower = '.') : c = '.' := of_toLower (by decide) (by decide) h

theorem colon_of_toLower {c : Char} (h : c.toLower = ':') : c = ':' := of_toLower (by decide) (by decide) h

/-- A name in other cases is a name. -/
theorem Hostname.respelled (h : Hostname n) (hs : s.map Char.toLower = n.map Char.toLower) : Hostname s := by
  have hmap := h.map
  rw [← hs] at hmap
  generalize ht : s.map Char.toLower = t at hmap
  clear hs h
  induction hmap generalizing s with
  | label hl =>
    rw [← ht] at hl
    exact .label (isLabel_map.mp hl)
  | @dotted l t hl _ ih =>
    obtain ⟨a, x, rfl, rfl, hx⟩ := List.map_eq_append_iff.mp ht
    obtain ⟨c, y, rfl, hc, hy⟩ := List.map_eq_cons_iff.mp hx
    rw [dot_of_toLower hc]
    exact .dotted (isLabel_map.mp hl) (ih hy)

theorem IsPort.facts (h : IsPort p) : IsAddressText p ∧ ':' ∉ p ∧ EndsPlain p := by
  have hhost : ∀ c ∈ p, isHostChar c = true := fun c hc => isHostChar_of_isDigit (h.2 c hc)
  obtain ⟨htext, -, hcolon⟩ := isAddressText_of_host hhost
  exact ⟨htext, hcolon, endsPlain_of_host h.1 hhost⟩

end

/-! ## In lower case -/

section
variable {s : List Char}

theorem IsAddressText.map (h : IsAddressText s) : IsAddressText (s.map Char.toLower) := by
  rw [IsAddressText, List.forall_mem_map]
  intro c hc
  have hsame : ∀ n < 128, isAddressChar (Char.ofNat n) = true → isAddressChar (Char.ofNat n).toLower = true := by
    decide +kernel
  exact ascii_cases (P := fun c => isAddressChar c = true → isAddressChar c.toLower = true) hsame
    (ascii_of_isAddressChar (h c hc)) (h c hc)

theorem EndsPlain.map (h : EndsPlain s) : EndsPlain (s.map Char.toLower) := by
  obtain ⟨a, c, rfl, hc⟩ := h
  rw [List.map_append]
  exact ⟨_, _, rfl, fun hdot => hc (dot_of_toLower hdot)⟩

theorem count_colon_map (s : List Char) : (s.map Char.toLower).count ':' = s.count ':' := by
  rw [List.count_eq_countP, List.countP_map, List.count_eq_countP]
  refine List.countP_congr fun c _ => ?_
  rw [Function.comp_apply, beq_iff_eq, beq_iff_eq]
  constructor
  · exact colon_of_toLower
  · rintro rfl
    rfl

theorem map_toLower_idem (h : IsAscii s) : (s.map Char.toLower).map Char.toLower = s.map Char.toLower := by
  rw [List.map_map]
  exact List.map_congr_left fun c hc => (toLower_ascii (h c hc)).2

end

/-! ## The texts of addresses -/

section
variable {s q : List Char} {embeds : Prop} {n : ℕ}

theorem IsIpv4.facts (h : IsIpv4 q) : IsAddressText q ∧ ':' ∉ q ∧ EndsPlain q := by
  obtain ⟨a, b, c, d, rfl⟩ := h
  have hdigits (n : ℕ) : ∀ c ∈ Nat.toDigits 10 n, isHostChar c = true := fun c hc =>
    isHostChar_of_isDigit (Nat.isDigit_of_mem_toDigits (by decide) (by decide) hc)
  have htext (n : ℕ) := isAddressText_of_host (hdigits n)
  have hdot : isAddressChar '.' = true := by decide
  refine ⟨?_, ?_, ?_⟩
  · exact (htext _).1.append (.cons hdot ((htext _).1.append (.cons hdot ((htext _).1.append (.cons hdot (htext _).1)))))
  · simp only [dotted, List.mem_append, List.mem_cons, (htext _).2.2, false_or]
    decide
  · exact (((endsPlain_of_host Nat.toDigits_ne_nil (hdigits _)).cons.append.cons.append).cons).append

theorem IsGroup.facts {g : List Char} (h : IsGroup g) : IsAddressText g ∧ '.' ∉ g ∧ ':' ∉ g ∧ EndsPlain g := by
  have hhost : ∀ c ∈ g, isHostChar c = true := fun c hc => isHostChar_of_isHexDigit (h.2.2 c hc)
  obtain ⟨htext, hdot, hcolon⟩ := isAddressText_of_host hhost
  exact ⟨htext, hdot, hcolon, endsPlain_of_host h.1 hhost⟩

theorem Units.facts (h : Units embeds n s) : IsAddressText s ∧ EndsPlain s ∧ n ≤ s.count ':' + 2 := by
  induction h with
  | group hg =>
    obtain ⟨htext, -, -, hends⟩ := hg.facts
    exact ⟨htext, hends, by omega⟩
  | embedded _ hq =>
    obtain ⟨htext, -, hends⟩ := hq.facts
    exact ⟨htext, hends, by omega⟩
  | cons hg _ ih =>
    obtain ⟨htext, -, -, -⟩ := hg.facts
    obtain ⟨ihtext, ihends, ihcount⟩ := ih
    refine ⟨htext.append (.cons (by decide) ihtext), ihends.cons.append, ?_⟩
    rw [List.count_append, List.count_cons_self]
    omega

theorem Side.isAddressText (h : Side embeds n s) : IsAddressText s := by
  cases h with
  | none => exact fun c hc => absurd hc List.not_mem_nil
  | some hu => exact hu.facts.1

/-- An address has more than one colon, which tells it from a host with a port. -/
theorem IsIpv6.facts (h : IsIpv6 s) : IsAddressText s ∧ EndsPlain s ∧ 2 ≤ s.count ':' := by
  cases h with
  | full hu =>
    obtain ⟨htext, hends, hcount⟩ := hu.facts
    exact ⟨htext, hends, by omega⟩
  | @compressed n m l r hl hr _ =>
    refine ⟨hl.isAddressText.append (.cons (by decide) (.cons (by decide) hr.isAddressText)), ?_, ?_⟩
    · cases hr with
      | none => exact EndsPlain.append ⟨[':'], ':', rfl, by decide⟩
      | some hu => exact hu.facts.2.1.cons.cons.append
    · rw [List.count_append, List.count_cons_self, List.count_cons_self]
      omega

end

end AddressText
