import Mathlib.Data.List.Infix
import Mathlib.Tactic.Common

/-! UTF-16: the code units of a text, which cutting a text to a number of units may leave with half a pair at
the end, and the text made of units again, where a half stands for the replacement character. -/
namespace Utf16
set_option autoImplicit false

def isHigh (u : ℕ) : Bool := 0xD800 ≤ u && u < 0xDC00

def isLow (u : ℕ) : Bool := 0xDC00 ≤ u && u < 0xE000

def charUnits (c : Char) : List ℕ :=
  let n := c.val.toNat
  if n < 0x10000 then [n] else [0xD800 + (n - 0x10000) / 0x400, 0xDC00 + (n - 0x10000) % 0x400]

def units (s : List Char) : List ℕ := s.flatMap charUnits

def replacement : Char := '\uFFFD'

def ofUnit (u : ℕ) : Char := if isHigh u || isLow u then replacement else Char.ofNat u

def ofPair (u v : ℕ) : Char := Char.ofNat (0x10000 + (u - 0xD800) * 0x400 + (v - 0xDC00))

def toWellFormed : List ℕ → List Char
  | [] => []
  | [u] => [ofUnit u]
  | u :: v :: us => if isHigh u && isLow v then ofPair u v :: toWellFormed us else ofUnit u :: toWellFormed (v :: us)

/-- The last unit is not the first half of a pair. -/
def Whole (us : List ℕ) : Prop := ∀ u ∈ us.getLast?, isHigh u = false

/-! ## One character -/

/-- A character is one unit that is no surrogate, or a pair of them. -/
theorem charUnits_cases (c : Char) :
    (∃ n, charUnits c = [n] ∧ isHigh n = false ∧ isLow n = false ∧ Char.ofNat n = c) ∨
      ∃ h l, charUnits c = [h, l] ∧ isHigh h = true ∧ isLow l = true ∧ ofPair h l = c := by
  have hvalid : c.val.toNat < 0xD800 ∨ 0xDFFF < c.val.toNat ∧ c.val.toNat < 0x110000 := c.valid
  have hself : Char.ofNat c.val.toNat = c := Char.ofNat_toNat c
  rcases Nat.lt_or_ge c.val.toNat 0x10000 with hlt | hge
  · refine .inl ⟨_, if_pos hlt, ?_, ?_, hself⟩
    · simp only [isHigh, Bool.and_eq_false_iff, decide_eq_false_iff_not]
      omega
    · simp only [isLow, Bool.and_eq_false_iff, decide_eq_false_iff_not]
      omega
  · refine .inr ⟨_, _, if_neg (Nat.not_lt.mpr hge), ?_, ?_, ?_⟩
    · simp only [isHigh, Bool.and_eq_true, decide_eq_true_eq]
      omega
    · simp only [isLow, Bool.and_eq_true, decide_eq_true_eq]
      omega
    · rw [ofPair]
      refine (congrArg Char.ofNat ?_).trans hself
      omega

theorem toWellFormed_char (c : Char) (us : List ℕ) : toWellFormed (charUnits c ++ us) = c :: toWellFormed us := by
  rcases charUnits_cases c with ⟨n, hn, hhigh, hlow, hself⟩ | ⟨h, l, hc, hhigh, hlow, hself⟩
  · have hunit : ofUnit n = c := by
      rw [ofUnit, hhigh, hlow]
      exact hself
    rw [hn]
    cases us with
    | nil => exact congrArg (· :: []) hunit
    | cons v us =>
      change (if isHigh n && isLow v then _ else ofUnit n :: toWellFormed (v :: us)) = _
      rw [hhigh, hunit]
      rfl
  · rw [hc]
    change (if isHigh h && isLow l then ofPair h l :: toWellFormed us else _) = _
    rw [hhigh, hlow, hself]
    rfl

/-! ## Texts -/

section
variable {s t : List Char} {us : List ℕ}

@[simp] theorem units_nil : units [] = [] := rfl

@[simp] theorem units_cons (c : Char) (s : List Char) : units (c :: s) = charUnits c ++ units s := rfl

@[simp] theorem units_append (s t : List Char) : units (s ++ t) = units s ++ units t := List.flatMap_append ..

theorem toWellFormed_units_append (s : List Char) (us : List ℕ) : toWellFormed (units s ++ us) = s ++ toWellFormed us := by
  induction s with
  | nil => rfl
  | cons c s ih => rw [units_cons, List.append_assoc, toWellFormed_char, ih, List.cons_append]

@[simp] theorem toWellFormed_units (s : List Char) : toWellFormed (units s) = s := by
  have h := toWellFormed_units_append s []
  rwa [List.append_nil, toWellFormed, List.append_nil] at h

theorem units_injective : Function.Injective units := Function.LeftInverse.injective toWellFormed_units

theorem toWellFormed_ne_nil (h : us ≠ []) : toWellFormed us ≠ [] := by
  match us, h with
  | [u], _ => exact List.cons_ne_nil _ _
  | u :: v :: us, _ =>
    rw [toWellFormed]
    split_ifs
    · exact List.cons_ne_nil _ _
    · exact List.cons_ne_nil _ _

theorem whole_units (s : List Char) : Whole (units s) := by
  intro u hu
  induction s using List.reverseRecOn with
  | nil => cases hu
  | append_singleton s c _ =>
    rw [units_append, units_cons, units_nil, List.append_nil] at hu
    rcases charUnits_cases c with ⟨n, hn, hhigh, -⟩ | ⟨h, l, hc, -, hlow, -⟩
    · rw [hn, List.getLast?_concat] at hu
      cases hu
      exact hhigh
    · rw [hc, List.append_cons, List.getLast?_concat] at hu
      cases hu
      simp only [isLow, Bool.and_eq_true, decide_eq_true_eq] at hlow
      simp only [isHigh, Bool.and_eq_false_iff, decide_eq_false_iff_not]
      omega

/-- A text cut to a number of units is a text, and half a pair where the cut is inside one. -/
theorem take_units (s : List Char) (n : ℕ) :
    ∃ p, (units s).take n = units p ∨ ∃ h, isHigh h = true ∧ (units s).take n = units p ++ [h] := by
  induction s generalizing n with
  | nil => exact ⟨[], .inl List.take_nil⟩
  | cons c s ih =>
    rcases charUnits_cases c with ⟨u, hu, -⟩ | ⟨h, l, hc, hhigh, -⟩
    · cases n with
      | zero => exact ⟨[], .inl rfl⟩
      | succ n =>
        obtain ⟨p, hp⟩ := ih n
        refine ⟨c :: p, ?_⟩
        simp only [units_cons, hu, List.cons_append, List.nil_append, List.take_succ_cons, List.cons.injEq, true_and]
        exact hp
    · match n with
      | 0 => exact ⟨[], .inl rfl⟩
      | 1 =>
        refine ⟨[], .inr ⟨h, hhigh, ?_⟩⟩
        rw [units_cons, hc]
        rfl
      | n + 2 =>
        obtain ⟨p, hp⟩ := ih n
        refine ⟨c :: p, ?_⟩
        simp only [units_cons, hc, List.cons_append, List.nil_append, List.take_succ_cons, List.cons.injEq, true_and]
        exact hp

/-- Cut where each unit is a character of its own, a text is cut between two characters. -/
theorem take_units_of_lt (h : ∀ c ∈ s, c.val.toNat < 0x10000) (n : ℕ) : (units s).take n = units (s.take n) := by
  induction s generalizing n with
  | nil => rw [units_nil, List.take_nil, List.take_nil, units_nil]
  | cons c s ih =>
    have hc : charUnits c = [c.val.toNat] := if_pos (h c List.mem_cons_self)
    cases n with
    | zero => rfl
    | succ n =>
      rw [units_cons, hc, List.take_succ_cons, units_cons, hc, ← ih fun d hd => h d (List.mem_cons_of_mem c hd)]
      rfl

theorem exists_text (n : ℕ) (h : Whole ((units s).take n)) : ∃ p, (units s).take n = units p := by
  obtain ⟨p, hp | ⟨u, hu, hp⟩⟩ := take_units s n
  · exact ⟨p, hp⟩
  · have hnot := h u (by rw [hp, List.getLast?_concat]; rfl)
    rw [hu] at hnot
    cases hnot

/-- What a cut leaves of a text and occurs in the text made of it again has lost no half of a pair. -/
theorem whole_of_infix (n : ℕ) (h : (units s).take n <:+: units (toWellFormed ((units s).take n))) :
    Whole ((units s).take n) := by
  obtain ⟨p, hp | ⟨u, hu, hp⟩⟩ := take_units s n
  · rw [hp]
    exact whole_units p
  · have hunit : ofUnit u = replacement := by
      rw [ofUnit, hu]
      rfl
    rw [hp, toWellFormed_units_append, toWellFormed, hunit, units_append] at h
    have heq := h.eq_of_length (by rw [List.length_append, List.length_append]; rfl)
    have hlast := List.append_cancel_left heq
    rw [(List.cons.inj hlast).1] at hu
    cases hu

theorem prefix_of_units (h : units s <+: units t) : s <+: t := by
  obtain ⟨rest, hrest⟩ := h
  have htext := congrArg toWellFormed hrest
  rw [toWellFormed_units_append, toWellFormed_units] at htext
  exact ⟨_, htext⟩

/-- No text starts with the second half of a pair. -/
theorem not_low_cons {l : ℕ} {us vs : List ℕ} (hl : isLow l = true) (hs : s ≠ []) : l :: us ≠ units s ++ vs := by
  intro he
  cases s with
  | nil => exact hs rfl
  | cons c s =>
    rcases charUnits_cases c with ⟨n, hn, -, hlow, -⟩ | ⟨h, l', hc, hhigh, -⟩
    · rw [units_cons, hn] at he
      rw [(List.cons.inj he).1, hlow] at hl
      cases hl
    · rw [units_cons, hc] at he
      rw [(List.cons.inj he).1] at hl
      simp only [isLow, Bool.and_eq_true, decide_eq_true_eq] at hl
      simp only [isHigh, Bool.and_eq_true, decide_eq_true_eq] at hhigh
      omega

/-- The units of one text occur in those of another just where the text does. -/
theorem infix_units_iff : units s <:+: units t ↔ s <:+: t := by
  constructor
  · intro h
    by_cases hs : s = []
    · rw [hs]
      exact List.nil_infix
    induction t with
    | nil =>
      have hnil := List.eq_nil_of_infix_nil h
      rw [← units_nil] at hnil
      exact absurd (units_injective hnil) hs
    | cons d t ih =>
      have hrest : units s <:+: units t → s <:+: d :: t := fun hin => (ih hin).trans (List.suffix_cons d t).isInfix
      rcases charUnits_cases d with ⟨n, hn, -⟩ | ⟨u, l, hc, -, hlow, -⟩
      · rw [units_cons, hn] at h
        rcases List.infix_cons_iff.mp h with hstart | hin
        · refine (prefix_of_units (t := d :: t) ?_).isInfix
          rw [units_cons, hn]
          exact hstart
        · exact hrest hin
      · rw [units_cons, hc] at h
        rcases List.infix_cons_iff.mp h with hstart | hin
        · refine (prefix_of_units (t := d :: t) ?_).isInfix
          rw [units_cons, hc]
          exact hstart
        · -- no occurrence starts between the two halves of a pair
          rcases List.infix_cons_iff.mp hin with ⟨vs, hlast⟩ | hin
          · exact absurd hlast.symm (not_low_cons hlow hs)
          · exact hrest hin
  · rintro ⟨a, b, rfl⟩
    rw [units_append, units_append]
    exact ⟨units a, units b, rfl⟩

end

end Utf16
