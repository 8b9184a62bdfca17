import Cadsa.Lib.Regex

/-! Python's `str.lower`, as far as ASCII is concerned: which characters become one of ASCII, and what a pattern
that ignores case finds in the result. -/
namespace Lowercase
open Regexes
set_option autoImplicit false

/-- The characters outside ASCII that count as a letter of ASCII when case is ignored. -/
def special : List Char := ['\u0130', '\u0131', '\u017F', '\u212A']

def IsAscii (s : List Char) : Prop := ∀ c ∈ s, c.toNat < 128

/-- What a character becomes that becomes one. -/
structure LowerOf (c d : Char) : Prop where
  undotted : c ≠ '\u0130'
  ascii : c.toNat < 128 → d = c.toLower
  kelvin : c = '\u212A' → d = 'k'
  other : 128 ≤ c.toNat → c ≠ '\u212A' → 128 ≤ d.toNat ∧ (d ∈ special → d = c)

inductive Lowered : List Char → List Char → Prop
  | nil : Lowered [] []
  | dotted {s t : List Char} : Lowered s t → Lowered ('\u0130' :: s) ('i' :: '\u0307' :: t)
  | char {c d : Char} {s t : List Char} : LowerOf c d → Lowered s t → Lowered (c :: s) (d :: t)

/-- `str.lower`. -/
def Lowercases (lower : String → String) : Prop := ∀ s, Lowered s.toList (lower s).toList

/-- The characters that become one of ASCII, and no others. -/
def lowerAscii : List Char → List Char
  | [] => []
  | c :: s => (if c = '\u0130' then ['i', '\u0307'] else [if c = '\u212A' then 'k' else c.toLower]) ++ lowerAscii s

/-! ## Texts of ASCII -/

section
variable {s t : List Char} {lower : String → String}

theorem lowered_ascii (hs : IsAscii s) (h : Lowered s t) : t = s.map Char.toLower := by
  induction h with
  | nil => rfl
  | dotted _ _ =>
    have hdot := hs _ List.mem_cons_self
    exact absurd hdot (by decide)
  | @char c d s t hc _ ih =>
    have hascii := hc.ascii (hs c List.mem_cons_self)
    rw [List.map_cons, hascii, ih fun x hx => hs x (List.mem_cons_of_mem c hx)]

theorem lower_ascii (hlower : Lowercases lower) (hs : IsAscii s) :
    lower (String.ofList s) = String.ofList (s.map Char.toLower) := by
  have h := hlower (String.ofList s)
  rw [String.toList_ofList] at h
  rw [← lowered_ascii hs h, String.ofList_toList]

theorem lowered_eq_nil (h : Lowered s t) : t = [] ↔ s = [] := by
  cases h <;> simp

theorem lower_eq_empty (hlower : Lowercases lower) (s : String) : lower s = "" ↔ s = "" := by
  have h := lowered_eq_nil (hlower s)
  rwa [String.toList_eq_nil_iff, String.toList_eq_nil_iff] at h

/-! ## Words -/

theorem ascii_cases {P : Char → Prop} (h : ∀ n < 128, P (Char.ofNat n)) {c : Char} (hc : c.toNat < 128) : P c := by
  have hn := h c.toNat hc
  rwa [Char.ofNat_toNat] at hn

theorem alpha_bounds {c : Char} (h : c.isAlpha = true) : 0x41 ≤ c.toNat ∧ c.toNat ≤ 0x7A := by
  have hval : c.toNat = c.val.toNat := rfl
  have hcase : c.isUpper = true ∨ c.isLower = true := Bool.or_eq_true_iff.mp h
  cases hcase with
  | inl hupper =>
    obtain ⟨h₁, h₂⟩ : 65 ≤ c.val.toNat ∧ c.val.toNat ≤ 90 := of_decide_eq_true hupper
    omega
  | inr hlower =>
    obtain ⟨h₁, h₂⟩ := Bool.and_eq_true_iff.mp hlower
    have hlow : 97 ≤ c.val.toNat := of_decide_eq_true h₁
    have hhigh : c.val.toNat ≤ 122 := of_decide_eq_true h₂
    omega

theorem digit_bounds {c : Char} (h : c.isDigit = true) : 0x30 ≤ c.toNat ∧ c.toNat ≤ 0x39 := by
  have hval : c.toNat = c.val.toNat := rfl
  simp only [Char.isDigit, Bool.and_eq_true, decide_eq_true_eq, ge_iff_le, UInt32.le_iff_toNat_le] at h
  obtain ⟨h₁, h₂⟩ := h
  change 48 ≤ c.val.toNat at h₁
  change c.val.toNat ≤ 57 at h₂
  omega

theorem toLower_ascii {c : Char} (h : c.toNat < 128) : c.toLower.toNat < 128 ∧ c.toLower.toLower = c.toLower :=
  ascii_cases (P := fun c => c.toLower.toNat < 128 ∧ c.toLower.toLower = c.toLower) (by decide) h

theorem toLower_other {c : Char} (h : 128 ≤ c.toNat) : c.toLower = c := by
  have hupper : ¬ (c.val ≥ 'A'.val ∧ c.val ≤ 'Z'.val) := fun hc => by
    have hle : c.toNat ≤ 90 := hc.2
    omega
  exact dif_neg hupper

theorem ascii_of_toLower {c : Char} (h : c.toLower.toNat < 128) : c.toNat < 128 := by
  by_contra hn
  rw [toLower_other (by omega)] at h
  exact hn h

theorem lowered_lowerAscii (s : List Char) : Lowered s (lowerAscii s) := by
  induction s with
  | nil => exact .nil
  | cons c s ih =>
    rw [lowerAscii]
    by_cases hdot : c = '\u0130'
    · rw [if_pos hdot, hdot]
      exact .dotted ih
    rw [if_neg hdot]
    refine .char ⟨hdot, fun hc => if_neg ?_, fun hk => if_pos hk, fun hc hk => ?_⟩ ih
    · rintro rfl
      exact absurd hc (by decide)
    · rw [if_neg hk, toLower_other hc]
      exact ⟨hc, fun _ => rfl⟩

theorem lowercases_lowerAscii : Lowercases fun s => String.ofList (lowerAscii s.toList) := by
  intro s
  dsimp only
  rw [String.toList_ofList]
  exact lowered_lowerAscii s.toList

theorem folded_special {c d : Char} (h : d ∈ folded c) : d ∈ special := by
  unfold folded at h
  split at h
  · exact (List.sublist_append_left ['\u0130', '\u0131'] ['\u017F', '\u212A']).subset h
  · rw [List.mem_singleton.mp h]
    decide
  · rw [List.mem_singleton.mp h]
    decide
  · cases h

theorem special_other {d : Char} (h : d ∈ special) : 128 ≤ d.toNat := by
  simp only [special, List.mem_cons, List.not_mem_nil, or_false] at h
  obtain rfl | rfl | rfl | rfl := h <;> decide

theorem sameLetter_iff {c d : Char} : sameLetter c d = true ↔ d.toLower = c ∨ d ∈ folded c := by
  rw [sameLetter, Bool.or_eq_true, decide_eq_true_eq, decide_eq_true_eq]

/-- An ASCII character counts as a letter only by its case. -/
theorem sameLetter_ascii {c d : Char} (hd : d.toNat < 128) : sameLetter c d = true ↔ d.toLower = c := by
  rw [sameLetter_iff, or_iff_left]
  intro hm
  have hother := special_other (folded_special hm)
  omega

/-- A letter of the lower case text is one of the text. -/
theorem sameLetter_of_lower {c d x : Char} (hc : c.toNat < 128) (hx : LowerOf x d) (h : sameLetter c d = true) :
    sameLetter c x = true := by
  by_cases hascii : x.toNat < 128
  · obtain ⟨hlt, hidem⟩ := toLower_ascii hascii
    rw [hx.ascii hascii, sameLetter_ascii hlt, hidem] at h
    exact (sameLetter_ascii hascii).mpr h
  by_cases hkelvin : x = '\u212A'
  · have hk : 'k' = c := by
      rw [hx.kelvin hkelvin, sameLetter_ascii (by decide)] at h
      exact h
    rw [hkelvin, ← hk]
    rfl
  · obtain ⟨hother, hself⟩ := hx.other (by omega) hkelvin
    rw [sameLetter_iff] at h ⊢
    cases h with
    | inl hlower =>
      rw [toLower_other hother] at hlower
      rw [hlower] at hother
      omega
    | inr hm =>
      rw [hself (folded_special hm)] at hm
      exact .inr hm

/-- Conversely, but for the letters that characters outside ASCII count as. -/
theorem sameLetter_lower {c d x : Char} (hc : c.toNat < 128) (hplain : folded c = []) (hx : LowerOf x d)
    (h : sameLetter c x = true) : sameLetter c d = true := by
  rw [sameLetter_iff, hplain, or_iff_left List.not_mem_nil] at h
  have hascii : x.toNat < 128 := by
    refine ascii_of_toLower ?_
    rwa [h]
  rw [sameLetter_iff, hx.ascii hascii, (toLower_ascii hascii).2]
  exact .inl h

theorem not_begins_dot {w t : List Char} (hw : IsAscii w) (hne : w ≠ []) : begins w ('\u0307' :: t) = false := by
  cases w with
  | nil => exact absurd rfl hne
  | cons c w =>
    have hc := hw c List.mem_cons_self
    have hno : ¬ sameLetter c '\u0307' = true := by
      rw [sameLetter_iff]
      rintro (hdot | hm)
      · rw [← hdot] at hc
        exact absurd hc (by decide)
      · exact absurd (folded_special hm) (by decide)
    rw [begins, Bool.eq_false_iff.mpr hno, Bool.false_and]

theorem begins_of_lower {w : List Char} (hw : IsAscii w) (h : Lowered s t) (hb : begins w t = true) :
    begins w s = true := by
  induction w generalizing s t with
  | nil => cases s <;> rfl
  | cons c w ih =>
    have hrest : IsAscii w := fun x hx => hw x (List.mem_cons_of_mem c hx)
    have hc := hw c List.mem_cons_self
    cases h with
    | nil => cases hb
    | @dotted s t h =>
      rw [begins, Bool.and_eq_true] at hb
      have hi : 'i' = c := (sameLetter_ascii (by decide)).mp hb.1
      have hnil : w = [] := by
        by_contra hne
        rw [not_begins_dot hrest hne] at hb
        cases hb.2
      rw [hnil, ← hi]
      cases s <;> rfl
    | @char x d s t hx h =>
      rw [begins, Bool.and_eq_true] at hb ⊢
      exact ⟨sameLetter_of_lower hc hx hb.1, ih hrest h hb.2⟩

theorem begins_lower {w : List Char} (hw : IsAscii w) (hplain : ∀ c ∈ w, folded c = []) (h : Lowered s t)
    (hb : begins w s = true) : begins w t = true := by
  induction w generalizing s t with
  | nil => cases t <;> rfl
  | cons c w ih =>
    have hrest : IsAscii w := fun x hx => hw x (List.mem_cons_of_mem c hx)
    have hc := hw c List.mem_cons_self
    have hletter := hplain c List.mem_cons_self
    cases h with
    | nil => cases hb
    | @dotted s t h =>
      rw [begins, Bool.and_eq_true, sameLetter_iff, hletter, or_iff_left List.not_mem_nil] at hb
      have hupper : ('\u0130').toLower = '\u0130' := by decide
      rw [hupper] at hb
      rw [← hb.1] at hc
      exact absurd hc (by decide)
    | @char x d s t hx h =>
      rw [begins, Bool.and_eq_true] at hb ⊢
      exact ⟨sameLetter_lower hc hletter hx hb.1, ih hrest (fun y hy => hplain y (List.mem_cons_of_mem c hy)) h hb.2⟩

/-- An end of the lower case text is one of an end of the text, but where a dotted capital is cut. -/
theorem lowered_suffix {a x : List Char} (h : Lowered s (a ++ x)) :
    (∃ b y, s = b ++ y ∧ Lowered y x) ∨ x.head? = some '\u0307' := by
  generalize ht : a ++ x = t at h
  induction h generalizing a with
  | nil => exact .inl ⟨[], [], rfl, (List.append_eq_nil_iff.mp ht).2 ▸ .nil⟩
  | @dotted s t h ih =>
    match a, ht with
    | [], ht =>
      rw [List.nil_append] at ht
      exact .inl ⟨[], _, rfl, ht ▸ .dotted h⟩
    | [_], ht =>
      rw [List.cons_append, List.nil_append, List.cons.injEq] at ht
      rw [ht.2]
      exact .inr rfl
    | _ :: _ :: a, ht =>
      rw [List.cons_append, List.cons_append, List.cons.injEq, List.cons.injEq] at ht
      refine (ih ht.2.2).imp_left ?_
      rintro ⟨b, y, rfl, hy⟩
      exact ⟨'\u0130' :: b, y, rfl, hy⟩
  | @char c d s t hc h ih =>
    match a, ht with
    | [], ht =>
      rw [List.nil_append] at ht
      exact .inl ⟨[], _, rfl, ht ▸ .char hc h⟩
    | _ :: a, ht =>
      rw [List.cons_append, List.cons.injEq] at ht
      refine (ih ht.2).imp_left ?_
      rintro ⟨b, y, rfl, hy⟩
      exact ⟨c :: b, y, rfl, hy⟩

theorem lowered_append {a x : List Char} (h : Lowered (a ++ x) t) : ∃ b y, t = b ++ y ∧ Lowered x y := by
  induction a generalizing t with
  | nil => exact ⟨[], t, rfl, h⟩
  | cons c a ih =>
    cases h with
    | dotted h =>
      obtain ⟨b, y, rfl, hy⟩ := ih h
      exact ⟨'i' :: '\u0307' :: b, y, rfl, hy⟩
    | char _ h =>
      obtain ⟨b, y, rfl, hy⟩ := ih h
      exact ⟨_ :: b, y, rfl, hy⟩

/-- A word of ASCII found in the lower case text is found in the text. -/
theorem search_word_of_lower (hlower : Lowercases lower) {w u : String} (hw : IsAscii w.toList) (hne : w ≠ "")
    (h : (word w).search (lower u) = true) : (word w).search u = true := by
  rw [search_word] at h ⊢
  obtain ⟨a, x, hu, hx⟩ := h
  have hlow := hlower u
  rw [hu] at hlow
  obtain ⟨b, y, hs, hy⟩ | hdot := lowered_suffix hlow
  · exact ⟨b, y, hs, begins_of_lower hw hy hx⟩
  · obtain ⟨t, rfl⟩ := List.head?_eq_some_iff.mp hdot
    rw [not_begins_dot hw (mt String.toList_eq_nil_iff.mp hne)] at hx
    cases hx

theorem search_word_lower (hlower : Lowercases lower) {w u : String} (hw : IsAscii w.toList)
    (hplain : ∀ c ∈ w.toList, folded c = []) (h : (word w).search u = true) : (word w).search (lower u) = true := by
  rw [search_word] at h ⊢
  obtain ⟨a, x, hu, hx⟩ := h
  have hlow := hlower u
  rw [hu] at hlow
  obtain ⟨b, y, ht, hy⟩ := lowered_append hlow
  exact ⟨b, y, ht, begins_lower hw hplain hy hx⟩

end

end Lowercase
