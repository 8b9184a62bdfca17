import Mathlib.Data.List.Infix
import Mathlib.Data.Nat.Notation
import Cadsa.Lib.PyText

/-! Regular expressions, as far as `search` finds a match or none: which match it would be, and so
whether a repetition is greedy, makes no difference to that. A word is matched without regard to case. -/
namespace Regexes
set_option autoImplicit false

inductive Regex
  | empty
  | char (p : Char → Bool)
  | seq (r s : Regex)
  | alt (r s : Regex)
  /-- At least so many characters of a class. -/
  | many (least : ℕ) (p : Char → Bool)
  /-- `\b`. -/
  | boundary (isWord : Char → Bool)
  /-- `$`: also before a line feed that ends the text. -/
  | ending

/-- A place in a text: the character before it and what follows. -/
structure Place where
  before : Option Char
  rest : List Char

def manyFrom (p : Char → Bool) : ℕ → Option Char → List Char → List Place
  | 0, before, [] => [⟨before, []⟩]
  | _ + 1, _, [] => []
  | n, before, c :: s =>
    (if n = 0 then [⟨before, c :: s⟩] else []) ++ if p c then manyFrom p (n - 1) (some c) s else []

/-- The places where a match that begins here may end. -/
def Regex.ends : Regex → Place → List Place
  | .empty, here => [here]
  | .char p, here =>
    match here.rest with
    | [] => []
    | c :: s => if p c then [⟨some c, s⟩] else []
  | .seq r s, here => (r.ends here).flatMap s.ends
  | .alt r s, here => r.ends here ++ s.ends here
  | .many least p, here => manyFrom p least here.before here.rest
  | .boundary isWord, here => if here.before.any isWord = here.rest.head?.any isWord then [] else [here]
  | .ending, here => if here.rest = [] ∨ here.rest = ['\n'] then [here] else []

def places (before : Option Char) : List Char → List Place
  | [] => [⟨before, []⟩]
  | c :: s => ⟨before, c :: s⟩ :: places (some c) s

def Regex.search (r : Regex) (s : String) : Bool := (places none s.toList).any fun here => !(r.ends here).isEmpty

/-- The characters outside ASCII that count as a letter of a pattern when case is ignored. -/
def folded : Char → List Char
  | 'i' => ['\u0130', '\u0131']
  | 's' => ['\u017F']
  | 'k' => ['\u212A']
  | _ => []

def sameLetter (c d : Char) : Bool := d.toLower = c || d ∈ folded c

def concat (rs : List Regex) : Regex := rs.foldr .seq .empty

def word (s : String) : Regex := concat (s.toList.map fun c => .char (sameLetter c))

def oneOf : List Regex → Regex
  | [] => .char fun _ => false
  | [r] => r
  | r :: rs => .alt r (oneOf rs)

def option (r : Regex) : Regex := .alt r .empty

def spaces (least : ℕ) : Regex := .many least PyText.isSpace

/-! ## Where a pattern is found -/

/-- The word stands at the start of the text. -/
def begins : List Char → List Char → Bool
  | [], _ => true
  | _ :: _, [] => false
  | c :: w, d :: s => sameLetter c d && begins w s

theorem ends_chars (w : List Char) (here : Place) :
    (concat (w.map fun c => .char (sameLetter c))).ends here ≠ [] ↔ begins w here.rest = true := by
  induction w generalizing here with
  | nil => exact iff_of_true (List.cons_ne_nil _ _) rfl
  | cons c w ih =>
    change (Regex.ends (.char (sameLetter c)) here).flatMap _ ≠ [] ↔ _
    rw [Regex.ends]
    cases here.rest with
    | nil => exact iff_of_false (fun h => h rfl) Bool.false_ne_true
    | cons d s =>
      rw [begins]
      dsimp only
      cases hd : sameLetter c d with
      | false =>
        rw [if_neg Bool.false_ne_true, Bool.false_and]
        exact iff_of_false (fun h => h rfl) Bool.false_ne_true
      | true =>
        rw [if_pos rfl, List.flatMap_singleton, Bool.true_and]
        exact ih _

theorem rests_places (before : Option Char) (s : List Char) : (places before s).map Place.rest = s.tails := by
  induction s generalizing before with
  | nil => rfl
  | cons c s ih =>
    rw [places, List.map_cons, ih, List.tails]

theorem search_iff (r : Regex) (s : String) :
    r.search s = true ↔ ∃ here ∈ places none s.toList, r.ends here ≠ [] := by
  simp only [Regex.search, List.any_eq_true, Bool.not_eq_true', List.isEmpty_eq_false_iff]

theorem search_word (w s : String) :
    (word w).search s = true ↔ ∃ a x, s.toList = a ++ x ∧ begins w.toList x = true := by
  rw [search_iff]
  constructor
  · rintro ⟨here, hmem, hends⟩
    have htail : here.rest ∈ s.toList.tails := by
      rw [← rests_places none]
      exact List.mem_map_of_mem hmem
    obtain ⟨a, ha⟩ := (List.mem_tails _ _).mp htail
    exact ⟨a, here.rest, ha.symm, (ends_chars w.toList here).mp hends⟩
  · rintro ⟨a, x, hs, hx⟩
    have htail : x ∈ (places none s.toList).map Place.rest := by
      rw [rests_places, hs]
      exact (List.mem_tails _ _).mpr (List.suffix_append a x)
    obtain ⟨here, hmem, rfl⟩ := List.mem_map.mp htail
    exact ⟨here, hmem, (ends_chars w.toList here).mpr hx⟩

theorem ends_oneOf (rs : List Regex) (here : Place) : (oneOf rs).ends here ≠ [] ↔ ∃ r ∈ rs, r.ends here ≠ [] := by
  induction rs with
  | nil =>
    refine iff_of_false (fun h => h ?_) fun ⟨r, hr, _⟩ => absurd hr List.not_mem_nil
    rw [oneOf, Regex.ends]
    cases here.rest <;> rfl
  | cons r rs ih =>
    cases rs with
    | nil => simp [oneOf]
    | cons r' rs =>
      have halt : (oneOf (r :: r' :: rs)).ends here = r.ends here ++ (oneOf (r' :: rs)).ends here := rfl
      rw [halt, Ne, List.append_eq_nil_iff, not_and_or, List.exists_mem_cons_iff]
      exact or_congr_right ih

theorem search_oneOf (rs : List Regex) (s : String) :
    (oneOf rs).search s = true ↔ ∃ r ∈ rs, r.search s = true := by
  simp only [search_iff, ends_oneOf]
  constructor
  · rintro ⟨here, hmem, r, hr, hends⟩
    exact ⟨r, hr, here, hmem, hends⟩
  · rintro ⟨r, hr, here, hmem, hends⟩
    exact ⟨here, hmem, r, hr, hends⟩

/-- One of some words is found. -/
theorem search_words (ws : List String) (s : String) :
    (oneOf (ws.map word)).search s = true ↔ ∃ w ∈ ws, (word w).search s = true := by
  rw [search_oneOf]
  simp only [List.mem_map, exists_exists_and_eq_and]

theorem search_words_subset {ws vs : List String} (hsub : ∀ w ∈ ws, w ∈ vs) {s : String}
    (h : (oneOf (ws.map word)).search s = true) : (oneOf (vs.map word)).search s = true := by
  rw [search_words] at h ⊢
  obtain ⟨w, hw, hfound⟩ := h
  exact ⟨w, hsub w hw, hfound⟩

/-- A word none of whose letters has others outside ASCII. -/
theorem begins_plain {w s : List Char} (hplain : ∀ c ∈ w, folded c = []) :
    begins w s = true ↔ w <+: s.map Char.toLower := by
  induction w generalizing s with
  | nil => exact iff_of_true (by cases s <;> rfl) (List.nil_prefix)
  | cons c w ih =>
    cases s with
    | nil => exact iff_of_false (fun h => by cases h) (fun h => List.cons_ne_nil c w (List.prefix_nil.mp h))
    | cons d s =>
      have hletter : sameLetter c d = true ↔ c = d.toLower := by
        rw [sameLetter, hplain c List.mem_cons_self, Bool.or_eq_true, decide_eq_true_eq, decide_eq_true_eq,
          or_iff_left List.not_mem_nil, eq_comm]
      rw [begins, Bool.and_eq_true, hletter, ih fun x hx => hplain x (List.mem_cons_of_mem c hx), List.map_cons,
        List.cons_prefix_cons]

theorem search_plain {w : String} (hplain : ∀ c ∈ w.toList, folded c = []) (s : String) :
    (word w).search s = true ↔ w.toList <:+: s.toList.map Char.toLower := by
  rw [search_word]
  constructor
  · rintro ⟨a, x, hs, hx⟩
    rw [hs, List.map_append]
    exact ((begins_plain hplain).mp hx).isInfix.trans (List.suffix_append _ _).isInfix
  · intro h
    obtain ⟨t, htail, hbegins⟩ := List.infix_iff_prefix_suffix.mp h
    obtain ⟨b, hb⟩ := hbegins
    obtain ⟨a, x, hs, -, rfl⟩ := List.map_eq_append_iff.mp hb.symm
    exact ⟨a, x, hs, (begins_plain hplain).mpr htail⟩

/-! ## Texts of a few letters -/

/-- A match takes a character that is none of the letters. -/
def Regex.leaves (letters : List Char) : Regex → Bool
  | .empty | .boundary _ | .ending => false
  | .char p => letters.all (!p ·)
  | .seq r s => r.leaves letters || s.leaves letters
  | .alt r s => r.leaves letters && s.leaves letters
  | .many least p => least ≠ 0 && letters.all (!p ·)

section
variable {letters : List Char}

theorem suffix_manyFrom (p : Char → Bool) (n : ℕ) (before : Option Char) (s : List Char) :
    ∀ there ∈ manyFrom p n before s, there.rest <:+ s := by
  induction s generalizing n before with
  | nil =>
    cases n with
    | zero =>
      intro there h
      rw [List.mem_singleton.mp h]
    | succ n => exact fun there h => absurd h List.not_mem_nil
  | cons c s ih =>
    intro there h
    rw [manyFrom, List.mem_append, List.mem_ite_nil_right, List.mem_ite_nil_right, List.mem_singleton] at h
    cases h with
    | inl hhere =>
      rw [hhere.2]
    | inr hmore => exact (ih (n - 1) (some c) there hmore.2).trans (List.suffix_cons c s)

theorem suffix_ends (r : Regex) (here : Place) : ∀ there ∈ r.ends here, there.rest <:+ here.rest := by
  induction r generalizing here with
  | empty =>
    intro there h
    rw [List.mem_singleton.mp h]
  | char p =>
    intro there h
    rw [Regex.ends] at h
    cases hrest : here.rest with
    | nil =>
      rw [hrest] at h
      cases h
    | cons c s =>
      rw [hrest] at h
      dsimp only at h
      rw [List.mem_ite_nil_right, List.mem_singleton] at h
      rw [h.2]
      exact List.suffix_cons c s
  | seq r s ihr ihs =>
    intro there h
    obtain ⟨mid, hmid, hthere⟩ := List.mem_flatMap.mp h
    exact (ihs mid there hthere).trans (ihr here mid hmid)
  | alt r s ihr ihs => exact fun there h => (List.mem_append.mp h).elim (ihr here there) (ihs here there)
  | many least p => exact suffix_manyFrom p least here.before here.rest
  | boundary isWord =>
    intro there h
    rw [Regex.ends, List.mem_ite_nil_left, List.mem_singleton] at h
    rw [h.2]
  | ending =>
    intro there h
    rw [Regex.ends, List.mem_ite_nil_right, List.mem_singleton] at h
    rw [h.2]

theorem not_matched {p : Char → Bool} (h : letters.all (!p ·) = true) {c : Char} (hc : c ∈ letters) : p c = false := by
  have hnot := List.all_eq_true.mp h c hc
  rwa [Bool.not_eq_true'] at hnot

theorem ends_leaves {r : Regex} (h : r.leaves letters = true) {here : Place} (hs : here.rest ⊆ letters) :
    r.ends here = [] := by
  induction r generalizing here with
  | empty | boundary | ending => cases h
  | char p =>
    rw [Regex.ends]
    cases hrest : here.rest with
    | nil => rfl
    | cons c s =>
      rw [hrest] at hs
      dsimp only
      rw [not_matched h (hs List.mem_cons_self), if_neg Bool.false_ne_true]
  | seq r s ihr ihs =>
    rw [Regex.ends, List.flatMap_eq_nil_iff]
    intro mid hmid
    cases Bool.or_eq_true_iff.mp h with
    | inl hr =>
      rw [ihr hr hs] at hmid
      cases hmid
    | inr hl => exact ihs hl (List.Subset.trans (suffix_ends r here mid hmid).subset hs)
  | alt r s ihr ihs =>
    obtain ⟨hr, hl⟩ := Bool.and_eq_true_iff.mp h
    rw [Regex.ends, ihr hr hs, ihs hl hs, List.append_nil]
  | many least p =>
    obtain ⟨hleast, hp⟩ := Bool.and_eq_true_iff.mp h
    obtain ⟨n, rfl⟩ := Nat.exists_eq_succ_of_ne_zero (of_decide_eq_true hleast)
    rw [Regex.ends]
    cases hrest : here.rest with
    | nil => rfl
    | cons c s =>
      rw [hrest] at hs
      rw [manyFrom, not_matched hp (hs List.mem_cons_self), if_neg Bool.false_ne_true, if_neg (Nat.succ_ne_zero n),
        List.append_nil]

/-- A pattern whose matches all leave the letters is not found in a text of them. -/
theorem search_leaves {r : Regex} (h : r.leaves letters = true) {s : String} (hs : s.toList ⊆ letters) :
    r.search s = false := by
  rw [← Bool.not_eq_true, search_iff]
  rintro ⟨here, hmem, hends⟩
  have htail : here.rest ∈ s.toList.tails := by
    rw [← rests_places none]
    exact List.mem_map_of_mem hmem
  exact hends (ends_leaves h (List.Subset.trans ((List.mem_tails _ _).mp htail).subset hs))

end

end Regexes
