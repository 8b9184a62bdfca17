import Cadsa.Core.SecurityEngine
import Cadsa.Lib.PercentEncoding

/-! What the rules on the URI find of attacks that are percent-encoded. -/
namespace Cadsa.SecurityEngine
open Lowercase PercentEncoding Regexes
set_option autoImplicit false

/-- The decoded text climbs to a parent directory. -/
def Traverses (u : String) : Prop :=
  ['.', '.', '/'] <:+: percentDecode u ∨ ['.', '.', '\\'] <:+: percentDecode u

instance (u : String) : Decidable (Traverses u) := inferInstanceAs (Decidable (_ ∨ _))

def traversalMarks : List String := ["../", "..\\", "%2e%2e", "%252e%252e", "\x00", "%00"]

/-- One of the marks stands in the text, case aside. -/
def HasMark (u : String) : Prop := ∃ w ∈ traversalMarks, w.toList <:+: u.toList.map Char.toLower

instance (u : String) : Decidable (HasMark u) :=
  inferInstanceAs (Decidable (∃ w ∈ traversalMarks, w.toList <:+: u.toList.map Char.toLower))

/-- The rules report the type for every row with the URI. -/
def Finds (t : Text) (u : String) (type : EventType) : Prop :=
  ∀ (cfg : SecurityConfig) (now : ℤ) (row : Row) (s : State), row.uri = some u →
    ∃ ev ∈ (evaluate t cfg now row s).2, ev.finding.eventType = type

/-- An attack is reported however its URI is encoded. -/
structure FoundEncoded (t : Text) (u : String) : Prop where
  path : Traverses u → Finds t u .pathTraversal
  sqli : (sqli t).search u = true → ∀ u', Encodes u.toList u'.toList → Finds t u' .sqlInjectionAttempt
  xss : (xss t).search u = true → ∀ u', Encodes u.toList u'.toList → Finds t u' .xssAttempt

section
variable {t : Text} {u : String}

/-! ## The three rules -/

/-- A rule that is one search of the lower case URI. -/
theorem finds_iff {type : EventType} {p : Regex} {found : Row → Finding}
    (hrule : ∀ (cfg : SecurityConfig) (row : Row) (n : Counts),
      findingsOf t cfg row n type = if p.search (row.lowerUri t) then [found row] else []) :
    Finds t u type ↔ p.search (t.lower u) = true := by
  constructor
  · intro h
    obtain ⟨ev, hev, htype⟩ := h ⟨0, 0⟩ 0 ⟨0, "", "", some u, none, none, none, none, none⟩ initial rfl
    obtain ⟨f, hf, rfl⟩ := List.mem_map.mp hev
    have hfound : f ∈ findingsOf t _ _ _ type := htype ▸ mem_findings.mp hf
    rw [hrule, List.mem_ite_nil_right] at hfound
    exact hfound.1
  · intro h cfg now row s huri
    have huse : p.search (row.lowerUri t) = true := by
      rw [Row.lowerUri, huri]
      exact h
    have hfound : found row ∈ findingsOf t cfg row (counts (track t now row s) row.remoteIp) type := by
      rw [hrule, if_pos huse]
      exact List.mem_singleton_self _
    have htype := eventType_of_mem hfound
    rw [← htype] at hfound
    exact ⟨_, List.mem_map_of_mem (mem_findings.mpr hfound), htype⟩

theorem finds_path : Finds t u .pathTraversal ↔ pathTraversal.search (t.lower u) = true :=
  finds_iff fun _ _ _ => rfl

theorem finds_sqli : Finds t u .sqlInjectionAttempt ↔ (sqli t).search (t.lower u) = true :=
  finds_iff fun _ _ _ => rfl

theorem finds_xss : Finds t u .xssAttempt ↔ (xss t).search (t.lower u) = true :=
  finds_iff fun _ _ _ => rfl

theorem plain_marks {w : String} (h : w ∈ traversalMarks) : IsAscii w.toList ∧ ∀ c ∈ w.toList, folded c = [] := by
  have hall : (traversalMarks.all fun w => w.toList.all fun c => decide (c.toNat < 128) && (folded c).isEmpty) = true :=
    rfl
  have hw := List.all_eq_true.mp (List.all_eq_true.mp hall w h)
  refine ⟨fun c hc => ?_, fun c hc => ?_⟩
  · exact of_decide_eq_true (Bool.and_eq_true_iff.mp (hw c hc)).1
  · exact List.isEmpty_iff.mp (Bool.and_eq_true_iff.mp (hw c hc)).2

theorem search_pathTraversal (s : String) :
    pathTraversal.search s = true ↔ ∃ w ∈ traversalMarks, (word w).search s = true :=
  search_words traversalMarks s

/-- The lower case URI has a mark where the URI has one. -/
theorem hasMark_iff (hlower : Lowercases t.lower) : Finds t u .pathTraversal ↔ HasMark u := by
  rw [finds_path, search_pathTraversal, HasMark]
  refine exists_congr fun w => and_congr_right fun hw => ?_
  obtain ⟨hascii, hplain⟩ := plain_marks hw
  have hne : w ≠ "" := by
    rintro rfl
    exact absurd hw (by decide)
  rw [← search_plain hplain u]
  exact ⟨search_word_of_lower hlower hascii hne, search_word_lower hlower hascii hplain⟩

/-! ## The encoding of every character -/

theorem leaves_sqli (t : Text) : (sqli t).leaves escapeLetters = true := by
  rfl

theorem leaves_xss (t : Text) : (xss t).leaves escapeLetters = true := by
  rfl

theorem lower_encodeAll (hlower : Lowercases t.lower) (u : String) :
    (t.lower (String.ofList (encodeAll u.toList))).toList ⊆ escapeLetters := by
  have hletters := encodeAll_letters u.toList
  have hfacts : ∀ c ∈ escapeLetters, c.toNat < 128 ∧ c.toLower = c := by
    have hall : (escapeLetters.all fun c => decide (c.toNat < 128 ∧ c.toLower = c)) = true := rfl
    exact fun c hc => of_decide_eq_true (List.all_eq_true.mp hall c hc)
  rw [lower_ascii hlower fun c hc => (hfacts c (hletters hc)).1, String.toList_ofList]
  intro x hx
  obtain ⟨c, hc, rfl⟩ := List.mem_map.mp hx
  rw [(hfacts c (hletters hc)).2]
  exact hletters hc

/-- A pattern that leaves the letters of the escapes is lost where every character is encoded. -/
theorem lost_encoded (hlower : Lowercases t.lower) {type : EventType} {p : Regex}
    (hfinds : ∀ {u : String}, Finds t u type ↔ p.search (t.lower u) = true) (hleaves : p.leaves escapeLetters = true)
    (u : String) : ¬ ∀ u', Encodes u.toList u'.toList → Finds t u' type := by
  intro h
  have hencodes : Encodes u.toList (String.ofList (encodeAll u.toList)).toList := by
    rw [String.toList_ofList]
    exact encodes_encodeAll u.toList
  have hfound := hfinds.mp (h _ hencodes)
  rw [search_leaves hleaves (lower_encodeAll hlower u)] at hfound
  cases hfound

theorem found_encoded_iff (hlower : Lowercases t.lower) : FoundEncoded t u ↔
    (Traverses u → HasMark u) ∧ (sqli t).search u = false ∧ (xss t).search u = false := by
  rw [← hasMark_iff hlower, ← Bool.not_eq_true, ← Bool.not_eq_true]
  constructor
  · rintro ⟨hpath, hsqli, hxss⟩
    exact ⟨hpath, fun h => lost_encoded hlower finds_sqli (leaves_sqli t) u (hsqli h),
      fun h => lost_encoded hlower finds_xss (leaves_xss t) u (hxss h)⟩
  · rintro ⟨hpath, hsqli, hxss⟩
    exact ⟨hpath, fun h => absurd h hsqli, fun h => absurd h hxss⟩

end

/-! ## Requests at work -/

theorem lowercases_asciiText : Lowercases asciiText.lower := lowercases_lowerAscii

theorem literal_found : FoundEncoded asciiText "/../etc" :=
  (found_encoded_iff lowercases_asciiText).mpr
    ⟨fun _ => by decide, by decide +kernel, by decide +kernel⟩

/-- The slash alone is encoded. -/
theorem encoded_slash_lost : ¬ ∀ (t : Text) (u : String), Lowercases t.lower → FoundEncoded t u := by
  intro h
  have htraverses : Traverses "/..%2f..%2fetc/passwd" := by decide +kernel
  have hmarks : ¬ HasMark "/..%2f..%2fetc/passwd" := by decide
  exact hmarks (((found_encoded_iff lowercases_asciiText).mp (h asciiText _ lowercases_asciiText)).1 htraverses)

end Cadsa.SecurityEngine
