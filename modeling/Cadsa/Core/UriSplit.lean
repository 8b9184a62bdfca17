import Cadsa.Core.LogParser
import Cadsa.Lib.UrlParse

/-! What `extract_path_and_query` makes of a request URI, against a split at the first question mark. -/
namespace Cadsa.UriSplit
open LogParser UrlParse PyJson
set_option autoImplicit false

/-- `parts[0]` and `parts[1]` of `uri.split("?", 1)`. -/
def splitOnce (uri : String) : String × String :=
  (String.ofList (before '?' uri.toList), String.ofList (after '?' uri.toList))

/-- What the code reads of a parsed URL. -/
def url (p : Parsed) : Url := ⟨String.ofList p.path, String.ofList p.query, String.ofList p.netloc⟩

def urlOrError : Option Parsed → Except PyError Url
  | some p => .ok (url p)
  | none => .error .valueError

section
variable {py : Python} {accepts : List Char → Bool} {uri : String}

theorem extract_eq (hpy : ∀ s, py.urlparse s = urlOrError (urlparse accepts s.toList)) (hne : uri ≠ "") :
    extractPathAndQuery py uri =
      match urlparse accepts uri.toList with
      | some p => (String.ofList p.path, String.ofList p.query)
      | none => splitOnce uri := by
  rw [extractPathAndQuery, if_neg hne, hpy]
  cases urlparse accepts uri.toList <;> rfl

theorem split_of_rejected (hpy : ∀ s, py.urlparse s = urlOrError (urlparse accepts s.toList))
    (h : ¬ Acceptable accepts (netlocOf uri.toList)) : extractPathAndQuery py uri = splitOnce uri := by
  by_cases hempty : uri = ""
  · subst hempty
    rfl
  · rw [extract_eq hpy hempty, urlparse_eq_none_iff.mpr h]

theorem split_iff_of_accepted (hpy : ∀ s, py.urlparse s = urlOrError (urlparse accepts s.toList))
    (hfragment : '#' ∉ uri.toList) (hcontrol : ∀ c ∈ uri.toList, isControl c = false)
    (h : Acceptable accepts (netlocOf uri.toList)) :
    extractPathAndQuery py uri = splitOnce uri ↔ PathAndQuery uri.toList := by
  by_cases hempty : uri = ""
  · subst hempty
    exact iff_of_true rfl ⟨by decide, by decide, by decide, by decide⟩
  cases hp : urlparse accepts uri.toList with
  | none => exact absurd h (urlparse_eq_none_iff.mp hp)
  | some p =>
    rw [extract_eq hpy hempty, hp]
    simp only [splitOnce, query_eq hcontrol hfragment hp, Prod.mk.injEq, String.ofList_inj, and_true]
    exact path_eq_iff hcontrol hfragment hp

/-- **URI splitting.** Nothing of a URI is lost if and only if `urlparse` raises, and the code splits on its own,
or the URI has neither a space in front nor scheme, authority or parameters. -/
theorem uri_split_iff (hpy : ∀ s, py.urlparse s = urlOrError (urlparse accepts s.toList))
    (hfragment : '#' ∉ uri.toList) (hcontrol : ∀ c ∈ uri.toList, isControl c = false) :
    extractPathAndQuery py uri = splitOnce uri ↔
      ¬ Acceptable accepts (netlocOf uri.toList) ∨ PathAndQuery uri.toList := by
  by_cases h : Acceptable accepts (netlocOf uri.toList)
  · rw [split_iff_of_accepted hpy hfragment hcontrol h]
    exact (or_iff_right (not_not_intro h)).symm
  · exact iff_of_true (split_of_rejected hpy h) (Or.inl h)

/-- The columns of a row whose URI is path and query are those of the split. -/
theorem row_of_pathAndQuery {m : List (String × Json)} {hosts : List (String × List String)} {label source : String}
    {row : Row} (hpy : ∀ s, py.urlparse s = urlOrError (urlparse accepts s.toList))
    (hrow : parseEntry py m hosts label source = .ok row) (huri : text py (uriRaw m) = uri)
    (hfragment : '#' ∉ uri.toList) (hcontrol : ∀ c ∈ uri.toList, isControl c = false)
    (h : PathAndQuery uri.toList) :
    row.path = cutText 2048 (splitOnce uri).1 ∧ row.query = cutText 2048 (splitOnce uri).2 := by
  have hsplit : extractPathAndQuery py uri = splitOnce uri := by
    by_cases ha : Acceptable accepts (netlocOf uri.toList)
    · exact (split_iff_of_accepted hpy hfragment hcontrol ha).mpr h
    · exact split_of_rejected hpy ha
  obtain ⟨hpath, hquery⟩ := parseEntry_path hrow
  rw [huri, hsplit] at hpath hquery
  exact ⟨hpath, hquery⟩

end

/-- The library, as far as URIs go. -/
def libraryFor (accepts : List Char → Bool) : Python :=
  { asciiLibrary with urlparse := fun s => urlOrError (urlparse accepts s.toList) }

theorem uncontrolled {s : List Char} (h : s.all (fun c => !isControl c) = true) : ∀ c ∈ s, isControl c = false := by
  intro c hc
  have htest := List.all_eq_true.mp h c hc
  rwa [Bool.not_eq_true'] at htest

theorem search_split : extractPathAndQuery (libraryFor fun _ => true) "/search?q=hello&page=2" =
    splitOnce "/search?q=hello&page=2" :=
  (uri_split_iff (fun _ => rfl) (by decide) (uncontrolled rfl)).mpr (Or.inr ⟨by decide, by decide, by decide, by decide⟩)

/-- Two slashes in front make an authority of the first segment. -/
theorem double_slash_lost : '#' ∉ "//wp-login.php".toList ∧ (∀ c ∈ "//wp-login.php".toList, isControl c = false) ∧
    extractPathAndQuery (libraryFor fun _ => true) "//wp-login.php" = ("", "") ∧
    splitOnce "//wp-login.php" = ("//wp-login.php", "") :=
  ⟨by decide, uncontrolled rfl, by decide⟩

end Cadsa.UriSplit
