import Mathlib.Data.List.DropRight
import Mathlib.Data.List.TakeWhile
import Mathlib.Data.Nat.Notation

/-! Python's `urlparse` on a text: scheme, authority, path, parameters of the last segment, query, fragment.
`path_eq_iff` says of which texts it keeps everything before the first question mark. -/
namespace UrlParse
set_option autoImplicit false

structure Parsed where
  scheme : List Char
  netloc : List Char
  path : List Char
  params : List Char
  query : List Char
  fragment : List Char

/-- Before and after the first `c`. -/
def before (c : Char) (s : List Char) : List Char := s.takeWhile (· ≠ c)

def after (c : Char) (s : List Char) : List Char := (s.dropWhile (· ≠ c)).drop 1

def isControlOrSpace (c : Char) : Bool := c.toNat ≤ 0x20

def isControl (c : Char) : Bool := c.toNat < 0x20 || c.toNat = 0x7F

/-- Spaces in front and line ends anywhere are not part of a URL. -/
def cleaned (url : List Char) : List Char :=
  (url.dropWhile isControlOrSpace).filter fun c => c ∉ ['\t', '\r', '\n']

def isSchemeChar (c : Char) : Bool := c.isAlphanum || c ∈ ['+', '-', '.']

/-- The text begins with `name:`. -/
def HasScheme (url : List Char) : Prop :=
  ':' ∈ url ∧ (before ':' url).head?.any Char.isAlpha = true ∧ (before ':' url).all isSchemeChar = true

instance (url : List Char) : Decidable (HasScheme url) := inferInstanceAs (Decidable (_ ∧ _ ∧ _))

def splitScheme (url : List Char) : List Char × List Char :=
  if HasScheme url then ((before ':' url).map Char.toLower, after ':' url) else ([], url)

def HasNetloc (url : List Char) : Prop := ['/', '/'] <+: url

instance (url : List Char) : Decidable (HasNetloc url) := inferInstanceAs (Decidable (_ <+: _))

def isNetlocChar (c : Char) : Bool := c ∉ ['/', '?', '#']

def splitNetloc (url : List Char) : List Char × List Char :=
  if HasNetloc url then ((url.drop 2).takeWhile isNetlocChar, (url.drop 2).dropWhile isNetlocChar) else ([], url)

/-- The schemes whose last segment may have parameters. -/
def usesParams : List String :=
  ["", "ftp", "hdl", "prospero", "http", "https", "shttp", "rtsp", "rtsps", "sip", "sips", "mms", "sftp", "tel"]

def lastSegment (path : List Char) : List Char := path.rtakeWhile (· ≠ '/')

def splitParams (scheme path : List Char) : List Char × List Char :=
  if String.ofList scheme ∈ usesParams then
    (path.rdropWhile (· ≠ '/') ++ before ';' (lastSegment path), after ';' (lastSegment path))
  else (path, [])

section
variable (accepts : List Char → Bool)

/-- Brackets come in pairs; the tests of an address in brackets and of compatibility characters are `accepts`. -/
def Acceptable (netloc : List Char) : Prop :=
  netloc = [] ∨ ('[' ∈ netloc ↔ ']' ∈ netloc) ∧ accepts netloc = true

instance (netloc : List Char) : Decidable (Acceptable accepts netloc) := inferInstanceAs (Decidable (_ ∨ _ ∧ _))

def netlocOf (url : List Char) : List Char := (splitNetloc (splitScheme (cleaned url)).2).1

/-- What follows scheme and authority. -/
def restOf (url : List Char) : List Char := (splitNetloc (splitScheme (cleaned url)).2).2

/-- Nothing where `ValueError` is raised. -/
def urlparse (url : List Char) : Option Parsed :=
  let scheme := (splitScheme (cleaned url)).1
  let rest := before '#' (restOf url)
  let split := splitParams scheme (before '?' rest)
  if Acceptable accepts (netlocOf url) then
    some {
      scheme := scheme
      netloc := netlocOf url
      path := split.1
      params := split.2
      query := after '?' rest
      fragment := after '#' (restOf url) }
  else none

end

/-- A text that is path and query and nothing else. -/
structure PathAndQuery (url : List Char) : Prop where
  noSpace : url.head? ≠ some ' '
  noScheme : ¬ HasScheme url
  noNetloc : ¬ HasNetloc url
  noParams : ';' ∉ lastSegment (before '?' url)

/-! ## Splitting at a character -/

section
variable {c : Char} {s t d : List Char}

theorem before_of_not_mem (h : c ∉ s) : before c s = s :=
  List.takeWhile_eq_self_iff.mpr fun _ hx => decide_eq_true fun he => h (he ▸ hx)

theorem before_append (h : c ∉ d) (s : List Char) : before c (d ++ s) = d ++ before c s := by
  rw [before, before]
  exact List.takeWhile_append_of_pos fun _ hx => decide_eq_true fun he => h (he ▸ hx)

theorem after_append (h : c ∉ d) (s : List Char) : after c (d ++ s) = after c s := by
  rw [after, after]
  exact congrArg (List.drop 1) (List.dropWhile_append_of_pos fun _ hx => decide_eq_true fun he => h (he ▸ hx))

theorem append_after (h : c ∈ s) : before c s ++ c :: after c s = s := by
  induction s with
  | nil => cases h
  | cons x s ih =>
    by_cases hx : x = c
    · subst hx
      simp [before, after]
    · have hs := ih ((List.mem_cons.mp h).resolve_left fun he => hx he.symm)
      rw [before, after, List.takeWhile_cons_of_pos (by simpa using hx), List.dropWhile_cons_of_pos (by simpa using hx)]
      exact congrArg (x :: ·) hs

end

/-! ## What each step takes away -/

section
variable {url : List Char}

/-- Without control characters only spaces in front go. -/
theorem cleaned_split (hc : ∀ c ∈ url, isControl c = false) :
    ∃ d, '?' ∉ d ∧ url = d ++ cleaned url ∧ (d = [] ↔ url.head? ≠ some ' ') := by
  have hspace : ∀ c ∈ url, isControlOrSpace c = true → c = ' ' := by
    intro c hmem h
    have hno := hc c hmem
    simp only [isControl, isControlOrSpace, Bool.or_eq_false_iff, decide_eq_false_iff_not, decide_eq_true_eq] at hno h
    have hnat : c.toNat = ' '.toNat := by
      change c.toNat = 32
      omega
    exact Char.toNat_inj.mp hnat
  have hkeep : cleaned url = url.dropWhile isControlOrSpace := by
    rw [cleaned, List.filter_eq_self]
    intro c hmem
    have hno := hc c ((List.dropWhile_sublist _).subset hmem)
    refine decide_eq_true fun hend => ?_
    simp only [List.mem_cons, List.not_mem_nil, or_false] at hend
    obtain rfl | rfl | rfl := hend <;> cases hno
  refine ⟨url.takeWhile isControlOrSpace, ?_, ?_, ?_⟩
  · intro hq
    exact absurd (List.mem_takeWhile_imp hq) (by decide)
  · rw [hkeep]
    exact List.takeWhile_append_dropWhile.symm
  · cases url with
    | nil => simp
    | cons c s =>
      rw [List.takeWhile_cons, List.head?_cons]
      by_cases h : isControlOrSpace c = true
      · simp [hspace c List.mem_cons_self h, show isControlOrSpace ' ' = true from rfl]
      · have hne : c ≠ ' ' := by
          rintro rfl
          exact h rfl
        simp [h, hne]

theorem cleaned_eq (hc : ∀ c ∈ url, isControl c = false) (h : url.head? ≠ some ' ') : cleaned url = url := by
  obtain ⟨d, -, hd, hnil⟩ := cleaned_split hc
  obtain rfl := hnil.mpr h
  exact hd.symm

theorem scheme_split (url : List Char) :
    ∃ d, '?' ∉ d ∧ url = d ++ (splitScheme url).2 ∧ (d = [] ↔ ¬ HasScheme url) := by
  rw [splitScheme]
  split_ifs with h
  · refine ⟨before ':' url ++ [':'], ?_, ?_, ?_⟩
    · intro hq
      rcases List.mem_append.mp hq with hb | hcolon
      · exact absurd (List.all_eq_true.mp h.2.2 _ hb) (by decide)
      · simp at hcolon
    · rw [List.append_assoc]
      exact (append_after h.1).symm
    · simp [h]
  · exact ⟨[], List.not_mem_nil, rfl, by simp [h]⟩

theorem netloc_split (url : List Char) :
    ∃ d, '?' ∉ d ∧ url = d ++ (splitNetloc url).2 ∧ (d = [] ↔ ¬ HasNetloc url) := by
  rw [splitNetloc]
  split_ifs with h
  · obtain ⟨s, rfl⟩ := h
    refine ⟨['/', '/'] ++ s.takeWhile isNetlocChar, ?_, ?_, ?_⟩
    · intro hq
      rcases List.mem_append.mp hq with hslash | hnet
      · simp at hslash
      · exact absurd (List.mem_takeWhile_imp hnet) (by decide)
    · rw [List.append_assoc]
      exact congrArg (['/', '/'] ++ ·) List.takeWhile_append_dropWhile.symm
    · simp [HasNetloc]
  · exact ⟨[], List.not_mem_nil, rfl, by simp [h]⟩

/-- Of the path only the parameters of the last segment go, when the scheme has them. -/
theorem params_split (scheme path : List Char) :
    ∃ e, path = (splitParams scheme path).1 ++ e ∧ (scheme = [] → (e = [] ↔ ';' ∉ lastSegment path)) := by
  have hpath : path = path.rdropWhile (· ≠ '/') ++ lastSegment path :=
    List.rdropWhile_append_rtakeWhile.symm
  rw [splitParams]
  split_ifs with h
  · by_cases hsemi : ';' ∈ lastSegment path
    · refine ⟨';' :: after ';' (lastSegment path), ?_, by simp [hsemi]⟩
      rw [List.append_assoc, append_after hsemi]
      exact hpath
    · refine ⟨[], ?_, by simp [hsemi]⟩
      rw [before_of_not_mem hsemi, List.append_nil]
      exact hpath
  · refine ⟨[], (List.append_nil _).symm, ?_⟩
    rintro rfl
    exact absurd (by decide) h

/-- A scheme, an authority or a space in front is all that is not in the rest. -/
theorem rest_split (hc : ∀ c ∈ url, isControl c = false) :
    ∃ d, '?' ∉ d ∧ url = d ++ restOf url ∧
      (d = [] ↔ url.head? ≠ some ' ' ∧ ¬ HasScheme url ∧ ¬ HasNetloc url) := by
  obtain ⟨d₁, hq₁, h₁, hd₁⟩ := cleaned_split hc
  obtain ⟨d₂, hq₂, h₂, hd₂⟩ := scheme_split (cleaned url)
  obtain ⟨d₃, hq₃, h₃, hd₃⟩ := netloc_split (splitScheme (cleaned url)).2
  refine ⟨d₁ ++ (d₂ ++ d₃), by simp [hq₁, hq₂, hq₃], ?_, ?_⟩
  · rw [List.append_assoc, List.append_assoc]
    calc
      url = d₁ ++ cleaned url := h₁
      _ = d₁ ++ (d₂ ++ (splitScheme (cleaned url)).2) := congrArg (d₁ ++ ·) h₂
      _ = d₁ ++ (d₂ ++ (d₃ ++ restOf url)) := congrArg (fun s => d₁ ++ (d₂ ++ s)) h₃
  · constructor
    · intro h
      obtain ⟨rfl, h₂₃⟩ := List.append_eq_nil_iff.mp h
      obtain ⟨rfl, rfl⟩ := List.append_eq_nil_iff.mp h₂₃
      have hclean : cleaned url = url := h₁.symm
      have hscheme : (splitScheme (cleaned url)).2 = url := h₂.symm.trans hclean
      exact ⟨hd₁.mp rfl, hclean ▸ hd₂.mp rfl, hscheme ▸ hd₃.mp rfl⟩
    · rintro ⟨hspace, hscheme, hnetloc⟩
      obtain rfl := hd₁.mpr hspace
      have hclean : cleaned url = url := h₁.symm
      obtain rfl := hd₂.mpr (hclean.symm ▸ hscheme)
      have hsame : (splitScheme (cleaned url)).2 = url := h₂.symm.trans hclean
      obtain rfl := hd₃.mpr (hsame.symm ▸ hnetloc)
      rfl

theorem scheme_eq_nil (h : ¬ HasScheme url) : (splitScheme url).1 = [] := by
  rw [splitScheme, if_neg h]

end

/-! ## Path and query -/

section
variable {accepts : List Char → Bool} {url : List Char} {p : Parsed}

theorem urlparse_eq_none_iff : urlparse accepts url = none ↔ ¬ Acceptable accepts (netlocOf url) := by
  simp only [urlparse, ite_eq_right_iff, reduceCtorEq, imp_false]

theorem before_restOf (hc : ∀ c ∈ url, isControl c = false) (hf : '#' ∉ url) :
    before '#' (restOf url) = restOf url := by
  obtain ⟨d, -, hd, -⟩ := rest_split hc
  refine before_of_not_mem fun hmem => hf ?_
  rw [hd]
  exact List.mem_append_right d hmem

theorem query_eq (hc : ∀ c ∈ url, isControl c = false) (hf : '#' ∉ url) (hp : urlparse accepts url = some p) :
    p.query = after '?' url := by
  obtain ⟨d, hq, hd, -⟩ := rest_split hc
  rw [urlparse] at hp
  obtain ⟨-, hval⟩ := Option.ite_none_right_eq_some.mp hp
  obtain rfl := Option.some.inj hval
  change after '?' (before '#' (restOf url)) = after '?' url
  rw [before_restOf hc hf, ← after_append hq, ← hd]

/-- The path is what comes before the question mark if and only if the text is path and query and nothing else. -/
theorem path_eq_iff (hc : ∀ c ∈ url, isControl c = false) (hf : '#' ∉ url) (hp : urlparse accepts url = some p) :
    p.path = before '?' url ↔ PathAndQuery url := by
  obtain ⟨d, hq, hd, hnil⟩ := rest_split hc
  rw [urlparse] at hp
  obtain ⟨-, hval⟩ := Option.ite_none_right_eq_some.mp hp
  have hpath : p.path = (splitParams (splitScheme (cleaned url)).1 (before '?' (restOf url))).1 := by
    rw [← Option.some.inj hval, before_restOf hc hf]
  obtain ⟨e, he, hparams⟩ := params_split (splitScheme (cleaned url)).1 (before '?' (restOf url))
  have hbefore : before '?' url = d ++ (p.path ++ e) := by
    rw [hpath, ← he, ← before_append hq, ← hd]
  -- with nothing in front there is no scheme, and the parameters go
  have hfront : d = [] → (e = [] ↔ ';' ∉ lastSegment (before '?' url)) := by
    rintro rfl
    obtain ⟨hspace, hscheme, -⟩ := hnil.mp rfl
    have hnone : (splitScheme (cleaned url)).1 = [] := by
      rw [cleaned_eq hc hspace]
      exact scheme_eq_nil hscheme
    have hrest : restOf url = url := hd.symm
    rw [hparams hnone, hrest]
  constructor
  · intro h
    have hlength : d ++ e = [] := by
      have hlen := congrArg List.length (h.trans hbefore)
      simp only [List.length_append] at hlen
      rw [← List.length_eq_zero_iff, List.length_append]
      omega
    obtain ⟨hdnil, henil⟩ := List.append_eq_nil_iff.mp hlength
    obtain ⟨hspace, hscheme, hnetloc⟩ := hnil.mp hdnil
    exact ⟨hspace, hscheme, hnetloc, (hfront hdnil).mp henil⟩
  · rintro ⟨hspace, hscheme, hnetloc, hsemi⟩
    have hdnil := hnil.mpr ⟨hspace, hscheme, hnetloc⟩
    have henil := (hfront hdnil).mpr hsemi
    rw [hbefore, hdnil, henil, List.nil_append, List.append_nil]

end

end UrlParse
