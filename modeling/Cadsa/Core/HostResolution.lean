import Cadsa.Core.CleanNames

/-! The levels of `resolve_host`, for entries whose fields are texts or missing. -/
namespace Cadsa.LogParser
open AddressText Lowercase PyJson PyText
set_option autoImplicit false

section
variable (py : Python) (loggerToHosts : List (String × List String)) (label : String) (m : List (String × Json))

/-- `request.host`, the name of the TLS handshake and the `Host` header. -/
def hostFields : List Json :=
  [deepGet (.obj m) ["request", "host"], deepGet (.obj m) ["request", "tls", "server_name"],
    getHeader py (.obj m) "Host"]

def textOf : Json → Option String
  | .str s => some s
  | _ => none

def TextOrAbsent (j : Json) : Prop := j = .null ∨ ∃ s, j = .str s

/-- The fields that a host is taken from are texts or missing. -/
def HostTyped : Prop := ∀ j ∈ hostFields py m, TextOrAbsent j

/-- The texts of the first three levels. -/
def hostTexts : List String := (hostFields py m).filterMap textOf

/-- The part of a logger's name behind its last dot. -/
def idOf (logger : String) : String := String.ofList (logger.toList.rtakeWhile (· ≠ '.'))

/-- The first host that the Admin API has for the logger. -/
def mappedHost (logger : String) : Option String :=
  if idOf logger = "" then none else ((loggerToHosts.lookup (idOf logger)).getD []).head?

def labelHost : String := if label = "" then "unknown" else label

def mappedOrLabel (logger : String) : String := (mappedHost loggerToHosts logger).getD (labelHost label)

def usable (host : String) : Bool := host ≠ ""

/-- The first usable level: a text that is not empty once it is cleaned, a mapped host, the label. -/
def usableHost (logger : String) : String :=
  (((hostTexts py m).map (cleanHost py)).find? usable).getD (mappedOrLabel loggerToHosts label logger)

end

section
variable {py : Python} {loggerToHosts : List (String × List String)} {label logger : String} {m : List (String × Json)}

/-! ## What the code takes -/

theorem nonblank_text (s : String) : nonblank py (.str s) = decide (strip s.toList ≠ []) := by
  rw [nonblank, Json.truthy, text, Json.pyStr]
  by_cases hs : s = ""
  · rw [hs]
    rfl
  · rw [decide_eq_true hs, Bool.true_and]

/-- A name without dots is an id. -/
theorem idOf_plain {s : String} (h : '.' ∉ s.toList) : idOf s = s := by
  rw [idOf, List.rtakeWhile_eq_self_iff.mpr fun c hc => decide_eq_true (ne_of_mem_of_not_mem hc h), String.ofList_toList]

theorem loggerId_text (s : String) : loggerId (.str s) = .ok (.str (idOf s)) := by
  rw [loggerId, Json.contains]
  by_cases hdot : ".".toList <:+: s.toList
  · rw [decide_eq_true hdot]
    rfl
  · rw [decide_eq_false hdot]
    have hnone : '.' ∉ s.toList := fun hmem => hdot (by
      obtain ⟨a, b, hab⟩ := List.append_of_mem hmem
      exact ⟨a, b, by rw [hab, List.append_assoc]; rfl⟩)
    rw [idOf_plain hnone]
    rfl

theorem fallbackHost_text (s : String) : fallbackHost loggerToHosts label (.str s) =
    .ok ((if s = "" then none else ((loggerToHosts.lookup s).getD []).head?).getD (labelHost label)) := by
  rw [fallbackHost, Json.truthy]
  by_cases hs : s = ""
  · rw [decide_eq_false (not_ne_iff.mpr hs), if_neg Bool.false_ne_true, if_pos hs]
    rfl
  · rw [decide_eq_true hs, if_pos rfl, if_neg hs, List.headD_eq_head?_getD]
    rfl

theorem headerGiven_text {j : Json} (hj : TextOrAbsent j) : headerGiven j = .ok (nonblank py j) := by
  obtain rfl | ⟨s, rfl⟩ := hj
  · rfl
  · rw [nonblank_text]
    rfl

def given (s : String) : Bool := strip s.toList ≠ []

theorem find_given {j : Json} (hj : TextOrAbsent j) (js : List Json) : ((j :: js).filterMap textOf).find? given =
    if nonblank py j then some (text py j) else (js.filterMap textOf).find? given := by
  obtain rfl | ⟨s, rfl⟩ := hj
  · rfl
  · rw [nonblank_text, List.filterMap_cons]
    change (s :: js.filterMap textOf).find? given = if given s then some s else _
    cases hs : given s with
    | true => rw [List.find?_cons_of_pos hs, if_pos rfl]
    | false => rw [List.find?_cons_of_neg (by rw [hs]; exact Bool.false_ne_true), if_neg Bool.false_ne_true]

/-- The first text that is not blank is taken, whatever is left of it. -/
theorem resolveHost_typed (htyped : HostTyped py m) (hlogger : loggerName m = .str logger) :
    resolveHost py loggerToHosts label m = .ok ((((hostTexts py m).find? given).map (cleanHost py)).getD
      (mappedOrLabel loggerToHosts label logger)) := by
  rw [HostTyped, hostFields, List.forall_mem_cons, List.forall_mem_cons, List.forall_mem_singleton] at htyped
  obtain ⟨hhost, hsni, hheader⟩ := htyped
  rw [resolveHost, hostTexts, hostFields, find_given hhost, find_given hsni, find_given hheader,
    @headerGiven_text py _ hheader, hlogger, loggerId_text]
  by_cases h1 : nonblank py (deepGet (.obj m) ["request", "host"]) = true
  · rw [if_pos h1, if_pos h1, Option.map_some, Option.getD_some]
  rw [if_neg h1, if_neg h1]
  by_cases h2 : nonblank py (deepGet (.obj m) ["request", "tls", "server_name"]) = true
  · rw [if_pos h2, if_pos h2, Option.map_some, Option.getD_some]
  rw [if_neg h2, if_neg h2]
  change (if nonblank py (getHeader py (.obj m) "Host") = true then _ else _) = _
  by_cases h3 : nonblank py (getHeader py (.obj m) "Host") = true
  · rw [if_pos h3, if_pos h3, Option.map_some, Option.getD_some]
    rfl
  · rw [if_neg h3, if_neg h3, List.filterMap_nil, List.find?_nil, Option.map_none, Option.getD_none, mappedOrLabel,
      mappedHost, ← fallbackHost_text (idOf logger)]
    rfl

/-! ## What cleaning erases -/

/-- Nothing is left but dots and blanks, or the name in front of the port or in brackets is empty. -/
def Degenerate (s : String) : Prop :=
  let h := (strip s.toList).rdropWhile (· = '.')
  h = [] ∨ ['[', ']'] <+: h ∨ h.count ':' = 1 ∧ [':'] <+: h

theorem cut_nothing_iff {c : Char} {x : List Char} (hne : x ≠ []) : x.takeWhile (· ≠ c) = [] ↔ [c] <+: x := by
  cases x with
  | nil => exact absurd rfl hne
  | cons d x =>
    rw [List.cons_prefix_cons, and_iff_left List.nil_prefix, List.takeWhile_cons]
    by_cases hd : d = c
    · rw [hd, decide_eq_false fun h => h rfl, if_neg Bool.false_ne_true]
      exact iff_of_true rfl rfl
    · rw [decide_eq_true hd, if_pos rfl]
      exact iff_of_false (List.cons_ne_nil d _) (Ne.symm hd)

theorem cleanHost_empty_iff (hlower : Lowercases py.lower) (s : String) : cleanHost py s = "" ↔ Degenerate s := by
  have hnil (x : List Char) : py.lower (String.ofList x) = "" ↔ x = [] := by
    rw [lower_eq_empty hlower, String.ofList_eq_empty_iff]
  rw [cleanHost, Degenerate]
  generalize (strip s.toList).rdropWhile (· = '.') = h
  dsimp only
  by_cases hempty : h = []
  · rw [if_pos hempty]
    exact iff_of_true rfl (.inl hempty)
  rw [if_neg hempty, hnil, or_iff_right hempty]
  split
  · rename_i rest
    have hcolon : ¬ (('[' :: rest).count ':' = 1 ∧ [':'] <+: '[' :: rest) := fun h =>
      absurd (List.cons_prefix_cons.mp h.2).1 (by decide)
    rw [or_iff_left hcolon, List.cons_prefix_cons, and_iff_right rfl]
    by_cases hclose : ']' ∈ rest
    · rw [if_pos hclose]
      exact cut_nothing_iff (List.ne_nil_of_mem hclose)
    · rw [if_neg hclose]
      exact iff_of_false (List.cons_ne_nil _ _) fun hpre => hclose (hpre.subset (List.mem_singleton_self _))
  · rename_i hopen
    have hbracket : ¬ ['[', ']'] <+: h := by
      rintro ⟨t, rfl⟩
      exact hopen _ rfl
    rw [or_iff_right hbracket]
    by_cases hport : h.count ':' = 1
    · rw [if_pos hport, and_iff_right hport]
      exact cut_nothing_iff hempty
    · rw [if_neg hport]
      exact iff_of_false hempty fun hp => hport hp.1

theorem degenerate_blank {s : String} (h : given s = false) : Degenerate s := by
  have hstrip : strip s.toList = [] := not_ne_iff.mp (of_decide_eq_false h)
  rw [Degenerate, hstrip]
  exact .inl rfl

/-! ## The levels in order -/

theorem find_map_cleanHost (hlower : Lowercases py.lower) {texts : List String} :
    (texts.map (cleanHost py)).find? usable = (texts.find? given).map (cleanHost py) ↔
      ∀ s, texts.find? given = some s → ¬ Degenerate s := by
  induction texts with
  | nil => exact iff_of_true rfl fun s hs => by cases hs
  | cons s texts ih =>
    cases hs : given s with
    | false =>
      have hclean : cleanHost py s = "" := (cleanHost_empty_iff hlower s).mpr (degenerate_blank hs)
      rw [List.find?_cons_of_neg (by rw [hs]; exact Bool.false_ne_true), List.map_cons,
        List.find?_cons_of_neg (by rw [hclean]; decide)]
      exact ih
    | true =>
      rw [List.find?_cons_of_pos hs, List.map_cons, Option.map_some]
      have hone : (∀ t, some s = some t → ¬ Degenerate t) ↔ ¬ Degenerate s :=
        ⟨fun h => h s rfl, fun h t ht => Option.some.inj ht ▸ h⟩
      rw [hone, ← cleanHost_empty_iff hlower]
      by_cases hclean : cleanHost py s = ""
      · rw [List.find?_cons_of_neg (by rw [hclean]; decide), hclean]
        refine iff_of_false (fun h => ?_) (fun h => h rfl)
        exact absurd (List.find?_some h) (by decide)
      · have huse : usable (cleanHost py s) = true := decide_eq_true hclean
        rw [List.find?_cons_of_pos huse]
        exact iff_of_true rfl hclean

/-- The host is not empty, and the one of the first usable level. -/
def ResolvesUsable (py : Python) (loggerToHosts : List (String × List String)) (label : String)
    (m : List (String × Json)) (logger : String) : Prop :=
  ∃ host, resolveHost py loggerToHosts label m = .ok host ∧ host ≠ "" ∧
    host = usableHost py loggerToHosts label m logger

theorem labelHost_nonempty (label : String) : labelHost label ≠ "" := by
  rw [labelHost]
  split_ifs with h
  · decide
  · exact h

theorem usableHost_nonempty (hnames : ∀ hosts ∈ loggerToHosts, ∀ h ∈ hosts.2, h ≠ "") :
    usableHost py loggerToHosts label m logger ≠ "" := by
  have hmapped : mappedOrLabel loggerToHosts label logger ≠ "" := by
    rw [mappedOrLabel]
    cases hhost : mappedHost loggerToHosts logger with
    | none => exact labelHost_nonempty label
    | some host =>
      rw [mappedHost] at hhost
      split_ifs at hhost
      cases hlookup : loggerToHosts.lookup (idOf logger) with
      | none =>
        rw [hlookup] at hhost
        cases hhost
      | some hosts =>
        rw [hlookup] at hhost
        obtain ⟨before, after, hmem, -⟩ := List.lookup_eq_some_iff.mp hlookup
        refine hnames (idOf logger, hosts) ?_ host (List.mem_of_head? hhost)
        rw [hmem]
        exact List.mem_append_right before List.mem_cons_self
  rw [usableHost]
  cases hfind : ((hostTexts py m).map (cleanHost py)).find? usable with
  | none =>
    rw [Option.getD_none]
    exact hmapped
  | some host =>
    have huse := List.find?_some hfind
    exact of_decide_eq_true huse

theorem resolves_usable_iff (hlower : Lowercases py.lower) (htyped : HostTyped py m)
    (hlogger : loggerName m = .str logger) (hnames : ∀ hosts ∈ loggerToHosts, ∀ h ∈ hosts.2, h ≠ "") :
    ResolvesUsable py loggerToHosts label m logger ↔
      ∀ s, (hostTexts py m).find? given = some s → ¬ Degenerate s := by
  rw [ResolvesUsable, resolveHost_typed htyped hlogger]
  constructor
  · rintro ⟨host, hhost, hne, -⟩ s hs hdegenerate
    rw [hs, Option.map_some, Option.getD_some, Except.ok.injEq] at hhost
    exact hne (hhost ▸ (cleanHost_empty_iff hlower s).mpr hdegenerate)
  · intro h
    have hsame := (find_map_cleanHost hlower).mpr h
    refine ⟨usableHost py loggerToHosts label m logger, ?_, usableHost_nonempty hnames, rfl⟩
    rw [usableHost, hsame]

end

/-! ## Entries at work -/

def hostEntry (host sni : String) : List (String × Json) :=
  [("request", .obj [("host", .str host), ("tls", .obj [("server_name", .str sni)])])]

theorem hostTyped_hostEntry (host sni : String) : HostTyped asciiLibrary (hostEntry host sni) := by
  rw [HostTyped, hostFields, List.forall_mem_cons, List.forall_mem_cons, List.forall_mem_singleton]
  exact ⟨.inr ⟨host, rfl⟩, .inr ⟨sni, rfl⟩, .inl rfl⟩

theorem blank_host_skipped : ResolvesUsable asciiLibrary [] "" (hostEntry " " "example.com") "" := by
  refine (resolves_usable_iff lowercases_asciiLibrary (hostTyped_hostEntry " " "example.com") rfl
    fun hosts hmem => absurd hmem List.not_mem_nil).mpr fun s hs => ?_
  have hfirst : (hostTexts asciiLibrary (hostEntry " " "example.com")).find? given = some "example.com" := by decide
  rw [hfirst, Option.some.injEq] at hs
  rw [← hs, ← cleanHost_empty_iff lowercases_asciiLibrary]
  decide

/-- A host of one dot is not blank, and nothing is left of it. -/
theorem dot_host_empty : ¬ ∀ (py : Python) (loggerToHosts : List (String × List String)) (label : String)
    (m : List (String × Json)) (logger : String), Lowercases py.lower → HostTyped py m → loggerName m = .str logger →
    (∀ hosts ∈ loggerToHosts, ∀ h ∈ hosts.2, h ≠ "") → ResolvesUsable py loggerToHosts label m logger := by
  intro h
  have hnames : ∀ hosts ∈ ([] : List (String × List String)), ∀ h ∈ hosts.2, h ≠ "" := fun hosts hmem =>
    absurd hmem List.not_mem_nil
  have hall := (resolves_usable_iff lowercases_asciiLibrary (hostTyped_hostEntry "." "example.com") rfl hnames).mp
    (h asciiLibrary [] "" (hostEntry "." "example.com") "" lowercases_asciiLibrary
      (hostTyped_hostEntry "." "example.com") rfl hnames)
  have hfirst : (hostTexts asciiLibrary (hostEntry "." "example.com")).find? given = some "." := by decide
  exact hall "." hfirst ((cleanHost_empty_iff lowercases_asciiLibrary ".").mp (by decide))

end Cadsa.LogParser
