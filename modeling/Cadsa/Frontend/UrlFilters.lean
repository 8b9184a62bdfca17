import Cadsa.Frontend.FilterAgreement
import Cadsa.Lib.NamedValues

/-! The address bar as a store: the functions of `useFilters` and the page buttons of `Requests.tsx` change the query,
and what the pages read of it is a record of filters, a page and whatever else stands there. -/
namespace Cadsa.Frontend.UrlFilters
open Utf16 FilterAgreement
set_option autoImplicit false

abbrev Params := List (String × String)

inductive FilterKey
  | host
  | remoteIp
  | method
  | statusClass
  | path
  | country
  deriving DecidableEq

namespace FilterKey

def name : FilterKey → String
  | host => "host"
  | remoteIp => "remote_ip"
  | method => "method"
  | statusClass => "status_class"
  | path => "path"
  | country => "country"

def all : List FilterKey := [host, remoteIp, method, statusClass, path, country]

theorem mem_all (key : FilterKey) : key ∈ all := by cases key <;> decide

theorem name_eq_iff {a b : FilterKey} : a.name = b.name ↔ a = b := by cases a <;> cases b <;> decide

theorem name_ne_page (key : FilterKey) : key.name ≠ "page" := by cases key <;> decide

end FilterKey

/-! ## `useFilters` -/

def paramsOf (p : Params) : FilterAgreement.SearchParams where
  host := NamedValues.get p "host"
  remoteIp := NamedValues.get p "remote_ip"
  method := NamedValues.get p "method"
  statusClass := NamedValues.get p "status_class"
  path := NamedValues.get p "path"
  country := NamedValues.get p "country"

def filters (p : Params) : Filters := useFilters (paramsOf p)

def value (f : Filters) : FilterKey → Option JsString
  | .host => f.host
  | .remoteIp => f.remoteIp
  | .method => f.method
  | .statusClass => f.statusClass
  | .path => f.path
  | .country => f.country

inductive Operation
  | setFilter (key : FilterKey) (value : JsString)
  | removeFilter (key : FilterKey)
  | clearFilters
  | applyAllFilters (draft : Filters)
  /-- The buttons of the request log. -/
  | goToPage (page : ℕ)

/-- The value of a draft that is put into the query: not the empty string. -/
def drafted (draft : Filters) (key : FilterKey) : Option String := (orUndefined (value draft key)).map wellFormed

def perform (p : Params) : Operation → Params
  | .setFilter key value => NamedValues.delete (NamedValues.set p key.name (wellFormed value)) "page"
  | .removeFilter key => NamedValues.delete (NamedValues.delete p key.name) "page"
  | .clearFilters =>
    ["host", "remote_ip", "method", "status_class", "path", "country", "page"].foldl NamedValues.delete p
  | .applyAllFilters draft =>
    FilterKey.all.foldl (fun next key => NamedValues.put next key.name (drafted draft key)) (NamedValues.delete p "page")
  | .goToPage page => if page = 1 then NamedValues.delete p "page" else NamedValues.set p "page" (Nat.repr page)

/-! ## A record of filters -/

/-- What is read of a value of the query. -/
def read : FilterKey → Option String → Option JsString
  | .host => sliced 253
  | .remoteIp => sliced 45
  | .method => oneOf validMethods
  | .statusClass => oneOf validStatus
  | .path => sliced 2048
  | .country => countryOf

structure View where
  filters : FilterKey → Option JsString
  page : Option String
  others : List (String × String)

def isOther (name : String) : Bool := name ≠ "page" && FilterKey.all.all fun key => name ≠ key.name

def view (p : Params) : View where
  filters := value (filters p)
  page := NamedValues.get p "page"
  others := p.filter fun pair => isOther pair.1

/-- The operation on the record: each filter is its own, and with any of them the list starts at its first page. -/
def performOnView (v : View) : Operation → View
  | .setFilter key value =>
    { v with filters := Function.update v.filters key (read key (some (wellFormed value))), page := none }
  | .removeFilter key => { v with filters := Function.update v.filters key none, page := none }
  | .clearFilters => { v with filters := fun _ => none, page := none }
  | .applyAllFilters draft => { v with filters := fun key => read key (drafted draft key), page := none }
  | .goToPage page => { v with page := if page = 1 then none else some (Nat.repr page) }

section
variable (p : Params)

theorem value_filters (key : FilterKey) : value (filters p) key = read key (NamedValues.get p key.name) := by
  cases key <;> rfl

theorem read_none (key : FilterKey) : read key none = none := by
  cases key <;> decide

theorem isOther_name (key : FilterKey) : isOther key.name = false := by cases key <;> decide

/-- A view is what is read of every name, and the rest. -/
theorem view_eq {p : Params} {v : View} (hfilters : ∀ key, read key (NamedValues.get p key.name) = v.filters key)
    (hpage : NamedValues.get p "page" = v.page) (hothers : p.filter (fun pair => isOther pair.1) = v.others) :
    view p = v := by
  have hvalues : value (filters p) = v.filters := funext fun key => (value_filters p key).trans (hfilters key)
  rw [view, hvalues, hpage, hothers]

theorem get_foldl_delete (names : List String) (name : String) :
    NamedValues.get (names.foldl NamedValues.delete p) name = if name ∈ names then none else NamedValues.get p name := by
  induction names generalizing p with
  | nil => simp
  | cons first names ih =>
    rw [List.foldl_cons, ih, NamedValues.get_delete]
    by_cases hfirst : name = first
    all_goals simp [hfirst]

theorem filter_foldl_delete {names : List String} (h : ∀ name ∈ names, isOther name = false) :
    (names.foldl NamedValues.delete p).filter (fun pair => isOther pair.1) = p.filter fun pair => isOther pair.1 := by
  induction names generalizing p with
  | nil => rfl
  | cons first names ih =>
    obtain ⟨hfirst, h⟩ := List.forall_mem_cons.mp h
    exact (ih _ h).trans (NamedValues.filter_delete isOther hfirst p)

section
variable (put : FilterKey → Option String)

theorem get_foldl_put (keys : List FilterKey) (name : String) (hname : ∀ key ∈ keys, name ≠ FilterKey.name key) :
    NamedValues.get (keys.foldl (fun next key => NamedValues.put next key.name (put key)) p) name =
      NamedValues.get p name := by
  induction keys generalizing p with
  | nil => rfl
  | cons first keys ih =>
    obtain ⟨hfirst, hname⟩ := List.forall_mem_cons.mp hname
    rw [List.foldl_cons, ih _ hname, NamedValues.get_put, if_neg hfirst]

theorem get_foldl_put_key {keys : List FilterKey} (hnodup : keys.Nodup) {key : FilterKey} (hkey : key ∈ keys) :
    NamedValues.get (keys.foldl (fun next key => NamedValues.put next key.name (put key)) p) key.name = put key := by
  induction keys generalizing p with
  | nil => cases hkey
  | cons first keys ih =>
    obtain ⟨hfirst, hnodup⟩ := List.nodup_cons.mp hnodup
    rw [List.foldl_cons]
    obtain rfl | hkey := List.mem_cons.mp hkey
    · rw [get_foldl_put, NamedValues.get_put, if_pos rfl]
      exact fun other hother hsame => hfirst (FilterKey.name_eq_iff.mp hsame ▸ hother)
    · exact ih _ hnodup hkey

theorem filter_foldl_put (keys : List FilterKey) :
    (keys.foldl (fun next key => NamedValues.put next key.name (put key)) p).filter (fun pair => isOther pair.1) =
      p.filter fun pair => isOther pair.1 := by
  induction keys generalizing p with
  | nil => rfl
  | cons first keys ih => exact (ih _).trans (NamedValues.filter_put isOther (isOther_name first) p (put first))

end

theorem view_step (operation : Operation) : view (perform p operation) = performOnView (view p) operation := by
  cases operation with
  | setFilter key value =>
    apply view_eq
    · intro other
      rw [perform, NamedValues.get_delete, if_neg other.name_ne_page, NamedValues.get_set]
      by_cases hkey : other = key
      · subst hkey
        simp [performOnView]
      · simp [performOnView, view, hkey, FilterKey.name_eq_iff, value_filters]
    · exact (NamedValues.get_delete _ _ _).trans (if_pos rfl)
    · exact (NamedValues.filter_delete isOther rfl _).trans (NamedValues.filter_set isOther (isOther_name key) p _)
  | removeFilter key =>
    apply view_eq
    · intro other
      rw [perform, NamedValues.get_delete, if_neg other.name_ne_page, NamedValues.get_delete]
      by_cases hkey : other = key
      · subst hkey
        simp [performOnView, read_none]
      · simp [performOnView, view, hkey, FilterKey.name_eq_iff, value_filters]
    · exact (NamedValues.get_delete _ _ _).trans (if_pos rfl)
    · exact (NamedValues.filter_delete isOther rfl _).trans (NamedValues.filter_delete isOther (isOther_name key) p)
  | clearFilters =>
    apply view_eq
    · intro key
      rw [perform, get_foldl_delete, if_pos (by cases key <;> decide)]
      exact read_none key
    · exact (get_foldl_delete p _ _).trans (if_pos (by decide))
    · exact filter_foldl_delete p (by decide)
  | applyAllFilters draft =>
    apply view_eq
    · intro key
      rw [perform, get_foldl_put_key _ _ (by decide) key.mem_all]
      rfl
    · have hpage := get_foldl_put (NamedValues.delete p "page") (drafted draft) FilterKey.all "page"
        fun key _ => key.name_ne_page.symm
      exact hpage.trans ((NamedValues.get_delete _ _ _).trans (if_pos rfl))
    · exact (filter_foldl_put _ _ _).trans (NamedValues.filter_delete isOther rfl p)
  | goToPage page =>
    have hname : ∀ key : FilterKey, NamedValues.get (perform p (.goToPage page)) key.name =
        NamedValues.get p key.name := by
      intro key
      rw [perform]
      split_ifs
      all_goals simp [key.name_ne_page]
    apply view_eq
    · intro key
      rw [hname key]
      exact (value_filters p key).symm
    · rw [perform]
      split_ifs with hfirst
      all_goals simp [performOnView, hfirst]
    · rw [perform]
      split_ifs
      · exact NamedValues.filter_delete isOther rfl p
      · exact NamedValues.filter_set isOther rfl p _

/-- **The address bar is the record**: after any operations the pages read of the query what the operations make of the
record; no filter is changed through another, and what else stands in the query stays as it is. -/
theorem url_refines (operations : List Operation) :
    view (operations.foldl perform p) = operations.foldl performOnView (view p) := by
  induction operations generalizing p with
  | nil => rfl
  | cons operation operations ih => rw [List.foldl_cons, ih, view_step, List.foldl_cons]

end

/-! ## Applying a draft that was not changed -/

/-- What a cut leaves is read again as it is, if and only if it has lost no half of a pair. -/
theorem sliced_again (n : ℕ) (raw : Option String) :
    sliced n ((orUndefined (sliced n raw)).map wellFormed) = sliced n raw ↔ Whole ((sliced n raw).getD []) := by
  cases hread : sliced n raw with
  | none => exact iff_of_true rfl nofun
  | some w =>
    have hsome : orUndefined (raw.map fun s => (ofText s).take n) = some w := hread
    obtain ⟨hraw, hne⟩ := Option.filter_eq_some_iff.mp hsome
    obtain ⟨s, -, hs⟩ := Option.map_eq_some_iff.mp hraw
    have hw : w ≠ [] := by simpa using hne
    have hkept : orUndefined (some w) = some w := Option.filter_eq_some_iff.mpr ⟨rfl, hne⟩
    have hlength : w.length ≤ n := hs ▸ List.length_take_le n _
    rw [hkept]
    show orUndefined (some ((ofText (wellFormed w)).take n)) = some w ↔ Whole w
    have htext : ofText (wellFormed w) = units (toWellFormed w) := by
      rw [wellFormed, ofText, String.toList_ofList]
    rw [htext]
    constructor
    · intro hagain
      have hshared := Option.some.inj (Option.filter_eq_some_iff.mp hagain).1
      have hinfix : w <:+: units (toWellFormed w) := by
        have htake := (List.take_prefix n (units (toWellFormed w))).isInfix
        rwa [hshared] at htake
      rw [← hs] at hinfix ⊢
      exact whole_of_infix n hinfix
    · intro hwhole
      obtain ⟨text, rfl⟩ := exists_ofText ⟨s.toList, n, hs.symm⟩ hwhole
      rw [toWellFormed_ofText]
      exact (congrArg (fun v => orUndefined (some v)) (List.take_of_length_le hlength)).trans hkept

theorem oneOf_again {valid : List String} (hempty : "" ∉ valid) (raw : Option String) :
    oneOf valid ((orUndefined (oneOf valid raw)).map wellFormed) = oneOf valid raw := by
  by_cases hvalid : raw.getD "" ∈ valid
  · cases raw with
    | none => exact absurd hvalid hempty
    | some s =>
      have hne : ofText s ≠ [] := fun h => hempty (ofText_eq_nil.mp h ▸ hvalid)
      have hread : oneOf valid (some s) = some (ofText s) := if_pos hvalid
      have hkept : orUndefined (some (ofText s)) = some (ofText s) :=
        Option.filter_eq_some_iff.mpr ⟨rfl, by simpa using hne⟩
      rw [hread, hkept, Option.map_some, wellFormed_ofText, hread]
  · have hread : oneOf valid raw = none := if_neg hvalid
    rw [hread]
    exact if_neg hempty

theorem isAlpha_toUpper {c : Char} (h : c.isAlpha = true) : c.toUpper.isAlpha = true :=
  alpha_cases (P := fun c => c.toUpper.isAlpha = true) (by decide +kernel) h

/-- Two capital letters at most. -/
def IsCode (letters : List Char) : Prop := (∀ c ∈ letters, c.isAlpha = true ∧ c.toUpper = c) ∧ letters.length ≤ 2

theorem countryOf_some (s : String) :
    ∃ letters, IsCode letters ∧ countryOf (some s) = orUndefined (some (units letters)) := by
  let letters := (s.toList.filter Char.isAlpha).map Char.toUpper
  have hcapital : ∀ c ∈ letters, c.isAlpha = true ∧ c.toUpper = c := by
    intro c hc
    obtain ⟨d, hd, rfl⟩ := List.mem_map.mp hc
    have halpha := (List.mem_filter.mp hd).2
    exact ⟨isAlpha_toUpper halpha, (toUpper_alpha halpha).2⟩
  have hascii : ∀ c ∈ letters, c.val.toNat < 0x10000 := by
    intro c hc
    obtain ⟨d, hd, rfl⟩ := List.mem_map.mp hc
    exact (toUpper_alpha (List.mem_filter.mp hd).2).1.trans (by decide)
  have hletters : (String.ofList (s.toList.filter Char.isAlpha)).toUpper.toList = letters := by
    rw [String.toUpper, String.toList_map, String.toList_ofList]
  refine ⟨letters.take 2, ⟨fun c hc => hcapital c (List.mem_of_mem_take hc), List.length_take_le 2 letters⟩, ?_⟩
  rw [countryOf, sliced, Option.map_some, Option.map_some, ofText, hletters, take_units_of_lt hascii]

theorem countryOf_code {letters : List Char} (h : IsCode letters) :
    countryOf (some (String.ofList letters)) = orUndefined (some (units letters)) := by
  have hfilter : letters.filter Char.isAlpha = letters := List.filter_eq_self.mpr fun c hc => (h.1 c hc).1
  have hmap : letters.map Char.toUpper = letters :=
    (List.map_congr_left fun c hc => (h.1 c hc).2).trans (List.map_id letters)
  have hascii : ∀ c ∈ letters, c.val.toNat < 0x10000 := by
    intro c hc
    rw [← (h.1 c hc).2]
    exact (toUpper_alpha (h.1 c hc).1).1.trans (by decide)
  rw [countryOf, sliced, Option.map_some, Option.map_some, ofText, String.toUpper, String.toList_map,
    String.toList_ofList,
    String.toList_ofList, hfilter, hmap, take_units_of_lt hascii, List.take_of_length_le h.2]

theorem countryOf_again (raw : Option String) :
    countryOf ((orUndefined (countryOf raw)).map wellFormed) = countryOf raw := by
  cases raw with
  | none => rfl
  | some s =>
    obtain ⟨letters, hcode, hread⟩ := countryOf_some s
    rw [hread]
    by_cases hnone : letters = []
    · subst hnone
      rfl
    · have hne : units letters ≠ [] := fun h => hnone (units_injective h)
      have hkept : orUndefined (some (units letters)) = some (units letters) :=
        Option.filter_eq_some_iff.mpr ⟨rfl, by simpa using hne⟩
      rw [hkept, hkept, Option.map_some, wellFormed, toWellFormed_units, countryOf_code hcode, hkept]

section
variable (p : Params)

theorem value_injective {f g : Filters} (h : value f = value g) : f = g := by
  have hvalue := fun key => congrFun h key
  obtain ⟨host, remoteIp, method, statusClass, path, country⟩ := f
  obtain rfl : host = g.host := hvalue .host
  obtain rfl : remoteIp = g.remoteIp := hvalue .remoteIp
  obtain rfl : method = g.method := hvalue .method
  obtain rfl : statusClass = g.statusClass := hvalue .statusClass
  obtain rfl : path = g.path := hvalue .path
  obtain rfl : country = g.country := hvalue .country
  rfl

theorem value_applied (key : FilterKey) :
    value (filters (perform p (.applyAllFilters (filters p)))) key = read key (drafted (filters p) key) :=
  congrFun (congrArg View.filters (view_step p (.applyAllFilters (filters p)))) key

/-- **The drawer, opened and applied**: the filters stay what they are, if and only if none of the three that are cut to
a length has lost half of its last character. -/
theorem draft_unchanged_iff :
    filters (perform p (.applyAllFilters (filters p))) = filters p ↔
      Whole ((filters p).host.getD []) ∧ Whole ((filters p).remoteIp.getD []) ∧ Whole ((filters p).path.getD []) := by
  have hhost := sliced_again 253 (paramsOf p).host
  have hip := sliced_again 45 (paramsOf p).remoteIp
  have hpath := sliced_again 2048 (paramsOf p).path
  constructor
  · intro hsame
    have hread := fun key => (value_applied p key).symm.trans (congrArg (value · key) hsame)
    exact ⟨hhost.mp (hread .host), hip.mp (hread .remoteIp), hpath.mp (hread .path)⟩
  · rintro ⟨hwholeHost, hwholeIp, hwholePath⟩
    refine value_injective (funext fun key => (value_applied p key).trans ?_)
    cases key with
    | host => exact hhost.mpr hwholeHost
    | remoteIp => exact hip.mpr hwholeIp
    | method => exact oneOf_again (by decide) _
    | statusClass => exact oneOf_again (by decide) _
    | path => exact hpath.mpr hwholePath
    | country => exact countryOf_again _

end

end Cadsa.Frontend.UrlFilters
