import Cadsa.Db.Timeseries
import Cadsa.Frontend.RealTime
import Cadsa.Lib.Lowercase
import Cadsa.Lib.Utf16

/-! One set of filters, applied by the database to the history and by the page to the live view. The values
come from the address bar (`useFilters`); the strings of the browser are lists of UTF-16 code units, and
cutting one may leave half a pair. -/
namespace Cadsa.Frontend.FilterAgreement
open Utf16 Analytics Realtime
set_option autoImplicit false

abbrev JsString := List ℕ

structure Filters where
  host : Option JsString
  remoteIp : Option JsString
  method : Option JsString
  statusClass : Option JsString
  path : Option JsString
  country : Option JsString

/-- `searchParams.get` gives no half pairs. -/
structure SearchParams where
  host : Option String
  remoteIp : Option String
  method : Option String
  statusClass : Option String
  path : Option String
  country : Option String

/-! ## `useFilters` -/

def ofText (s : String) : JsString := units s.toList

def orUndefined (v : Option JsString) : Option JsString := v.filter fun w => w ≠ []

def sliced (n : ℕ) (v : Option String) : Option JsString := orUndefined (v.map fun s => (ofText s).take n)

def validMethods : List String := ["GET", "POST", "PUT", "DELETE", "PATCH", "HEAD", "OPTIONS"]

def validStatus : List String := ["2xx", "3xx", "4xx", "5xx"]

def oneOf (valid : List String) (v : Option String) : Option JsString :=
  if v.getD "" ∈ valid then v.map ofText else none

/-- Without anything but letters, in upper case, two of them. -/
def countryOf (v : Option String) : Option JsString :=
  sliced 2 (v.map fun s => (String.ofList (s.toList.filter Char.isAlpha)).toUpper)

def useFilters (p : SearchParams) : Filters where
  host := sliced 253 p.host
  remoteIp := sliced 45 p.remoteIp
  method := oneOf validMethods p.method
  statusClass := oneOf validStatus p.statusClass
  path := sliced 2048 p.path
  country := countryOf p.country

/-! ## The history -/

/-- What the server receives of a string of the browser. -/
def wellFormed (w : JsString) : String := String.ofList (toWellFormed w)

/-- `buildParams` sets what is not empty, and `_get_filters` takes `value or None`. -/
def received (v : Option JsString) : Option String := ((orUndefined v).map wellFormed).filter fun s => s ≠ ""

def requestFilter (f : Filters) : RequestFilter where
  host := received f.host
  remoteIp := received f.remoteIp
  method := received f.method
  statusClass := received f.statusClass
  path := received f.path
  countryCode := received f.country

/-- The conditions of `build_where` but for the time range. -/
def selects (f : Filters) (r : Request) : Bool := (requestFilter f).conditions.all (·.holds r)

/-! ## The live view -/

/-- The row as the server broadcasts it. -/
def liveRow (r : Request) : RequestRow where
  host := some r.host
  statusClass := r.statusClass
  remoteIp := some r.remoteIp
  method := r.method
  path := r.path
  countryCode := r.countryCode
  durationMs := r.durationMs
  requestBytes := r.requestBytes
  responseBytes := r.responseBytes

def isEqual (wanted : Option JsString) (value : Option String) : Bool :=
  wanted.getD [] = [] || value.map ofText = some (wanted.getD [])

def isIncluded (wanted : Option JsString) (value : Option String) : Bool :=
  wanted.getD [] = [] || value.any fun path => wanted.getD [] <:+: ofText path

def rowMatchesFilters (r : RequestRow) (f : Filters) : Bool :=
  isEqual f.host r.host && isEqual f.remoteIp r.remoteIp && isEqual f.method r.method &&
    isEqual f.statusClass r.statusClass && isIncluded f.path r.path && isEqual f.country r.countryCode

def Agree (f : Filters) : Prop := ∀ r : Request, selects f r = rowMatchesFilters (liveRow r) f

/-- No value lost half of its last character, and the path has no character that `LIKE` reads as a pattern. -/
structure Literal (f : Filters) : Prop where
  host : Whole (f.host.getD [])
  remoteIp : Whole (f.remoteIp.getD [])
  path : Whole (f.path.getD [])
  noPercent : '%' ∉ toWellFormed (f.path.getD [])
  noUnderscore : '_' ∉ toWellFormed (f.path.getD [])

/-! ## `LIKE` -/

section
variable {p s t : List Char}

theorem like_percent (p s : List Char) : like ('%' :: p) s = s.tails.any (like p) := by rw [like]

theorem like_cons {c : Char} (hc : c ≠ '%') (p : List Char) (d : Char) (s : List Char) :
    like (c :: p) (d :: s) = ((c = '_' || c = d) && like p s) := by
  rw [like]
  exact fun h => hc h

theorem like_any (s : List Char) : like ['%'] s = true := by
  rw [like_percent, List.any_eq_true]
  exact ⟨[], (List.mem_tails _ _).mpr (List.nil_suffix), rfl⟩

/-- A pattern matches what it is made of when its special characters are put in place of each other. -/
theorem like_map {g : Char → Char} (hg : ∀ c, c ≠ '%' → c ≠ '_' → g c = c) (s : List Char) :
    like (s ++ ['%']) (s.map g) = true := by
  induction s with
  | nil => exact like_any []
  | cons c s ih =>
    by_cases hp : c = '%'
    · subst hp
      rw [List.cons_append, like_percent, List.any_eq_true]
      exact ⟨s.map g, (List.mem_tails _ _).mpr (List.suffix_cons _ _), ih⟩
    · rw [List.cons_append, List.map_cons, like_cons hp, ih, Bool.and_true]
      by_cases hu : c = '_'
      · simp [hu]
      · simp [hg c hp hu]

theorem like_starting (hp : '%' ∉ p) (hu : '_' ∉ p) : like (p ++ ['%']) s = decide (p <+: s) := by
  induction p generalizing s with
  | nil => simp [like_any]
  | cons c p ih =>
    obtain ⟨hcp, hp⟩ := not_or.mp (mt List.mem_cons.mpr hp)
    obtain ⟨hcu, hu⟩ := not_or.mp (mt List.mem_cons.mpr hu)
    cases s with
    | nil =>
      rw [List.cons_append, like]
      · simp
      · exact fun h => hcp h.symm
    | cons d s =>
      rw [List.cons_append, like_cons (Ne.symm hcp), ih hp hu]
      simp [List.cons_prefix_cons, Ne.symm hcu]

/-- Without special characters the pattern `%p%` looks for an occurrence. -/
theorem like_infix (hp : '%' ∉ p) (hu : '_' ∉ p) : like ('%' :: (p ++ ['%'])) s = decide (p <:+: s) := by
  rw [like_percent, Bool.eq_iff_iff, List.any_eq_true, decide_eq_true_eq]
  simp only [like_starting hp hu, List.mem_tails, decide_eq_true_eq, List.infix_iff_prefix_suffix]
  exact exists_congr fun _ => and_comm

end

/-! ## The values that the page can hold -/

/-- A text cut to a number of units. -/
def IsCut (w : JsString) : Prop := ∃ s n, w = (units s).take n

/-- A text that `upper` leaves as it is. -/
def IsUpper (w : JsString) : Prop := ∃ s : String, w = ofText s ∧ s.toUpper = s

theorem getD_orUndefined (v : Option JsString) : (orUndefined v).getD [] = v.getD [] := by
  cases v with
  | none => rfl
  | some w =>
    rw [orUndefined, Option.filter_some]
    split_ifs with hw
    · rfl
    · simpa using (Eq.symm (by simpa using hw) : [] = w)

theorem isCut_sliced (n : ℕ) (v : Option String) : IsCut ((sliced n v).getD []) := by
  rw [sliced, getD_orUndefined]
  cases v with
  | none => exact ⟨[], 0, rfl⟩
  | some s => exact ⟨s.toList, n, rfl⟩

theorem isUpper_method (v : Option String) : IsUpper ((oneOf validMethods v).getD []) := by
  rw [oneOf]
  split_ifs with hv
  · cases v with
    | none => exact ⟨"", rfl, by decide +kernel⟩
    | some s =>
      refine ⟨s, rfl, ?_⟩
      have hall : ∀ m ∈ validMethods, m.toUpper = m := by decide +kernel
      exact hall s hv
  · exact ⟨"", rfl, by decide +kernel⟩

/-- What holds of the letters of ASCII holds of every letter. -/
theorem alpha_cases {P : Char → Prop} (h : ∀ n < 128, (Char.ofNat n).isAlpha = true → P (Char.ofNat n)) {c : Char}
    (hc : c.isAlpha = true) : P c := by
  have hlt : c.toNat < 128 := (Lowercase.alpha_bounds hc).2.trans_lt (by decide)
  exact Lowercase.ascii_cases (P := fun c => c.isAlpha = true → P c) h hlt hc

theorem toUpper_alpha {c : Char} (h : c.isAlpha = true) :
    c.toUpper.val.toNat < 128 ∧ c.toUpper.toUpper = c.toUpper :=
  alpha_cases (P := fun c => c.toUpper.val.toNat < 128 ∧ c.toUpper.toUpper = c.toUpper) (by decide +kernel) h

theorem isUpper_country (v : Option String) : IsUpper ((countryOf v).getD []) := by
  rw [countryOf, sliced, getD_orUndefined]
  cases v with
  | none => exact ⟨"", rfl, by decide +kernel⟩
  | some s =>
    let letters := (s.toList.filter Char.isAlpha).map Char.toUpper
    have hletters : ((String.ofList (s.toList.filter Char.isAlpha)).toUpper).toList = letters := by
      rw [String.toUpper, String.toList_map, String.toList_ofList]
    have hupper : ∀ c ∈ letters, c.val.toNat < 128 ∧ c.toUpper = c := by
      intro c hc
      obtain ⟨d, hd, rfl⟩ := List.mem_map.mp hc
      exact toUpper_alpha (List.mem_filter.mp hd).2
    refine ⟨String.ofList (letters.take 2), ?_, ?_⟩
    · change (units _).take 2 = units _
      rw [hletters, String.toList_ofList]
      exact take_units_of_lt (fun c hc => (hupper c hc).1.trans (by decide)) 2
    · rw [String.toUpper, String.map_eq_internal, String.toList_ofList]
      refine congrArg String.ofList ((List.map_congr_left fun c hc => ?_).trans (List.map_id _))
      exact (hupper c (List.mem_of_mem_take hc)).2

theorem isText_status (v : Option String) : ∃ s, (oneOf validStatus v).getD [] = ofText s := by
  rw [oneOf]
  split_ifs with hv
  · cases v with
    | none => exact ⟨"", rfl⟩
    | some s => exact ⟨s, rfl⟩
  · exact ⟨"", rfl⟩

/-! ## The two sides of one value -/

section
variable {w : JsString} {s : String}

theorem toWellFormed_ofText (s : String) : toWellFormed (ofText s) = s.toList := toWellFormed_units s.toList

theorem wellFormed_ofText (s : String) : wellFormed (ofText s) = s := by
  rw [wellFormed, toWellFormed_ofText, String.ofList_toList]

theorem ofText_eq_iff {a b : String} : ofText a = ofText b ↔ a = b := by
  constructor
  · intro h
    rw [← wellFormed_ofText a, h, wellFormed_ofText]
  · exact congrArg ofText

theorem wellFormed_ne_empty (hw : w ≠ []) : wellFormed w ≠ "" := by
  intro h
  have hlist := congrArg String.toList h
  rw [wellFormed, String.toList_ofList] at hlist
  exact toWellFormed_ne_nil hw hlist

/-- A condition is there for a value that is not empty. -/
theorem all_received (v : Option JsString) (condition : String → Condition) (r : Request) :
    (whenSet (received v) condition).all (·.holds r) =
      (v.getD [] = [] || (condition (wellFormed (v.getD []))).holds r) := by
  cases v with
  | none => rfl
  | some w =>
    by_cases hw : w = []
    · subst hw
      rfl
    · have hreceived : received (some w) = some (wellFormed w) := by
        simp [received, orUndefined, Option.filter_some, hw, wellFormed_ne_empty hw]
      rw [hreceived, whenSet, if_neg (wellFormed_ne_empty hw)]
      simp [hw]

theorem selects_eq (f : Filters) (r : Request) : selects f r =
    ((f.host.getD [] = [] || r.host = wellFormed (f.host.getD [])) &&
      (f.remoteIp.getD [] = [] || r.remoteIp = wellFormed (f.remoteIp.getD [])) &&
      (f.method.getD [] = [] || r.method = some (wellFormed (f.method.getD [])).toUpper) &&
      (f.statusClass.getD [] = [] || r.statusClass = some (wellFormed (f.statusClass.getD []))) &&
      (f.path.getD [] = [] || r.path.any fun path =>
        like ('%' :: (toWellFormed (f.path.getD []) ++ ['%'])) path.toList) &&
      (f.country.getD [] = [] || r.countryCode = some (wellFormed (f.country.getD [])).toUpper)) := by
  have hpattern : ("%" ++ wellFormed (f.path.getD []) ++ "%").toList =
      '%' :: (toWellFormed (f.path.getD []) ++ ['%']) := by
    simp [wellFormed]
  rw [← hpattern, selects, RequestFilter.conditions]
  simp only [List.all_append, requestFilter]
  rw [all_received, all_received, all_received, all_received, all_received, all_received]
  rfl

/-- Equality with a text is the same on both sides. -/
theorem isEqual_ofText {wanted : Option JsString} {text : String} (hw : wanted.getD [] = ofText text)
    (value : Option String) : isEqual wanted value = (wanted.getD [] = [] || value = some text) := by
  have hvalue : value.map ofText = some (ofText text) ↔ value = some text := by
    rw [Option.map_eq_some_iff]
    constructor
    · rintro ⟨a, ha, he⟩
      rw [ha, ofText_eq_iff.mp he]
    · intro h
      exact ⟨text, h, rfl⟩
  rw [isEqual, hw]
  simp only [hvalue]

theorem exists_ofText (hc : IsCut w) (hw : Whole w) : ∃ text, w = ofText text := by
  obtain ⟨s, n, rfl⟩ := hc
  obtain ⟨p, hp⟩ := exists_text n hw
  exact ⟨String.ofList p, by rw [hp, ofText, String.toList_ofList]⟩

theorem isIncluded_ofText {wanted : Option JsString} {text : String} (hw : wanted.getD [] = ofText text)
    (hp : '%' ∉ text.toList) (hu : '_' ∉ text.toList) (value : Option String) : isIncluded wanted value =
      (wanted.getD [] = [] || value.any fun path => like ('%' :: (text.toList ++ ['%'])) path.toList) := by
  simp only [isIncluded, hw, ofText, infix_units_iff, like_infix hp hu]

theorem getD_ofText (v : Option String) : (v.map ofText).getD [] = ofText (v.getD "") := by
  cases v <;> rfl

theorem ofText_eq_nil : ofText s = [] ↔ s = "" := by
  rw [← ofText_eq_iff]
  exact Iff.rfl

/-- With whole texts this is the function of the page as `Frontend.RealTime` has it. -/
theorem rowMatchesFilters_ofText (r : RequestRow) (f : RealTime.Filters) :
    rowMatchesFilters r ⟨f.host.map ofText, f.remoteIp.map ofText, f.method.map ofText, f.statusClass.map ofText,
      f.path.map ofText, f.country.map ofText⟩ = RealTime.rowMatchesFilters r f := by
  have hequal : ∀ v value : Option String, isEqual (v.map ofText) value = matchesFilter v value := by
    intro v value
    rw [isEqual_ofText (getD_ofText v), getD_ofText, matchesFilter]
    simp only [ofText_eq_nil]
    cases v with
    | none => simp
    | some w =>
      cases value with
      | none => simp
      | some x =>
        rw [Bool.eq_iff_iff]
        simp
  have hincluded : ∀ v value : Option String, isIncluded (v.map ofText) value = RealTime.pathMatches v value := by
    intro v value
    simp only [isIncluded, getD_ofText, ofText_eq_nil]
    simp only [RealTime.pathMatches, RealTime.includes, ofText, infix_units_iff]
  simp only [rowMatchesFilters, hequal, hincluded, RealTime.rowMatchesFilters]

/-! ## Rows that tell the two apart -/

/-- The row of the very values that the server receives, with characters of the path put in place of others. -/
def literalRow (g : Char → Char) (f : Filters) : Request where
  ts := 0
  host := wellFormed (f.host.getD [])
  remoteIp := wellFormed (f.remoteIp.getD [])
  method := some (wellFormed (f.method.getD [])).toUpper
  status := none
  statusClass := some (wellFormed (f.statusClass.getD []))
  path := some (String.ofList ((toWellFormed (f.path.getD [])).map g))
  countryCode := some (wellFormed (f.country.getD [])).toUpper
  responseBytes := none
  requestBytes := none
  durationMs := none

theorem selects_literalRow {g : Char → Char} (hg : ∀ c, c ≠ '%' → c ≠ '_' → g c = c) (f : Filters) :
    selects f (literalRow g f) = true := by
  have hlike : like ('%' :: (toWellFormed (f.path.getD []) ++ ['%'])) ((toWellFormed (f.path.getD [])).map g) = true := by
    rw [like_percent, List.any_eq_true]
    exact ⟨_, (List.mem_tails _ _).mpr (List.suffix_refl _), like_map hg _⟩
  rw [selects_eq]
  simp [literalRow, hlike]

theorem whole_of_isEqual {wanted : Option JsString} (hc : IsCut (wanted.getD []))
    (h : isEqual wanted (some (wellFormed (wanted.getD []))) = true) : Whole (wanted.getD []) := by
  obtain ⟨s, n, hs⟩ := hc
  rw [isEqual, hs] at h
  rw [hs]
  rcases Bool.or_eq_true_iff.mp h with hnil | heq
  · rw [of_decide_eq_true hnil]
    exact whole_units []
  · have hsame := Option.some.inj (of_decide_eq_true heq)
    rw [wellFormed, ofText, String.toList_ofList] at hsame
    refine whole_of_infix n ?_
    rw [hsame]

theorem infix_of_isIncluded {wanted : Option JsString} {path : List Char}
    (h : isIncluded wanted (some (String.ofList path)) = true) : wanted.getD [] <:+: units path := by
  rcases Bool.or_eq_true_iff.mp h with hnil | hin
  · rw [of_decide_eq_true hnil]
    exact List.nil_infix
  · have hinfix := of_decide_eq_true hin
    rwa [ofText, String.toList_ofList] at hinfix

/-- Putting an `x` in place of the special characters changes a text that has one. -/
def withoutPatterns (c : Char) : Char := if c = '%' ∨ c = '_' then 'x' else c

theorem withoutPatterns_ne (c : Char) : withoutPatterns c ≠ '%' ∧ withoutPatterns c ≠ '_' := by
  unfold withoutPatterns
  split_ifs with h
  · exact ⟨by decide, by decide⟩
  · exact not_or.mp h

theorem no_pattern_of_infix {text : List Char} (h : text <:+: text.map withoutPatterns) : '%' ∉ text ∧ '_' ∉ text := by
  have heq : text = text.map withoutPatterns := h.eq_of_length (List.length_map _).symm
  have hne : ∀ c ∈ text, c ≠ '%' ∧ c ≠ '_' := by
    intro c hc
    rw [heq] at hc
    obtain ⟨d, -, rfl⟩ := List.mem_map.mp hc
    exact withoutPatterns_ne d
  exact ⟨fun hmem => (hne _ hmem).1 rfl, fun hmem => (hne _ hmem).2 rfl⟩

/-! ## Agreement -/

variable (p : SearchParams)

theorem literal_of_agree (h : Agree (useFilters p)) : Literal (useFilters p) := by
  have hpath := isCut_sliced 2048 p.path
  have hsame := h (literalRow id (useFilters p))
  rw [selects_literalRow (g := id) fun _ _ _ => rfl] at hsame
  have hlive := hsame.symm
  simp only [rowMatchesFilters, Bool.and_eq_true] at hlive
  obtain ⟨⟨⟨⟨⟨hhost, hip⟩, -⟩, -⟩, hin⟩, -⟩ := hlive
  have hwhole : Whole ((useFilters p).path.getD []) := by
    have hinfix := infix_of_isIncluded hin
    rw [List.map_id] at hinfix
    obtain ⟨s, n, hs⟩ := hpath
    change (sliced 2048 p.path).getD [] <:+: units (toWellFormed ((sliced 2048 p.path).getD [])) at hinfix
    change Whole ((sliced 2048 p.path).getD [])
    rw [hs] at hinfix ⊢
    exact whole_of_infix n hinfix
  have hpattern : '%' ∉ toWellFormed ((useFilters p).path.getD []) ∧ '_' ∉ toWellFormed ((useFilters p).path.getD []) := by
    have hg : ∀ c, c ≠ '%' → c ≠ '_' → withoutPatterns c = c := fun c hp hu => if_neg (not_or.mpr ⟨hp, hu⟩)
    have hsame := h (literalRow withoutPatterns (useFilters p))
    rw [selects_literalRow hg] at hsame
    have hlive := hsame.symm
    simp only [rowMatchesFilters, Bool.and_eq_true] at hlive
    obtain ⟨⟨-, hin⟩, -⟩ := hlive
    obtain ⟨text, htext⟩ := exists_ofText hpath hwhole
    have hinfix := infix_of_isIncluded hin
    change (sliced 2048 p.path).getD [] <:+: units ((toWellFormed ((sliced 2048 p.path).getD [])).map withoutPatterns) at hinfix
    change '%' ∉ toWellFormed ((sliced 2048 p.path).getD []) ∧ '_' ∉ toWellFormed ((sliced 2048 p.path).getD [])
    rw [htext, toWellFormed_ofText, ofText, infix_units_iff] at hinfix
    rw [htext, toWellFormed_ofText]
    exact no_pattern_of_infix hinfix
  exact {
    host := whole_of_isEqual (isCut_sliced 253 p.host) hhost
    remoteIp := whole_of_isEqual (isCut_sliced 45 p.remoteIp) hip
    path := hwhole
    noPercent := hpattern.1
    noUnderscore := hpattern.2 }

theorem agree_of_literal (h : Literal (useFilters p)) : Agree (useFilters p) := by
  intro r
  obtain ⟨host, hhost⟩ := exists_ofText (isCut_sliced 253 p.host) h.host
  obtain ⟨ip, hip⟩ := exists_ofText (isCut_sliced 45 p.remoteIp) h.remoteIp
  obtain ⟨method, hmethod, hupper⟩ := isUpper_method p.method
  obtain ⟨status, hstatus⟩ := isText_status p.statusClass
  obtain ⟨path, hpath⟩ := exists_ofText (isCut_sliced 2048 p.path) h.path
  obtain ⟨country, hcountry, hcupper⟩ := isUpper_country p.country
  have hp := h.noPercent
  have hu := h.noUnderscore
  change '%' ∉ toWellFormed ((sliced 2048 p.path).getD []) at hp
  change '_' ∉ toWellFormed ((sliced 2048 p.path).getD []) at hu
  rw [hpath, toWellFormed_ofText] at hp hu
  rw [selects_eq]
  simp only [rowMatchesFilters, liveRow, useFilters, isEqual_ofText hhost, isEqual_ofText hip, isEqual_ofText hmethod,
    isEqual_ofText hstatus, isIncluded_ofText hpath hp hu, isEqual_ofText hcountry]
  simp only [hhost, hip, hmethod, hstatus, hpath, hcountry, wellFormed_ofText, hupper, hcupper, Option.some.injEq,
    toWellFormed_ofText]

/-- **History and live view.** For the filters that the address bar gives, the database and the page select the
same rows if and only if every value is whole and the path is free of the special characters of `LIKE`. -/
theorem filters_agree_iff : Agree (useFilters p) ↔ Literal (useFilters p) :=
  ⟨literal_of_agree p, agree_of_literal p⟩

end

def onlyPath (path : String) : SearchParams := ⟨none, none, none, none, some path, none⟩

def requestTo (path : String) : Request :=
  ⟨0, "a.example", "10.0.0.1", some "GET", some 200, some "2xx", some path, none, none, none, none⟩

/-- The underscore of the filter stands for any character in the history. -/
theorem underscore_matches_any :
    selects (useFilters (onlyPath "wp_admin")) (requestTo "/wp-admin") = true ∧
      rowMatchesFilters (liveRow (requestTo "/wp-admin")) (useFilters (onlyPath "wp_admin")) = false := by
  decide +kernel

end Cadsa.Frontend.FilterAgreement
