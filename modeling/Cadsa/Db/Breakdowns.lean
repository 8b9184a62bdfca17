import Mathlib.Data.Prod.Lex
import Mathlib.Data.String.Basic
import Cadsa.Db.DuckDb
import Cadsa.Lib.Ranking

/-! The breakdowns of `db/duckdb_manager.py`: the rows of a range grouped by a column, the largest groups first. What
they say of an address, a host or a status is what the other pages say of it. -/
namespace Cadsa.Breakdowns
open Db Analytics DuckDb Paging Ranking OrderDual
set_option autoImplicit false

/-! ## `SELECT` -/

/-- The rows that the conditions of `build_where` hold of. -/
def whereRows (requests : List RequestRow) (fromTs toTs : Time) (f : Option RequestFilter) : List RequestRow :=
  requests.filter fun r => (conditionsOf fromTs toTs f).all (·.holds r.toRequest)

def notEmpty (value : Option String) : Option String := value.filter (· ≠ "")

/-- `AVG`. -/
def avg (xs : List ℤ) : Option ℚ := if xs.isEmpty then none else some (xs.sum / xs.length)

def uniqueIps (rows : List RequestRow) : ℕ := (rows.map (·.remoteIp)).dedup.length

def bytesOut (rows : List RequestRow) : ℤ := (rows.map (·.responseBytes.getD 0)).sum

def errorRate (rows : List RequestRow) : ℚ := roundTo 3 (errorShare (rows.map (·.toRequest)))

def durations (rows : List RequestRow) : List ℤ := rows.filterMap (·.durationMs)

/-- `CAST(… AS INTEGER)`, which is then `or 0`. -/
def castOrZero (x : Option ℚ) : ℤ := (x.map castInteger).getD 0

def countOf (p : Request → Bool) (rows : List RequestRow) : ℕ := sumCase p (rows.map (·.toRequest))

/-- No group is left out. -/
def anyGroup (_ : List RequestRow) : Bool := true

section
variable (requests : List RequestRow) (fromTs toTs : Time) (f : Option RequestFilter)

/-! ## A column and the number of its rows -/

structure Counted (κ : Type) where
  value : κ
  reqCount : ℕ

def counted {κ : Type} (value : κ) (rows : List RequestRow) : Counted κ := ⟨value, rows.length⟩

/-- `ORDER BY req_count DESC`. -/
abbrev ByCount (γ : Type) (count : γ → ℕ) := OrderBy fun e : γ => toDual (count e)

/-- `SELECT col, COUNT(*) … WHERE col IS NOT NULL GROUP BY col ORDER BY req_count DESC LIMIT limit`. -/
def queryCounted {κ : Type} [DecidableEq κ] (col : RequestRow → Option κ) (limit : Option ℕ)
    (db : ByCount (Counted κ) Counted.reqCount) : List (Counted κ) :=
  db.first limit (groups col anyGroup counted (whereRows requests fromTs toTs f))

def queryStatusCodes (db : ByCount (Counted ℤ) Counted.reqCount) : List (Counted ℤ) :=
  queryCounted requests fromTs toTs f (·.status) none db

def queryBrowsers (db : ByCount (Counted String) Counted.reqCount) : List (Counted String) :=
  queryCounted requests fromTs toTs f (·.uaBrowser) (some 20) db

def queryDevices (db : ByCount (Counted String) Counted.reqCount) : List (Counted String) :=
  queryCounted requests fromTs toTs f (·.uaDevice) none db

def queryOs (db : ByCount (Counted String) Counted.reqCount) : List (Counted String) :=
  queryCounted requests fromTs toTs f (fun r => notEmpty r.uaOs) (some 20) db

def queryReferers (limit : ℕ) (db : ByCount (Counted String) Counted.reqCount) : List (Counted String) :=
  queryCounted requests fromTs toTs f (fun r => notEmpty r.refererDomain) (some limit) db

/-! ## Paths -/

structure TopPath where
  path : String
  reqCount : ℕ
  avgMs : ℤ
  bytesOut : ℤ

def topPathOf (path : String) (rows : List RequestRow) : TopPath where
  path := path
  reqCount := rows.length
  avgMs := castInteger ((avg (durations rows)).getD 0)
  bytesOut := Breakdowns.bytesOut rows

def queryTopPaths (limit : ℕ) (db : ByCount TopPath TopPath.reqCount) : List TopPath :=
  db.first (some limit) (groups (·.path) anyGroup topPathOf (whereRows requests fromTs toTs f))

structure PathByStatus where
  path : String
  total : ℕ
  req2xx : ℕ
  req3xx : ℕ
  req4xx : ℕ
  req5xx : ℕ
  avgMs : ℤ
  bytesOut : ℤ

def pathByStatusOf (path : String) (rows : List RequestRow) : PathByStatus where
  path := path
  total := rows.length
  req2xx := countOf (statusBetween 200 299) rows
  req3xx := countOf (statusBetween 300 399) rows
  req4xx := countOf (statusBetween 400 499) rows
  req5xx := countOf (statusBetween 500 599) rows
  avgMs := castInteger ((avg (durations rows)).getD 0)
  bytesOut := Breakdowns.bytesOut rows

def queryPathsByStatus (limit : ℕ) (db : ByCount PathByStatus PathByStatus.total) : List PathByStatus :=
  db.first (some limit) (groups (·.path) anyGroup pathByStatusOf (whereRows requests fromTs toTs f))

structure SlowestPath where
  path : String
  reqCount : ℕ
  p50Ms : ℤ
  p95Ms : ℤ
  avgMs : ℤ

def slowestPathOf (path : String) (rows : List RequestRow) : SlowestPath where
  path := path
  reqCount := rows.length
  p50Ms := castOrZero (percentileCont (1 / 2) (durations rows))
  p95Ms := castOrZero (percentileCont (19 / 20) (durations rows))
  avgMs := castOrZero (avg (durations rows))

/-- `HAVING COUNT(*) >= 3 ORDER BY p95_ms DESC`. -/
def querySlowestPaths (limit : ℕ) (db : OrderBy fun e : SlowestPath => toDual e.p95Ms) : List SlowestPath :=
  db.first (some limit) (groups (·.path) (3 ≤ ·.length) slowestPathOf
    ((whereRows requests fromTs toTs f).filter (·.durationMs.isSome)))

/-! ## Addresses -/

section
variable (isoformat : Time → String)

def lastSeen (rows : List RequestRow) : Option String := (rows.map (·.ts)).max?.map isoformat

def firstSeen (rows : List RequestRow) : Option String := (rows.map (·.ts)).min?.map isoformat

def maxThreat (rows : List RequestRow) : Option ℤ := (rows.filterMap (·.threatScore)).max?

/-- `MAX` of a column of texts. -/
def maxText (col : RequestRow → Option String) (rows : List RequestRow) : Option String := (rows.filterMap col).max?

structure TopIp where
  remoteIp : String
  reqCount : ℕ
  errorRate : ℚ
  threatScore : ℤ
  countryCode : Option String
  countryName : Option String
  lastSeen : Option String

def topIpOf (remoteIp : String) (rows : List RequestRow) : TopIp where
  remoteIp := remoteIp
  reqCount := rows.length
  errorRate := Breakdowns.errorRate rows
  threatScore := (maxThreat rows).getD 0
  countryCode := maxText (·.countryCode) rows
  countryName := maxText (·.countryName) rows
  lastSeen := Breakdowns.lastSeen isoformat rows

def queryTopIps (limit : ℕ) (db : ByCount TopIp TopIp.reqCount) : List TopIp :=
  db.first (some limit) (groups (some ·.remoteIp) anyGroup (topIpOf isoformat) (whereRows requests fromTs toTs f))

structure TopThreat where
  remoteIp : String
  eventCount : ℕ
  maxScore : Option ℤ
  countryCode : Option String
  firstSeen : Option String
  lastSeen : Option String

def topThreatOf (remoteIp : String) (rows : List RequestRow) : TopThreat where
  remoteIp := remoteIp
  eventCount := rows.length
  maxScore := maxThreat rows
  countryCode := maxText (·.countryCode) rows
  firstSeen := Breakdowns.firstSeen isoformat rows
  lastSeen := Breakdowns.lastSeen isoformat rows

def isThreat (r : RequestRow) : Bool := r.threatScore.any (0 < ·)

/-- `ORDER BY max_score DESC, event_count DESC`. -/
def TopThreat.weight (e : TopThreat) : (WithBot ℤ ×ₗ ℕ)ᵒᵈ := toDual (toLex (e.maxScore, e.eventCount))

def queryTopThreats (limit : ℕ) (db : OrderBy TopThreat.weight) : List TopThreat :=
  db.first (some limit) (groups (some ·.remoteIp) anyGroup (topThreatOf isoformat)
    ((whereRows requests fromTs toTs none).filter isThreat))

structure IpProfile where
  remoteIp : String
  reqCount : ℕ
  hostsCount : ℕ
  errorRate : ℚ
  maxThreat : ℤ
  countryCode : Option String
  countryName : Option String
  org : Option String
  asn : Option ℤ
  firstSeen : Option String
  lastSeen : Option String
  browser : Option String
  os : Option String
  topPaths : List (Counted String)

def profileRows (ip : String) : List RequestRow :=
  requests.filter fun r => r.remoteIp = ip && (fromTs ≤ r.ts && r.ts ≤ toTs)

def queryIpProfile (ip : String) (db : ByCount (Counted String) Counted.reqCount) : IpProfile :=
  let rows := profileRows requests fromTs toTs ip
  { remoteIp := ip
    reqCount := rows.length
    hostsCount := (rows.map (·.host)).dedup.length
    errorRate := Breakdowns.errorRate rows
    maxThreat := (Breakdowns.maxThreat rows).getD 0
    countryCode := maxText (·.countryCode) rows
    countryName := maxText (·.countryName) rows
    org := maxText (·.org) rows
    asn := (rows.filterMap (·.asn)).max?
    firstSeen := Breakdowns.firstSeen isoformat rows
    lastSeen := Breakdowns.lastSeen isoformat rows
    browser := maxText (·.uaBrowser) rows
    os := maxText (·.uaOs) rows
    topPaths := db.first (some 10) (groups (·.path) anyGroup counted rows) }

/-! ## Hosts and countries -/

structure HostSummary where
  host : String
  reqCount : ℕ
  uniqueIps : ℕ
  errorRate : ℚ
  p50Ms : ℤ
  bytesOut : ℤ
  lastSeen : Option String

def hostSummaryOf (host : String) (rows : List RequestRow) : HostSummary where
  host := host
  reqCount := rows.length
  uniqueIps := Breakdowns.uniqueIps rows
  errorRate := Breakdowns.errorRate rows
  p50Ms := intOrZero (percentileCont (1 / 2) (durations rows))
  bytesOut := Breakdowns.bytesOut rows
  lastSeen := Breakdowns.lastSeen isoformat rows

def queryHostsSummary (db : ByCount HostSummary HostSummary.reqCount) : List HostSummary :=
  db.first none (groups (some ·.host) anyGroup (hostSummaryOf isoformat) (whereRows requests fromTs toTs none))

end

structure TopCountry where
  country : String × Option String
  reqCount : ℕ
  uniqueIps : ℕ
  errorRate : ℚ
  bytesOut : ℤ

def topCountryOf (country : String × Option String) (rows : List RequestRow) : TopCountry where
  country := country
  reqCount := rows.length
  uniqueIps := Breakdowns.uniqueIps rows
  errorRate := Breakdowns.errorRate rows
  bytesOut := Breakdowns.bytesOut rows

/-- The code, which is not NULL, and the name, which may be. -/
def RequestRow.country (r : RequestRow) : Option (String × Option String) :=
  r.countryCode.map fun code => (code, r.countryName)

def queryTopCountries (limit : ℕ) (db : ByCount TopCountry TopCountry.reqCount) : List TopCountry :=
  db.first (some limit) (groups RequestRow.country anyGroup topCountryOf (whereRows requests fromTs toTs f))

/-- `get_top_countries`, which takes the country out of the filter. -/
def getTopCountries (f : RequestFilter) (limit : ℕ) (db : ByCount TopCountry TopCountry.reqCount) : List TopCountry :=
  queryTopCountries requests fromTs toTs (some { f with countryCode := none }) limit db

/-! ## The week -/

structure BusyHour where
  hour : ℕ
  dow : ℕ
  reqCount : ℕ

def hourOfDay (ts : Time) : ℕ := ts / minutes 60 % 24

/-- Sunday is 0, and the first day of the epoch was a Thursday. -/
def dayOfWeek (ts : Time) : ℕ := (ts / minutes 1440 + 4) % 7

structure HostPatterns where
  busyHours : List BusyHour
  protocolBreakdown : List (Counted String)
  botPct : ℚ
  botCount : ℕ
  topReferers : List (Counted String)

/-- `COALESCE(NULLIF(http_proto, ''), 'Unknown')`. -/
def protocolOf (r : RequestRow) : Option String := some ((notEmpty r.httpProto).getD "Unknown")

def isBot (r : RequestRow) : Bool := r.isBot = some true

/-- `ORDER BY dow, hour`. -/
def slotOf (r : RequestRow) : ℕ ×ₗ ℕ := toLex (dayOfWeek r.ts, hourOfDay r.ts)

def queryHostPatterns (protocols referers : ByCount (Counted String) Counted.reqCount) : HostPatterns :=
  let rows := whereRows requests fromTs toTs f
  { busyHours := (Grouping.keys slotOf rows).map fun k =>
      ⟨(ofLex k).2, (ofLex k).1, (Grouping.group slotOf rows k).length⟩
    protocolBreakdown := protocols.first none (groups protocolOf anyGroup counted rows)
    botPct := roundTo 1 (if rows.isEmpty then 0 else (rows.countP isBot / rows.length : ℚ) * 100)
    botCount := rows.countP isBot
    topReferers := referers.first (some 15) (groups (fun r => notEmpty r.refererDomain) anyGroup counted rows) }

end

/-! ## The overview of what a filter lets through -/

def overviewOf (rows : List RequestRow) : Overview where
  totalRequests := rows.length
  uniqueIps := Breakdowns.uniqueIps rows
  bytesOut := Breakdowns.bytesOut rows
  bytesIn := (rows.map (·.requestBytes.getD 0)).sum
  errorRate := roundTo 4 (errorShare (rows.map (·.toRequest)))
  p50Ms := intOrZero (percentileCont (1 / 2) (durations rows))
  req2xx := rows.countP (statusIn 200 300 ·.toRequest)
  req3xx := rows.countP (statusIn 300 400 ·.toRequest)
  req4xx := rows.countP (statusIn 400 500 ·.toRequest)
  req5xx := rows.countP fun r => r.status.any (500 ≤ ·)

section
variable {requests : List RequestRow} {fromTs toTs : Time}

theorem selected_rows (f : Option RequestFilter) : selected (requests.map (·.toRequest)) fromTs toTs f =
    (whereRows requests fromTs toTs f).map (·.toRequest) := by
  rw [selected, whereRows, List.filter_map]
  rfl

theorem queryOverview_rows (f : Option RequestFilter) :
    queryOverview (requests.map (·.toRequest)) (.datetime fromTs) (.datetime toTs) (.ofFilter f) =
      .ok (overviewOf (whereRows requests fromTs toTs f)) := by
  rw [queryOverview, buildWhere_eq]
  change Except.bind (select (requests.map (·.toRequest)) (conditionsOf fromTs toTs f)) _ = _
  rw [select_conditionsOf, selected_rows]
  generalize whereRows requests fromTs toTs f = rows
  show Except.ok _ = Except.ok _
  simp only [List.length_map, List.map_map, List.filterMap_map, List.countP_map]
  rfl

/-- A condition more lets through the rows that it holds of as well. -/
theorem whereRows_narrowed {f narrowed : RequestFilter} {c : Condition}
    (h : narrowed.conditions.Perm (c :: f.conditions)) :
    whereRows requests fromTs toTs (some narrowed) =
      (whereRows requests fromTs toTs (some f)).filter (c.holds ·.toRequest) := by
  rw [whereRows, whereRows, List.filter_filter]
  refine List.filter_congr fun r _ => ?_
  show (Condition.holds _ _ && narrowed.conditions.all _) = (_ && (Condition.holds _ _ && f.conditions.all _))
  rw [h.all_eq, List.all_cons]
  exact Bool.and_left_comm ..

theorem whenSet_none (condition : String → Condition) : whenSet none condition = [] := rfl

theorem whenSet_some {s : String} (h : s ≠ "") (condition : String → Condition) :
    whenSet (some s) condition = [condition s] := if_neg h

theorem whereRows_remoteIp {f : RequestFilter} (hf : f.remoteIp = none) {ip : String} (hip : ip ≠ "") :
    whereRows requests fromTs toTs (some { f with remoteIp := some ip }) =
      members (some ·.remoteIp) (whereRows requests fromTs toTs (some f)) ip := by
  rw [whereRows_narrowed (f := f) (c := .remoteIp ip), members]
  · refine List.filter_congr fun r _ => ?_
    simp [Condition.holds]
  · simp only [RequestFilter.conditions, hf, whenSet_none, whenSet_some hip, List.append_nil, List.append_assoc,
      List.singleton_append]
    exact List.perm_middle

theorem whereRows_host {f : RequestFilter} (hf : f.host = none) {host : String} (hhost : host ≠ "") :
    whereRows requests fromTs toTs (some { f with host := some host }) =
      members (some ·.host) (whereRows requests fromTs toTs (some f)) host := by
  rw [whereRows_narrowed (f := f) (c := .host host), members]
  · refine List.filter_congr fun r _ => ?_
    simp [Condition.holds]
  · simp only [RequestFilter.conditions, hf, whenSet_none, whenSet_some hhost, List.nil_append, List.append_assoc,
      List.singleton_append]
    exact List.Perm.refl _

end

/-! ## What is listed of a value, and the overview for it -/

/-- A list of values and their numbers of requests, beside the overview that is filtered by a value. Of those left out
none has more requests than any that is listed. -/
structure ShowsTotals (listed : List (String × ℕ)) (limit : Option ℕ) (overview : String → Overview) : Prop where
  distinct : (listed.map Prod.fst).Nodup
  each : ∀ e ∈ listed, 0 < e.2 ∧ (e.1 ≠ "" → e.2 = (overview e.1).totalRequests)
  descending : listed.Pairwise fun a b => b.2 ≤ a.2
  bounded : ∀ n ∈ limit, listed.length ≤ n
  leftOut : ∀ value, value ≠ "" → value ∉ listed.map Prod.fst → (overview value).totalRequests = 0 ∨
    limit = some listed.length ∧ ∀ e ∈ listed, (overview value).totalRequests ≤ e.2

section
variable {requests : List RequestRow} {fromTs toTs : Time}

theorem First.showsTotals {γ : Type} {col : RequestRow → Option String} {aggregate : String → List RequestRow → γ}
    {name : γ → String} {count : γ → ℕ} {limit : Option ℕ} {rows : List RequestRow} {listed : List γ}
    {overview : String → Overview}
    (h : First col anyGroup aggregate name (fun e => toDual (count e)) limit rows listed)
    (hcount : ∀ value rs, count (aggregate value rs) = rs.length)
    (htotal : ∀ value, value ≠ "" → (overview value).totalRequests = (members col rows value).length) :
    ShowsTotals (listed.map fun e => (name e, count e)) limit overview where
  distinct := by
    rw [List.map_map]
    exact h.distinct
  each e he := by
    obtain ⟨e, hmem, rfl⟩ := List.mem_map.mp he
    obtain ⟨hne, heq⟩ := h.each e hmem
    have hlength : count e = (members col rows (name e)).length := (congrArg count heq).trans (hcount _ _)
    exact ⟨hlength ▸ List.length_pos_iff.mpr hne, fun hvalue => hlength.trans (htotal _ hvalue).symm⟩
  descending := List.pairwise_map.mpr (h.ordered.imp fun hle => toDual_le_toDual.mp hle)
  bounded n hn := by
    rw [List.length_map]
    exact h.bounded n hn
  leftOut value hvalue hout := by
    rw [List.map_map] at hout
    rw [htotal value hvalue, List.length_map]
    by_cases hne : members col rows value = []
    · exact .inl (List.length_eq_zero_iff.mpr hne)
    · rcases h.complete value hne rfl with hin | ⟨hfull, hless⟩
      · exact absurd hin hout
      · refine .inr ⟨hfull, fun e he => ?_⟩
        obtain ⟨e, hmem, rfl⟩ := List.mem_map.mp he
        exact (hcount value _).symm.trans_le (toDual_le_toDual.mp (hless e hmem))

/-- **The list of addresses is the overview address by address**: the number that is listed of an address is the total
once it is filtered by, whatever else it is filtered by, and the addresses that are left out have none above it. -/
theorem top_ips_drill_down (isoformat : Time → String) {f : RequestFilter} (hf : f.remoteIp = none) (limit : ℕ)
    (db : ByCount TopIp TopIp.reqCount) : ∃ overview : String → Overview,
      (∀ ip, queryOverview (requests.map (·.toRequest)) (.datetime fromTs) (.datetime toTs)
        (.filter { f with remoteIp := some ip }) = .ok (overview ip)) ∧
      ShowsTotals ((queryTopIps requests fromTs toTs (some f) isoformat limit db).map fun e => (e.remoteIp, e.reqCount))
        (some limit) overview := by
  refine ⟨_, fun ip => queryOverview_rows (some { f with remoteIp := some ip }), ?_⟩
  refine First.showsTotals (first_spec (fun _ _ => rfl) db (some limit)) (fun _ _ => rfl) fun ip hip => ?_
  exact congrArg List.length (whereRows_remoteIp hf hip)

def oneHost : RequestFilter := ⟨some "a.example", none, none, none, none, none⟩

theorem top_ips_drill_down_sample : ∃ overview : String → Overview,
      (∀ ip, queryOverview ([sampleRow 3, sampleRow 5].map (·.toRequest)) (.datetime 0) (.datetime 9)
        (.filter { oneHost with remoteIp := some ip }) = .ok (overview ip)) ∧
      ShowsTotals ((queryTopIps [sampleRow 3, sampleRow 5] 0 9 (some oneHost) (fun t => toString t) 20
        (.stable _)).map fun e => (e.remoteIp, e.reqCount)) (some 20) overview :=
  top_ips_drill_down (fun t => toString t) rfl 20 (.stable _)

/-- The filter that the endpoints pass when no parameter is given. -/
def noFilter : RequestFilter := ⟨none, none, none, none, none, none⟩

/-- What the list of hosts says of one, beside the overview for it. -/
structure HostShown (e : HostSummary) (o : Overview) : Prop where
  reqCount : e.reqCount = o.totalRequests
  uniqueIps : e.uniqueIps = o.uniqueIps
  p50Ms : e.p50Ms = o.p50Ms
  bytesOut : e.bytesOut = o.bytesOut

theorem length_eq_sum_ones (rows : List RequestRow) : rows.length = (rows.map fun _ => 1).sum := by simp

/-- **The list of hosts is the overview cut up by host**: each host is there just when it has requests, with the numbers
of the overview for it, and together they have the requests and the bytes of the overview of all. -/
theorem hosts_drill_down (isoformat : Time → String) (db : ByCount HostSummary HostSummary.reqCount) :
    ∃ (overview : String → Overview) (o : Overview),
      (∀ host, queryOverview (requests.map (·.toRequest)) (.datetime fromTs) (.datetime toTs)
        (.filter { noFilter with host := some host }) = .ok (overview host)) ∧
      queryOverview (requests.map (·.toRequest)) (.datetime fromTs) (.datetime toTs) (.filter noFilter) = .ok o ∧
      ShowsTotals ((queryHostsSummary requests fromTs toTs isoformat db).map fun e => (e.host, e.reqCount)) none
        overview ∧
      (∀ e ∈ queryHostsSummary requests fromTs toTs isoformat db, e.host ≠ "" → HostShown e (overview e.host)) ∧
      ((queryHostsSummary requests fromTs toTs isoformat db).map HostSummary.reqCount).sum = o.totalRequests ∧
      ((queryHostsSummary requests fromTs toTs isoformat db).map HostSummary.bytesOut).sum = o.bytesOut := by
  have hfirst : First (fun r : RequestRow => some r.host) anyGroup (hostSummaryOf isoformat) HostSummary.host
      (fun e => toDual e.reqCount) none (whereRows requests fromTs toTs none)
      (queryHostsSummary requests fromTs toTs isoformat db) := first_spec (fun _ _ => rfl) db none
  have hrows : ∀ host, host ≠ "" → whereRows requests fromTs toTs (some { noFilter with host := some host }) =
      members (some ·.host) (whereRows requests fromTs toTs none) host := fun host hhost => whereRows_host rfl hhost
  have hall : (whereRows requests fromTs toTs none).filter (fun r => (some r.host).isSome) =
      whereRows requests fromTs toTs none :=
    List.filter_eq_self.mpr fun _ _ => rfl
  refine ⟨_, _, fun host => queryOverview_rows (some { noFilter with host := some host }),
    queryOverview_rows (some noFilter),
    ?_, fun e he hhost => ?_, ?_, ?_⟩
  · exact First.showsTotals hfirst (fun _ _ => rfl) fun host hhost => congrArg List.length (hrows host hhost)
  · have heq := (hfirst.each e he).2
    rw [hrows e.host hhost]
    exact ⟨congrArg HostSummary.reqCount heq, congrArg HostSummary.uniqueIps heq, congrArg HostSummary.p50Ms heq,
      congrArg HostSummary.bytesOut heq⟩
  · have hsum : ((queryHostsSummary requests fromTs toTs isoformat db).map HostSummary.reqCount).sum =
        (((whereRows requests fromTs toTs none).filter fun r : RequestRow => (some r.host).isSome).map fun _ => 1).sum :=
      sum_first_none db HostSummary.reqCount (fun _ => 1) (fun _ => rfl) fun _ => length_eq_sum_ones _
    rw [hsum, hall, ← length_eq_sum_ones]
    rfl
  · have hsum : ((queryHostsSummary requests fromTs toTs isoformat db).map HostSummary.bytesOut).sum =
        bytesOut ((whereRows requests fromTs toTs none).filter fun r => (some r.host).isSome) :=
      sum_first_none db HostSummary.bytesOut (fun r : RequestRow => r.responseBytes.getD 0) (fun _ => rfl) fun _ => rfl
    rw [hsum, hall]
    rfl

end

/-! ## Addresses, and their profiles -/

section
variable {requests : List RequestRow} {fromTs toTs : Time}

theorem profileRows_eq (ip : String) :
    profileRows requests fromTs toTs ip = members (some ·.remoteIp) (whereRows requests fromTs toTs none) ip := by
  rw [profileRows, members, whereRows, List.filter_filter]
  refine List.filter_congr fun r _ => ?_
  simp [conditionsOf, Condition.holds]

theorem mem_threatScores {rows : List RequestRow} {n : ℤ} :
    n ∈ (rows.filter isThreat).filterMap (·.threatScore) ↔ n ∈ rows.filterMap (·.threatScore) ∧ 0 < n := by
  rw [List.mem_filterMap, List.mem_filterMap]
  constructor
  · rintro ⟨r, hr, hn⟩
    obtain ⟨hmem, hthreat⟩ := List.mem_filter.mp hr
    rw [isThreat, hn] at hthreat
    exact ⟨⟨r, hmem, hn⟩, of_decide_eq_true hthreat⟩
  · rintro ⟨⟨r, hmem, hn⟩, hpos⟩
    refine ⟨r, List.mem_filter.mpr ⟨hmem, ?_⟩, hn⟩
    rw [isThreat, hn]
    exact decide_eq_true hpos

/-- The rows that are threats have the largest score of all rows. -/
theorem maxThreat_threats {rows : List RequestRow} (h : rows.filter isThreat ≠ []) :
    ∃ n, 0 < n ∧ maxThreat rows = some n ∧ maxThreat (rows.filter isThreat) = some n := by
  obtain ⟨r, hr⟩ := List.exists_mem_of_ne_nil _ h
  obtain ⟨n, hn⟩ : ∃ n, r.threatScore = some n := by
    have hthreat := (List.mem_filter.mp hr).2
    cases hn : r.threatScore with
    | none =>
      rw [isThreat, hn] at hthreat
      cases hthreat
    | some n => exact ⟨n, rfl⟩
  have hsome : ((rows.filter isThreat).filterMap (·.threatScore)).max?.isSome := by
    rw [List.isSome_max?_iff]
    exact List.ne_nil_of_mem (List.mem_filterMap.mpr ⟨r, hr, hn⟩)
  obtain ⟨m, hm⟩ := Option.isSome_iff_exists.mp hsome
  obtain ⟨hmem, hle⟩ := List.max?_eq_some_iff.mp hm
  obtain ⟨hall, hmpos⟩ := mem_threatScores.mp hmem
  refine ⟨m, hmpos, List.max?_eq_some_iff.mpr ⟨hall, fun x hx => ?_⟩, hm⟩
  rcases le_or_gt x 0 with hneg | hxpos
  · exact hneg.trans hmpos.le
  · exact hle x (mem_threatScores.mpr ⟨hx, hxpos⟩)

theorem threats_of_maxThreat {rows : List RequestRow} {n : ℤ} (h : maxThreat rows = some n) (hpos : 0 < n) :
    rows.filter isThreat ≠ [] := by
  intro hnil
  have hmem := mem_threatScores.mpr ⟨List.max?_mem h, hpos⟩
  rw [hnil] at hmem
  cases hmem

theorem members_threats {rows : List RequestRow} (ip : String) :
    members (some ·.remoteIp) (rows.filter isThreat) ip = (members (some ·.remoteIp) rows ip).filter isThreat :=
  List.filter_comm ..

/-- What the list of addresses shows of a profile. -/
def IpProfile.listed (p : IpProfile) : TopIp where
  remoteIp := p.remoteIp
  reqCount := p.reqCount
  errorRate := p.errorRate
  threatScore := p.maxThreat
  countryCode := p.countryCode
  countryName := p.countryName
  lastSeen := p.lastSeen

structure ThreatShown (e : TopThreat) (p : IpProfile) : Prop where
  maxScore : e.maxScore = some p.maxThreat
  positive : 0 < p.maxThreat
  eventCount : e.eventCount ≤ p.reqCount

/-- **An address is listed as it is profiled**: its entry in the list of addresses is what its profile says, and it is
among the threats just when its profile has a threat score, with that score, unless the list is full of higher ones. -/
theorem listed_as_profiled (isoformat : Time → String) (limit : ℕ) (byCount : ByCount TopIp TopIp.reqCount)
    (byScore : OrderBy TopThreat.weight) (paths : ByCount (Counted String) Counted.reqCount) :
    let profile := fun ip => queryIpProfile requests fromTs toTs isoformat ip paths
    let threats := queryTopThreats requests fromTs toTs isoformat limit byScore
    (∀ e ∈ queryTopIps requests fromTs toTs (some noFilter) isoformat limit byCount, e = (profile e.remoteIp).listed) ∧
    (threats.map TopThreat.remoteIp).Nodup ∧
    (∀ e ∈ threats, ThreatShown e (profile e.remoteIp)) ∧
    ∀ ip, 0 < (profile ip).maxThreat → ip ∈ threats.map TopThreat.remoteIp ∨
      threats.length = limit ∧ ∀ e ∈ threats, (profile ip).maxThreat ≤ (profile e.remoteIp).maxThreat := by
  intro profile threats
  have hips : First (fun r : RequestRow => some r.remoteIp) anyGroup (topIpOf isoformat) TopIp.remoteIp
      (fun e => toDual e.reqCount) (some limit) (whereRows requests fromTs toTs none)
      (queryTopIps requests fromTs toTs (some noFilter) isoformat limit byCount) :=
    first_spec (fun _ _ => rfl) byCount (some limit)
  have hthreats : First (fun r : RequestRow => some r.remoteIp) anyGroup (topThreatOf isoformat) TopThreat.remoteIp
      TopThreat.weight (some limit) ((whereRows requests fromTs toTs none).filter isThreat) threats :=
    first_spec (fun _ _ => rfl) byScore (some limit)
  have hrows : ∀ ip, (profile ip).listed =
      topIpOf isoformat ip (members (some ·.remoteIp) (whereRows requests fromTs toTs none) ip) := fun ip =>
    congrArg (topIpOf isoformat ip) (profileRows_eq ip)
  have hshown : ∀ e ∈ threats, ThreatShown e (profile e.remoteIp) := fun e he => by
    obtain ⟨hne, heq⟩ := hthreats.each e he
    rw [members_threats] at hne heq
    obtain ⟨n, hpos, hall, hsome⟩ := maxThreat_threats hne
    have hmax : (profile e.remoteIp).maxThreat = n := by
      refine (congrArg TopIp.threatScore (hrows e.remoteIp)).trans ?_
      show (maxThreat _).getD 0 = n
      rw [hall, Option.getD_some]
    have hcount : e.eventCount = _ := congrArg TopThreat.eventCount heq
    have hprofile : (profile e.remoteIp).reqCount = _ := congrArg TopIp.reqCount (hrows e.remoteIp)
    refine ⟨(congrArg TopThreat.maxScore heq).trans ?_, hmax ▸ hpos, ?_⟩
    · rw [hmax]
      exact hsome
    · rw [hcount, hprofile]
      exact List.length_filter_le ..
  refine ⟨fun e he => (hips.each e he).2.trans (hrows e.remoteIp).symm, hthreats.distinct, hshown, fun ip hip => ?_⟩
  obtain ⟨n, hn, hmax⟩ : ∃ n, maxThreat (members (some ·.remoteIp) (whereRows requests fromTs toTs none) ip) = some n ∧
      (profile ip).maxThreat = n := by
    have hscore : (profile ip).maxThreat = _ := congrArg TopIp.threatScore (hrows ip)
    rw [hscore] at hip ⊢
    cases hn : maxThreat (members (some ·.remoteIp) (whereRows requests fromTs toTs none) ip) with
    | none =>
      change 0 < (maxThreat _).getD 0 at hip
      rw [hn] at hip
      exact absurd hip (lt_irrefl 0)
    | some n =>
      refine ⟨n, rfl, ?_⟩
      show (maxThreat _).getD 0 = n
      rw [hn, Option.getD_some]
  have hthreat := threats_of_maxThreat hn (hmax ▸ hip)
  obtain ⟨m, -, hall, hsome⟩ := maxThreat_threats hthreat
  rw [hn] at hall
  cases hall
  rw [← members_threats] at hthreat hsome
  apply (hthreats.complete ip hthreat rfl).imp_right
  intro hfirst
  refine ⟨(Option.some.inj hfirst.1).symm, fun e he => ?_⟩
  have hle := hfirst.2 e he
  rw [TopThreat.weight, TopThreat.weight, toDual_le_toDual, Prod.Lex.toLex_le_toLex'] at hle
  have hscores := hle.1
  have hleft : (topThreatOf isoformat ip
      (members (some ·.remoteIp) ((whereRows requests fromTs toTs none).filter isThreat) ip)).maxScore = some n := hsome
  dsimp only at hscores
  rw [(hshown e he).maxScore, hleft] at hscores
  exact hmax.trans_le (WithBot.coe_le_coe.mp hscores)

end

/-! ## What the breakdowns add up to -/

/-- The breakdowns of a filter, beside the overview for it. -/
structure BreakdownTotals (statusCodes : List (Counted ℤ)) (patterns : HostPatterns) (o : Overview) : Prop where
  req2xx : ((statusCodes.filter fun e => 200 ≤ e.value && e.value < 300).map Counted.reqCount).sum = o.req2xx
  req3xx : ((statusCodes.filter fun e => 300 ≤ e.value && e.value < 400).map Counted.reqCount).sum = o.req3xx
  req4xx : ((statusCodes.filter fun e => 400 ≤ e.value && e.value < 500).map Counted.reqCount).sum = o.req4xx
  req5xx : ((statusCodes.filter fun e => 500 ≤ e.value).map Counted.reqCount).sum = o.req5xx
  errorRate : o.errorRate = roundTo 4 ((o.req4xx + o.req5xx : ℕ) / o.totalRequests)
  protocols : (patterns.protocolBreakdown.map Counted.reqCount).sum = o.totalRequests
  busyHours : (patterns.busyHours.map BusyHour.reqCount).sum = o.totalRequests
  week : ∀ h ∈ patterns.busyHours, h.hour < 24 ∧ h.dow < 7 ∧ 0 < h.reqCount
  ascending : patterns.busyHours.Pairwise fun a b => toLex (a.dow, a.hour) < toLex (b.dow, b.hour)
  bots : patterns.botCount ≤ o.totalRequests

section
variable {requests rows : List RequestRow} {fromTs toTs : Time}

theorem sum_filter_map {γ : Type} (p : γ → Bool) (number : γ → ℕ) (l : List γ) :
    ((l.filter p).map number).sum = (l.map fun e => if p e then number e else 0).sum := by
  induction l with
  | nil => rfl
  | cons e l ih =>
    rw [List.filter_cons, List.map_cons, List.sum_cons, ← ih]
    cases p e with
    | true => exact List.sum_cons
    | false => exact (Nat.zero_add _).symm

theorem countP_eq_sum {γ : Type} (p : γ → Bool) (l : List γ) :
    l.countP p = (l.map fun e => if p e then 1 else 0).sum := by
  rw [← sum_filter_map, List.countP_eq_length_filter]
  simp

theorem anyGroup_eq (rs : List RequestRow) : anyGroup rs = true := rfl

/-- The statuses of a class are listed with the number of its requests. -/
theorem sum_statusCodes (db : ByCount (Counted ℤ) Counted.reqCount) (p : ℤ → Bool) :
    (((db.first none (groups (·.status) anyGroup counted rows)).filter fun e => p e.value).map Counted.reqCount).sum =
      rows.countP fun r => r.status.any p := by
  rw [sum_filter_map, sum_first_none db (fun e => if p e.value then e.reqCount else 0)
    (fun r => if r.status.any p then 1 else 0) anyGroup_eq fun k => ?_]
  · rw [← countP_eq_sum, List.countP_filter]
    refine List.countP_congr fun r _ => ?_
    cases r.status <;> simp
  · show (if p k then (members (·.status) rows k).length else 0) = _
    have hall : ∀ r ∈ members (fun r : RequestRow => r.status) rows k, r.status.any p = p k := fun r hr => by
      rw [(mem_members.mp hr).2]
      rfl
    rw [← countP_eq_sum]
    cases hk : p k with
    | true => exact (List.countP_eq_length.mpr fun r hr => (hall r hr).trans hk).symm
    | false => exact (List.countP_eq_zero.mpr fun r hr => by rw [hall r hr, hk]; exact Bool.false_ne_true).symm

theorem errors_split (rows : List RequestRow) : (rows.map (·.toRequest)).countP (fun r => r.status.any (400 ≤ ·)) =
    rows.countP (fun r => r.status.any fun s => 400 ≤ s && s < 500) + rows.countP fun r => r.status.any (500 ≤ ·) := by
  induction rows with
  | nil => rfl
  | cons r rows ih =>
    rw [List.map_cons, List.countP_cons, List.countP_cons, List.countP_cons, ih]
    cases hs : r.status with
    | none => simp
    | some s =>
      by_cases h4 : 400 ≤ s
      · by_cases h5 : 500 ≤ s
        · have hlt : ¬ s < 500 := by omega
          simp only [Option.any_some, h4, h5, hlt, decide_true, decide_false, Bool.and_false, if_true,
            Bool.false_eq_true, if_false]
          omega
        · have hlt : s < 500 := by omega
          simp only [Option.any_some, h4, h5, hlt, decide_true, decide_false, Bool.and_true, if_true,
            Bool.false_eq_true, if_false]
          omega
      · have h5 : ¬ 500 ≤ s := by omega
        simp only [Option.any_some, h4, h5, decide_false, Bool.false_and, Bool.false_eq_true, if_false]
        omega

/-- **The breakdowns add up to the overview**, whatever they are filtered by: the statuses of a class to its requests,
the protocols and the hours of the week to all requests. -/
theorem breakdown_totals (f : RequestFilter) (db : ByCount (Counted ℤ) Counted.reqCount)
    (protocols referers : ByCount (Counted String) Counted.reqCount) : ∃ o,
      queryOverview (requests.map (·.toRequest)) (.datetime fromTs) (.datetime toTs) (.filter f) = .ok o ∧
      BreakdownTotals (queryStatusCodes requests fromTs toTs (some f) db)
        (queryHostPatterns requests fromTs toTs (some f) protocols referers) o := by
  refine ⟨_, queryOverview_rows (some f), ?_⟩
  rw [queryStatusCodes, queryCounted, queryHostPatterns]
  generalize whereRows requests fromTs toTs (some f) = rows
  exact {
    req2xx := sum_statusCodes db fun s => 200 ≤ s && s < 300
    req3xx := sum_statusCodes db fun s => 300 ≤ s && s < 400
    req4xx := sum_statusCodes db fun s => 400 ≤ s && s < 500
    req5xx := sum_statusCodes db fun s => 500 ≤ s
    errorRate := by
      show roundTo 4 (errorShare _) = _
      rw [errorShare, errors_split, List.length_map]
      rfl
    protocols := by
      have hall : rows.filter (fun r => (protocolOf r).isSome) = rows := List.filter_eq_self.mpr fun _ _ => rfl
      have hsum : ((protocols.first none (groups protocolOf anyGroup counted rows)).map Counted.reqCount).sum =
          ((rows.filter fun r => (protocolOf r).isSome).map fun _ => 1).sum :=
        sum_first_none protocols Counted.reqCount (fun _ => 1) anyGroup_eq fun k => length_eq_sum_ones _
      rw [hall, ← length_eq_sum_ones] at hsum
      exact hsum
    busyHours := by
      have hsum : ((Grouping.keys slotOf rows).map fun k => ((Grouping.group slotOf rows k).map fun _ => 1).sum).sum =
          (rows.map fun _ => 1).sum := Grouping.sum_groups (fun _ => 1) rows
      show (List.map _ (List.map _ _)).sum = rows.length
      rw [List.map_map, length_eq_sum_ones, ← hsum]
      exact congrArg List.sum (List.map_congr_left fun k _ => length_eq_sum_ones _)
    week := fun h hh => by
      obtain ⟨k, hk, rfl⟩ := List.mem_map.mp hh
      obtain ⟨r, hr, rfl⟩ := List.mem_map.mp (Grouping.mem_keys.mp hk)
      exact ⟨Nat.mod_lt _ (by decide), Nat.mod_lt _ (by decide),
        List.length_pos_iff.mpr (Grouping.group_ne_nil (List.mem_map_of_mem hr))⟩
    ascending := List.pairwise_map.mpr (Grouping.keys_ascending rows)
    bots := List.countP_le_length }

end

end Cadsa.Breakdowns
