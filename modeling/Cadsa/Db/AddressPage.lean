import Mathlib.Algebra.Order.BigOperators.Group.List
import Cadsa.Db.Percentiles

/-! The page of an address: `query_ip_detail`, whose statements each read the requests of the address again. What they
give adds up to the overview that is filtered by the address, and agrees with its profile. -/
namespace Cadsa.AddressPage
open Db Analytics DuckDb Paging Ranking Grouping Breakdowns Percentiles OrderDual
set_option autoImplicit false

/-! ## `query_ip_detail` -/

structure HostAccessed where
  host : String
  reqCount : ℕ
  errorRate : ℚ

def hostAccessedOf (host : String) (rows : List RequestRow) : HostAccessed := ⟨host, rows.length, errorRate rows⟩

structure BusyHour where
  hour : ℕ
  reqCount : ℕ
  errCount : ℕ

def busyHourOf (hour : ℕ) (rows : List RequestRow) : BusyHour :=
  ⟨hour, rows.length, countOf (fun r => r.status.any (400 ≤ ·)) rows⟩

structure UaSummary where
  browser : Option String
  os : Option String
  tlsVersion : Option String
  httpProto : Option String
  isBotPct : ℚ
  tlsResumedPct : Option ℚ
  sampleUa : Option String

structure ResponseSummary where
  avgMs : ℤ
  p95Ms : ℤ
  totalBytesIn : ℤ
  totalBytesOut : ℤ

structure IpDetail where
  hostsAccessed : List HostAccessed
  timeline : List TimelinePoint
  methods : List (Counted String)
  statusCodes : List (Counted ℤ)
  busyHours : List BusyHour
  uaSummary : UaSummary
  responseSummary : ResponseSummary

/-- How the database orders what the statements leave open; `sampleUa` has no `ORDER BY` at all. -/
structure Orders where
  hosts : ByCount HostAccessed HostAccessed.reqCount
  methods : ByCount (Counted String) Counted.reqCount
  statusCodes : ByCount (Counted ℤ) Counted.reqCount
  texts : ByCount (Counted String) Counted.reqCount
  sampleUa : OrderBy fun _ : String => ()

/-- `GROUP BY col ORDER BY COUNT(*) DESC LIMIT 1`. -/
def mostOf (db : ByCount (Counted String) Counted.reqCount) (col : RequestRow → Option String)
    (rows : List RequestRow) : Option String :=
  (db.first (some 1) (groups col anyGroup counted rows)).head?.map Counted.value

/-- `CASE WHEN tls_resumed IS TRUE THEN 1.0 WHEN tls_version IS NOT NULL THEN 0.0 ELSE NULL END`. -/
def resumedCase (r : RequestRow) : Option ℤ :=
  if r.tlsResumed = some true then some 1 else if r.tlsVersion.isSome then some 0 else none

/-- `round(float(x) * 100, 1)`. -/
def percent (x : ℚ) : ℚ := roundTo 1 (x * 100)

section
variable (requests : List RequestRow) (fromTs toTs : Time)

def queryIpDetail (ip : String) (db : Orders) : IpDetail :=
  let rows := profileRows requests fromTs toTs ip
  { hostsAccessed := db.hosts.first (some 20) (groups (some ·.host) anyGroup hostAccessedOf rows)
    timeline := ipTimeline (requests.map (·.toRequest)) ip fromTs toTs
    methods := db.methods.first none (groups (·.method) anyGroup counted rows)
    statusCodes := db.statusCodes.first none (groups (·.status) anyGroup counted rows)
    busyHours := (keys (fun r => hourOfDay r.ts) rows).map fun h =>
      busyHourOf h (group (fun r => hourOfDay r.ts) rows h)
    uaSummary :=
      { browser := mostOf db.texts (·.uaBrowser) rows
        os := mostOf db.texts (·.uaOs) rows
        tlsVersion := mostOf db.texts (·.tlsVersion) rows
        httpProto := mostOf db.texts (fun r => notEmpty r.httpProto) rows
        isBotPct := percent ((avg (rows.map fun r => if isBot r then 1 else 0)).getD 0)
        tlsResumedPct := (avg (rows.filterMap resumedCase)).map percent
        sampleUa := (db.sampleUa.first (some 1) (rows.filterMap fun r => notEmpty r.userAgent)).head? }
    responseSummary :=
      { avgMs := castOrZero (avg (durations rows))
        p95Ms := castOrZero (percentileCont (19 / 20) (durations rows))
        totalBytesIn := (rows.map (·.requestBytes.getD 0)).sum
        totalBytesOut := bytesOut rows } }

end

/-! ## What the page adds up to -/

/-- The numbers of the page, beside the overview for the address. -/
structure AddsUp (d : IpDetail) (o : Overview) : Prop where
  timeline : (d.timeline.map TimelinePoint.reqCount).sum = o.totalRequests
  timelineBytes : (d.timeline.map TimelinePoint.bytesOut).sum = o.bytesOut ∧
    (d.timeline.map TimelinePoint.bytesIn).sum = o.bytesIn
  totalBytes : d.responseSummary.totalBytesOut = o.bytesOut ∧ d.responseSummary.totalBytesIn = o.bytesIn
  req2xx : ((d.statusCodes.filter fun e => 200 ≤ e.value && e.value < 300).map Counted.reqCount).sum = o.req2xx
  req3xx : ((d.statusCodes.filter fun e => 300 ≤ e.value && e.value < 400).map Counted.reqCount).sum = o.req3xx
  req4xx : ((d.statusCodes.filter fun e => 400 ≤ e.value && e.value < 500).map Counted.reqCount).sum = o.req4xx
  req5xx : ((d.statusCodes.filter fun e => 500 ≤ e.value).map Counted.reqCount).sum = o.req5xx
  methods : (d.methods.map Counted.reqCount).sum ≤ o.totalRequests
  busyHours : (d.busyHours.map BusyHour.reqCount).sum = o.totalRequests
  busyErrors : (d.busyHours.map BusyHour.errCount).sum = o.req4xx + o.req5xx
  day : (d.busyHours.map BusyHour.hour).Pairwise (· < ·) ∧ ∀ h ∈ d.busyHours, h.hour < 24 ∧ h.errCount ≤ h.reqCount

/-- What the page says of the agents and the times of its requests. -/
structure Describes (d : IpDetail) (rows : List RequestRow) : Prop where
  browser : Prevails (·.uaBrowser) rows d.uaSummary.browser
  os : Prevails (·.uaOs) rows d.uaSummary.os
  tlsVersion : Prevails (·.tlsVersion) rows d.uaSummary.tlsVersion
  httpProto : Prevails (fun r => notEmpty r.httpProto) rows d.uaSummary.httpProto
  tlsResumed : d.uaSummary.tlsResumedPct = none ↔ ∀ r ∈ rows, r.tlsVersion = none ∧ r.tlsResumed ≠ some true
  sampleUa : ∀ agent ∈ d.uaSummary.sampleUa, ∃ r ∈ rows, r.userAgent = some agent ∧ agent ≠ ""
  noSample : d.uaSummary.sampleUa = none → ∀ r ∈ rows, ∀ agent ∈ r.userAgent, agent = ""
  between : durations rows ≠ [] →
    (∃ x ∈ durations rows, ∃ y ∈ durations rows, x ≤ d.responseSummary.avgMs ∧ d.responseSummary.avgMs ≤ y) ∧
    ∃ x ∈ durations rows, ∃ y ∈ durations rows, x ≤ d.responseSummary.p95Ms ∧ d.responseSummary.p95Ms ≤ y

section
variable {requests rows : List RequestRow} {fromTs toTs : Time}

theorem castInteger_intCast (x : ℤ) : castInteger (x : ℚ) = x := by simp [castInteger]

theorem mostOf_prevails (db : ByCount (Counted String) Counted.reqCount) (col : RequestRow → Option String) :
    Prevails col rows (mostOf db col rows) := prevails_first db (fun _ _ => rfl) (fun _ _ => rfl) anyGroup_eq

theorem castOrZero_avg {xs : List ℤ} (h : xs ≠ []) : castOrZero (avg xs) = castInteger (xs.sum / xs.length : ℚ) := by
  have hempty : xs.isEmpty = false := by simpa using h
  rw [avg, hempty]
  rfl

theorem le_castOrZero_avg {xs : List ℤ} (h : xs ≠ []) {c : ℤ} (hall : ∀ x ∈ xs, c ≤ x) : c ≤ castOrZero (avg xs) := by
  have hpos : (0 : ℚ) < xs.length := by exact_mod_cast List.length_pos_iff.mpr h
  have hsum := List.card_nsmul_le_sum xs c hall
  have hmean : (c : ℚ) ≤ xs.sum / xs.length := by
    rw [le_div_iff₀ hpos, mul_comm]
    exact_mod_cast hsum
  rw [castOrZero_avg h, ← castInteger_intCast c]
  exact castInteger_mono hmean

theorem castOrZero_avg_le {xs : List ℤ} (h : xs ≠ []) {c : ℤ} (hall : ∀ x ∈ xs, x ≤ c) : castOrZero (avg xs) ≤ c := by
  have hpos : (0 : ℚ) < xs.length := by exact_mod_cast List.length_pos_iff.mpr h
  have hsum := List.sum_le_card_nsmul xs c hall
  have hmean : (xs.sum / xs.length : ℚ) ≤ (c : ℚ) := by
    rw [div_le_iff₀ hpos, mul_comm]
    exact_mod_cast hsum
  rw [castOrZero_avg h, ← castInteger_intCast c]
  exact castInteger_mono hmean

/-- An average, rounded, is between two of the numbers. -/
theorem castOrZero_avg_between {xs : List ℤ} (h : xs ≠ []) :
    ∃ x ∈ xs, ∃ y ∈ xs, x ≤ castOrZero (avg xs) ∧ castOrZero (avg xs) ≤ y := by
  obtain ⟨x, hx, hlow⟩ : ∃ x ∈ xs, x ≤ castOrZero (avg xs) := by
    by_contra hnone
    have hall : ∀ x ∈ xs, castOrZero (avg xs) + 1 ≤ x := fun x hx => not_le.mp fun hle => hnone ⟨x, hx, hle⟩
    have hover := le_castOrZero_avg h hall
    omega
  obtain ⟨y, hy, hhigh⟩ : ∃ y ∈ xs, castOrZero (avg xs) ≤ y := by
    by_contra hnone
    have hall : ∀ y ∈ xs, y ≤ castOrZero (avg xs) - 1 := by
      intro y hy
      have hlt := not_le.mp fun hle => hnone ⟨y, hy, hle⟩
      omega
    have hunder := castOrZero_avg_le h hall
    omega
  exact ⟨x, hx, y, hy, hlow, hhigh⟩

theorem castOrZero_percentile_between {xs : List ℤ} (h : xs ≠ []) {p : ℚ} (hp : 0 ≤ p) (hp' : p ≤ 1) :
    ∃ x ∈ xs, ∃ y ∈ xs, x ≤ castOrZero (percentileCont p xs) ∧ castOrZero (percentileCont p xs) ≤ y := by
  obtain ⟨x, hx, y, hy, a, ha, hxa, hay⟩ := percentileCont_between h hp hp'
  rw [ha]
  exact ⟨x, hx, y, hy, (castInteger_intCast x).symm.trans_le (castInteger_mono hxa),
    (castInteger_mono hay).trans_eq (castInteger_intCast y)⟩

/-! ## The rows of the address -/

theorem profileRows_filter {ip : String} (hip : ip ≠ "") : whereRows requests fromTs toTs (some { noFilter with
    remoteIp := some ip }) = profileRows requests fromTs toTs ip := by
  rw [whereRows_remoteIp (f := noFilter) rfl hip, profileRows_eq]
  rfl

theorem ipRows_eq (ip : String) : ipRows (requests.map (·.toRequest)) ip fromTs toTs =
    (profileRows requests fromTs toTs ip).map (·.toRequest) := by
  rw [ipRows, profileRows, List.filter_map]
  rfl

theorem sum_timeline {M : Type} [AddCommMonoid M] (number : TimelinePoint → M) (value : Request → M)
    (h : ∀ b rs, number (timelinePointOf b rs) = (rs.map value).sum) (ip : String) :
    ((ipTimeline (requests.map (·.toRequest)) ip fromTs toTs).map number).sum =
      ((profileRows requests fromTs toTs ip).map fun r => value r.toRequest).sum := by
  rw [ipTimeline, List.map_map, ipRows_eq]
  generalize hrows : (profileRows requests fromTs toTs ip).map (·.toRequest) = rows
  have hgroups : ((keys hourOf rows).map fun b => ((group hourOf rows b).map value).sum).sum = (rows.map value).sum :=
    sum_groups value rows
  have hvalues : (profileRows requests fromTs toTs ip).map (fun r => value r.toRequest) = rows.map value := by
    rw [← hrows, List.map_map]
    rfl
  rw [hvalues, ← hgroups]
  exact congrArg List.sum (List.map_congr_left fun b _ => h b _)

/-- A number that is a sum over the rows of an hour adds up over the hours. -/
theorem sum_busyHours (number : BusyHour → ℕ) (value : RequestRow → ℕ)
    (h : ∀ b rs, number (busyHourOf b rs) = (rs.map value).sum) :
    (((keys (fun r => hourOfDay r.ts) rows).map fun b => busyHourOf b (group (fun r => hourOfDay r.ts) rows b)).map
      number).sum = (rows.map value).sum := by
  have hgroups : ((keys (fun r : RequestRow => hourOfDay r.ts) rows).map fun b =>
      ((group (fun r => hourOfDay r.ts) rows b).map value).sum).sum = (rows.map value).sum := sum_groups value rows
  rw [List.map_map, ← hgroups]
  exact congrArg List.sum (List.map_congr_left fun b _ => h b _)

theorem addsUp (ip : String) (db : Orders) : AddsUp (queryIpDetail requests fromTs toTs ip db)
    (overviewOf (profileRows requests fromTs toTs ip)) where
  timeline := (sum_timeline TimelinePoint.reqCount (fun _ => 1) (fun _ rs => length_eq_sum rs) ip).trans
    (length_eq_sum_ones _).symm
  timelineBytes := ⟨sum_timeline TimelinePoint.bytesOut (·.responseBytes.getD 0) (fun _ _ => rfl) ip,
    sum_timeline TimelinePoint.bytesIn (·.requestBytes.getD 0) (fun _ _ => rfl) ip⟩
  totalBytes := ⟨rfl, rfl⟩
  req2xx := sum_statusCodes db.statusCodes fun s => 200 ≤ s && s < 300
  req3xx := sum_statusCodes db.statusCodes fun s => 300 ≤ s && s < 400
  req4xx := sum_statusCodes db.statusCodes fun s => 400 ≤ s && s < 500
  req5xx := sum_statusCodes db.statusCodes fun s => 500 ≤ s
  methods := by
    generalize hrows : profileRows requests fromTs toTs ip = rows
    have hsum : ((db.methods.first none (groups (fun r : RequestRow => r.method) anyGroup counted rows)).map
        Counted.reqCount).sum = ((rows.filter fun r : RequestRow => r.method.isSome).map fun _ => 1).sum :=
      sum_first_none db.methods Counted.reqCount (fun _ => 1) anyGroup_eq fun k => length_eq_sum_ones _
    rw [← length_eq_sum_ones] at hsum
    rw [queryIpDetail, hrows]
    exact hsum.trans_le (List.length_filter_le _ _)
  busyHours := (sum_busyHours BusyHour.reqCount (fun _ => 1) fun b rs => length_eq_sum_ones rs).trans
    (length_eq_sum_ones _).symm
  busyErrors := by
    refine (sum_busyHours BusyHour.errCount (fun r => if r.status.any (400 ≤ ·) then 1 else 0) fun b rs =>
      congrArg List.sum List.map_map).trans ?_
    have hsplit := errors_split (profileRows requests fromTs toTs ip)
    rw [List.countP_map] at hsplit
    rw [← countP_eq_sum]
    exact hsplit
  day := by
    refine ⟨?_, fun h hh => ?_⟩
    · show (List.map _ (List.map _ _)).Pairwise _
      rw [List.map_map]
      exact (List.map_id _).symm ▸ keys_ascending _
    · obtain ⟨b, hb, rfl⟩ := List.mem_map.mp hh
      obtain ⟨r, hr, rfl⟩ := List.mem_map.mp (mem_keys.mp hb)
      refine ⟨Nat.mod_lt _ (by decide), ?_⟩
      show countOf _ _ ≤ _
      rw [countOf, sumCase_eq_countP, List.countP_map]
      exact List.countP_le_length

theorem avg_eq_none {xs : List ℤ} : avg xs = none ↔ xs = [] := by
  rw [avg]
  cases xs <;> simp

theorem describes (ip : String) (db : Orders) :
    Describes (queryIpDetail requests fromTs toTs ip db) (profileRows requests fromTs toTs ip) where
  browser := mostOf_prevails db.texts _
  os := mostOf_prevails db.texts _
  tlsVersion := mostOf_prevails db.texts _
  httpProto := mostOf_prevails db.texts _
  tlsResumed := by
    show (avg _).map percent = none ↔ _
    rw [Option.map_eq_none_iff, avg_eq_none, List.filterMap_eq_nil_iff]
    refine forall_congr' fun r => forall_congr' fun hr => ?_
    rw [resumedCase]
    cases r.tlsVersion with
    | none => simp
    | some version => by_cases hresumed : r.tlsResumed = some true <;> simp [hresumed]
  sampleUa := by
    intro agent hagent
    have hfound := db.sampleUa.mem_of_first (List.mem_of_mem_head? hagent)
    obtain ⟨r, hr, hsome⟩ := List.mem_filterMap.mp hfound
    obtain ⟨hag, hne⟩ := Option.filter_eq_some_iff.mp hsome
    exact ⟨r, hr, hag, of_decide_eq_true hne⟩
  noSample := by
    intro hnone r hr agent hagent
    by_contra hne
    have hfound : agent ∈ (profileRows requests fromTs toTs ip).filterMap fun r => notEmpty r.userAgent :=
      List.mem_filterMap.mpr ⟨r, hr, Option.filter_eq_some_iff.mpr ⟨hagent, decide_eq_true hne⟩⟩
    have hnil := List.head?_eq_none_iff.mp hnone
    rcases db.sampleUa.after_first hfound with hin | ⟨hfull, -⟩
    · rw [hnil] at hin
      cases hin
    · rw [hnil] at hfull
      cases hfull
  between := fun h => ⟨castOrZero_avg_between h, castOrZero_percentile_between h (by norm_num) (by norm_num)⟩

/-! ## Hosts -/

theorem length_groups_host (rows : List RequestRow) : (groups (fun r : RequestRow => some r.host) anyGroup
    hostAccessedOf rows).length = (rows.map (·.host)).dedup.length := by
  have hall : (groupKeys (fun r : RequestRow => some r.host) rows).filter
      (fun k => anyGroup (members (fun r : RequestRow => some r.host) rows k)) =
      groupKeys (fun r : RequestRow => some r.host) rows := List.filter_eq_self.mpr fun _ _ => rfl
  rw [groups, List.length_map, hall, groupKeys, List.filterMap_eq_map']

theorem length_first_host (db : ByCount HostAccessed HostAccessed.reqCount) (rows : List RequestRow) :
    (db.first (some 20) (groups (some ·.host) anyGroup hostAccessedOf rows)).length =
      min 20 (rows.map (·.host)).dedup.length := by
  rw [OrderBy.first, List.length_take, (db.ordered _).perm.length_eq, length_groups_host]

/-- While there is room for all hosts, they have all the requests. -/
theorem sum_first_host (db : ByCount HostAccessed HostAccessed.reqCount) {rows : List RequestRow}
    (hfew : (rows.map (·.host)).dedup.length ≤ 20) :
    ((db.first (some 20) (groups (some ·.host) anyGroup hostAccessedOf rows)).map HostAccessed.reqCount).sum =
      rows.length := by
  have hlength : (db.run (groups (some ·.host) anyGroup hostAccessedOf rows)).length ≤ 20 := by
    rw [(db.ordered _).perm.length_eq, length_groups_host]
    exact hfew
  have hall : rows.filter (fun r => (some r.host).isSome) = rows := List.filter_eq_self.mpr fun _ _ => rfl
  have hsum : ((db.first none (groups (some ·.host) anyGroup hostAccessedOf rows)).map HostAccessed.reqCount).sum =
      ((rows.filter fun r => (some r.host).isSome).map fun _ => 1).sum :=
    sum_first_none db HostAccessed.reqCount (fun _ => 1) anyGroup_eq fun k => length_eq_sum_ones _
  rw [hall, ← length_eq_sum_ones] at hsum
  rw [OrderBy.first, List.take_of_length_le hlength]
  exact hsum

theorem maxText_eq_none {col : RequestRow → Option String} : maxText col rows = none ↔ ∀ r ∈ rows, col r = none := by
  rw [maxText, List.max?_eq_none_iff, List.filterMap_eq_nil_iff]

theorem Prevails.eq_none_iff {col : RequestRow → Option String} {value : Option String} (h : Prevails col rows value) :
    value = none ↔ ∀ r ∈ rows, col r = none := by
  cases value with
  | none => exact iff_of_true rfl h
  | some k =>
    refine iff_of_false (Option.some_ne_none k) fun hall => ?_
    obtain ⟨r, hr⟩ := List.exists_mem_of_ne_nil _ h.1
    obtain ⟨hmem, hk⟩ := mem_members.mp hr
    cases (hall r hmem).symm.trans hk

/-- **The page of an address adds up**: its hours, its hours of the day, its statuses and its hosts, as far as there is
room for these, to the overview for the address, each host to the overview for it there; and it has an agent just where
the profile of the address has one. -/
theorem address_page_adds_up (isoformat : Time → String) {ip : String} (hip : ip ≠ "") (db : Orders)
    (paths : ByCount (Counted String) Counted.reqCount) :
    let d := queryIpDetail requests fromTs toTs ip db
    let profile := queryIpProfile requests fromTs toTs isoformat ip paths
    ∃ (overview : String → Overview) (o : Overview),
      (∀ host, queryOverview (requests.map (·.toRequest)) (.datetime fromTs) (.datetime toTs)
        (.filter { noFilter with remoteIp := some ip, host := some host }) = .ok (overview host)) ∧
      queryOverview (requests.map (·.toRequest)) (.datetime fromTs) (.datetime toTs)
        (.filter { noFilter with remoteIp := some ip }) = .ok o ∧
      AddsUp d o ∧ Describes d (profileRows requests fromTs toTs ip) ∧
      ShowsTotals (d.hostsAccessed.map fun e => (e.host, e.reqCount)) (some 20) overview ∧
      d.hostsAccessed.length = min 20 profile.hostsCount ∧
      (profile.hostsCount ≤ 20 → (d.hostsAccessed.map HostAccessed.reqCount).sum = o.totalRequests) ∧
      (profile.browser = none ↔ d.uaSummary.browser = none) ∧ (profile.os = none ↔ d.uaSummary.os = none) ∧
      profile.reqCount = o.totalRequests := by
  intro d profile
  have hrows : whereRows requests fromTs toTs (some { noFilter with remoteIp := some ip }) =
      profileRows requests fromTs toTs ip := profileRows_filter hip
  have hdescribes : Describes d (profileRows requests fromTs toTs ip) := describes ip db
  refine ⟨_, _, fun host => queryOverview_rows (some { noFilter with remoteIp := some ip, host := some host }),
    queryOverview_rows (some { noFilter with remoteIp := some ip }), ?_⟩
  rw [hrows]
  refine ⟨addsUp ip db, hdescribes, ?_, length_first_host db.hosts _, fun hfew => sum_first_host db.hosts hfew, ?_, ?_,
    rfl⟩
  · have hfirst : First (fun r : RequestRow => some r.host) anyGroup hostAccessedOf HostAccessed.host
        (fun e => toDual e.reqCount) (some 20) (profileRows requests fromTs toTs ip) d.hostsAccessed :=
      first_spec (fun _ _ => rfl) db.hosts (some 20)
    have htotal : ∀ host, host ≠ "" → whereRows requests fromTs toTs
        (some { noFilter with remoteIp := some ip, host := some host }) =
          members (some ·.host) (profileRows requests fromTs toTs ip) host := fun host hhost => by
      rw [← hrows]
      exact @whereRows_host requests fromTs toTs { noFilter with remoteIp := some ip } rfl host hhost
    exact First.showsTotals hfirst (fun _ _ => rfl) fun host hhost => congrArg List.length (htotal host hhost)
  · exact maxText_eq_none.trans (Prevails.eq_none_iff hdescribes.browser).symm
  · exact maxText_eq_none.trans (Prevails.eq_none_iff hdescribes.os).symm

def sampleOrders : Orders := ⟨.stable _, .stable _, .stable _, .stable _, .stable _⟩

theorem address_page_adds_up_sample : ∃ o, queryOverview ([sampleRow 3, sampleRow 5].map (·.toRequest)) (.datetime 0)
    (.datetime 9) (.filter { noFilter with remoteIp := some "10.0.0.1" }) = .ok o ∧
    AddsUp (queryIpDetail [sampleRow 3, sampleRow 5] 0 9 "10.0.0.1" sampleOrders) o := by
  obtain ⟨-, o, -, ho, hadds, -⟩ := @address_page_adds_up [sampleRow 3, sampleRow 5] 0 9 (fun t => toString t)
    "10.0.0.1" (by decide) sampleOrders (.stable _)
  exact ⟨o, ho, hadds⟩

end

end Cadsa.AddressPage
