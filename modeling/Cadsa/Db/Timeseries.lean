import Mathlib.Algebra.Ring.Int.Defs
import Cadsa.Db.Analytics
import Cadsa.Lib.Grouping
import Cadsa.Lib.Outcomes

/-! The charts of `db/duckdb_manager.py`: `query_timeseries` and the timeline of `query_ip_detail`. The
numbers of a chart's points are those of the overview, cut into buckets. -/
namespace Cadsa.Analytics
open Db Grouping
set_option autoImplicit false

/-- `SUM(CASE WHEN … THEN 1 ELSE 0 END)`. -/
def sumCase (p : Request → Bool) (rows : List Request) : ℕ := (rows.map fun r => if p r then 1 else 0).sum

structure Point where
  ts : Time
  reqCount : ℕ
  req2xx : ℕ
  req3xx : ℕ
  req4xx : ℕ
  req5xx : ℕ
  bytesOut : ℤ
  bytesIn : ℤ
  p50Ms : ℤ
  uniqueIps : ℕ

def pointOf (ts : Time) (rows : List Request) : Point where
  ts := ts
  reqCount := rows.length
  req2xx := sumCase (statusIn 200 300) rows
  req3xx := sumCase (statusIn 300 400) rows
  req4xx := sumCase (statusIn 400 500) rows
  req5xx := sumCase (fun r => r.status.any (500 ≤ ·)) rows
  bytesOut := (rows.map (·.responseBytes.getD 0)).sum
  bytesIn := (rows.map (·.requestBytes.getD 0)).sum
  p50Ms := intOrZero (percentileCont (1 / 2) (rows.filterMap (·.durationMs)))
  uniqueIps := (rows.map (·.remoteIp)).dedup.length

/-- `GROUP BY b ORDER BY b`. -/
def chart (bucket : Request → Time) (rows : List Request) : List Point :=
  (keys bucket rows).map fun b => pointOf b (group bucket rows b)

/-- `timeBucket` is `time_bucket` for the interval of the bucket. -/
def queryTimeseries (timeBucket : Time → Time) (requests : List Request) (fromTs toTs f : Value) :
    Except QueryError (List Point) := do
  let conditions ← buildWhere fromTs toTs f
  let rows ← select requests conditions
  pure (chart (fun r => timeBucket r.ts) rows)

/-! ## The timeline of an address -/

/-- `status BETWEEN low AND high`. -/
def statusBetween (low high : ℤ) (r : Request) : Bool := r.status.any fun s => low ≤ s && s ≤ high

structure TimelinePoint where
  ts : Time
  reqCount : ℕ
  req2xx : ℕ
  req3xx : ℕ
  req4xx : ℕ
  req5xx : ℕ
  bytesOut : ℤ
  bytesIn : ℤ
  p50Ms : ℤ

def timelinePointOf (ts : Time) (rows : List Request) : TimelinePoint where
  ts := ts
  reqCount := rows.length
  req2xx := sumCase (statusBetween 200 299) rows
  req3xx := sumCase (statusBetween 300 399) rows
  req4xx := sumCase (statusBetween 400 499) rows
  req5xx := sumCase (statusBetween 500 599) rows
  bytesOut := (rows.map (·.responseBytes.getD 0)).sum
  bytesIn := (rows.map (·.requestBytes.getD 0)).sum
  p50Ms := ((percentileCont (1 / 2) (rows.filterMap (·.durationMs))).map castInteger).getD 0

/-- `date_trunc('hour', ts)`. -/
def hourOf (r : Request) : Time := r.ts / minutes 60 * minutes 60

def ipRows (requests : List Request) (ip : String) (fromTs toTs : Time) : List Request :=
  requests.filter fun r => r.remoteIp = ip && (fromTs ≤ r.ts && r.ts ≤ toTs)

/-- The timeline of `query_ip_detail`. -/
def ipTimeline (requests : List Request) (ip : String) (fromTs toTs : Time) : List TimelinePoint :=
  let rows := ipRows requests ip fromTs toTs
  (keys hourOf rows).map fun b => timelinePointOf b (group hourOf rows b)

/-! ## Which rows a filter selects -/

def Value.ofFilter : Option RequestFilter → Value
  | some f => .filter f
  | Option.none => .none

/-- The condition on one row; with bounds that are no times there is none. -/
def Condition.holds : Condition → Request → Bool
  | .between (.datetime a) (.datetime b), r => a ≤ r.ts && r.ts ≤ b
  | .between _ _, _ => false
  | .host s, r => r.host = s
  | .remoteIp s, r => r.remoteIp = s
  | .method s, r => r.method = some s
  | .statusClass s, r => r.statusClass = some s
  | .pathLike pattern, r => r.path.any fun path => like pattern.toList path.toList
  | .countryCode s, r => r.countryCode = some s

def Condition.timed : Condition → Bool
  | .between (.datetime _) (.datetime _) => true
  | .between _ _ => false
  | _ => true

theorem Condition.select_eq {rows : List Request} {c : Condition} (h : c.timed = true) :
    c.select rows = .ok (rows.filter c.holds) := by
  cases c with
  | between fromTs toTs =>
    cases fromTs with
    | datetime a =>
      cases toTs with
      | datetime b => rfl
      | none | str | filter => cases h
    | none | str | filter => cases h
  | host | remoteIp | method | statusClass | pathLike | countryCode => rfl

theorem select_eq {rows : List Request} {conditions : List Condition} (h : ∀ c ∈ conditions, c.timed = true) :
    select rows conditions = .ok (rows.filter fun r => conditions.all (·.holds r)) := by
  induction conditions generalizing rows with
  | nil => simp [select, pure, Except.pure]
  | cons c conditions ih =>
    rw [select, List.foldlM_cons, Condition.select_eq (h c List.mem_cons_self)]
    refine (ih fun d hd => h d (List.mem_cons_of_mem c hd)).trans ?_
    simp only [List.filter_filter, List.all_cons, Bool.and_comm]

/-- The conditions on top of the time range. -/
def RequestFilter.conditions (f : RequestFilter) : List Condition :=
  whenSet f.host .host ++ whenSet f.remoteIp .remoteIp ++ whenSet f.method (fun s => .method s.toUpper) ++
    whenSet f.statusClass .statusClass ++ whenSet f.path (fun s => .pathLike ("%" ++ s ++ "%")) ++
    whenSet f.countryCode (fun s => .countryCode s.toUpper)

def conditionsOf (fromTs toTs : Time) (f : Option RequestFilter) : List Condition :=
  .between (.datetime fromTs) (.datetime toTs) :: f.elim [] RequestFilter.conditions

theorem buildWhere_eq (fromTs toTs : Time) (f : Option RequestFilter) :
    buildWhere (.datetime fromTs) (.datetime toTs) (.ofFilter f) = .ok (conditionsOf fromTs toTs f) := by
  cases f with
  | none => rfl
  | some f =>
    simp only [buildWhere, Value.ofFilter, conditionsOf, Option.elim, RequestFilter.conditions, List.append_assoc]
    rfl

theorem timed_whenSet {value : Option String} {condition : String → Condition} {c : Condition}
    (h : ∀ s, (condition s).timed = true) (hc : c ∈ whenSet value condition) : c.timed = true := by
  cases value with
  | none => simp [whenSet] at hc
  | some s =>
    rw [whenSet] at hc
    split_ifs at hc
    · simp at hc
    · rw [List.mem_singleton.mp hc]
      exact h s

theorem timed_conditionsOf (fromTs toTs : Time) (f : Option RequestFilter) :
    ∀ c ∈ conditionsOf fromTs toTs f, c.timed = true := by
  intro c hc
  rcases List.mem_cons.mp hc with rfl | hc
  · rfl
  · cases f with
    | none => simp at hc
    | some f =>
      simp only [Option.elim, RequestFilter.conditions, List.mem_append] at hc
      rcases hc with ((((hc | hc) | hc) | hc) | hc) | hc
      all_goals exact timed_whenSet (fun _ => rfl) hc

/-- The rows of the range that the filter lets through. -/
def selected (requests : List Request) (fromTs toTs : Time) (f : Option RequestFilter) : List Request :=
  requests.filter fun r => (conditionsOf fromTs toTs f).all (·.holds r)

theorem select_conditionsOf (requests : List Request) (fromTs toTs : Time) (f : Option RequestFilter) :
    select requests (conditionsOf fromTs toTs f) = .ok (selected requests fromTs toTs f) :=
  select_eq (timed_conditionsOf fromTs toTs f)

/-! ## Chart totals -/

theorem sumCase_eq_countP (p : Request → Bool) (rows : List Request) : sumCase p rows = rows.countP p := by
  induction rows with
  | nil => rfl
  | cons r rows ih =>
    rw [sumCase, List.map_cons, List.sum_cons, List.countP_cons, Nat.add_comm]
    exact congrArg (· + _) ih

theorem length_eq_sum (rows : List Request) : rows.length = (rows.map fun _ => 1).sum := by simp

/-- The points of a chart add up to the numbers of an overview, none is empty, and they come in order. -/
structure ChartTotals (points : List Point) (o : Overview) : Prop where
  reqCount : (points.map Point.reqCount).sum = o.totalRequests
  req2xx : (points.map Point.req2xx).sum = o.req2xx
  req3xx : (points.map Point.req3xx).sum = o.req3xx
  req4xx : (points.map Point.req4xx).sum = o.req4xx
  req5xx : (points.map Point.req5xx).sum = o.req5xx
  bytesOut : (points.map Point.bytesOut).sum = o.bytesOut
  bytesIn : (points.map Point.bytesIn).sum = o.bytesIn
  counted : ∀ p ∈ points, 1 ≤ p.reqCount
  ascending : (points.map Point.ts).Pairwise (· < ·)

/-- What an overview says of the rows that it is of. -/
structure Summarises (rows : List Request) (o : Overview) : Prop where
  totalRequests : o.totalRequests = rows.length
  bytesOut : o.bytesOut = (rows.map (·.responseBytes.getD 0)).sum
  bytesIn : o.bytesIn = (rows.map (·.requestBytes.getD 0)).sum
  errorRate : o.errorRate = roundTo 4 (errorShare rows)
  req2xx : o.req2xx = rows.countP (statusIn 200 300)
  req3xx : o.req3xx = rows.countP (statusIn 300 400)
  req4xx : o.req4xx = rows.countP (statusIn 400 500)
  req5xx : o.req5xx = rows.countP fun r => r.status.any (500 ≤ ·)

section
variable (timeBucket : Time → Time) (requests rows : List Request) (fromTs toTs : Time) (f : Option RequestFilter)

theorem queryOverview_spec : ∃ o, queryOverview requests (.datetime fromTs) (.datetime toTs) (.ofFilter f) = .ok o ∧
    Summarises (selected requests fromTs toTs f) o := by
  rw [queryOverview, buildWhere_eq]
  change ∃ o, Except.bind (select requests (conditionsOf fromTs toTs f)) _ = .ok o ∧ _
  rw [select_conditionsOf]
  exact ⟨_, rfl, ⟨rfl, rfl, rfl, rfl, rfl, rfl, rfl, rfl⟩⟩

theorem queryTimeseries_spec : queryTimeseries timeBucket requests (.datetime fromTs) (.datetime toTs) (.ofFilter f) =
    .ok (chart (fun r => timeBucket r.ts) (selected requests fromTs toTs f)) := by
  rw [queryTimeseries, buildWhere_eq]
  change Except.bind (select requests (conditionsOf fromTs toTs f)) _ = _
  rw [select_conditionsOf]
  rfl

variable (bucket : Request → Time)

/-- A number that is a sum over the rows of a point adds up over the points. -/
theorem sum_chart {M : Type} [AddCommMonoid M] {number : Point → M} {value : Request → M}
    (h : ∀ b rows, number (pointOf b rows) = (rows.map value).sum) :
    ((chart bucket rows).map number).sum = (rows.map value).sum := by
  have hgroups : ((keys bucket rows).map fun b => ((group bucket rows b).map value).sum).sum = (rows.map value).sum :=
    sum_groups value rows
  rw [chart, List.map_map, ← hgroups]
  exact congrArg List.sum (List.map_congr_left fun b _ => h b _)

theorem sum_chart_case {number : Point → ℕ} {p : Request → Bool} (h : ∀ b rows, number (pointOf b rows) = sumCase p rows) :
    ((chart bucket rows).map number).sum = rows.countP p :=
  (sum_chart rows bucket h).trans (sumCase_eq_countP p rows)

theorem chart_counted : ∀ p ∈ chart bucket rows, 1 ≤ p.reqCount := by
  intro p hp
  obtain ⟨b, hb, rfl⟩ := List.mem_map.mp hp
  exact List.length_pos_iff.mpr (group_ne_nil (mem_keys.mp hb))

theorem chart_ascending : ((chart bucket rows).map Point.ts).Pairwise (· < ·) := by
  have hts : (chart bucket rows).map Point.ts = keys bucket rows := by
    rw [chart, List.map_map]
    exact List.map_id _
  rw [hts]
  exact keys_ascending rows

theorem sum_ipTimeline {number : TimelinePoint → ℕ} {p : Request → Bool}
    (h : ∀ b rows, number (timelinePointOf b rows) = sumCase p rows) (ip : String) :
    ((ipTimeline requests ip fromTs toTs).map number).sum = (ipRows requests ip fromTs toTs).countP p := by
  generalize hrows : ipRows requests ip fromTs toTs = rows
  have hgroups : ((keys hourOf rows).map fun b => sumCase p (group hourOf rows b)).sum = sumCase p rows :=
    sum_groups (fun r => if p r then 1 else 0) rows
  rw [ipTimeline, hrows, List.map_map, ← sumCase_eq_countP, ← hgroups]
  exact congrArg List.sum (List.map_congr_left fun b _ => h b _)

/-- **Chart totals are the totals of the overview.** -/
theorem chart_totals : ∃ points o,
    queryTimeseries timeBucket requests (.datetime fromTs) (.datetime toTs) (.ofFilter f) = .ok points ∧
      queryOverview requests (.datetime fromTs) (.datetime toTs) (.ofFilter f) = .ok o ∧ ChartTotals points o := by
  obtain ⟨o, ho, hsum⟩ := queryOverview_spec requests fromTs toTs f
  refine ⟨_, o, queryTimeseries_spec timeBucket requests fromTs toTs f, ho, ?_⟩
  generalize selected requests fromTs toTs f = rows at hsum ⊢
  exact {
    reqCount := hsum.totalRequests ▸ (sum_chart rows _ fun b rows => length_eq_sum rows).trans (length_eq_sum rows).symm
    req2xx := hsum.req2xx ▸ sum_chart_case rows _ fun _ _ => rfl
    req3xx := hsum.req3xx ▸ sum_chart_case rows _ fun _ _ => rfl
    req4xx := hsum.req4xx ▸ sum_chart_case rows _ fun _ _ => rfl
    req5xx := hsum.req5xx ▸ sum_chart_case rows _ fun _ _ => rfl
    bytesOut := hsum.bytesOut ▸ sum_chart rows _ fun _ _ => rfl
    bytesIn := hsum.bytesIn ▸ sum_chart rows _ fun _ _ => rfl
    counted := chart_counted rows _
    ascending := chart_ascending rows _ }

end

end Cadsa.Analytics
