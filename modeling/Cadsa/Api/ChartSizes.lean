import Mathlib.Data.List.Perm.Subperm
import Cadsa.Api.CustomDay
import Cadsa.Db.Percentiles

/-! How many points a chart has. The bucket is chosen with the range, so that the endpoints of charts answer with no
more points than their granularity stands for, whatever they are asked for. -/
namespace Cadsa.ChartSizes
open Db Analytics Grouping IsoTime CustomDay
set_option autoImplicit false

/-! ## The endpoints -/

/-- `time_bucket` of an interval of the callers, which divides a day. -/
def timeBucket (width ts : Time) : Time := ts / width * width

structure Chart (π : Type) where
  granularity : String
  data : List π

section
variable (requests : List Request) (tr : TimeRange) (f : RequestFilter)

def getTimeseries : Except QueryError (Chart Point) := do
  let width ← interval (.str tr.bucket)
  let data ← queryTimeseries (timeBucket width) requests (.datetime tr.fromTs) (.datetime tr.toTs) (.filter f)
  pure ⟨tr.granularity, data⟩

structure Bandwidth where
  ts : Time
  bytesOut : ℤ
  bytesIn : ℤ

def getBandwidth : Except QueryError (Chart Bandwidth) := do
  let width ← interval (.str tr.bucket)
  let rows ← queryTimeseries (timeBucket width) requests (.datetime tr.fromTs) (.datetime tr.toTs) (.filter f)
  pure ⟨tr.granularity, rows.map fun r => ⟨r.ts, r.bytesOut, r.bytesIn⟩⟩

def getPerformance : Except QueryError (Chart Performance) := do
  let data ← queryPerformance requests (.datetime tr.fromTs) (.datetime tr.toTs) (.str tr.bucket) (.filter f)
  pure ⟨tr.granularity, data⟩

end

/-! ## Buckets of a range -/

/-- The buckets of times of a range: they are as many as the boundaries in it, and one more. -/
theorem length_buckets_le {ρ : Type} {rows : List ρ} {ts : ρ → Time} {width fromTs toTs : ℕ} (hwidth : 0 < width)
    (h : ∀ r ∈ rows, @LE.le ℕ _ fromTs (ts r) ∧ @LE.le ℕ _ (ts r) toTs) :
    (keys (fun r => timeBucket width (ts r)) rows).length ≤ toTs / width - fromTs / width + 1 := by
  let numbers := (keys (fun r => timeBucket width (ts r)) rows).map fun b : ℕ => b / width
  have hnumber : ∀ t : ℕ, timeBucket width t / width = t / width := fun t => Nat.mul_div_cancel _ hwidth
  have hnodup : numbers.Nodup := by
    refine (List.nodup_map_iff_inj_on (keys_nodup rows)).mpr fun b hb c hc hbc => ?_
    obtain ⟨r, -, rfl⟩ := List.mem_map.mp (mem_keys.mp hb)
    obtain ⟨q, -, rfl⟩ := List.mem_map.mp (mem_keys.mp hc)
    rw [hnumber, hnumber] at hbc
    exact congrArg (· * width) hbc
  have hrange : numbers ⊆ List.range' (fromTs / width) (toTs / width - fromTs / width + 1) := fun n hn => by
    obtain ⟨b, hb, rfl⟩ := List.mem_map.mp hn
    obtain ⟨r, hr, rfl⟩ := List.mem_map.mp (mem_keys.mp hb)
    have hle : @LE.le ℕ _ (fromTs / width) (ts r / width) := Nat.div_le_div_right (h r hr).1
    have hle' : @LE.le ℕ _ (ts r / width) (toTs / width) := Nat.div_le_div_right (h r hr).2
    rw [List.mem_range'_1, hnumber]
    exact ⟨hle, by omega⟩
  have hlength := (List.subperm_of_subset hnodup hrange).length_le
  rw [List.length_range', List.length_map] at hlength
  exact hlength

/-! ## Ranges and granularities -/

/-- The most points that a chart of the granularity has. -/
def mostPoints : String → ℕ
  | "minute" => 61
  | "15min" => 25
  | "hour" => 25
  | "8hour" => 22
  | _ => 31

/-- The range is at most as many buckets long as its granularity stands for. -/
structure Fitted (tr : TimeRange) (width n : ℕ) : Prop where
  interval : interval (.str tr.bucket) = .ok width
  pos : 0 < width
  long : tr.toTs ≤ tr.fromTs + n * width
  most : n + 1 ≤ mostPoints tr.granularity

theorem fitted_recent (now : ℕ) {c : ℕ × String × String} (h : c ∈ periodCfg.map Prod.snd) :
    ∃ width n, Fitted ⟨now - c.1, now, c.2.1, c.2.2⟩ width n := by
  have hfitted : ∀ delta width n : ℕ, delta = n * width → now ≤ now - delta + n * width := fun delta width n hd => by
    rw [← hd]
    omega
  simp only [periodCfg, List.map_cons, List.map_nil, List.mem_cons, List.not_mem_nil, or_false] at h
  rcases h with rfl | rfl | rfl | rfl | rfl | rfl
  · exact ⟨minutes 1, 15, rfl, by decide, hfitted _ _ _ rfl, show 15 + 1 ≤ 61 by decide⟩
  · exact ⟨minutes 1, 60, rfl, by decide, hfitted _ _ _ rfl, show 60 + 1 ≤ 61 by decide⟩
  · exact ⟨minutes 15, 24, rfl, by decide, hfitted _ _ _ rfl, show 24 + 1 ≤ 25 by decide⟩
  · exact ⟨minutes 60, 24, rfl, by decide, hfitted _ _ _ rfl, show 24 + 1 ≤ 25 by decide⟩
  · exact ⟨minutes 480, 21, rfl, by decide, hfitted _ _ _ rfl, show 21 + 1 ≤ 22 by decide⟩
  · exact ⟨minutes 1440, 30, rfl, by decide, hfitted _ _ _ rfl, show 30 + 1 ≤ 31 by decide⟩

theorem periodCfg_mem (period : String) : (periodCfg.lookup period).getD CustomDay.l24h ∈ periodCfg.map Prod.snd := by
  cases hfound : periodCfg.lookup period with
  | none => decide
  | some c =>
    obtain ⟨before, after, heq, -⟩ := List.lookup_eq_some_iff.mp hfound
    rw [heq, Option.getD_some]
    exact List.mem_map_of_mem (List.mem_append_right before List.mem_cons_self)

theorem fitted_dayRange {fromisoformat : String → Option Aware} {date : String} {tr : TimeRange}
    (h : dayRange fromisoformat date = some tr) : Fitted tr (minutes 60) 24 := by
  rw [dayRange, Option.bind_eq_bind, Option.bind_eq_some_iff] at h
  obtain ⟨localMidnight, -, h⟩ := h
  obtain ⟨fromTs, -, h⟩ := Option.bind_eq_some_iff.mp h
  obtain ⟨toTs, hto, h⟩ := Option.bind_eq_some_iff.mp h
  rw [← Option.some.inj h]
  exact ⟨rfl, by decide, (Datetime.add_micros hto).le, show 24 + 1 ≤ 25 by decide⟩

/-- Whatever the parameters are. -/
theorem fitted_resolved (fromisoformat : String → Option Aware) (now : Datetime) (period date : Option String) :
    ∃ width n, Fitted (resolveTimeRange fromisoformat now period date) width n := by
  let c := (periodCfg.lookup (if period.getD "" = "" then "l24h" else period.getD "")).getD CustomDay.l24h
  let recent : TimeRange := ⟨now.micros - c.1, now.micros, c.2.1, c.2.2⟩
  have hrecent : ∃ width n, Fitted recent width n := fitted_recent now.micros (periodCfg_mem _)
  have hresolved : resolveTimeRange fromisoformat now period date =
      if date.getD "" = "" then recent else (dayRange fromisoformat (date.getD "")).getD recent := rfl
  rw [hresolved]
  by_cases hdate : date.getD "" = ""
  · rw [if_pos hdate]
    exact hrecent
  · rw [if_neg hdate]
    cases hday : dayRange fromisoformat (date.getD "") with
    | none => exact hrecent
    | some tr => exact ⟨_, _, fitted_dayRange hday⟩

/-! ## Charts -/

/-- A chart as its granularity has it: few points, each of a bucket that the range reaches. -/
structure Sized {π : Type} (tr : TimeRange) (ts : π → Time) (chart : Chart π) : Prop where
  granularity : chart.granularity = tr.granularity
  length : chart.data.length ≤ mostPoints tr.granularity
  ascending : (chart.data.map ts).Pairwise (· < ·)
  reached : ∀ p ∈ chart.data, ts p ≤ tr.toTs ∧ ∃ width, interval (.str tr.bucket) = .ok width ∧ tr.fromTs < ts p + width

theorem selected_range {requests : List Request} {fromTs toTs : Time} {f : Option RequestFilter} :
    ∀ r ∈ selected requests fromTs toTs f, @LE.le ℕ _ fromTs r.ts ∧ @LE.le ℕ _ r.ts toTs := by
  intro r hr
  have hall := (List.mem_filter.mp hr).2
  rw [conditionsOf, List.all_cons, Bool.and_eq_true] at hall
  have hrange : (decide (fromTs ≤ r.ts) && decide (r.ts ≤ toTs)) = true := hall.1
  rw [Bool.and_eq_true, decide_eq_true_iff, decide_eq_true_iff] at hrange
  exact hrange

/-- A point for each bucket that rows of the range are in. -/
theorem sized_of_keys {π : Type} {tr : TimeRange} {width n : ℕ} (h : Fitted tr width n) {rows : List Request}
    (hrows : ∀ r ∈ rows, @LE.le ℕ _ tr.fromTs r.ts ∧ @LE.le ℕ _ r.ts tr.toTs) {ts : π → Time} {pointAt : Time → π}
    (hts : ∀ b, ts (pointAt b) = b) :
    Sized tr ts ⟨tr.granularity, (keys (fun r => timeBucket width r.ts) rows).map pointAt⟩ where
  granularity := rfl
  length := by
    have hbuckets : @LE.le ℕ _ (tr.toTs / width) (tr.fromTs / width + n) :=
      (Nat.div_le_div_right h.long).trans_eq (Nat.add_mul_div_right _ _ h.pos)
    have hlength := length_buckets_le h.pos hrows
    have hmost := h.most
    rw [List.length_map]
    omega
  ascending := by
    have htimes : ((keys (fun r : Request => timeBucket width r.ts) rows).map pointAt).map ts =
        keys (fun r => timeBucket width r.ts) rows := by
      rw [List.map_map]
      exact (List.map_congr_left fun b _ => hts b).trans (List.map_id _)
    rw [htimes]
    exact keys_ascending rows
  reached p hp := by
    obtain ⟨b, hb, rfl⟩ := List.mem_map.mp hp
    obtain ⟨r, hr, rfl⟩ := List.mem_map.mp (mem_keys.mp hb)
    have hrange := hrows r hr
    have hfloor : @LE.le ℕ _ (timeBucket width r.ts) r.ts := Nat.div_mul_le_self r.ts width
    have hnext : @LT.lt ℕ _ r.ts (timeBucket width r.ts + width) := Nat.lt_div_mul_add h.pos
    rw [hts]
    exact ⟨hfloor.trans hrange.2, width, h.interval, hrange.1.trans_lt hnext⟩

section
variable {tr : TimeRange} {width n : ℕ} (requests : List Request) (f : RequestFilter)

theorem getTimeseries_eq (h : Fitted tr width n) : getTimeseries requests tr f =
    .ok ⟨tr.granularity, chart (fun r => timeBucket width r.ts) (selected requests tr.fromTs tr.toTs (some f))⟩ := by
  rw [getTimeseries, h.interval]
  change Except.bind (queryTimeseries _ _ _ _ (.ofFilter (some f))) _ = _
  rw [queryTimeseries_spec]
  rfl

theorem getBandwidth_eq (h : Fitted tr width n) : getBandwidth requests tr f =
    .ok ⟨tr.granularity, (chart (fun r => timeBucket width r.ts) (selected requests tr.fromTs tr.toTs (some f))).map
      fun r => ⟨r.ts, r.bytesOut, r.bytesIn⟩⟩ := by
  rw [getBandwidth, h.interval]
  change Except.bind (queryTimeseries _ _ _ _ (.ofFilter (some f))) _ = _
  rw [queryTimeseries_spec]
  rfl

theorem getPerformance_eq (h : Fitted tr width n) : getPerformance requests tr f =
    .ok ⟨tr.granularity, (keys (fun r : Request => timeBucket width r.ts)
      ((selected requests tr.fromTs tr.toTs (some f)).filter (·.durationMs.isSome))).map
        (Percentiles.performanceOf (selected requests tr.fromTs tr.toTs (some f)) width)⟩ := by
  have hpoints : queryPerformance requests (.datetime tr.fromTs) (.datetime tr.toTs) (.str tr.bucket) (.filter f) = _ :=
    Percentiles.queryPerformance_spec h.interval (some f)
  rw [getPerformance, hpoints]
  rfl

end

/-- **No chart is larger than its granularity**: for any parameters of the time range and any filter, the charts are
answered, with at most 61 points a minute apart, 25 of a quarter or of an hour, 22 of eight hours or 31 of a day. -/
theorem charts_sized (fromisoformat : String → Option Aware) (now : Datetime) (period date : Option String)
    (requests : List Request) (f : RequestFilter) :
    let tr := resolveTimeRange fromisoformat now period date
    ∃ timeseries bandwidth performance,
      (getTimeseries requests tr f = .ok timeseries ∧ Sized tr Point.ts timeseries) ∧
      (getBandwidth requests tr f = .ok bandwidth ∧ Sized tr Bandwidth.ts bandwidth) ∧
      getPerformance requests tr f = .ok performance ∧ Sized tr Performance.ts performance := by
  intro tr
  obtain ⟨width, n, h⟩ : ∃ width n, Fitted tr width n := fitted_resolved fromisoformat now period date
  have hrows := @selected_range requests tr.fromTs tr.toTs (some f)
  have hcharted : ∀ r ∈ (selected requests tr.fromTs tr.toTs (some f)).filter (·.durationMs.isSome),
      @LE.le ℕ _ tr.fromTs r.ts ∧ @LE.le ℕ _ r.ts tr.toTs := fun r hr => hrows r (List.mem_of_mem_filter hr)
  refine ⟨_, _, _, ⟨getTimeseries_eq requests f h, ?_⟩, ⟨getBandwidth_eq requests f h, ?_⟩,
    getPerformance_eq requests f h, ?_⟩
  · exact sized_of_keys h hrows fun b => rfl
  · rw [chart, List.map_map]
    exact sized_of_keys h hrows fun b => rfl
  · exact sized_of_keys h hcharted fun b => rfl

end Cadsa.ChartSizes
