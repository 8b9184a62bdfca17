import Cadsa.Db.Timeseries
import Cadsa.Lib.Runs
import Cadsa.Lib.Table

/-! The aggregates of the raw rows: `aggregate_minutely` and the hourly job of the scheduler, which write
the rows of the bucket before the current one into `stats_minutely` and `stats_hourly`. Both are one
statement for a width of bucket. -/
namespace Cadsa.Aggregation
open Db Analytics Tables Grouping Runs
set_option autoImplicit false

structure Stats where
  ts : Time
  host : String
  reqCount : ℕ
  req2xx : ℕ
  req3xx : ℕ
  req4xx : ℕ
  req5xx : ℕ
  bytesOut : ℤ
  bytesIn : ℤ
  durationP50 : Option ℤ
  durationP95 : Option ℤ
  durationP99 : Option ℤ
  uniqueIps : ℕ
  deriving DecidableEq

def Stats.key (s : Stats) : Time × String := (s.ts, s.host)

def percentile (p : ℚ) (rows : List Request) : Option ℤ :=
  (percentileCont p (rows.filterMap (·.durationMs))).map castInteger

/-- The row that the `SELECT` makes of a group. -/
def statsOf (rows : List Request) (k : Time × String) : Stats where
  ts := k.1
  host := k.2
  reqCount := rows.length
  req2xx := sumCase (statusIn 200 300) rows
  req3xx := sumCase (statusIn 300 400) rows
  req4xx := sumCase (statusIn 400 500) rows
  req5xx := sumCase (fun r => r.status.any (500 ≤ ·)) rows
  bytesOut := (rows.map (·.responseBytes.getD 0)).sum
  bytesIn := (rows.map (·.requestBytes.getD 0)).sum
  durationP50 := percentile (1 / 2) rows
  durationP95 := percentile (95 / 100) rows
  durationP99 := percentile (99 / 100) rows
  uniqueIps := (rows.map (·.remoteIp)).dedup.length

abbrev StatsTable := Table (Time × String) Stats Stats.key

/-- The number of the bucket, counted from 1970. -/
def bucketOf (width ts : ℕ) : ℕ := ts / width

/-- `date_trunc` to a bucket of the width. -/
def truncated (width ts : ℕ) : ℕ := bucketOf width ts * width

def bucketKey (width : ℕ) (r : Request) : Time × String := (truncated width r.ts, r.host)

/-- `INSERT OR REPLACE INTO … SELECT … GROUP BY`, for the rows from one time to another. -/
def insertOrReplace (width fromTs toTs : ℕ) (host : Option String) (requests : List Request) (t : StatsTable) :
    StatsTable :=
  let rows := requests.filter fun r => fromTs ≤ r.ts && r.ts < toTs && host.all fun h => h = "" || r.host = h
  (rows.map (bucketKey width)).dedup.foldl (fun t k => t.upsert (statsOf (group (bucketKey width) rows k) k)) t

def aggregateMinutely (clock : Time) (host : Option String) (requests : List Request) (t : StatsTable) : StatsTable :=
  let now := truncated (minutes 1) clock
  insertOrReplace (minutes 1) (now - minutes 1) now host requests t

def runHourly (clock : Time) (requests : List Request) (t : StatsTable) : StatsTable :=
  let now := truncated (minutes 60) clock
  insertOrReplace (minutes 60) (now - minutes 60) now none requests t

/-! ## Runs -/

/-- `ended` is no table: how many buckets, since 1970, ended before the latest tick. -/
structure Rollup where
  table : StatsTable
  ended : ℕ

structure State where
  requests : List Request
  minutely : Rollup
  hourly : Rollup

def State.empty : State := ⟨[], ⟨⟨[], List.nodup_nil⟩, 0⟩, ⟨⟨[], List.nodup_nil⟩, 0⟩⟩

inductive Call
  | insertRequest (row : Request)
  | minutelyTick (clock : Time)
  | hourlyTick (clock : Time)

def step (s : State) : Call → Option State
  | .insertRequest row => some { s with requests := s.requests ++ [row] }
  | .minutelyTick clock => some { s with
      minutely := ⟨aggregateMinutely clock none s.requests s.minutely.table, max s.minutely.ended (bucketOf (minutes 1) clock)⟩ }
  | .hourlyTick clock => some { s with
      hourly := ⟨runHourly clock s.requests s.hourly.table, max s.hourly.ended (bucketOf (minutes 60) clock)⟩ }

/-- The requests of a bucket and a host. -/
def bucketRows (width : ℕ) (requests : List Request) (b : ℕ) (host : String) : List Request :=
  requests.filter fun r => bucketOf width r.ts = b && r.host = host

/-- The row that the raw rows call for: none where there are none. -/
def expected (width : ℕ) (requests : List Request) (b : ℕ) (host : String) : Option Stats :=
  let rows := bucketRows width requests b host
  if rows = [] then none else some (statsOf rows (b * width, host))

/-- Every bucket that has ended is as the raw rows say. -/
def Agrees (width : ℕ) (requests : List Request) (u : Rollup) : Prop :=
  ∀ b < u.ended, ∀ host, u.table.find (b * width, host) = expected width requests b host

def countOf (t : StatsTable) (ts : Time) (host : String) : ℕ := ((t.find (ts, host)).map (·.reqCount)).getD 0

structure Consistent (s : State) : Prop where
  minutely : Agrees (minutes 1) s.requests s.minutely
  hourly : Agrees (minutes 60) s.requests s.hourly
  sums : ∀ b < s.hourly.ended, 60 * (b + 1) ≤ s.minutely.ended → ∀ host, countOf s.hourly.table (b * minutes 60) host =
    ((List.range 60).map fun i => countOf s.minutely.table ((60 * b + i) * minutes 1) host).sum

/-- No request lies in a bucket that this tick passes over: one that has ended since the latest tick
and is not the last to have. -/
def NonePassedOver (width : ℕ) (requests : List Request) (ended clock : ℕ) : Prop :=
  ∀ r ∈ requests, bucketOf width r.ts + 1 < bucketOf width clock → bucketOf width r.ts < ended

/-- No row comes in late, and no tick passes over a bucket that has rows. -/
def Guard (s : State) : Call → Prop
  | .insertRequest row => s.minutely.ended ≤ bucketOf (minutes 1) row.ts ∧ s.hourly.ended ≤ bucketOf (minutes 60) row.ts
  | .minutelyTick clock => NonePassedOver (minutes 1) s.requests s.minutely.ended clock
  | .hourlyTick clock => NonePassedOver (minutes 60) s.requests s.hourly.ended clock

/-- Buckets that have not ended have no row yet. -/
def Unwritten (width : ℕ) (u : Rollup) : Prop := ∀ b, u.ended ≤ b → ∀ host, u.table.find (b * width, host) = none

/-! ## One tick -/

section
variable {width clock : ℕ} {requests : List Request} {t : StatsTable} {b : ℕ} {host : String}

theorem truncated_eq_iff (hw : 0 < width) {ts : ℕ} : truncated width ts = b * width ↔ bucketOf width ts = b :=
  Nat.mul_left_inj (Nat.pos_iff_ne_zero.mp hw)

/-- The range of a tick is the bucket before the one of its clock. -/
theorem in_range_iff (hw : 0 < width) {ts n : ℕ} :
    n * width - width ≤ ts ∧ ts < n * width ↔ bucketOf width ts + 1 = n := by
  have hlow : bucketOf width ts * width ≤ ts := Nat.div_mul_le_self ts width
  have hhigh : ts < (bucketOf width ts + 1) * width := by
    rw [Nat.add_mul, one_mul]
    exact Nat.lt_div_mul_add hw
  constructor
  · rintro ⟨hfrom, hto⟩
    have hlt : bucketOf width ts < n := (Nat.div_lt_iff_lt_mul hw).mpr hto
    have hle : n ≤ bucketOf width ts + 1 := by
      rw [← Nat.sub_one_mul] at hfrom
      have hdiv : n - 1 ≤ bucketOf width ts := (Nat.le_div_iff_mul_le hw).mpr hfrom
      omega
    omega
  · rintro rfl
    rw [Nat.add_mul, one_mul, Nat.add_sub_cancel, ← Nat.add_one_mul]
    exact ⟨hlow, hhigh⟩

/-- The rows of a tick that are in one bucket and of one host. -/
theorem selected_group (hw : 0 < width) (hb : b + 1 = bucketOf width clock) :
    group (bucketKey width) (requests.filter fun r => truncated width clock - width ≤ r.ts &&
      r.ts < truncated width clock && (none : Option String).all fun h => h = "" || r.host = h) (b * width, host) =
      bucketRows width requests b host := by
  rw [group, List.filter_filter, bucketRows]
  refine List.filter_congr fun r _ => ?_
  have hkey : bucketKey width r = (b * width, host) ↔ bucketOf width r.ts = b ∧ r.host = host := by
    rw [bucketKey, Prod.mk.injEq, truncated_eq_iff hw]
  have hrange := @in_range_iff width hw r.ts (bucketOf width clock)
  rw [← hb, Nat.add_right_cancel_iff] at hrange
  rw [truncated, ← hb]
  by_cases hr : bucketOf width r.ts = b
  · simp [hkey, hr, hrange.mpr hr]
  · simp [hkey, hr]

theorem mem_selected (hw : 0 < width) :
    (b * width, host) ∈ ((requests.filter fun r => truncated width clock - width ≤ r.ts &&
      r.ts < truncated width clock && (none : Option String).all fun h => h = "" || r.host = h).map
        (bucketKey width)).dedup ↔ b + 1 = bucketOf width clock ∧ bucketRows width requests b host ≠ [] := by
  rw [List.mem_dedup, List.mem_map]
  constructor
  · rintro ⟨r, hr, hkey⟩
    obtain ⟨hmem, hsel⟩ := List.mem_filter.mp hr
    obtain ⟨hbucket, hhost⟩ := Prod.mk.inj hkey
    rw [truncated_eq_iff hw] at hbucket
    have hrange : bucketOf width r.ts + 1 = bucketOf width clock := by
      refine (in_range_iff hw).mp ?_
      change truncated width clock - width ≤ r.ts ∧ r.ts < truncated width clock
      simpa only [Option.all_none, Bool.and_true, Bool.and_eq_true, decide_eq_true_eq] using hsel
    rw [hbucket] at hrange
    refine ⟨hrange, List.ne_nil_of_mem (List.mem_filter.mpr ⟨hmem, ?_⟩)⟩
    simp [hbucket, hhost]
  · rintro ⟨hb, hne⟩
    obtain ⟨r, hr⟩ := List.exists_mem_of_ne_nil _ hne
    obtain ⟨hmem, hsel⟩ := List.mem_filter.mp hr
    simp only [Bool.and_eq_true, decide_eq_true_eq] at hsel
    refine ⟨r, List.mem_filter.mpr ⟨hmem, ?_⟩, ?_⟩
    · have hrange := (in_range_iff hw).mpr ((congrArg (· + 1) hsel.1).trans hb)
      change truncated width clock - width ≤ r.ts ∧ r.ts < truncated width clock at hrange
      simpa only [Option.all_none, Bool.and_true, Bool.and_eq_true, decide_eq_true_eq] using hrange
    · rw [bucketKey, hsel.2, (truncated_eq_iff hw).mpr hsel.1]

/-- What a tick leaves under a key. -/
theorem find_tick (hw : 0 < width) (b : ℕ) (host : String) :
    (insertOrReplace width (truncated width clock - width) (truncated width clock) none requests t).find
        (b * width, host) =
      if b + 1 = bucketOf width clock then (expected width requests b host).or (t.find (b * width, host))
      else t.find (b * width, host) := by
  rw [insertOrReplace, find_foldl_upsert _ _ fun _ => rfl]
  simp only [mem_selected hw]
  by_cases hb : b + 1 = bucketOf width clock
  · rw [if_pos hb, selected_group hw hb, expected]
    by_cases hrows : bucketRows width requests b host = []
    · simp [hrows]
    · simp [hrows, hb]
  · simp [hb]

variable {u : Rollup}

def Rollup.tick (width clock : Time) (requests : List Request) (u : Rollup) : Rollup :=
  ⟨insertOrReplace width (truncated width clock - width) (truncated width clock) none requests u.table,
    max u.ended (bucketOf width clock)⟩

theorem unwritten_tick (hw : 0 < width) (hu : Unwritten width u) : Unwritten width (u.tick width clock requests) := by
  intro b hb host
  obtain ⟨hended, hclock⟩ := max_le_iff.mp hb
  rw [Rollup.tick, find_tick hw, if_neg (by omega)]
  exact hu b hended host

theorem expected_eq_none : expected width requests b host = none ↔ bucketRows width requests b host = [] := by
  rw [expected]
  split_ifs with hrows
  · exact iff_of_true rfl hrows
  · exact iff_of_false (fun h => by cases h) hrows

theorem agrees_tick_iff (hw : 0 < width) (hu : Unwritten width u) (ha : Agrees width requests u) :
    Agrees width requests (u.tick width clock requests) ↔ NonePassedOver width requests u.ended clock := by
  constructor
  · intro h r hr hpassed
    by_contra hlate
    have hnone := h (bucketOf width r.ts) (lt_max_of_lt_right (by omega)) r.host
    rw [Rollup.tick, find_tick hw, if_neg (by omega), hu _ (Nat.not_lt.mp hlate) r.host] at hnone
    have hrows := expected_eq_none.mp hnone.symm
    have hmem : r ∈ bucketRows width requests (bucketOf width r.ts) r.host := List.mem_filter.mpr ⟨hr, by simp⟩
    rw [hrows] at hmem
    cases hmem
  · intro hpass b hb host
    rw [Rollup.tick, find_tick hw]
    have hold : b < u.ended ∨ u.ended ≤ b := Nat.lt_or_ge b u.ended
    by_cases hlast : b + 1 = bucketOf width clock
    · rw [if_pos hlast]
      rcases hold with hold | hold
      · rw [ha b hold host, Option.or_self]
      · rw [hu b hold host, Option.or_none]
    · rw [if_neg hlast]
      rcases hold with hold | hold
      · exact ha b hold host
      · rw [hu b hold host]
        refine (expected_eq_none.mpr (List.filter_eq_nil_iff.mpr fun r hr hsel => ?_)).symm
        simp only [Bool.and_eq_true, decide_eq_true_eq] at hsel
        have hclock : b < bucketOf width clock := (lt_max_iff.mp hb).resolve_left (Nat.not_lt.mpr hold)
        have hearly := hpass r hr (by omega)
        omega

/-! ## One insert -/

theorem bucketRows_concat (row : Request) : bucketRows width (requests ++ [row]) b host =
    if bucketOf width row.ts = b ∧ row.host = host then bucketRows width requests b host ++ [row]
    else bucketRows width requests b host := by
  rw [bucketRows, List.filter_append, List.filter_cons, List.filter_nil, ← bucketRows]
  by_cases h : bucketOf width row.ts = b ∧ row.host = host
  · simp [h]
  · rw [if_neg h, if_neg]
    · exact List.append_nil _
    · simpa using h

theorem agrees_insert_iff (row : Request) (ha : Agrees width requests u) :
    Agrees width (requests ++ [row]) u ↔ u.ended ≤ bucketOf width row.ts := by
  constructor
  · intro h
    by_contra hlate
    have hold := ha _ (Nat.not_le.mp hlate) row.host
    rw [h _ (Nat.not_le.mp hlate) row.host] at hold
    have hcount := congrArg (fun o : Option Stats => (o.map (·.reqCount)).getD 0) hold
    simp only [expected, bucketRows_concat, and_self, if_true] at hcount
    by_cases hrows : bucketRows width requests (bucketOf width row.ts) row.host = []
    · simp [hrows, statsOf] at hcount
    · simp [hrows, statsOf] at hcount
  · intro hearly b hb host
    have hother : ¬ (bucketOf width row.ts = b ∧ row.host = host) := fun hrow => by
      have hbucket := hrow.1
      omega
    rw [ha b hb host, expected, expected, bucketRows_concat, if_neg hother]

end

/-! ## The hour and its minutes -/

section
variable {requests : List Request} {u : Rollup} {b : ℕ} {host : String}

theorem countOf_eq {width : ℕ} (ha : Agrees width requests u) (hb : b < u.ended) (host : String) :
    countOf u.table (b * width) host = (bucketRows width requests b host).length := by
  rw [countOf, ha b hb host, expected]
  split_ifs with hrows
  · rw [hrows]
    rfl
  · rfl

theorem hour_of_minute (ts : ℕ) : bucketOf (minutes 60) ts = bucketOf (minutes 1) ts / 60 := by
  rw [bucketOf, bucketOf, minutes, minutes, Nat.div_div_eq_div_mul]

/-- The rows of an hour are those of its minutes. -/
theorem length_hour : (bucketRows (minutes 60) requests b host).length =
    ((List.range 60).map fun i => (bucketRows (minutes 1) requests (60 * b + i) host).length).sum := by
  let hour := bucketRows (minutes 60) requests b host
  let minute (r : Request) : ℕ := bucketOf (minutes 1) r.ts
  have hmem : ∀ r ∈ hour, minute r ∈ (List.range 60).map fun i => 60 * b + i := by
    intro r hr
    have hsel := (List.mem_filter.mp hr).2
    simp only [Bool.and_eq_true, decide_eq_true_eq, hour_of_minute] at hsel
    refine List.mem_map.mpr ⟨minute r % 60, List.mem_range.mpr (Nat.mod_lt _ (by decide)), ?_⟩
    rw [← hsel.1]
    exact Nat.div_add_mod _ 60
  have hnodup : ((List.range 60).map fun i => 60 * b + i).Nodup :=
    List.nodup_range.map fun i j hij => Nat.add_left_cancel hij
  have hgroup : ∀ i < 60, group minute hour (60 * b + i) = bucketRows (minutes 1) requests (60 * b + i) host := by
    intro i hi
    refine (List.filter_filter ..).trans (List.filter_congr fun r _ => ?_)
    rw [hour_of_minute]
    by_cases hr : minute r = 60 * b + i
    · have hdiv : (60 * b + i) / 60 = b := by omega
      change bucketOf (minutes 1) r.ts = 60 * b + i at hr
      simp [minute, hr, hdiv]
    · change ¬ bucketOf (minutes 1) r.ts = 60 * b + i at hr
      simp [minute, hr]
  have hsum := sum_groups_of_subset (fun _ => 1) hnodup hmem
  rw [List.map_map] at hsum
  have hlength : (hour.map fun _ => 1).sum = hour.length := by simp
  rw [← hlength, ← hsum]
  refine congrArg List.sum (List.map_congr_left fun i hi => ?_)
  rw [Function.comp_apply, hgroup i (List.mem_range.mp hi)]
  simp

theorem consistent_iff {s : State} :
    Consistent s ↔ Agrees (minutes 1) s.requests s.minutely ∧ Agrees (minutes 60) s.requests s.hourly := by
  refine ⟨fun h => ⟨h.minutely, h.hourly⟩, fun ⟨hm, hh⟩ => ⟨hm, hh, fun b hb hlast host => ?_⟩⟩
  rw [countOf_eq hh hb, length_hour]
  refine congrArg List.sum (List.map_congr_left fun i hi => ?_)
  have hi := List.mem_range.mp hi
  rw [countOf_eq hm (by omega)]

end

/-! ## Whole runs -/

structure Inv (s : State) : Prop where
  minutely : Unwritten (minutes 1) s.minutely
  hourly : Unwritten (minutes 60) s.hourly

theorem minutes_pos {n : ℕ} (hn : 0 < n) : 0 < minutes n := Nat.mul_pos hn (by decide)

theorem step_inv {s s' : State} {c : Call} (hi : Inv s) (hs : step s c = some s') : Inv s' := by
  cases c with
  | insertRequest row =>
    cases hs
    exact ⟨hi.minutely, hi.hourly⟩
  | minutelyTick clock =>
    cases hs
    exact ⟨unwritten_tick (minutes_pos (by decide)) hi.minutely, hi.hourly⟩
  | hourlyTick clock =>
    cases hs
    exact ⟨hi.minutely, unwritten_tick (minutes_pos (by decide)) hi.hourly⟩

theorem consistent_step_iff {s s' : State} {c : Call} (hi : Inv s) (hc : Consistent s) (hs : step s c = some s') :
    Consistent s' ↔ Guard s c := by
  rw [consistent_iff] at hc ⊢
  cases c with
  | insertRequest row =>
    cases hs
    exact and_congr (agrees_insert_iff row hc.1) (agrees_insert_iff row hc.2)
  | minutelyTick clock =>
    cases hs
    refine (and_iff_left hc.2).trans ?_
    exact agrees_tick_iff (minutes_pos (by decide)) hi.minutely hc.1
  | hourlyTick clock =>
    cases hs
    refine (and_iff_right hc.1).trans ?_
    exact agrees_tick_iff (minutes_pos (by decide)) hi.hourly hc.2

/-- **When the aggregates are the aggregates of the rows.** In every state of a run, just where no row
comes in late and no tick passes over a bucket with rows in it. -/
theorem aggregates_consistent_iff (calls : List Call) :
    Visited step Consistent State.empty calls ↔ Along step (fun s c _ => Guard s c) State.empty calls := by
  have hkeep : ∀ s c s', Inv s → Consistent s → step s c = some s' → Guard s c → Inv s' ∧ Consistent s' := by
    intro s c s' hi hc hs hg
    exact ⟨step_inv hi hs, (consistent_step_iff hi hc hs).mpr hg⟩
  refine visited_iff_along hkeep (fun s c s' hi hc hs hc' => ?_) ⟨?_, ?_⟩ (consistent_iff.mpr ⟨?_, ?_⟩)
  · exact (consistent_step_iff hi hc hs).mp hc'
  · intro b _ host
    rfl
  · intro b _ host
    rfl
  · intro b hb
    exact absurd hb (Nat.not_lt_zero b)
  · intro b hb
    exact absurd hb (Nat.not_lt_zero b)

def page (ts : Time) : Request := ⟨ts, "a.example", "10.0.0.1", some "GET", some 200, some "2xx", some "/", none, none, none, none⟩

/-- A row of the minute that the tick has just written: the tick counts one, the rows are two. -/
theorem late_row_uncounted :
    (exec step State.empty [.insertRequest (page 0), .minutelyTick 60000000, .insertRequest (page 59000000)]).map
        (fun s => (countOf s.minutely.table 0 "a.example", (bucketRows (minutes 1) s.requests 0 "a.example").length)) =
      some (1, 2) ∧
    ¬ Visited step Consistent State.empty [.insertRequest (page 0), .minutelyTick 60000000, .insertRequest (page 59000000)] := by
  refine ⟨by decide +kernel, fun hv => ?_⟩
  have hc := hv.of_exec (rfl : exec step State.empty _ = some _)
  have hcount := countOf_eq hc.minutely (b := 0) (by decide +kernel) "a.example"
  exact absurd hcount (by decide +kernel)

end Cadsa.Aggregation
