import Mathlib.Data.List.GetD
import Mathlib.Tactic.NormNum
import Cadsa.Db.Breakdowns
import Cadsa.Db.Retention
import Cadsa.Lib.Interpolation

/-! The percentiles of `db/duckdb_manager.py`. A higher one is never the smaller number, however it is rounded, and all
are between the durations that they are of: in a chart, in a list of paths, and in what the aggregates have stored. -/
namespace Cadsa.Percentiles
open Db Analytics Interpolation Grouping
set_option autoImplicit false

/-! ## `PERCENTILE_CONT` -/

section
variable {xs : List ℤ} {p q : ℚ}

/-- The durations in order, the last of them from there on. -/
def ranked (xs : List ℤ) (i : ℕ) : ℚ := (xs.mergeSort.getD (min i (xs.length - 1)) 0 : ℤ)

theorem ranked_mono (xs : List ℤ) : Monotone (ranked xs) := by
  intro i j hij
  have hsorted : xs.mergeSort.Pairwise (· ≤ ·) := by
    have h := List.pairwise_mergeSort' (· ≤ ·) xs
    exact h
  show ((_ : ℤ) : ℚ) ≤ ((_ : ℤ) : ℚ)
  rw [Int.cast_le]
  rcases Nat.eq_zero_or_pos xs.length with hzero | hpos
  · rw [List.length_eq_zero_iff.mp hzero, List.mergeSort_nil, List.getD_nil, List.getD_nil]
  · have hlength : xs.mergeSort.length = xs.length := List.length_mergeSort xs
    have hi : min i (xs.length - 1) < xs.mergeSort.length := by omega
    have hj : min j (xs.length - 1) < xs.mergeSort.length := by omega
    rw [List.getD_eq_getElem _ _ hi, List.getD_eq_getElem _ _ hj]
    rcases (min_le_min_right (xs.length - 1) hij).eq_or_lt with heq | hlt
    · exact (getElem_congr_idx heq).le
    · exact List.pairwise_iff_getElem.mp hsorted _ _ hi hj hlt

theorem ranked_mem (h : xs ≠ []) (i : ℕ) : ∃ x ∈ xs, ranked xs i = x := by
  have hpos := List.length_pos_iff.mpr h
  have hi : min i (xs.length - 1) < xs.mergeSort.length := by
    rw [List.length_mergeSort]
    omega
  refine ⟨xs.mergeSort[min i (xs.length - 1)], List.mem_mergeSort.mp (List.getElem_mem hi), ?_⟩
  rw [ranked, List.getD_eq_getElem _ _ hi]

def position (p : ℚ) (xs : List ℤ) : ℚ := p * ((xs.length : ℚ) - 1)

theorem position_nonneg (h : xs ≠ []) (hp : 0 ≤ p) : 0 ≤ position p xs := by
  have hone : (1 : ℚ) ≤ xs.length := by exact_mod_cast List.length_pos_iff.mpr h
  exact mul_nonneg hp (sub_nonneg.mpr hone)

theorem position_le (h : xs ≠ []) (hp : p ≤ 1) : position p xs ≤ (xs.length - 1 : ℕ) := by
  have hpos := List.length_pos_iff.mpr h
  have hone : (1 : ℚ) ≤ xs.length := by exact_mod_cast hpos
  rw [Nat.cast_sub hpos, Nat.cast_one]
  exact mul_le_of_le_one_left (sub_nonneg.mpr hone) hp

theorem percentileCont_eq (h : xs ≠ []) (hp : 0 ≤ p) (hp' : p ≤ 1) :
    percentileCont p xs = some (joined (ranked xs) (position p xs)) := by
  have hx := position_nonneg h hp
  have hlast : ⌈position p xs⌉₊ ≤ xs.length - 1 := Nat.ceil_le.mpr (position_le h hp')
  have hfirst : ⌊position p xs⌋₊ ≤ xs.length - 1 := (Nat.floor_le_ceil _).trans hlast
  have hlength : xs.mergeSort.length = xs.length := List.length_mergeSort xs
  have hne : xs.length ≠ 0 := List.length_pos_iff.mpr h |>.ne'
  rw [percentileCont]
  simp only [hlength, if_neg hne]
  rw [joined, ranked, ranked, min_eq_left hlast, min_eq_left hfirst, natCast_floor_eq_intCast_floor hx]
  rfl

theorem percentileCont_nil (p : ℚ) : percentileCont p [] = none := by simp [percentileCont]

/-- A higher percentile is not a smaller number. -/
theorem percentileCont_mono (h : xs ≠ []) (hp : 0 ≤ p) (hpq : p ≤ q) (hq : q ≤ 1) :
    ∃ a b, percentileCont p xs = some a ∧ percentileCont q xs = some b ∧ a ≤ b := by
  have hone : (1 : ℚ) ≤ xs.length := by exact_mod_cast List.length_pos_iff.mpr h
  refine ⟨_, _, percentileCont_eq h hp (hpq.trans hq), percentileCont_eq h (hp.trans hpq) hq, ?_⟩
  apply joined_mono (ranked_mono xs) (position_nonneg h hp)
  exact mul_le_mul_of_nonneg_right hpq (sub_nonneg.mpr hone)

/-- Every percentile is between two of the numbers. -/
theorem percentileCont_between (h : xs ≠ []) (hp : 0 ≤ p) (hp' : p ≤ 1) :
    ∃ x ∈ xs, ∃ y ∈ xs, ∃ a, percentileCont p xs = some a ∧ (x : ℚ) ≤ a ∧ a ≤ (y : ℚ) := by
  have hx := position_nonneg h hp
  obtain ⟨x, hxmem, hxeq⟩ := ranked_mem h ⌊position p xs⌋₊
  obtain ⟨y, hymem, hyeq⟩ := ranked_mem h (⌊position p xs⌋₊ + 1)
  refine ⟨x, hxmem, y, hymem, _, percentileCont_eq h hp hp', ?_, ?_⟩
  · exact hxeq ▸ le_joined (ranked_mono xs) hx
  · exact hyeq ▸ joined_le (ranked_mono xs) hx

end

/-! ## Rounding -/

/-- `int(…)` cuts towards zero. -/
theorem tdiv_eq (x : ℚ) : x.num.tdiv x.den = if 0 ≤ x then ⌊x⌋ else ⌈x⌉ := by
  split_ifs with h
  · rw [Int.tdiv_eq_ediv_of_nonneg (Rat.num_nonneg.mpr h), ← Rat.floor_def']
  · have hneg : 0 ≤ (-x).num := Rat.num_nonneg.mpr (by linarith)
    have hfloor : (-x).num.tdiv (-x).den = ⌊-x⌋ := by rw [Int.tdiv_eq_ediv_of_nonneg hneg, ← Rat.floor_def']
    rw [Rat.neg_num, Rat.neg_den, Int.neg_tdiv, Int.floor_neg] at hfloor
    exact neg_inj.mp hfloor

theorem intOrZero_mono {x y : ℚ} (h : x ≤ y) : intOrZero (some x) ≤ intOrZero (some y) := by
  show x.num.tdiv x.den ≤ y.num.tdiv y.den
  rw [tdiv_eq, tdiv_eq]
  split_ifs with hx hy hy
  · exact Int.floor_mono h
  · exact absurd (hx.trans h) hy
  · have hceil : ⌈x⌉ ≤ 0 := Int.ceil_le.mpr (by push_cast; linarith)
    exact hceil.trans (Int.floor_nonneg.mpr hy)
  · exact Int.ceil_mono h

theorem castInteger_near (x : ℚ) : x - 1 / 2 ≤ castInteger x ∧ (castInteger x : ℚ) ≤ x + 1 / 2 := by
  have hfloor := Int.floor_le x
  have hlt := Int.lt_floor_add_one x
  rw [castInteger]
  split_ifs with h
  · rcases h with hless | ⟨heq, -⟩
    · constructor <;> linarith
    · constructor <;> linarith
  · push_cast
    have hmore : 1 / 2 ≤ x - ⌊x⌋ := not_lt.mp fun hless => h (.inl hless)
    constructor <;> linarith

/-- Numbers that are rounded to different integers are in the order of these, for each is within one half of its own. -/
theorem castInteger_mono {x y : ℚ} (h : x ≤ y) : castInteger x ≤ castInteger y := by
  by_contra hlt
  have hnext : castInteger y + 1 ≤ castInteger x := not_le.mp hlt
  have hcast : (castInteger y : ℚ) + 1 ≤ castInteger x := by exact_mod_cast hnext
  have hx := (castInteger_near x).2
  have hy := (castInteger_near y).1
  have heq : x = y := le_antisymm h (by linarith)
  rw [heq] at hlt
  exact hlt (le_refl _)

section
variable {xs : List ℤ} {p q : ℚ}

theorem intOrZero_intCast (x : ℤ) : intOrZero (some (x : ℚ)) = x := by simp [intOrZero]

theorem intOrZero_percentile_mono (h : xs ≠ []) (hp : 0 ≤ p) (hpq : p ≤ q) (hq : q ≤ 1) :
    intOrZero (percentileCont p xs) ≤ intOrZero (percentileCont q xs) := by
  obtain ⟨a, b, ha, hb, hab⟩ := percentileCont_mono h hp hpq hq
  rw [ha, hb]
  exact intOrZero_mono hab

theorem intOrZero_percentile_between (h : xs ≠ []) (hp : 0 ≤ p) (hp' : p ≤ 1) :
    ∃ x ∈ xs, ∃ y ∈ xs, x ≤ intOrZero (percentileCont p xs) ∧ intOrZero (percentileCont p xs) ≤ y := by
  obtain ⟨x, hx, y, hy, a, ha, hxa, hay⟩ := percentileCont_between h hp hp'
  refine ⟨x, hx, y, hy, ?_, ?_⟩
  · rw [ha]
    exact (intOrZero_intCast x).symm.trans_le (intOrZero_mono hxa)
  · rw [ha]
    exact (intOrZero_mono hay).trans_eq (intOrZero_intCast y)

end

/-! ## The performance chart -/

/-- The durations that a point of the chart is of. -/
def durationsIn (rows : List Request) (width ts : Time) : List ℤ :=
  ((rows.filter (·.durationMs.isSome)).filter fun r => r.ts / width * width = ts).filterMap (·.durationMs)

/-- The percentiles ascend, from no less than the shortest duration to no more than the longest. -/
structure Graded (durations : List ℤ) (e : Performance) : Prop where
  shortest : ∃ d ∈ durations, d ≤ e.p50
  p75 : e.p50 ≤ e.p75
  p90 : e.p75 ≤ e.p90
  p95 : e.p90 ≤ e.p95
  p99 : e.p95 ≤ e.p99
  longest : ∃ d ∈ durations, e.p99 ≤ d

section
variable {requests : List Request} {fromTs toTs : Time}

theorem durationsIn_ne_nil {rows : List Request} {width ts : Time}
    (h : ts ∈ (rows.filter (·.durationMs.isSome)).map fun r => r.ts / width * width) :
    durationsIn rows width ts ≠ [] := by
  obtain ⟨r, hr, heq⟩ := List.mem_map.mp h
  obtain ⟨d, hd⟩ := Option.isSome_iff_exists.mp (List.mem_filter.mp hr).2
  exact List.ne_nil_of_mem (List.mem_filterMap.mpr ⟨r, List.mem_filter.mpr ⟨hr, decide_eq_true heq⟩, hd⟩)

/-- The point of a bucket. -/
def performanceOf (rows : List Request) (width b : Time) : Performance :=
  let percentile (p : ℚ) : ℤ := intOrZero (percentileCont p (durationsIn rows width b))
  { ts := b, p50 := percentile (1 / 2), p75 := percentile (3 / 4), p90 := percentile (9 / 10),
    p95 := percentile (19 / 20),
    p99 := percentile (99 / 100) }

theorem queryPerformance_spec {bucket : Value} {width : Time} (hwidth : interval bucket = .ok width)
    (f : Option RequestFilter) :
    queryPerformance requests (.datetime fromTs) (.datetime toTs) bucket (.ofFilter f) =
      .ok ((keys (fun r : Request => r.ts / width * width)
        ((selected requests fromTs toTs f).filter (·.durationMs.isSome))).map
          (performanceOf (selected requests fromTs toTs f) width)) := by
  rw [queryPerformance, buildWhere_eq, hwidth]
  change Except.bind (select requests (conditionsOf fromTs toTs f)) _ = _
  rw [select_conditionsOf]
  rfl

/-- **The performance chart is graded**: for every bucket of the callers and every filter, its points come in order of
time, each has durations, and its percentiles ascend between the shortest and the longest of them. -/
theorem performance_graded {bucket : Value} {width : Time} (hwidth : interval bucket = .ok width)
    (f : Option RequestFilter) :
    ∃ points, queryPerformance requests (.datetime fromTs) (.datetime toTs) bucket (.ofFilter f) = .ok points ∧
      (points.map Performance.ts).Pairwise (· < ·) ∧
      ∀ e ∈ points, Graded (durationsIn (selected requests fromTs toTs f) width e.ts) e := by
  refine ⟨_, queryPerformance_spec hwidth f, ?_, fun e he => ?_⟩
  · rw [List.map_map]
    exact (List.map_id _).symm ▸ keys_ascending _
  · obtain ⟨b, hb, rfl⟩ := List.mem_map.mp he
    have hne : durationsIn (selected requests fromTs toTs f) width b ≠ [] := durationsIn_ne_nil (mem_keys.mp hb)
    obtain ⟨x, hx, -, -, hshortest, -⟩ := intOrZero_percentile_between hne (p := 1 / 2) (by norm_num) (by norm_num)
    obtain ⟨-, -, y, hy, -, hlongest⟩ := intOrZero_percentile_between hne (p := 99 / 100) (by norm_num) (by norm_num)
    refine ⟨⟨x, hx, hshortest⟩, ?_, ?_, ?_, ?_, ⟨y, hy, hlongest⟩⟩
    all_goals exact intOrZero_percentile_mono hne (by norm_num) (by norm_num) (by norm_num)

/-- Two requests of one hour, and the chart of them. -/
theorem performance_graded_sample :
    let requests : List Request := [
      ⟨5, "a.example", "10.0.0.1", some "GET", some 200, some "2xx", some "/", none, none, none, some 40⟩,
      ⟨7, "a.example", "10.0.0.1", some "GET", some 200, some "2xx", some "/", none, none, none, some 3⟩]
    ∃ points, queryPerformance requests (.datetime 0) (.datetime 9) (.str "1 hour") (.ofFilter none) = .ok points ∧
      (points.map Performance.ts).Pairwise (· < ·) ∧
      ∀ e ∈ points, Graded (durationsIn (selected requests 0 9 none) (minutes 60) e.ts) e :=
  performance_graded rfl none

end

/-! ## Lists of paths -/

open Breakdowns DuckDb Paging Ranking

section
variable {requests : List RequestRow} {fromTs toTs : Time} {f : Option RequestFilter}

/-- What is listed of a path by its requests, by its statuses and by its durations, out of the same rows. -/
structure PathListsAgree (rows : List RequestRow) (top : List TopPath) (byStatus : List PathByStatus)
    (slowest : List SlowestPath) : Prop where
  sameTotals : ∀ t ∈ top, ∀ s ∈ byStatus, t.path = s.path →
    t.reqCount = s.total ∧ t.avgMs = s.avgMs ∧ t.bytesOut = s.bytesOut
  slowTop : ∀ e ∈ slowest, ∀ t ∈ top, e.path = t.path → e.reqCount ≤ t.reqCount ∧ e.avgMs = t.avgMs
  slowByStatus : ∀ e ∈ slowest, ∀ s ∈ byStatus, e.path = s.path → e.reqCount ≤ s.total ∧ e.avgMs = s.avgMs
  classes : ∀ s ∈ byStatus, s.req2xx + s.req3xx + s.req4xx + s.req5xx ≤ s.total
  timed : ∀ e ∈ slowest, 3 ≤ e.reqCount ∧ e.p50Ms ≤ e.p95Ms
  /-- A path that has no place in a list of the most requested has no more requests than those that are there. -/
  room : ∀ r ∈ rows, ∀ path ∈ r.path,
    ((∃ t ∈ top, t.path = path) ∨ ∀ t ∈ top, (members (·.path) rows path).length ≤ t.reqCount) ∧
    ((∃ s ∈ byStatus, s.path = path) ∨ ∀ s ∈ byStatus, (members (·.path) rows path).length ≤ s.total)

theorem castOrZero_percentile_mono {xs : List ℤ} (h : xs ≠ []) {p q : ℚ} (hp : 0 ≤ p) (hpq : p ≤ q) (hq : q ≤ 1) :
    castOrZero (percentileCont p xs) ≤ castOrZero (percentileCont q xs) := by
  obtain ⟨a, b, ha, hb, hab⟩ := percentileCont_mono h hp hpq hq
  rw [ha, hb]
  exact castInteger_mono hab

/-- Classes of statuses that have no status in common are counted within all rows. -/
theorem classes_le {a b c d : ℤ → Bool}
    (h : ∀ s, (if a s then 1 else 0) + (if b s then 1 else 0) + (if c s then 1 else 0) + (if d s then 1 else 0) ≤ 1)
    (rows : List Request) :
    sumCase (fun r => r.status.any a) rows + sumCase (fun r => r.status.any b) rows +
      sumCase (fun r => r.status.any c) rows + sumCase (fun r => r.status.any d) rows ≤ rows.length := by
  rw [sumCase_eq_countP, sumCase_eq_countP, sumCase_eq_countP, sumCase_eq_countP]
  induction rows with
  | nil => exact le_refl _
  | cons r rows ih =>
    have hone : (if r.status.any a then 1 else 0) + (if r.status.any b then 1 else 0) +
        (if r.status.any c then 1 else 0) + (if r.status.any d then 1 else 0) ≤ 1 := by
      cases r.status with
      | none => simp
      | some s => exact h s
    rw [List.countP_cons, List.countP_cons, List.countP_cons, List.countP_cons, List.length_cons]
    omega

theorem between_disjoint (s : ℤ) : (if 200 ≤ s && s ≤ 299 then 1 else 0) + (if 300 ≤ s && s ≤ 399 then 1 else 0) +
    (if 400 ≤ s && s ≤ 499 then 1 else 0) + (if 500 ≤ s && s ≤ 599 then 1 else 0) ≤ 1 := by
  simp only [Bool.and_eq_true, decide_eq_true_eq]
  split_ifs <;> omega

theorem in_disjoint (s : ℤ) : (if 200 ≤ s && s < 300 then 1 else 0) + (if 300 ≤ s && s < 400 then 1 else 0) +
    (if 400 ≤ s && s < 500 then 1 else 0) + (if decide (500 ≤ s) then 1 else 0) ≤ 1 := by
  simp only [Bool.and_eq_true, decide_eq_true_eq]
  split_ifs <;> omega

/-- The durations of a path are those of its timed requests. -/
theorem durations_timed (rows : List RequestRow) (path : String) :
    durations (members (·.path) (rows.filter (·.durationMs.isSome)) path) = durations (members (·.path) rows path) := by
  rw [members, members, List.filter_comm, durations, durations, List.filterMap_filter]
  refine List.filterMap_congr fun r _ => ?_
  cases r.durationMs <;> rfl

theorem castOrZero_eq (x : Option ℚ) : castOrZero x = castInteger (x.getD 0) := by
  cases x with
  | some x => rfl
  | none => simp [castOrZero, castInteger]

/-- **The lists of paths agree**, whichever paths their limits leave in them. -/
theorem path_lists_agree (limits : ℕ × ℕ × ℕ) (byCount : ByCount TopPath TopPath.reqCount)
    (byTotal : ByCount PathByStatus PathByStatus.total)
    (byP95 : OrderBy fun e : SlowestPath => OrderDual.toDual e.p95Ms) :
    PathListsAgree (whereRows requests fromTs toTs f) (queryTopPaths requests fromTs toTs f limits.1 byCount)
      (queryPathsByStatus requests fromTs toTs f limits.2.1 byTotal)
      (querySlowestPaths requests fromTs toTs f limits.2.2 byP95) := by
  have htop : First (fun r : RequestRow => r.path) anyGroup topPathOf TopPath.path (fun e => OrderDual.toDual e.reqCount)
      (some limits.1) (whereRows requests fromTs toTs f) (queryTopPaths requests fromTs toTs f limits.1 byCount) :=
    first_spec (fun _ _ => rfl) byCount (some limits.1)
  have hstatus : First (fun r : RequestRow => r.path) anyGroup pathByStatusOf PathByStatus.path
      (fun e => OrderDual.toDual e.total) (some limits.2.1) (whereRows requests fromTs toTs f)
      (queryPathsByStatus requests fromTs toTs f limits.2.1 byTotal) :=
        first_spec (fun _ _ => rfl) byTotal (some limits.2.1)
  have hslow : First (fun r : RequestRow => r.path) (3 ≤ ·.length) slowestPathOf SlowestPath.path
      (fun e => OrderDual.toDual e.p95Ms) (some limits.2.2)
      ((whereRows requests fromTs toTs f).filter (·.durationMs.isSome))
      (querySlowestPaths requests fromTs toTs f limits.2.2 byP95) := first_spec (fun _ _ => rfl) byP95 (some limits.2.2)
  generalize whereRows requests fromTs toTs f = rows at htop hstatus hslow ⊢
  have hfewer : ∀ path, (members (fun r : RequestRow => r.path) (rows.filter (·.durationMs.isSome)) path).length ≤
      (members (fun r : RequestRow => r.path) rows path).length := fun path =>
    (List.filter_sublist.filter _).length_le
  have hslowCount : ∀ e ∈ querySlowestPaths requests fromTs toTs f limits.2.2 byP95,
      e.reqCount ≤ (members (fun r : RequestRow => r.path) rows e.path).length := fun e he =>
    (congrArg SlowestPath.reqCount (hslow.each e he).2).trans_le (hfewer e.path)
  have hslowAvg : ∀ e ∈ querySlowestPaths requests fromTs toTs f limits.2.2 byP95,
      e.avgMs = castInteger ((avg (durations (members (·.path) rows e.path))).getD 0) := fun e he => by
    have havg : e.avgMs = castOrZero _ := congrArg SlowestPath.avgMs (hslow.each e he).2
    rw [havg, durations_timed, castOrZero_eq]
  constructor
  case sameTotals =>
    intro t ht s hs hpath
    have htop := (htop.each t ht).2
    have hstatus := (hstatus.each s hs).2
    rw [← hpath] at hstatus
    exact ⟨(congrArg TopPath.reqCount htop).trans (congrArg PathByStatus.total hstatus).symm,
      (congrArg TopPath.avgMs htop).trans (congrArg PathByStatus.avgMs hstatus).symm,
      (congrArg TopPath.bytesOut htop).trans (congrArg PathByStatus.bytesOut hstatus).symm⟩
  case slowTop =>
    intro e he t ht hpath
    have htop := (htop.each t ht).2
    rw [← hpath] at htop
    exact ⟨(hslowCount e he).trans_eq (congrArg TopPath.reqCount htop).symm,
      (hslowAvg e he).trans (congrArg TopPath.avgMs htop).symm⟩
  case slowByStatus =>
    intro e he s hs hpath
    have hstatus := (hstatus.each s hs).2
    rw [← hpath] at hstatus
    exact ⟨(hslowCount e he).trans_eq (congrArg PathByStatus.total hstatus).symm,
      (hslowAvg e he).trans (congrArg PathByStatus.avgMs hstatus).symm⟩
  case classes =>
    intro s hs
    have heq := (hstatus.each s hs).2
    have hsum : s.req2xx + s.req3xx + s.req4xx + s.req5xx = _ :=
      congrArg (fun s : PathByStatus => s.req2xx + s.req3xx + s.req4xx + s.req5xx) heq
    have htotal : s.total = _ := congrArg PathByStatus.total heq
    rw [hsum, htotal]
    exact (classes_le between_disjoint _).trans_eq (List.length_map _)
  case timed =>
    intro e he
    obtain ⟨hne, heq⟩ := hslow.each e he
    have hcount : e.reqCount = _ := congrArg SlowestPath.reqCount heq
    have hdurations : durations (members (·.path) (rows.filter (·.durationMs.isSome)) e.path) ≠ [] := by
      obtain ⟨r, hr⟩ := List.exists_mem_of_ne_nil _ hne
      obtain ⟨d, hd⟩ := Option.isSome_iff_exists.mp (List.mem_filter.mp (mem_members.mp hr).1).2
      exact List.ne_nil_of_mem (List.mem_filterMap.mpr ⟨r, hr, hd⟩)
    have h50 : e.p50Ms = _ := congrArg SlowestPath.p50Ms heq
    have h95 : e.p95Ms = _ := congrArg SlowestPath.p95Ms heq
    refine ⟨hcount ▸ of_decide_eq_true (hslow.kept e he), ?_⟩
    rw [h50, h95]
    exact castOrZero_percentile_mono hdurations (by norm_num) (by norm_num) (by norm_num)
  case room =>
    intro r hr path hpath
    have hne : members (fun r : RequestRow => r.path) rows path ≠ [] :=
      List.ne_nil_of_mem (mem_members.mpr ⟨hr, hpath⟩)
    constructor
    · exact (htop.complete path hne rfl).imp List.mem_map.mp fun h t ht => OrderDual.toDual_le_toDual.mp (h.2 t ht)
    · exact (hstatus.complete path hne rfl).imp List.mem_map.mp fun h s hs => OrderDual.toDual_le_toDual.mp (h.2 s hs)

end

/-! ## What the aggregates have stored -/

open Aggregation Retention Tables

/-- The row is that of some rows of its bucket and its host. -/
def OfRows (width : ℕ) (s : Stats) : Prop := ∃ rows ≠ [], s = statsOf rows s.key ∧ ∀ r ∈ rows, bucketKey width r = s.key

/-- Percentiles that are all there and ascend, or are all missing. -/
def Ascending (p50 p95 p99 : Option ℤ) : Prop :=
  (p50 = none ∧ p95 = none ∧ p99 = none) ∨ ∃ a b c, p50 = some a ∧ p95 = some b ∧ p99 = some c ∧ a ≤ b ∧ b ≤ c

structure Coherent (width : ℕ) (s : Stats) : Prop where
  counted : 0 < s.reqCount
  bucket : width ∣ s.ts
  classes : s.req2xx + s.req3xx + s.req4xx + s.req5xx ≤ s.reqCount
  uniqueIps : 0 < s.uniqueIps ∧ s.uniqueIps ≤ s.reqCount
  percentiles : Ascending s.durationP50 s.durationP95 s.durationP99

section
variable {width : ℕ} {t : StatsTable}

theorem ascending_percentiles (rows : List Request) :
    Ascending (percentile (1 / 2) rows) (percentile (95 / 100) rows) (percentile (99 / 100) rows) := by
  rw [percentile, percentile, percentile]
  by_cases h : rows.filterMap (·.durationMs) = []
  · rw [h, percentileCont_nil, percentileCont_nil, percentileCont_nil]
    exact .inl ⟨rfl, rfl, rfl⟩
  · obtain ⟨a, b, ha, hb, hab⟩ := percentileCont_mono h (p := 1 / 2) (q := 95 / 100) (by norm_num) (by norm_num)
      (by norm_num)
    obtain ⟨b', c, hb', hc, hbc⟩ := percentileCont_mono h (p := 95 / 100) (q := 99 / 100) (by norm_num)
      (by norm_num) (by norm_num)
    obtain rfl : b = b' := Option.some.inj (hb.symm.trans hb')
    rw [ha, hb, hc]
    exact .inr ⟨_, _, _, rfl, rfl, rfl, castInteger_mono hab, castInteger_mono hbc⟩

theorem OfRows.coherent {s : Stats} (h : OfRows width s) : Coherent width s := by
  obtain ⟨rows, hne, heq, hkey⟩ := h
  have hpos := List.length_pos_iff.mpr hne
  obtain ⟨r, hr⟩ := List.exists_mem_of_ne_nil rows hne
  have hbucket : truncated width r.ts = s.ts := congrArg Prod.fst (hkey r hr)
  have hips : (rows.map (·.remoteIp)).dedup ≠ [] :=
    List.ne_nil_of_mem (List.mem_dedup.mpr (List.mem_map_of_mem hr))
  have hfew : (rows.map (·.remoteIp)).dedup.length ≤ rows.length :=
    (List.dedup_sublist _).length_le.trans_eq (List.length_map _)
  refine ⟨?_, ⟨bucketOf width r.ts, ?_⟩, ?_, ⟨?_, ?_⟩, ?_⟩
  · rw [heq]
    exact hpos
  · rw [← hbucket, truncated, Nat.mul_comm]
  · rw [heq]
    exact classes_le in_disjoint rows
  · rw [heq]
    exact List.length_pos_iff.mpr hips
  · rw [heq]
    exact hfew
  · rw [heq]
    exact ascending_percentiles rows

theorem ofRows_upsert {s : Stats} (h : ∀ r ∈ t.rows, OfRows width r) (hs : OfRows width s) :
    ∀ r ∈ (t.upsert s).rows, OfRows width r := by
  intro r hr
  rcases List.mem_append.mp hr with hold | hnew
  · exact h r (List.mem_of_mem_filter hold)
  · rw [List.mem_singleton.mp hnew]
    exact hs

/-- Each group of the `SELECT` is of a bucket and a host, and not empty. -/
theorem ofRows_insertOrReplace (fromTs toTs : ℕ) (host : Option String) (requests : List Request)
    (h : ∀ r ∈ t.rows, OfRows width r) :
    ∀ r ∈ (insertOrReplace width fromTs toTs host requests t).rows, OfRows width r := by
  rw [insertOrReplace]
  generalize requests.filter (fun r => fromTs ≤ r.ts && r.ts < toTs && host.all fun h => h = "" || r.host = h) = rows
  have hkeys : ∀ k ∈ (rows.map (bucketKey width)).dedup, k ∈ rows.map (bucketKey width) :=
    fun k hk => List.mem_dedup.mp hk
  generalize (rows.map (bucketKey width)).dedup = ks at hkeys
  induction ks generalizing t with
  | nil => exact h
  | cons k ks ih =>
    refine ih (ofRows_upsert h ⟨group (bucketKey width) rows k, group_ne_nil (hkeys k List.mem_cons_self), rfl, ?_⟩)
      fun j hj => hkeys j (List.mem_cons_of_mem k hj)
    exact fun r hr => of_decide_eq_true (List.mem_filter.mp hr).2

end

/-- What is stored of minutes and of hours. -/
structure StoredOfRows (db : Database) : Prop where
  minutely : ∀ s ∈ db.statsMinutely.rows, OfRows (minutes 1) s
  hourly : ∀ s ∈ db.statsHourly.rows, OfRows (minutes 60) s

theorem StoredOfRows.statement {db : Database} (h : StoredOfRows db) (q : Statement) : StoredOfRows (q.run db) := by
  cases q with
  | minutelyTick clock => exact ⟨ofRows_insertOrReplace _ _ _ _ h.minutely, h.hourly⟩
  | hourlyTick clock => exact ⟨h.minutely, ofRows_insertOrReplace _ _ _ _ h.hourly⟩
  | insertRequest row => exact ⟨h.minutely, h.hourly⟩
  | insertParseError now rawLine errorMsg logSource => exact ⟨h.minutely, h.hourly⟩
  | insertSecurityEvent event => exact ⟨h.minutely, h.hourly⟩
  | failed requests securityEvents => exact ⟨h.minutely, h.hourly⟩

theorem StoredOfRows.delete {db : Database} (h : StoredOfRows db) (d : Delete) : StoredOfRows (d.run db) := by
  obtain ⟨table, cutoff⟩ := d
  cases table with
  | statsMinutely => exact ⟨fun s hs => h.minutely s (List.mem_of_mem_filter hs), h.hourly⟩
  | statsHourly => exact ⟨h.minutely, fun s hs => h.hourly s (List.mem_of_mem_filter hs)⟩
  | requests => exact ⟨h.minutely, h.hourly⟩
  | securityEvents => exact ⟨h.minutely, h.hourly⟩
  | parseErrors => exact ⟨h.minutely, h.hourly⟩

theorem StoredOfRows.step {s : Retention.State} (h : StoredOfRows s.db) (a : Act) :
    StoredOfRows (Retention.step s a).db := by
  cases a with
  | statement q => exact h.statement q
  | startCleanup cfg clock =>
    rw [Retention.step]
    split_ifs <;> exact h
  | delete ok =>
    rw [Retention.step]
    cases s.cleanup with
    | nil => exact h
    | cons d rest =>
      cases ok with
      | true => exact h.delete d
      | false => exact h

/-- **Every stored aggregate is coherent**, after any statements, ticks and cleanups: it is of at least one request and
one address and of no more addresses and statuses than requests, it starts its bucket, and its percentiles ascend. -/
theorem aggregates_coherent (acts : List Act) :
    (∀ s ∈ (run acts).db.statsMinutely.rows, Coherent (minutes 1) s) ∧
      ∀ s ∈ (run acts).db.statsHourly.rows, Coherent (minutes 60) s := by
  have hstored : StoredOfRows (run acts).db := by
    rw [run]
    induction acts using List.reverseRecOn with
    | nil => exact ⟨List.forall_mem_nil _, List.forall_mem_nil _⟩
    | append_singleton before a ih =>
      rw [List.foldl_append]
      exact ih.step a
  exact ⟨fun s hs => (hstored.minutely s hs).coherent, fun s hs => (hstored.hourly s hs).coherent⟩

end Cadsa.Percentiles
