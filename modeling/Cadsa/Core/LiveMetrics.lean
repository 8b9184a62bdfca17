import Mathlib.Algebra.Order.Field.Rat
import Mathlib.Tactic.Linarith
import Cadsa.Db.Analytics
import Cadsa.Lib.Window

/-! The live metrics of `core/ingestion.py`: the window of the last half minute, which only reading it
shortens. Times are seconds of the monotonic clock. -/
namespace Cadsa.LiveMetrics
open Analytics
set_option autoImplicit false

structure LiveEvent where
  t : ℚ
  sc : String
  d : Option ℤ
  bo : ℤ
  bi : ℤ
  ip : String
  deriving DecidableEq

def liveEvent (now : ℚ) (row : Request) : LiveEvent where
  t := now
  sc := row.statusClass.getD ""
  d := row.durationMs
  bo := row.responseBytes.getD 0
  bi := row.requestBytes.getD 0
  ip := row.remoteIp

def updateLiveCounters (now : ℚ) (row : Request) (window : List LiveEvent) : List LiveEvent :=
  window ++ [liveEvent now row]

structure Metrics where
  reqCount : ℕ
  rps : ℚ
  rps2xx : ℚ
  rps3xx : ℚ
  rps4xx : ℚ
  rps5xx : ℚ
  errorRate : ℚ
  uniqueIps : ℕ
  p50Ms : ℤ
  bytesOut : ℤ
  bytesIn : ℤ
  req2xx : ℕ
  req3xx : ℕ
  req4xx : ℕ
  req5xx : ℕ

def countClass (sc : String) (events : List LiveEvent) : ℕ := events.countP fun e => e.sc = sc

/-- The span of the events, of half a second at least; with fewer than two of them, the whole window. -/
def elapsed (events : List LiveEvent) : ℚ :=
  match events.head?, events.getLast? with
  | some first, some last => if 2 ≤ events.length then max (last.t - first.t) (1 / 2) else 30
  | _, _ => 30

/-- The error rate of the counts, before it is rounded. -/
def errorRatio (c4 c5 n : ℕ) : ℚ := (c4 + c5 : ℕ) / max n 1

def evict (now : ℚ) (window : List LiveEvent) : List LiveEvent := window.dropWhile fun e => e.t < now - 30

/-- The metrics of the events; `round k` is rounding to so many places. -/
def metricsWith (round : ℕ → ℚ → ℚ) (events : List LiveEvent) : Metrics :=
  let n := events.length
  let c2 := countClass "2xx" events
  let c3 := countClass "3xx" events
  let c4 := countClass "4xx" events
  let c5 := countClass "5xx" events
  let durs := (events.filterMap (·.d)).mergeSort
  { reqCount := n
    rps := round 2 (n / elapsed events)
    rps2xx := round 2 (c2 / elapsed events)
    rps3xx := round 2 (c3 / elapsed events)
    rps4xx := round 2 (c4 / elapsed events)
    rps5xx := round 2 (c5 / elapsed events)
    errorRate := round 4 (errorRatio c4 c5 n)
    uniqueIps := ((events.map (·.ip)).filter (· ≠ "")).dedup.length
    p50Ms := durs.getD (durs.length / 2) 0
    bytesOut := (events.map (·.bo)).sum
    bytesIn := (events.map (·.bi)).sum
    req2xx := c2
    req3xx := c3
    req4xx := c4
    req5xx := c5 }

def metricsOf (events : List LiveEvent) : Metrics := metricsWith roundTo events

def getLiveMetrics (now : ℚ) (window : List LiveEvent) : List LiveEvent × Metrics :=
  (evict now window, metricsOf (evict now window))

/-! ## What is in the window -/

inductive Call
  | update (now : ℚ) (row : Request)
  | metrics (now : ℚ)

def Call.now : Call → ℚ
  | .update now _ => now
  | .metrics now => now

def step (window : List LiveEvent) : Call → List LiveEvent
  | .update now row => updateLiveCounters now row window
  | .metrics now => (getLiveMetrics now window).1

def windowAfter (calls : List Call) : List LiveEvent := calls.foldl step []

def Call.event : Call → Option LiveEvent
  | .update now row => some (liveEvent now row)
  | .metrics _ => none

def eventsOf (calls : List Call) : List LiveEvent := calls.filterMap Call.event

def InOrder (calls : List Call) : Prop := (calls.map Call.now).Pairwise (· ≤ ·)

/-- The rows of the half minute before a time. -/
def Call.insideRow (now : ℚ) : Call → Option Request
  | .update t row => if now - 30 ≤ t then some row else none
  | .metrics _ => none

def inside (now : ℚ) (calls : List Call) : List Request := calls.filterMap (Call.insideRow now)

section
variable {calls : List Call} {now clock : ℚ}

theorem eventsOf_pairwise (h : InOrder calls) : (eventsOf calls).Pairwise fun x y => x.t ≤ y.t := by
  refine List.pairwise_filterMap.mpr ((List.pairwise_map.mp h).imp fun {c d} hcd x hx y hy => ?_)
  cases c with
  | metrics t => cases hx
  | update t row =>
    cases d with
    | metrics u => cases hy
    | update u row' =>
      cases hx
      cases hy
      exact hcd

theorem eventsOf_concat (c : Call) : eventsOf (calls ++ [c]) = eventsOf calls ++ c.event.toList := by
  rw [eventsOf, List.filterMap_append]
  rfl

theorem evict_filter {cutoff : ℚ} {events : List LiveEvent} (hord : events.Pairwise fun x y => x.t ≤ y.t)
    (hle : cutoff ≤ now - 30) : evict now (events.filter (cutoff ≤ ·.t)) = events.filter (now - 30 ≤ ·.t) :=
  Window.dropWhile_filter hord hle

/-- A window has lost nothing that the next look at it would count. -/
theorem windowAfter_eq (hord : InOrder calls) (hclock : ∀ c ∈ calls, c.now ≤ clock) :
    ∃ cutoff ≤ clock - 30, windowAfter calls = (eventsOf calls).filter (cutoff ≤ ·.t) := by
  induction calls using List.reverseRecOn generalizing clock with
  | nil => exact ⟨_, le_refl _, rfl⟩
  | append_singleton calls c ih =>
    have hnow := hclock c (by simp)
    have hevents := eventsOf_pairwise hord
    rw [InOrder, List.map_append, List.pairwise_append] at hord
    have hlast : ∀ d ∈ calls, d.now ≤ c.now := fun d hd =>
      hord.2.2 d.now (List.mem_map_of_mem hd) c.now (List.mem_singleton_self _)
    obtain ⟨cutoff, hle, hwindow⟩ := ih hord.1 hlast
    rw [windowAfter, List.foldl_concat]
    change ∃ k ≤ clock - 30, step (windowAfter calls) c = _
    rw [hwindow, eventsOf_concat]
    rw [eventsOf_concat] at hevents
    cases c with
    | update t row =>
      have hkeep : cutoff ≤ t := by
        have ht : cutoff ≤ t - 30 := hle
        linarith
      refine ⟨cutoff, hle.trans (sub_le_sub_right hnow 30), ?_⟩
      have hpush : ((eventsOf calls ++ [liveEvent t row]).filter (cutoff ≤ ·.t)) =
          (eventsOf calls).filter (cutoff ≤ ·.t) ++ [liveEvent t row] := Window.filter_push hkeep _
      exact hpush.symm
    | metrics t =>
      refine ⟨t - 30, sub_le_sub_right hnow 30, ?_⟩
      refine (evict_filter (List.pairwise_append.mp hevents).1 hle).trans ?_
      exact congrArg _ (List.append_nil _).symm

/-- The events that the metrics are of are those of the rows inside the half minute. -/
theorem evict_windowAfter (hord : InOrder calls) (hclock : ∀ c ∈ calls, c.now ≤ now) :
    evict now (windowAfter calls) = (eventsOf calls).filter (now - 30 ≤ ·.t) := by
  obtain ⟨cutoff, hle, hwindow⟩ := windowAfter_eq hord hclock
  rw [hwindow, evict_filter (eventsOf_pairwise hord) hle]

/-- Whatever is counted in the events is counted in those rows. -/
theorem countP_inside (p : LiveEvent → Bool) (q : Request → Bool) (h : ∀ t row, p (liveEvent t row) = q row) :
    ((eventsOf calls).filter (now - 30 ≤ ·.t)).countP p = (inside now calls).countP q := by
  rw [List.countP_filter, eventsOf, inside, List.countP_filterMap, List.countP_filterMap]
  refine List.countP_congr fun c _ => ?_
  cases c with
  | metrics t => rfl
  | update t row =>
    change (p (liveEvent t row) && decide (now - 30 ≤ t)) = true ↔
      ((if now - 30 ≤ t then some row else none).map q).getD false = true
    rw [h]
    split_ifs with ht <;> simp [ht]

end

/-! ## What a run answers -/

/-- The results of the calls that ask for the metrics, in order. -/
def answers (window : List LiveEvent) : List Call → List Metrics
  | [] => []
  | .update now row :: calls => answers (updateLiveCounters now row window) calls
  | .metrics now :: calls => (getLiveMetrics now window).2 :: answers (getLiveMetrics now window).1 calls

/-- The same calls where every event is kept and each call picks those of its half minute. -/
def answersFromAll (events : List LiveEvent) : List Call → List Metrics
  | [] => []
  | .update now row :: calls => answersFromAll (events ++ [liveEvent now row]) calls
  | .metrics now :: calls => metricsOf (events.filter (now - 30 ≤ ·.t)) :: answersFromAll events calls

/-- The calls without those that only ask. -/
def updates (calls : List Call) : List Call := calls.filter fun c => c.event.isSome

section
variable {calls before : List Call} {now : ℚ}

theorem windowAfter_concat (c : Call) : windowAfter (before ++ [c]) = step (windowAfter before) c :=
  List.foldl_concat ..

theorem eventsOf_updates : eventsOf (updates calls) = eventsOf calls := by
  rw [eventsOf, updates, List.filterMap_filter, eventsOf]
  refine List.filterMap_congr fun c _ => ?_
  cases c with
  | update t row => rfl
  | metrics t => rfl

theorem getLiveMetrics_windowAfter (h : InOrder (before ++ [.metrics now])) :
    (getLiveMetrics now (windowAfter before)).2 = metricsOf ((eventsOf before).filter (now - 30 ≤ ·.t)) := by
  rw [InOrder, List.map_append, List.pairwise_append] at h
  have hclock : ∀ c ∈ before, c.now ≤ now := fun c hc =>
    h.2.2 c.now (List.mem_map_of_mem hc) now (List.mem_singleton_self _)
  exact congrArg metricsOf (evict_windowAfter h.1 hclock)

theorem inOrder_until {c : Call} (h : InOrder (before ++ c :: calls)) : InOrder (before ++ [c]) := by
  refine List.Pairwise.sublist (List.Sublist.map _ ?_) h
  exact List.Sublist.append_left (List.singleton_sublist.mpr List.mem_cons_self) _

theorem answers_windowAfter (h : InOrder (before ++ calls)) :
    answers (windowAfter before) calls = answersFromAll (eventsOf before) calls := by
  induction calls generalizing before with
  | nil => rfl
  | cons c calls ih =>
    have hrest : InOrder ((before ++ [c]) ++ calls) := by rwa [List.append_assoc]
    have hnext := ih hrest
    rw [windowAfter_concat, eventsOf_concat] at hnext
    cases c with
    | update t row => exact hnext
    | metrics t =>
      rw [answers, answersFromAll, getLiveMetrics_windowAfter (inOrder_until h)]
      refine congrArg _ (hnext.trans ?_)
      exact congrArg (answersFromAll · calls) (List.append_nil _)

theorem inOrder_updates {after : List Call} (h : InOrder (before ++ .metrics now :: after)) :
    InOrder (updates before ++ [.metrics now]) :=
  List.Pairwise.sublist (List.Sublist.map _ (List.filter_sublist.append_right _)) (inOrder_until h)

theorem eviction_unobservable (h : InOrder calls) :
    answers [] calls = answersFromAll [] calls ∧
      ∀ before now after, calls = before ++ .metrics now :: after →
        (getLiveMetrics now (windowAfter before)).2 = (getLiveMetrics now (windowAfter (updates before))).2 := by
  constructor
  · exact @answers_windowAfter calls [] h
  · intro before now after hcalls
    subst hcalls
    rw [getLiveMetrics_windowAfter (inOrder_until h), getLiveMetrics_windowAfter (inOrder_updates h), eventsOf_updates]

end

def loginRequest : Request :=
  ⟨0, "a.example", "10.0.0.1", some "POST", some 401, some "4xx", some "/login", none, some 20, some 5, some 7⟩

/-- The second poll no longer counts the first request, and the first poll is not seen in it. -/
theorem eviction_unobservable_two_polls :
    InOrder [.update 0 loginRequest, .metrics 10, .update 25 loginRequest, .metrics 40] ∧
      answers [] [.update 0 loginRequest, .metrics 10, .update 25 loginRequest, .metrics 40] =
        answersFromAll [] [.update 0 loginRequest, .metrics 10, .update 25 loginRequest, .metrics 40] := by
  have h : InOrder [.update 0 loginRequest, .metrics 10, .update 25 loginRequest, .metrics 40] := by
    rw [InOrder]
    decide +kernel
  exact ⟨h, (eviction_unobservable h).1⟩

end Cadsa.LiveMetrics
