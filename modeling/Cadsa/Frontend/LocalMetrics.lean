import Cadsa.Core.LiveMetrics
import Cadsa.Frontend.RealTime

/-! The metrics that the Real-Time page computes of its own events, with the quotients, beside those that the server
computes of its window. Both sides round on their own; what they round is compared. -/
namespace Cadsa.Frontend.LocalMetrics
open LiveMetrics (LiveEvent Metrics countClass elapsed errorRatio evict metricsWith)
open Realtime (matchesFilter)
open RealTime (LocalEvent Filters Page window matched pathMatches localCounts computeLocalMetrics anyFilter)
set_option autoImplicit false

/-! ## The page's metrics -/

/-- The span of the events in seconds, half a second at least; with fewer than two of them, the whole window. -/
def localElapsed (events : List LocalEvent) : ℚ :=
  match events.head?, events.getLast? with
  | some first, some last => if 2 ≤ events.length then max (((last.t : ℚ) - first.t) / 1000) (1 / 2) else 30000 / 1000
  | _, _ => 30000 / 1000

/-- What `computeLocalMetrics` returns of matching events: the counts, and the quotients of these. -/
def localMetrics (round : ℕ → ℚ → ℚ) (events : List LocalEvent) : Metrics :=
  let m := localCounts events
  { reqCount := m.reqCount
    rps := round 2 (m.reqCount / localElapsed events)
    rps2xx := round 2 (m.req2xx / localElapsed events)
    rps3xx := round 2 (m.req3xx / localElapsed events)
    rps4xx := round 2 (m.req4xx / localElapsed events)
    rps5xx := round 2 (m.req5xx / localElapsed events)
    errorRate := round 4 ((m.req4xx + m.req5xx : ℕ) / max m.reqCount 1)
    uniqueIps := m.uniqueIps
    p50Ms := m.p50Ms
    bytesOut := m.bytesOut
    bytesIn := m.bytesIn
    req2xx := m.req2xx
    req3xx := m.req3xx
    req4xx := m.req4xx
    req5xx := m.req5xx }

def computeMetrics (round : ℕ → ℚ → ℚ) (now : ℕ) (events : List LocalEvent) (filters : Filters) : Option Metrics :=
  if (matched now events filters).length = 0 then none else some (localMetrics round (matched now events filters))

/-- The metrics without the quotients. -/
def counts (m : Metrics) : RealTime.LiveMetrics :=
  ⟨m.reqCount, m.uniqueIps, m.p50Ms, m.bytesOut, m.bytesIn, m.req2xx, m.req3xx, m.req4xx, m.req5xx⟩

theorem computeLocalMetrics_counts (round : ℕ → ℚ → ℚ) (now : ℕ) (events : List LocalEvent) (filters : Filters) :
    computeLocalMetrics now events filters = (computeMetrics round now events filters).map counts := by
  rw [computeLocalMetrics, computeMetrics, apply_ite (Option.map counts)]
  rfl

/-! ## The page over time -/

/-- The page's events and what it shows, since its filters were set. -/
structure View where
  events : List LocalEvent
  shown : Option Metrics

inductive Act
  | request (e : LocalEvent)
  | tick (now : ℕ)

def Act.now : Act → ℕ
  | .request e => e.t
  | .tick now => now

section
variable (round : ℕ → ℚ → ℚ) (filters : Filters)

/-- Where no event matches, the page keeps what it shows. -/
def step (v : View) : Act → View
  | .request e => { v with events := v.events ++ [e] }
  | .tick now =>
    { events := window now v.events
      shown := (computeMetrics round now v.events filters).orElse fun _ => v.shown }

def viewAfter (acts : List Act) : View := acts.foldl (step round filters) ⟨[], none⟩

end

/-- The page that has the view, while it is not paused. -/
def View.page (filters : Filters) (rows : List Realtime.RequestRow) (v : View) : Page :=
  ⟨filters, false, rows, v.events, v.shown.map counts⟩

theorem tick_page {filters : Filters} (hfilter : anyFilter filters = true) (round : ℕ → ℚ → ℚ)
    (rows : List Realtime.RequestRow) (now : ℕ) (v : View) :
    RealTime.tick now (v.page filters rows) = (step round filters v (.tick now)).page filters rows := by
  have hon : (anyFilter filters && !false) = true := by
    rw [hfilter]
    rfl
  have hshown : (computeLocalMetrics now v.events filters).orElse (fun _ => v.shown.map counts) =
      ((computeMetrics round now v.events filters).orElse fun _ => v.shown).map counts := by
    rw [computeLocalMetrics_counts round]
    cases computeMetrics round now v.events filters <;> rfl
  rw [RealTime.tick]
  change (if (anyFilter filters && !false) = true then _ else _) = _
  rw [if_pos hon]
  exact congrArg (Page.mk filters false rows (window now v.events)) hshown

theorem onMessage_page (round : ℕ → ℚ → ℚ) (filters : Filters) (rows : List Realtime.RequestRow) (now : ℕ)
    (r : Realtime.RequestRow) (v : View) :
    RealTime.onMessage now (.newRequest r) (v.page filters rows) =
      (step round filters v (.request (RealTime.localEvent now r))).page filters ((r :: rows).take 500) := rfl

/-! ## Events on both sides -/

/-- The server's record of an event, with the same time in seconds. -/
def serverEvent (e : LocalEvent) : LiveEvent := ⟨(e.t : ℚ) / 1000, e.sc, e.d, e.bo, e.bi, e.ip⟩

section
variable {round : ℕ → ℚ → ℚ} {filters : Filters} {events : List LocalEvent}

theorem elapsed_serverEvent (events : List LocalEvent) : elapsed (events.map serverEvent) = localElapsed events := by
  have hwhole : (30 : ℚ) = 30000 / 1000 := by norm_num
  rw [elapsed, localElapsed, List.head?_map, List.getLast?_map, List.length_map]
  cases events.head? with
  | none => exact hwhole
  | some first =>
    cases events.getLast? with
    | none => exact hwhole
    | some last =>
      dsimp only [Option.map_some, serverEvent]
      rw [sub_div, hwhole]

theorem countClass_serverEvent (sc : String) (events : List LocalEvent) :
    countClass sc (events.map serverEvent) = events.countP (·.sc = sc) := by
  rw [countClass, List.countP_map]
  rfl

/-- The empty address counts on one side only. -/
theorem unique_iff (ips : List String) : ips.dedup.length = (ips.filter (· ≠ "")).dedup.length ↔ "" ∉ ips := by
  have hperm : (ips.filter (· ≠ "")).dedup.Perm (ips.dedup.filter (· ≠ "")) := by
    refine (List.perm_ext_iff_of_nodup (List.nodup_dedup _) ((List.nodup_dedup ips).filter _)).mpr fun ip => ?_
    rw [List.mem_dedup, List.mem_filter, List.mem_filter, List.mem_dedup]
  rw [hperm.length_eq, eq_comm, List.length_filter_eq_length_iff]
  constructor
  · intro h hmem
    exact of_decide_eq_true (h "" (List.mem_dedup.mpr hmem)) rfl
  · intro h ip hip
    exact decide_eq_true (ne_of_mem_of_not_mem (List.mem_dedup.mp hip) h)

/-- All but the addresses is the same on both sides. -/
theorem metricsWith_serverEvent (round : ℕ → ℚ → ℚ) (events : List LocalEvent) :
    metricsWith round (events.map serverEvent) =
      { localMetrics round events with uniqueIps := ((events.map (·.ip)).filter (· ≠ "")).dedup.length } := by
  rw [metricsWith]
  simp only [List.length_map, countClass_serverEvent, elapsed_serverEvent, List.filterMap_map, List.map_map]
  rfl

theorem localMetrics_iff (round : ℕ → ℚ → ℚ) (events : List LocalEvent) :
    localMetrics round events = metricsWith round (events.map serverEvent) ↔ ∀ e ∈ events, e.ip ≠ "" := by
  have hunique := unique_iff (events.map (·.ip))
  rw [metricsWith_serverEvent]
  constructor
  · intro h e he hip
    exact hunique.mp (congrArg Metrics.uniqueIps h) (List.mem_map.mpr ⟨e, he, hip⟩)
  · intro h
    have hnone : "" ∉ events.map (·.ip) := fun hmem => by
      obtain ⟨e, he, hip⟩ := List.mem_map.mp hmem
      exact h e he hip
    rw [← hunique.mpr hnone]
    rfl

end

/-! ## Runs of the page -/

def Act.event : Act → Option LocalEvent
  | .request e => some e
  | .tick _ => none

/-- All events that have come in. -/
def received (acts : List Act) : List LocalEvent := acts.filterMap Act.event

def InOrder (acts : List Act) : Prop := (acts.map Act.now).Pairwise (· ≤ ·)

/-- The filters that the page applies itself. -/
def matchesHere (filters : Filters) (e : LocalEvent) : Bool :=
  matchesFilter filters.remoteIp (some e.ip) && matchesFilter filters.method (some e.method) &&
    matchesFilter filters.statusClass (some e.sc) && pathMatches filters.path (some e.path) &&
    matchesFilter filters.country (some e.country)

/-- All filters, that of the host included, which the page leaves to the server. -/
def passes (filters : Filters) (e : LocalEvent) : Bool :=
  matchesFilter filters.host (some e.host) && matchesHere filters e

/-- The matching events. -/
def matching (filters : Filters) (acts : List Act) : List LocalEvent := (received acts).filter (passes filters)

/-- The events of the half minute before a time. -/
def recent (now : ℕ) (events : List LocalEvent) : List LocalEvent := events.filter (now - 30000 ≤ ·.t)

/-- What is left of all that the page does not filter out. -/
def left (filters : Filters) (now : ℕ) (acts : List Act) : List LocalEvent :=
  recent now ((received acts).filter (matchesHere filters))

/-- What `get_live_metrics` returns where its window holds the matching events. -/
def serverMetrics (round : ℕ → ℚ → ℚ) (filters : Filters) (now : ℕ) (acts : List Act) : Metrics :=
  metricsWith round (evict ((now : ℚ) / 1000) ((matching filters acts).map serverEvent))

section
variable {round : ℕ → ℚ → ℚ} {filters : Filters} {acts : List Act} {now clock : ℕ}

theorem received_concat (a : Act) : received (acts ++ [a]) = received acts ++ a.event.toList := by
  rw [received, List.filterMap_append]
  rfl

theorem viewAfter_concat (a : Act) :
    viewAfter round filters (acts ++ [a]) = step round filters (viewAfter round filters acts) a :=
  List.foldl_concat ..

theorem received_pairwise (h : InOrder acts) : (received acts).Pairwise (·.t ≤ ·.t) := by
  refine List.pairwise_filterMap.mpr ((List.pairwise_map.mp h).imp fun {a b} hab x hx y hy => ?_)
  cases a with
  | tick now => cases hx
  | request e =>
    cases b with
    | tick now => cases hy
    | request e' =>
      cases hx
      cases hy
      exact hab

theorem inOrder_concat {a : Act} (h : InOrder (acts ++ [a])) : InOrder acts ∧ ∀ b ∈ acts, b.now ≤ a.now := by
  rw [InOrder, List.map_append, List.pairwise_append] at h
  refine ⟨h.1, fun b hb => ?_⟩
  exact h.2.2 b.now (List.mem_map_of_mem hb) a.now (List.mem_singleton_self _)

theorem window_filter {cutoff : ℕ} {events : List LocalEvent} (hord : events.Pairwise (·.t ≤ ·.t))
    (hle : cutoff ≤ now - 30000) : window now (events.filter (cutoff ≤ ·.t)) = events.filter (now - 30000 ≤ ·.t) := by
  rw [window, Window.dropWhile_filter hord hle]

/-- The page has lost nothing that the next tick would count. -/
theorem events_viewAfter (hord : InOrder acts) (hclock : ∀ a ∈ acts, a.now ≤ clock) :
    ∃ cutoff ≤ clock - 30000, (viewAfter round filters acts).events = (received acts).filter (cutoff ≤ ·.t) := by
  induction acts using List.reverseRecOn generalizing clock with
  | nil => exact ⟨0, Nat.zero_le _, rfl⟩
  | append_singleton acts a ih =>
    have hnow : a.now ≤ clock := hclock a (by simp)
    have hevents := received_pairwise (inOrder_concat hord).1
    obtain ⟨cutoff, hle, hwindow⟩ := ih (inOrder_concat hord).1 (inOrder_concat hord).2
    rw [viewAfter_concat, received_concat]
    cases a with
    | request e =>
      dsimp only [Act.now] at hnow hle
      have hkeep : cutoff ≤ e.t := by omega
      have hlater : cutoff ≤ clock - 30000 := hle.trans (Nat.sub_le_sub_right hnow 30000)
      refine ⟨cutoff, hlater, ?_⟩
      have hview : (step round filters (viewAfter round filters acts) (.request e)).events =
          (viewAfter round filters acts).events ++ [e] := rfl
      rw [hview, hwindow]
      exact (Window.filter_push hkeep _).symm
    | tick t =>
      dsimp only [Act.now] at hnow hle
      refine ⟨t - 30000, Nat.sub_le_sub_right hnow 30000, ?_⟩
      change window t (viewAfter round filters acts).events = _
      rw [hwindow, window_filter hevents hle]
      exact congrArg _ (List.append_nil _).symm

/-- What a tick counts. -/
theorem matched_viewAfter (h : InOrder (acts ++ [.tick now])) :
    matched now (viewAfter round filters acts).events filters = left filters now acts := by
  obtain ⟨hord, hclock⟩ := inOrder_concat h
  obtain ⟨cutoff, hle, hwindow⟩ := @events_viewAfter round filters acts now hord hclock
  have hmatched : matched now (viewAfter round filters acts).events filters =
      (window now (viewAfter round filters acts).events).filter (matchesHere filters) := rfl
  rw [hmatched, hwindow, window_filter (received_pairwise hord) hle, left, recent, List.filter_comm]

/-- The half minute is the same in seconds. -/
theorem evict_matching (hord : InOrder acts) :
    evict ((now : ℚ) / 1000) ((matching filters acts).map serverEvent) =
      (recent now (matching filters acts)).map serverEvent := by
  have hsub : (matching filters acts).Pairwise (·.t ≤ ·.t) := (received_pairwise hord).sublist List.filter_sublist
  have hbefore : ∀ e : LocalEvent, (serverEvent e).t < (now : ℚ) / 1000 - 30 ↔ e.t < now - 30000 := fun e => by
    have hcast : (serverEvent e).t < (now : ℚ) / 1000 - 30 ↔ (e.t : ℚ) + 30000 < now := by
      change (e.t : ℚ) / 1000 < (now : ℚ) / 1000 - 30 ↔ _
      constructor
      · intro he
        linarith
      · intro he
        linarith
    have hnat : (e.t : ℚ) + 30000 < now ↔ e.t + 30000 < now := by exact_mod_cast Iff.rfl
    rw [hcast, hnat]
    omega
  rw [evict, List.dropWhile_map, recent, ← Window.dropWhile_eq_filter hsub]
  refine congrArg (List.map serverEvent) (congrArg (List.dropWhile · _) (funext fun e => ?_))
  exact decide_eq_decide.mpr (hbefore e)

/-- The matching events that are left are those of the host among what the page counts. -/
theorem recent_matching (filters : Filters) (now : ℕ) (acts : List Act) : recent now (matching filters acts) =
    (left filters now acts).filter fun e => matchesFilter filters.host (some e.host) := by
  rw [left, recent, recent, matching, List.filter_comm, List.filter_filter, List.filter_filter, List.filter_filter]
  refine List.filter_congr fun e _ => ?_
  rw [passes, Bool.and_assoc, Bool.and_comm (matchesHere filters e), ← Bool.and_assoc]

/-- The page never shows the metrics of nothing. -/
theorem shown_reqCount {m : Metrics} (h : (viewAfter round filters acts).shown = some m) : m.reqCount ≠ 0 := by
  induction acts using List.reverseRecOn with
  | nil => cases h
  | append_singleton acts a ih =>
    rw [viewAfter_concat] at h
    cases a with
    | request e => exact ih h
    | tick t =>
      change (computeMetrics round t (viewAfter round filters acts).events filters).orElse _ = some m at h
      rw [computeMetrics] at h
      split_ifs at h with hlen
      · exact ih h
      · cases h
        exact hlen

theorem shown_tick (h : InOrder (acts ++ [.tick now])) (hleft : left filters now acts ≠ []) :
    (viewAfter round filters (acts ++ [.tick now])).shown = some (localMetrics round (left filters now acts)) := by
  have hlen : (left filters now acts).length ≠ 0 := fun hz => hleft (List.eq_nil_of_length_eq_zero hz)
  rw [viewAfter_concat]
  change (computeMetrics round now (viewAfter round filters acts).events filters).orElse _ = _
  rw [computeMetrics, matched_viewAfter h, if_neg hlen]
  rfl

/-- The page shows the metrics of the server where it counts something, all of it of the host that is wanted and from
an address that is there. -/
theorem same_metrics_iff (round : ℕ → ℚ → ℚ) (filters : Filters) (h : InOrder (acts ++ [.tick now])) :
    (viewAfter round filters (acts ++ [.tick now])).shown = some (serverMetrics round filters now acts) ↔
      left filters now acts ≠ [] ∧
        ∀ e ∈ left filters now acts, matchesFilter filters.host (some e.host) = true ∧ e.ip ≠ "" := by
  generalize hcounted : left filters now acts = counted
  have hserver : serverMetrics round filters now acts =
      metricsWith round ((counted.filter fun e => matchesFilter filters.host (some e.host)).map serverEvent) := by
    rw [serverMetrics, evict_matching (inOrder_concat h).1, recent_matching, hcounted]
  rw [hserver]
  by_cases hempty : counted = []
  · have hzero : (metricsWith round ((counted.filter fun e =>
        matchesFilter filters.host (some e.host)).map serverEvent)).reqCount = 0 := by
      rw [hempty]
      rfl
    constructor
    · intro hshown
      exact absurd hzero (shown_reqCount hshown)
    · intro hsome
      exact absurd hempty hsome.1
  · have hleft : left filters now acts ≠ [] := hcounted ▸ hempty
    rw [shown_tick h hleft, hcounted, Option.some_inj, and_iff_right hempty]
    constructor
    · intro heq
      have hcount : counted.length = (counted.filter fun e => matchesFilter filters.host (some e.host)).length :=
        (congrArg Metrics.reqCount heq).trans (List.length_map _)
      have hhost := List.length_filter_eq_length_iff.mp hcount.symm
      rw [List.filter_eq_self.mpr hhost, localMetrics_iff] at heq
      exact fun e he => ⟨hhost e he, heq e he⟩
    · intro hall
      rw [List.filter_eq_self.mpr fun e he => (hall e he).1, localMetrics_iff]
      exact fun e he => (hall e he).2

end

def getOnly : Filters := ⟨some "a.example", none, some "GET", none, none, none⟩

def getEvent (host ip : String) : LocalEvent :=
  ⟨1000, "2xx", some 20, 5, 7, ip, host, "GET", "/login", "FR"⟩

/-- One event is left, and one is too old. -/
theorem same_metrics_one_event :
    let acts : List Act := [.request (getEvent "a.example" "10.0.0.1"), .tick 2000,
      .request { getEvent "a.example" "10.0.0.2" with t := 3000 }]
    InOrder (acts ++ [.tick 32000]) ∧
      (viewAfter (fun _ q => q) getOnly (acts ++ [.tick 32000])).shown =
        some (serverMetrics (fun _ q => q) getOnly 32000 acts) := by
  intro acts
  have h : InOrder (acts ++ [.tick 32000]) := by
    rw [InOrder]
    decide
  have hleft : left getOnly 32000 acts = [{ getEvent "a.example" "10.0.0.2" with t := 3000 }] := by decide +kernel
  refine ⟨h, (same_metrics_iff _ getOnly h).mpr ?_⟩
  rw [hleft]
  exact ⟨List.cons_ne_nil _ _, List.forall_mem_singleton.mpr (by decide)⟩

/-- The page still shows the one request of half a minute ago, or counts an address that is none, or a host that is not
wanted. -/
theorem same_metrics_fails :
    let one : List Act := [.request (getEvent "a.example" "10.0.0.1"), .tick 1500]
    let noAddress : List Act := [.request (getEvent "a.example" "")]
    let hosts : List Act := [.request (getEvent "a.example" "10.0.0.1"), .request (getEvent "b.example" "10.0.0.1")]
    (InOrder (one ++ [.tick 40000]) ∧
      (viewAfter (fun _ q => q) getOnly (one ++ [.tick 40000])).shown.map (·.reqCount) = some 1 ∧
      (serverMetrics (fun _ q => q) getOnly 40000 one).reqCount = 0) ∧
    (InOrder (noAddress ++ [.tick 2000]) ∧
      (viewAfter (fun _ q => q) getOnly (noAddress ++ [.tick 2000])).shown.map (·.uniqueIps) = some 1 ∧
      (serverMetrics (fun _ q => q) getOnly 2000 noAddress).uniqueIps = 0) ∧
    InOrder (hosts ++ [.tick 2000]) ∧
      (viewAfter (fun _ q => q) getOnly (hosts ++ [.tick 2000])).shown.map (·.reqCount) = some 2 ∧
      (serverMetrics (fun _ q => q) getOnly 2000 hosts).reqCount = 1 := by
  intro one noAddress hosts
  refine ⟨⟨?_, ?_, ?_⟩, ⟨?_, ?_, ?_⟩, ?_, ?_, ?_⟩
  · rw [InOrder]
    decide
  · decide +kernel
  · decide +kernel
  · rw [InOrder]
    decide
  · decide +kernel
  · decide +kernel
  · rw [InOrder]
    decide
  · decide +kernel
  · decide +kernel

end Cadsa.Frontend.LocalMetrics
