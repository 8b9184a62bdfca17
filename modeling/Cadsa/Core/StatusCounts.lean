import Cadsa.Core.LiveMetrics
import Cadsa.Core.LogParser
import Cadsa.Db.Timeseries

/-! The places that count the requests of a status class: the overview, the chart, the timelines of the
addresses, the overview filtered by class, and the live metrics. -/
namespace Cadsa.StatusCounts
open Analytics Db LiveMetrics
set_option autoImplicit false

inductive StatusClass
  | success
  | redirection
  | clientError
  | serverError
  deriving DecidableEq

def StatusClass.text : StatusClass → String
  | .success => "2xx"
  | .redirection => "3xx"
  | .clientError => "4xx"
  | .serverError => "5xx"

def overviewReq (o : Overview) : StatusClass → ℕ
  | .success => o.req2xx
  | .redirection => o.req3xx
  | .clientError => o.req4xx
  | .serverError => o.req5xx

def pointReq (c : StatusClass) (p : Point) : ℕ :=
  match c with
  | .success => p.req2xx
  | .redirection => p.req3xx
  | .clientError => p.req4xx
  | .serverError => p.req5xx

def timelineReq (c : StatusClass) (p : TimelinePoint) : ℕ :=
  match c with
  | .success => p.req2xx
  | .redirection => p.req3xx
  | .clientError => p.req4xx
  | .serverError => p.req5xx

def liveReq (m : Metrics) : StatusClass → ℕ
  | .success => m.req2xx
  | .redirection => m.req3xx
  | .clientError => m.req4xx
  | .serverError => m.req5xx

def classFilter (c : StatusClass) : RequestFilter := ⟨none, none, none, some c.text, none, none⟩

/-- The class that the parser has put down for the status. -/
def Classified (r : Request) : Prop := r.statusClass = LogParser.getStatusClass r.status

/-- The columns of a table row that are a parsed row's, as far as the counts go. -/
structure StoredAs (row : LogParser.Row) (r : Request) : Prop where
  status : r.status = row.status
  statusClass : r.statusClass = row.statusClass

theorem statusClass_of_parseEntry {py : LogParser.Python} {m : List (String × PyJson.Json)}
    {loggerToHosts : List (String × List String)} {sourceLabel logSource : String} {row : LogParser.Row}
    (h : LogParser.parseEntry py m loggerToHosts sourceLabel logSource = .ok row) :
    row.statusClass = LogParser.getStatusClass row.status := by
  rw [LogParser.parseEntry] at h
  simp only [Outcomes.bind_eq_ok] at h
  obtain ⟨seconds, -, ts, -, id, -, host, -, status, -, out, -, request, -, duration, -, method, -, protocol, -, agent, -,
    referer, -, loggerId, -, logger, -, hrow⟩ := h
  cases hrow
  rfl

theorem classified_of_parseLine {py : LogParser.Python} {rawLine : String} {loggerToHosts : List (String × List String)}
    {sourceLabel logSource : String} {row : LogParser.Row} {r : Request}
    (h : LogParser.parseLine py rawLine loggerToHosts sourceLabel logSource = .ok (some row)) (hr : StoredAs row r) :
    Classified r := by
  rw [Classified, hr.status, hr.statusClass]
  rw [LogParser.parseLine] at h
  split at h
  · cases h
  · obtain ⟨j, -, h⟩ := Outcomes.bind_eq_ok.mp h
    cases j with
    | obj m =>
      simp only at h
      split at h
      · split at h
        · cases h
        · cases hentry : LogParser.parseEntry py m loggerToHosts sourceLabel logSource with
          | error err =>
            rw [hentry] at h
            cases h
          | ok entry =>
            rw [hentry] at h
            cases h
            exact statusClass_of_parseEntry hentry
      · cases h
    | null | bool | int | float | str | arr => cases h

/-! ## One row -/

/-- What the overview and the chart count for a class. -/
def openCase : StatusClass → Request → Bool
  | .success => statusIn 200 300
  | .redirection => statusIn 300 400
  | .clientError => statusIn 400 500
  | .serverError => fun r => r.status.any (500 ≤ ·)

/-- What the timelines count. -/
def closedCase : StatusClass → Request → Bool
  | .success => statusBetween 200 299
  | .redirection => statusBetween 300 399
  | .clientError => statusBetween 400 499
  | .serverError => statusBetween 500 599

/-- What a filter by class lets through, and the live metrics count. -/
def textCase (c : StatusClass) (r : Request) : Bool := r.statusClass.getD "" = c.text

/-- A status above all classes. -/
def beyond (r : Request) : Bool := r.status.any (600 ≤ ·)

section
variable {r : Request} {c : StatusClass}

theorem closedCase_eq_textCase (h : Classified r) : closedCase c r = textCase c r := by
  rw [textCase, h]
  cases hs : r.status with
  | none => cases c <;> simp [closedCase, statusBetween, hs, LogParser.getStatusClass, StatusClass.text]
  | some s =>
    simp only [LogParser.getStatusClass]
    cases c <;> simp only [closedCase, statusBetween, hs, Option.any_some, StatusClass.text] <;> split_ifs <;>
      simp <;> omega

theorem openCase_eq (h : c ≠ .serverError) : openCase c r = closedCase c r := by
  cases c with
  | serverError => exact absurd rfl h
  | success | redirection | clientError =>
    cases hs : r.status with
    | none => simp [openCase, closedCase, statusIn, statusBetween, hs]
    | some s => simp only [openCase, closedCase, statusIn, statusBetween, hs, Option.any_some]; grind

theorem openCase_serverError : openCase .serverError r = (closedCase .serverError r || beyond r) := by
  cases hs : r.status with
  | none => simp [openCase, closedCase, statusBetween, beyond, hs]
  | some s => simp only [openCase, closedCase, statusBetween, beyond, hs, Option.any_some]; grind

end

/-! ## All rows -/

theorem countP_or {α : Type} {p q r : α → Bool} {rows : List α} (h : ∀ x ∈ rows, p x = (q x || r x))
    (hd : ∀ x ∈ rows, r x = true → q x = false) : rows.countP p = rows.countP q + rows.countP r := by
  induction rows with
  | nil => rfl
  | cons x rows ih =>
    have hrest := ih (fun y hy => h y (List.mem_cons_of_mem x hy)) fun y hy => hd y (List.mem_cons_of_mem x hy)
    rw [List.countP_cons, List.countP_cons, List.countP_cons, hrest, h x List.mem_cons_self]
    have hx := hd x List.mem_cons_self
    cases hq : q x <;> cases hr : r x <;> simp [hq, hr] at hx ⊢ <;> omega

/-- The open and the closed counts agree where no status is above the classes. -/
theorem counts_agree_iff {rows : List Request} : (∀ c, rows.countP (closedCase c) = rows.countP (openCase c)) ↔
    ∀ r ∈ rows, beyond r = false := by
  have hsplit : rows.countP (openCase .serverError) = rows.countP (closedCase .serverError) + rows.countP beyond := by
    refine countP_or (fun _ _ => openCase_serverError) fun r _ hr => ?_
    cases hs : r.status with
    | none => simp [beyond, hs] at hr
    | some s =>
      have hbig : 600 ≤ s := by simpa [beyond, hs] using hr
      simp only [closedCase, statusBetween, hs, Option.any_some]
      grind
  have hzero : rows.countP beyond = 0 ↔ ∀ r ∈ rows, beyond r = false := by simp
  rw [← hzero]
  constructor
  · intro h
    have hserver := h .serverError
    omega
  · intro h c
    by_cases hc : c = .serverError
    · subst hc
      omega
    · exact List.countP_congr fun r _ => by rw [openCase_eq hc]

/-- The six counts of one class. -/
structure Agrees (c : StatusClass) (o : Overview) (points : List Point) (timelines : List (List TimelinePoint))
    (filtered : Overview) (live : Metrics) : Prop where
  chart : (points.map (pointReq c)).sum = overviewReq o c
  timelines : (timelines.map fun points => (points.map (timelineReq c)).sum).sum = overviewReq o c
  filtered : filtered.totalRequests = overviewReq o c
  live : liveReq live c = overviewReq o c

/-- Both error rates are what their own counts say, rounded. -/
structure RatesAgree (o : Overview) (live : Metrics) : Prop where
  overview : o.errorRate = roundTo 4 ((o.req4xx + o.req5xx : ℕ) / o.totalRequests)
  live : live.errorRate = roundTo 4 ((live.req4xx + live.req5xx : ℕ) / live.reqCount)

def timelinesOf (requests : List Request) (fromTs toTs : Time) : List (List TimelinePoint) :=
  ((requests.map (·.remoteIp)).dedup).map fun ip => ipTimeline requests ip fromTs toTs

/-- The five queries succeed, and their numbers are one. -/
def CountsAgree (timeBucket : Time → Time) (requests : List Request) (fromTs toTs : Time) (live : Metrics) : Prop :=
  ∃ (o : Overview) (points : List Point) (filtered : StatusClass → Overview),
    queryOverview requests (.datetime fromTs) (.datetime toTs) .none = .ok o ∧
    queryTimeseries timeBucket requests (.datetime fromTs) (.datetime toTs) .none = .ok points ∧
    (∀ c, queryOverview requests (.datetime fromTs) (.datetime toTs) (.filter (classFilter c)) = .ok (filtered c)) ∧
    (∀ c, Agrees c o points (timelinesOf requests fromTs toTs) (filtered c) live) ∧ RatesAgree o live

section
variable {requests rows : List Request} {fromTs toTs : Time} {c : StatusClass} {o : Overview}

theorem overviewReq_eq (h : Summarises rows o) : overviewReq o c = rows.countP (openCase c) := by
  cases c
  · exact h.req2xx
  · exact h.req3xx
  · exact h.req4xx
  · exact h.req5xx

theorem sum_pointReq (bucket : Request → Time) :
    ((chart bucket rows).map (pointReq c)).sum = rows.countP (openCase c) :=
  sum_chart_case rows bucket fun b rows => by cases c <;> rfl

theorem ipRows_eq_group (ip : String) :
    ipRows requests ip fromTs toTs = Grouping.group (·.remoteIp) (selected requests fromTs toTs none) ip := by
  rw [Grouping.group, selected, List.filter_filter, ipRows]
  refine List.filter_congr fun r _ => ?_
  simp [conditionsOf, Condition.holds]

theorem sum_timelineReq : ((timelinesOf requests fromTs toTs).map fun points => (points.map (timelineReq c)).sum).sum =
    (selected requests fromTs toTs none).countP (closedCase c) := by
  have hone (ip : String) : ((ipTimeline requests ip fromTs toTs).map (timelineReq c)).sum =
      sumCase (closedCase c) (Grouping.group (·.remoteIp) (selected requests fromTs toTs none) ip) := by
    rw [sumCase_eq_countP, ← ipRows_eq_group]
    exact sum_ipTimeline requests fromTs toTs (fun b rows => by cases c <;> rfl) ip
  rw [timelinesOf, List.map_map, ← sumCase_eq_countP]
  refine (congrArg List.sum (List.map_congr_left fun ip _ => hone ip)).trans ?_
  refine Grouping.sum_groups_of_subset (fun r => if closedCase c r then 1 else 0) (List.nodup_dedup _) fun r hr => ?_
  exact List.mem_dedup.mpr (List.mem_map_of_mem (List.mem_of_mem_filter hr))

theorem selected_classFilter : selected requests fromTs toTs (some (classFilter c)) =
    (selected requests fromTs toTs none).filter (textCase c) := by
  have hconditions : (classFilter c).conditions = [.statusClass c.text] := by
    cases c <;> rfl
  rw [selected, selected, List.filter_filter]
  refine List.filter_congr fun r _ => ?_
  simp only [conditionsOf, Option.elim, hconditions, List.all_cons, List.all_nil, Condition.holds, textCase,
    Bool.and_comm]
  cases hr : r.statusClass with
  | none => cases c <;> simp [StatusClass.text]
  | some s => simp

theorem overview_rate (h : Summarises rows o) :
    o.errorRate = roundTo 4 ((o.req4xx + o.req5xx : ℕ) / o.totalRequests) := by
  have hsplit : (rows.countP fun r => r.status.any (400 ≤ ·)) = o.req4xx + o.req5xx := by
    rw [h.req4xx, h.req5xx]
    refine countP_or (fun r _ => ?_) fun r _ hr => ?_
    · cases hs : r.status with
      | none => simp [statusIn, hs]
      | some s => simp only [statusIn, hs, Option.any_some]; grind
    · cases hs : r.status with
      | none => simp [hs] at hr
      | some s =>
        have hbig : 500 ≤ s := by simpa [hs] using hr
        simp only [statusIn, hs, Option.any_some]
        grind
  rw [h.errorRate, errorShare, hsplit, h.totalRequests]

variable {calls : List LiveMetrics.Call} {now : ℚ}

theorem liveReq_eq (hord : InOrder calls) (hclock : ∀ c ∈ calls, c.now ≤ now) :
    liveReq (getLiveMetrics now (windowAfter calls)).2 c = (inside now calls).countP (textCase c) := by
  have hclass : liveReq (getLiveMetrics now (windowAfter calls)).2 c = countClass c.text (evict now (windowAfter calls)) := by
    cases c <;> rfl
  rw [hclass, evict_windowAfter hord hclock, countClass]
  exact countP_inside _ _ fun t row => rfl

theorem live_rate (m : List LiveEvent) :
    (metricsOf m).errorRate = roundTo 4 (((metricsOf m).req4xx + (metricsOf m).req5xx : ℕ) / (metricsOf m).reqCount) := by
  change roundTo 4 (errorRatio (countClass "4xx" m) (countClass "5xx" m) m.length) =
    roundTo 4 ((countClass "4xx" m + countClass "5xx" m : ℕ) / (m.length : ℚ))
  cases m with
  | nil => simp [errorRatio, countClass]
  | cons e m =>
    have hmax : max (e :: m).length 1 = (e :: m).length := max_eq_left (Nat.succ_pos _)
    rw [errorRatio]
    congr 2
    exact_mod_cast hmax

/-- **All status counts agree where no status is above the classes, and not otherwise.** -/
theorem countsAgree_iff (timeBucket : Time → Time) (hclass : ∀ r ∈ requests, Classified r)
    (hord : InOrder calls) (hclock : ∀ c ∈ calls, c.now ≤ now)
    (hinside : (inside now calls).Perm (selected requests fromTs toTs none)) :
    CountsAgree timeBucket requests fromTs toTs (getLiveMetrics now (windowAfter calls)).2 ↔
      ∀ r ∈ selected requests fromTs toTs none, ∀ s, r.status = some s → s < 600 := by
  have hbeyond : (∀ r ∈ selected requests fromTs toTs none, ∀ s, r.status = some s → s < 600) ↔
      ∀ r ∈ selected requests fromTs toTs none, beyond r = false := by
    refine forall₂_congr fun r _ => ?_
    cases hs : r.status <;> simp [beyond, hs]
  rw [hbeyond, ← counts_agree_iff]
  obtain ⟨o, ho, hsum⟩ := queryOverview_spec requests fromTs toTs none
  constructor
  · rintro ⟨o', points, filtered, ho', -, -, hagrees, -⟩ c
    obtain rfl : o = o' := Except.ok.inj (ho.symm.trans ho')
    rw [← overviewReq_eq hsum]
    exact sum_timelineReq.symm.trans (hagrees c).timelines
  · intro h
    choose filtered hquery hfsum using fun c => queryOverview_spec requests fromTs toTs (some (classFilter c))
    refine ⟨o, _, filtered, ho, queryTimeseries_spec timeBucket requests fromTs toTs none, hquery, fun c => ?_,
      overview_rate hsum, live_rate _⟩
    have htext : (selected requests fromTs toTs none).countP (textCase c) =
        (selected requests fromTs toTs none).countP (closedCase c) :=
      List.countP_congr fun r hr => by rw [closedCase_eq_textCase (hclass r (List.mem_of_mem_filter hr))]
    have hclosed : (selected requests fromTs toTs none).countP (closedCase c) = overviewReq o c :=
      (h c).trans (overviewReq_eq hsum).symm
    constructor
    · exact (sum_pointReq _).trans (overviewReq_eq hsum).symm
    · exact sum_timelineReq.trans hclosed
    · rw [(hfsum c).totalRequests, selected_classFilter, ← List.countP_eq_length_filter, htext, hclosed]
    · rw [liveReq_eq hord hclock, hinside.countP_eq, htext, hclosed]

end

/-! ## Requests of given statuses -/

def answered (status : ℤ) : Request where
  ts := 1
  host := "example.com"
  remoteIp := "198.51.100.7"
  method := some "GET"
  status := some status
  statusClass := LogParser.getStatusClass (some status)
  path := some "/"
  countryCode := none
  responseBytes := some 512
  requestBytes := none
  durationMs := some 12

section
variable (statuses : List ℤ)

def requestsOf : List Request := statuses.map answered

/-- The live metrics hear of each at the start. -/
def updatesOf : List LiveMetrics.Call := (requestsOf statuses).map (.update 0)

theorem classified_requestsOf : ∀ r ∈ requestsOf statuses, Classified r := List.forall_mem_map.mpr fun _ _ => rfl

theorem selected_requestsOf : selected (requestsOf statuses) 0 2 none = requestsOf statuses := by
  refine List.filter_eq_self.mpr (List.forall_mem_map.mpr fun status _ => ?_)
  rfl

theorem now_updatesOf : ∀ c ∈ updatesOf statuses, c.now = 0 := List.forall_mem_map.mpr fun _ _ => rfl

theorem inOrder_updatesOf : InOrder (updatesOf statuses) := by
  refine List.pairwise_map.mpr (List.pairwise_of_forall_mem_list fun c hc d hd => ?_)
  rw [now_updatesOf statuses c hc, now_updatesOf statuses d hd]

theorem le_updatesOf : ∀ c ∈ updatesOf statuses, c.now ≤ 1 := by
  intro c hc
  rw [now_updatesOf statuses c hc]
  exact zero_le_one

theorem inside_updatesOf : (inside 1 (updatesOf statuses)).Perm (selected (requestsOf statuses) 0 2 none) := by
  have hrow : Call.insideRow 1 ∘ LiveMetrics.Call.update 0 = some := funext fun row => if_pos (by norm_num)
  rw [inside, updatesOf, List.filterMap_map, hrow, List.filterMap_some, selected_requestsOf]

end

/-- Requests that were answered with the usual statuses are counted alike everywhere. -/
theorem countsAgree_usual : CountsAgree id (requestsOf [200, 404, 301, 503, 503, 599]) 0 2
    (getLiveMetrics 1 (windowAfter (updatesOf [200, 404, 301, 503, 503, 599]))).2 := by
  refine (countsAgree_iff id (classified_requestsOf _) (inOrder_updatesOf _) (le_updatesOf _)
    (inside_updatesOf _)).mpr ?_
  rw [selected_requestsOf]
  refine List.forall_mem_map.mpr fun status hstatus s hs => ?_
  obtain rfl : status = s := Option.some.inj hs
  revert status
  decide

/-- One request that was answered with 600 is counted with the errors of the server by the overview, and not by
the timeline of its address. -/
theorem status_600_miscounted : ¬ ∀ (timeBucket : Time → Time) (requests : List Request) (fromTs toTs : Time)
    (calls : List LiveMetrics.Call) (now : ℚ), (∀ r ∈ requests, Classified r) → InOrder calls →
      (∀ c ∈ calls, c.now ≤ now) → (inside now calls).Perm (selected requests fromTs toTs none) →
        CountsAgree timeBucket requests fromTs toTs (getLiveMetrics now (windowAfter calls)).2 := by
  intro h
  obtain ⟨o, points, filtered, ho, -, -, hagrees, -⟩ := h id (requestsOf [600]) 0 2 _ 1 (classified_requestsOf _)
    (inOrder_updatesOf _) (le_updatesOf _) (inside_updatesOf _)
  obtain ⟨o', ho', hsum⟩ := queryOverview_spec (requestsOf [600]) 0 2 none
  obtain rfl : o = o' := Except.ok.inj (ho.symm.trans ho')
  have hserver := (hagrees .serverError).timelines
  rw [sum_timelineReq, overviewReq_eq hsum, selected_requestsOf] at hserver
  exact absurd hserver (by decide)

end Cadsa.StatusCounts
