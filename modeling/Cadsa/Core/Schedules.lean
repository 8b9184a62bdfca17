import Mathlib.Data.Int.ConditionallyCompleteOrder
import Mathlib.Data.List.Infix
import Mathlib.Order.Monotone.Defs
import Cadsa.Core.Detection

/-! One log under two clocks. The engine counts in windows of its own clock, so that a row's events depend
on when it is evaluated and not only on the times in the log. -/
namespace Cadsa.SecurityEngine
set_option autoImplicit false

variable (t : Text) (cfg : SecurityConfig)

/-- The rows of a log, each evaluated when the clock says. -/
def schedule (rows : List Row) (clock : ℕ → ℤ) : List Call := rows.mapIdx fun i row => .evaluate cfg row (clock i)

/-- An event without its time and its details. -/
def Event.kind (e : Event) : EventType × String × String := (e.finding.eventType, e.remoteIp, e.host)

def kinds (events : List Event) : List (EventType × String × String) := events.map Event.kind

/-- Every row gets the same events from the two schedules. -/
def SameKinds (rows : List Row) (a b : ℕ → ℤ) : Prop :=
  (emitted t (schedule cfg rows a)).map kinds = (emitted t (schedule cfg rows b)).map kinds

/-- A property of every row and the rows before it. -/
def EveryRow (P : List Row → Row → Prop) (rows : List Row) : Prop :=
  ∀ before row rest, rows = before ++ row :: rest → P before row

/-- How many requests of an address the log has between two times. -/
def logged (rows : List Row) (ip : String) (first last : ℤ) : ℕ :=
  rows.countP fun r => r.remoteIp = ip ∧ first ≤ r.ts ∧ r.ts ≤ last

/-- The events that a row gets from a schedule. -/
def eventsAt (before : List Row) (row : Row) (clock : ℕ → ℤ) : List Event :=
  (evaluate t cfg (clock before.length) row (after t (schedule cfg before clock))).2

/-- The rate limit is triggered only where the log itself has as many requests in the minute up to the row. -/
def Truthful (rows : List Row) (clock : ℕ → ℤ) : Prop :=
  EveryRow (fun before row => (∃ e ∈ eventsAt t cfg before row clock, e.finding.eventType = .rateLimitTrigger) →
    cfg.rateLimitThreshold ≤ logged rows row.remoteIp (row.ts - seconds 60) row.ts) rows

section
variable {α : Type} {t} {cfg}

theorem everyRow_concat {P : List Row → Row → Prop} {rows : List Row} {row : Row} :
    EveryRow P (rows ++ [row]) ↔ EveryRow P rows ∧ P rows row := by
  constructor
  · intro h
    refine ⟨fun before r rest hr => h before r (rest ++ [row]) ?_, h rows row [] rfl⟩
    rw [hr, List.append_assoc, List.cons_append]
  · rintro ⟨h, hlast⟩ before r rest hr
    rcases List.eq_nil_or_concat rest with rfl | ⟨rest, last, rfl⟩
    · obtain ⟨rfl, hlasts⟩ := List.append_inj' hr rfl
      cases hlasts
      exact hlast
    · rw [List.concat_eq_append, ← List.cons_append, ← List.append_assoc] at hr
      exact h before r rest (List.append_inj' hr rfl).1

theorem EveryRow.congr {P Q : List Row → Row → Prop} {rows : List Row} (h : ∀ before row, P before row ↔ Q before row) :
    EveryRow P rows ↔ EveryRow Q rows :=
  ⟨fun hp before row rest hr => (h before row).mp (hp before row rest hr),
    fun hq before row rest hr => (h before row).mpr (hq before row rest hr)⟩

variable {rows before : List Row} {row : Row} {clock a b : ℕ → ℤ}

theorem schedule_concat : schedule cfg (rows ++ [row]) clock =
    schedule cfg rows clock ++ [.evaluate cfg row (clock rows.length)] := List.mapIdx_concat

theorem le_of_mem_schedule (hclock : Monotone clock) {c : Call} (hc : c ∈ schedule cfg rows clock) :
    c.now ≤ clock rows.length := by
  obtain ⟨i, hi, rfl⟩ := List.mem_mapIdx.mp hc
  exact hclock hi.le

theorem inOrder_schedule (hclock : Monotone clock) : InOrder (schedule cfg rows clock) := by
  induction rows using List.reverseRecOn with
  | nil => exact List.Pairwise.nil
  | append_singleton rows row ih =>
    rw [schedule_concat]
    exact ih.concat fun d hd => le_of_mem_schedule hclock hd

theorem emitted_schedule_concat : emitted t (schedule cfg (rows ++ [row]) clock) =
    emitted t (schedule cfg rows clock) ++ [eventsAt t cfg rows row clock] := by
  rw [schedule_concat, emitted_concat]
  rfl

/-- The two runs agree where they agree row by row. -/
theorem sameKinds_iff_everyRow : SameKinds t cfg rows a b ↔
    EveryRow (fun before row => kinds (eventsAt t cfg before row a) = kinds (eventsAt t cfg before row b)) rows := by
  induction rows using List.reverseRecOn with
  | nil => exact ⟨fun _ before row rest hr => by simp at hr, fun _ => rfl⟩
  | append_singleton rows row ih =>
    rw [everyRow_concat, ← ih, SameKinds, SameKinds, emitted_schedule_concat, emitted_schedule_concat, List.map_append,
      List.map_append]
    constructor
    · intro h
      obtain ⟨hrows, hrow⟩ := List.append_inj' h (by simp)
      rw [List.map_singleton, List.map_singleton] at hrow
      exact ⟨hrows, List.singleton_injective hrow⟩
    · rintro ⟨hrows, hrow⟩
      rw [hrows, List.map_singleton, List.map_singleton, hrow]

/-! ## One row -/

theorem ip404Paths_schedule : (after t (schedule cfg rows a)).ip404Paths = (after t (schedule cfg rows b)).ip404Paths := by
  induction rows using List.reverseRecOn with
  | nil => rfl
  | append_singleton rows row ih =>
    rw [schedule_concat, schedule_concat, after_concat, after_concat]
    change (track t _ row _).ip404Paths = (track t _ row _).ip404Paths
    rw [track_ip404Paths, track_ip404Paths, ih]

variable {m n : Counts}

theorem mem_types {type : EventType} : type ∈ (findings t cfg row n).map Finding.eventType ↔
    findingsOf t cfg row n type ≠ [] := by
  constructor
  · intro h
    obtain ⟨f, hf, rfl⟩ := List.mem_map.mp h
    exact List.ne_nil_of_mem (mem_findings.mp hf)
  · intro hne
    obtain ⟨f, hf⟩ := List.exists_mem_of_ne_nil _ hne
    obtain rfl := eventType_of_mem hf
    exact List.mem_map_of_mem (mem_findings.mpr hf)

/-- Which of the counts two lists of event types depend on, and by how much. -/
theorem types_eq_iff (h404 : m.paths404 = n.paths404) :
    (findings t cfg row m).map Finding.eventType = (findings t cfg row n).map Finding.eventType ↔
      (cfg.rateLimitThreshold ≤ m.requests ↔ cfg.rateLimitThreshold ≤ n.requests) ∧
      (row.lowerUa t = "" → (50 < m.requests ↔ 50 < n.requests)) ∧
      (row.isLoginPost t = true → (10 < m.loginPosts ↔ 10 < n.loginPosts)) ∧
      (row.upperMethod t = "OPTIONS" → (20 < m.requests ↔ 20 < n.requests)) := by
  constructor
  · intro h
    have hfound (type : EventType) : findingsOf t cfg row m type ≠ [] ↔ findingsOf t cfg row n type ≠ [] := by
      rw [← mem_types, ← mem_types, h]
    refine ⟨?_, fun hua => ?_, fun hlogin => ?_, fun hoptions => ?_⟩
    · simpa [findingsOf, rateLimitRule] using hfound .rateLimitTrigger
    · have hbot : badBotRule t row = [] := by
        rw [badBotRule, hua]
        decide
      simpa [findingsOf, hbot, emptyUaRule, hua] using hfound .badBot
    · simpa [findingsOf, authFailRule, hlogin] using hfound .repeatedAuthFail
    · simpa [findingsOf, methodAbuseRule, hoptions] using hfound .httpMethodAbuse
  · rintro ⟨hrate, hua, hlogin, hoptions⟩
    have hempty : (row.lowerUa t = "" ∧ 50 < m.requests) = (row.lowerUa t = "" ∧ 50 < n.requests) :=
      propext (and_congr_right hua)
    have hauth : (row.isLoginPost t = true ∧ 10 < m.loginPosts) = (row.isLoginPost t = true ∧ 10 < n.loginPosts) :=
      propext (and_congr_right hlogin)
    have habuse : (row.upperMethod t = "OPTIONS" ∧ 20 < m.requests) = (row.upperMethod t = "OPTIONS" ∧ 20 < n.requests) :=
      propext (and_congr_right hoptions)
    simp only [findings, List.map_append, rateLimitRule, emptyUaRule, portScanRule, authFailRule, methodAbuseRule,
      apply_ite (List.map Finding.eventType), List.map_cons, List.map_nil, propext hrate, hempty, hauth, habuse, h404]

end

/-! ## Windows of the clock -/

section
variable (before : List Row) (row : Row) (clock a b : ℕ → ℤ)

/-- The requests of a row's address in the minute up to it, by the clock, as many as the window holds. -/
def requestsAt : ℕ :=
  min 1000 (countSince (ofIp row.remoteIp) (clock before.length - seconds 60) (schedule cfg (before ++ [row]) clock))

def loginPostsAt : ℕ :=
  min 100 (countSince (loginOf t row.remoteIp) (clock before.length - seconds 3600)
    (schedule cfg (before ++ [row]) clock))

theorem counts_at (hclock : Monotone clock) :
    let n := counts (track t (clock before.length) row (after t (schedule cfg before clock))) row.remoteIp
    n.requests = requestsAt cfg before row clock ∧
      (row.isLoginPost t = true → n.loginPosts = loginPostsAt t cfg before row clock) := by
  intro n
  have hord : InOrder (schedule cfg (before ++ [row]) clock) := inOrder_schedule hclock
  rw [requestsAt, loginPostsAt]
  rw [schedule_concat] at hord ⊢
  exact ⟨counts_requests (reflects_before hord) hord, counts_loginPosts (reflects_before hord) hord⟩

/-- The two clocks put as much into a row's windows, for all that the limits can tell. -/
structure SameSides : Prop where
  rate : cfg.rateLimitThreshold ≤ requestsAt cfg before row a ↔ cfg.rateLimitThreshold ≤ requestsAt cfg before row b
  emptyUa : row.lowerUa t = "" → (50 < requestsAt cfg before row a ↔ 50 < requestsAt cfg before row b)
  login : row.isLoginPost t = true → (10 < loginPostsAt t cfg before row a ↔ 10 < loginPostsAt t cfg before row b)
  options : row.upperMethod t = "OPTIONS" → (20 < requestsAt cfg before row a ↔ 20 < requestsAt cfg before row b)

/-- Where the clock has as many requests as the limit in a minute, the log has. -/
def Backed (rows : List Row) : Prop := cfg.rateLimitThreshold ≤ requestsAt cfg before row clock →
  cfg.rateLimitThreshold ≤ logged rows row.remoteIp (row.ts - seconds 60) row.ts

end

section
variable {t} {cfg} {rows before : List Row} {row : Row} {clock a b : ℕ → ℤ}

theorem kinds_eventsAt : kinds (eventsAt t cfg before row clock) =
    ((findings t cfg row (counts (track t (clock before.length) row (after t (schedule cfg before clock)))
      row.remoteIp)).map Finding.eventType).map fun type => (type, row.remoteIp, row.host) := by
  rw [kinds, eventsAt, evaluate, List.map_map, List.map_map]
  rfl

theorem kinds_eventsAt_iff (ha : Monotone a) (hb : Monotone b) :
    kinds (eventsAt t cfg before row a) = kinds (eventsAt t cfg before row b) ↔ SameSides t cfg before row a b := by
  have hinj : Function.Injective fun type : EventType => (type, row.remoteIp, row.host) := fun x y h =>
    (Prod.mk.inj h).1
  have hpaths : (counts (track t (a before.length) row (after t (schedule cfg before a))) row.remoteIp).paths404 =
      (counts (track t (b before.length) row (after t (schedule cfg before b))) row.remoteIp).paths404 := by
    rw [counts, counts, track_ip404Paths, track_ip404Paths, ip404Paths_schedule]
  obtain ⟨hra, hla⟩ := counts_at t cfg before row a ha
  obtain ⟨hrb, hlb⟩ := counts_at t cfg before row b hb
  rw [kinds_eventsAt, kinds_eventsAt, (List.map_injective_iff.mpr hinj).eq_iff, types_eq_iff hpaths, hra, hrb]
  constructor
  · rintro ⟨hrate, hua, hlogin, hoptions⟩
    exact ⟨hrate, hua, fun hl => by rw [← hla hl, ← hlb hl]; exact hlogin hl, hoptions⟩
  · intro h
    exact ⟨h.rate, h.emptyUa, fun hl => by rw [hla hl, hlb hl]; exact h.login hl, h.options⟩

theorem sameKinds_iff_sides (ha : Monotone a) (hb : Monotone b) :
    SameKinds t cfg rows a b ↔ EveryRow (fun before row => SameSides t cfg before row a b) rows :=
  sameKinds_iff_everyRow.trans (EveryRow.congr fun _ _ => kinds_eventsAt_iff ha hb)

theorem truthful_iff (hclock : Monotone clock) :
    Truthful t cfg rows clock ↔ EveryRow (fun before row => Backed cfg before row clock rows) rows := by
  refine EveryRow.congr fun before row => ?_
  have htrigger : (∃ e ∈ eventsAt t cfg before row clock, e.finding.eventType = .rateLimitTrigger) ↔
      cfg.rateLimitThreshold ≤ requestsAt cfg before row clock := by
    rw [eventsAt, exists_mem_evaluate, ← (counts_at t cfg before row clock hclock).1]
    simp [findingsOf, rateLimitRule]
  rw [htrigger, Backed]

/-- **One log, two schedules.** -/
theorem schedules_agree_iff (ha : Monotone a) (hb : Monotone b) :
    SameKinds t cfg rows a b ∧ Truthful t cfg rows a ∧ Truthful t cfg rows b ↔
      EveryRow (fun before row => SameSides t cfg before row a b) rows ∧
        EveryRow (fun before row => Backed cfg before row a rows) rows ∧
        EveryRow (fun before row => Backed cfg before row b rows) rows := by
  rw [sameKinds_iff_sides ha hb, truthful_iff ha, truthful_iff hb]

/-- Clocks that agree on which requests of an address are within a time of which. -/
def SameWindow (rows : List Row) (secs : ℤ) (a b : ℕ → ℤ) : Prop :=
  ∀ i j, i ≤ j → j < rows.length → (a j - seconds secs ≤ a i ↔ b j - seconds secs ≤ b i)

theorem countSince_schedule_congr {p : Row → Bool} {first last : ℤ}
    (h : ∀ i < rows.length, first ≤ a i ↔ last ≤ b i) :
    countSince p first (schedule cfg rows a) = countSince p last (schedule cfg rows b) := by
  induction rows using List.reverseRecOn with
  | nil => rfl
  | append_singleton rows row ih =>
    have hrest := ih fun i hi => h i (by rw [List.length_append]; omega)
    have hrow := h rows.length (by simp)
    rw [countSince, countSince] at hrest ⊢
    rw [schedule_concat, schedule_concat, timesOf_concat, timesOf_concat, List.countP_append, List.countP_append, hrest]
    congr 1
    rw [Call.timeOf, Call.timeOf]
    split_ifs
    · simp [hrow]
    · rfl

/-- Schedules that keep the minutes and the hours of one another give every row the same events. -/
theorem sameKinds_of_sameWindow (ha : Monotone a) (hb : Monotone b) (hminute : SameWindow rows 60 a b)
    (hhour : SameWindow rows 3600 a b) : SameKinds t cfg rows a b := by
  rw [sameKinds_iff_sides ha hb]
  rintro before row rest rfl
  have hrequests : requestsAt cfg before row a = requestsAt cfg before row b :=
    congrArg (min 1000) (countSince_schedule_congr fun i hi => hminute i before.length (by simp at hi; omega) (by simp))
  have hlogins : loginPostsAt t cfg before row a = loginPostsAt t cfg before row b :=
    congrArg (min 100) (countSince_schedule_congr fun i hi => hhour i before.length (by simp at hi; omega) (by simp))
  constructor
  · rw [hrequests]
  · exact fun _ => by rw [hrequests]
  · exact fun _ => by rw [hlogins]
  · exact fun _ => by rw [hrequests]

end

/-! ## A backlog in one burst -/

def hourly : List Row := [pageView, { pageView with ts := seconds 3600 }]

/-- A row every so many seconds, each evaluated as it is logged. -/
def live (secs : ℕ) (i : ℕ) : ℤ := i * seconds secs

theorem live_monotone (secs : ℕ) : Monotone (live secs) := by
  intro i j h
  have hsecs : 0 ≤ seconds secs := by
    rw [seconds]
    omega
  exact mul_le_mul_of_nonneg_right (Int.ofNat_le.mpr h) hsecs

/-- Three requests of a few seconds. -/
def quick : List Row := [pageView, { pageView with ts := seconds 1 }, { pageView with ts := seconds 2 }]

def backlog (_ : ℕ) : ℤ := seconds 7200

theorem everyRow_quick {P : List Row → Row → Prop} : EveryRow P quick ↔
    P [] pageView ∧ P [pageView] { pageView with ts := seconds 1 } ∧
      P [pageView, { pageView with ts := seconds 1 }] { pageView with ts := seconds 2 } := by
  change EveryRow P ((([] ++ [pageView]) ++ [{ pageView with ts := seconds 1 }]) ++
    [{ pageView with ts := seconds 2 }]) ↔ _
  have hnil : EveryRow P [] := fun before row rest hr => by simp at hr
  rw [everyRow_concat, everyRow_concat, everyRow_concat, and_iff_right hnil, and_assoc]
  rfl

/-- Requests of a few seconds trigger a limit of two a minute as they are logged, and later in one burst. -/
theorem schedules_agree_quick : SameKinds asciiText ⟨2, 2000⟩ quick (live 1) backlog ∧
    Truthful asciiText ⟨2, 2000⟩ quick (live 1) ∧ Truthful asciiText ⟨2, 2000⟩ quick backlog := by
  have hsides : EveryRow (fun before row => SameSides asciiText ⟨2, 2000⟩ before row (live 1) backlog) quick := by
    refine everyRow_quick.mpr ⟨?_, ?_, ?_⟩
    all_goals exact ⟨by decide, by decide +kernel, by decide +kernel, by decide +kernel⟩
  refine (schedules_agree_iff (live_monotone 1) monotone_const).mpr ⟨hsides, ?_, ?_⟩
  · exact everyRow_quick.mpr ⟨by rw [Backed]; decide, by rw [Backed]; decide, by rw [Backed]; decide⟩
  · exact everyRow_quick.mpr ⟨by rw [Backed]; decide, by rw [Backed]; decide, by rw [Backed]; decide⟩

/-- Evaluated in one burst, the two requests an hour apart trigger a limit of two a minute. -/
theorem burst_disagrees : ¬ ∀ (t : Text) (cfg : SecurityConfig) (rows : List Row) (a b : ℕ → ℤ), Monotone a → Monotone b →
    SameKinds t cfg rows a b ∧ Truthful t cfg rows a ∧ Truthful t cfg rows b := by
  intro h
  have hburst : Monotone backlog := monotone_const
  have hsides := (sameKinds_iff_sides (live_monotone 3600) hburst).mp
    (h asciiText ⟨2, 2000⟩ hourly (live 3600) backlog (live_monotone 3600) hburst).1
  have hlast := hsides [pageView] { pageView with ts := seconds 3600 } [] rfl
  exact absurd hlast.rate (by decide)

end Cadsa.SecurityEngine
