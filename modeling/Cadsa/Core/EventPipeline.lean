import Mathlib.Algebra.BigOperators.Group.List.Basic
import Cadsa.Db.Retention
import Cadsa.Lib.Coroutines

/-! `ingest_line_async` from the parsed row on, for many lines at once: each line stores its request, is judged by the
rules of the security engine, and stores and shows what they find. Other lines go on at every await, and so do the
jobs of the scheduler. Every finding is stored once, unless the database refuses it. -/
namespace Cadsa.EventPipeline
open Db DuckDb SecurityEngine Coroutines Runs
set_option autoImplicit false

/-! ## Lines -/

/-- The database is given by what it has been asked for. -/
structure Store where
  acts : List Retention.Act
  engine : SecurityEngine.State

def Store.initial : Store := ⟨[], SecurityEngine.initial⟩

def Store.db (s : Store) : Database := (Retention.run s.acts).db

def Store.ask (s : Store) (q : Statement) : Store := { s with acts := s.acts ++ [.statement q] }

/-- What goes on beside the lines: parse errors of other lines, and the jobs of the scheduler. -/
inductive Beside
  | parseError (now : Time) (rawLine errorMsg logSource : String)
  | minutelyTick (clock : Time)
  | hourlyTick (clock : Time)
  | startCleanup (cfg : Retention.DatabaseConfig) (clock : Time)
  | delete (ok : Bool)
  | cleanupStaleIpData (now : ℤ)

def Beside.run (s : Store) : Beside → Store
  | .parseError now rawLine errorMsg logSource => s.ask (.insertParseError now rawLine errorMsg logSource)
  | .minutelyTick clock => s.ask (.minutelyTick clock)
  | .hourlyTick clock => s.ask (.hourlyTick clock)
  | .startCleanup cfg clock => { s with acts := s.acts ++ [.startCleanup cfg clock] }
  | .delete ok => { s with acts := s.acts ++ [.delete ok] }
  | .cleanupStaleIpData now => { s with engine := SecurityEngine.cleanupStaleIpData now s.engine }

inductive Task
  | received (row : RequestRow)
  | inserted (row : RequestRow)
  | storing (todo : List Event)
  | notifying (event : Event) (todo : List Event)
  | failed

/-- `shown` is the call of the callbacks. -/
inductive LogEvent
  | requestStored (row : RequestRow)
  | requestRefused (row : RequestRow)
  | evaluated (row : RequestRow) (events : List Event)
  | eventStored (event : Event)
  | eventRefused (event : Event)
  | shown (event : Event)

/-- How an insert ends, and how many numbers it has drawn where it fails. -/
structure Input where
  ok : Bool
  drawn : ℕ

def engineRow (row : RequestRow) : Row where
  ts := row.ts
  remoteIp := row.remoteIp
  host := row.host
  uri := row.uri
  path := row.path
  userAgent := row.userAgent
  method := row.method
  status := row.status
  durationMs := row.durationMs

def resume (t : Text) (cfg : SecurityConfig) (input : Input) (now : ℕ) (s : Store) :
    Task → Option (Yield Store Task LogEvent)
  | .received row =>
    if input.ok then some ⟨s.ask (.insertRequest row), .inserted row, some (.requestStored row)⟩
    else some ⟨s.ask (.failed input.drawn 0), .failed, some (.requestRefused row)⟩
  | .inserted row =>
    let (engine, events) := evaluate t cfg now (engineRow row) s.engine
    some ⟨{ s with engine := engine }, .storing events, some (.evaluated row events)⟩
  | .storing [] => none
  | .storing (event :: todo) =>
    if input.ok then some ⟨s.ask (.insertSecurityEvent event), .notifying event todo, some (.eventStored event)⟩
    else some ⟨s.ask (.failed 0 input.drawn), .storing todo, some (.eventRefused event)⟩
  | .notifying event todo => some ⟨s, .storing todo, some (.shown event)⟩
  | .failed => none

def pipeline (t : Text) (cfg : SecurityConfig) : Program Store Task LogEvent RequestRow Input Beside where
  start row := .received row
  resume := resume t cfg
  other w s := w.run s

abbrev Sys := System Store Task LogEvent

def initial : Sys := ⟨0, Store.initial, [], []⟩

/-! ## Accounts -/

def LogEvent.evaluatedEvents : LogEvent → List Event
  | .evaluated _ events => events
  | _ => []

def LogEvent.storedEvents : LogEvent → List Event
  | .eventStored event => [event]
  | _ => []

def LogEvent.refusedEvents : LogEvent → List Event
  | .eventRefused event => [event]
  | _ => []

def LogEvent.shownEvents : LogEvent → List Event
  | .shown event => [event]
  | _ => []

def LogEvent.storedRequests : LogEvent → List RequestRow
  | .requestStored row => [row]
  | _ => []

def Task.todo : Task → List Event
  | .storing todo => todo
  | .notifying _ todo => todo
  | _ => []

def Task.unshown : Task → List Event
  | .notifying event _ => [event]
  | _ => []

def logged {α : Type} (part : LogEvent → List α) (s : Sys) : List α := s.log.flatMap fun e => part e.event

def waiting (part : Task → List Event) (s : Sys) : List Event := s.tasks.flatMap part

/-- The rows that the database has been given, whatever has been deleted of them. -/
def givenEvents (s : Store) : List SecurityEvent := (Retention.withoutCleanup s.acts).securityEvents.map Stored.row

def givenRequests (s : Store) : List RequestRow := (Retention.withoutCleanup s.acts).requests.map Stored.row

/-- What the rules have found is stored, refused or still to be stored, and what is stored is shown or about to be. -/
structure Accounted (s : Sys) : Prop where
  found : ∀ p : Event → Bool, (logged LogEvent.evaluatedEvents s).countP p = (logged LogEvent.storedEvents s).countP p +
    (logged LogEvent.refusedEvents s).countP p + (waiting Task.todo s).countP p
  shown : ∀ p : Event → Bool, (logged LogEvent.storedEvents s).countP p =
    (logged LogEvent.shownEvents s).countP p + (waiting Task.unshown s).countP p
  events : givenEvents s.store = (logged LogEvent.storedEvents s).map securityEventRow
  requests : givenRequests s.store = logged LogEvent.storedRequests s
  details : ∀ e ∈ logged LogEvent.evaluatedEvents s, (e.finding.details.map Prod.fst).Nodup

section
variable {α : Type} {s : Sys} {task : Task} {i : ℕ}

theorem logged_append (part : LogEvent → List α) (clock : ℕ) (store : Store) (tasks : List Task)
    (log : List (Entry LogEvent))
    (i now : ℕ) (event : LogEvent) : logged part ⟨clock, store, tasks, log ++ entries i now (some event)⟩ =
      logged part ⟨clock, store, tasks, log⟩ ++ part event := by
  rw [logged, List.flatMap_append]
  exact congrArg _ (List.append_nil _)

theorem countP_flatMap_set (part : Task → List Event) (p : Event → Bool) {tasks : List Task} {i : ℕ} {task : Task}
    (h : tasks[i]? = some task) (new : Task) : ((tasks.set i new).flatMap part).countP p + (part task).countP p =
      (tasks.flatMap part).countP p + (part new).countP p := by
  induction tasks generalizing i with
  | nil => simp at h
  | cons head tasks ih =>
    cases i with
    | zero =>
      cases h
      simp only [List.set_cons_zero, List.flatMap_cons, List.countP_append]
      omega
    | succ i =>
      have htail := ih (i := i) (by simpa using h)
      simp only [List.set_cons_succ, List.flatMap_cons, List.countP_append]
      omega

theorem given_ask (s : Store) (q : Statement) :
    givenEvents (s.ask q) = givenEvents s ++ (q.newSecurityEvents 0).map Stored.row ∧
      givenRequests (s.ask q) = givenRequests s ++ (q.newRequests 0).map Stored.row := by
  have hkept : Retention.withoutCleanup (s.ask q).acts = q.run (Retention.withoutCleanup s.acts) :=
    Retention.withoutCleanup_concat
  constructor
  · rw [givenEvents, hkept, securityEvents_run, List.map_append]
    cases q <;> rfl
  · rw [givenRequests, hkept, requests_run, List.map_append]
    cases q <;> rfl

theorem given_beside (s : Store) (w : Beside) :
    givenEvents (w.run s) = givenEvents s ∧ givenRequests (w.run s) = givenRequests s := by
  cases w with
  | parseError | minutelyTick | hourlyTick =>
    obtain ⟨hevents, hrequests⟩ := given_ask s _
    exact ⟨hevents.trans (List.append_nil _), hrequests.trans (List.append_nil _)⟩
  | startCleanup cfg clock =>
    have hkept : Retention.withoutCleanup (s.acts ++ [.startCleanup cfg clock]) = Retention.withoutCleanup s.acts :=
      Retention.withoutCleanup_concat
    exact ⟨congrArg (fun db => db.securityEvents.map Stored.row) hkept,
      congrArg (fun db => db.requests.map Stored.row) hkept⟩
  | delete ok =>
    have hkept : Retention.withoutCleanup (s.acts ++ [.delete ok]) = Retention.withoutCleanup s.acts :=
      Retention.withoutCleanup_concat
    exact ⟨congrArg (fun db => db.securityEvents.map Stored.row) hkept,
      congrArg (fun db => db.requests.map Stored.row) hkept⟩
  | cleanupStaleIpData now => exact ⟨rfl, rfl⟩

/-- A step of a line that enters an event which balances what the line has still to do. -/
theorem Accounted.entered (h : Accounted s) (htask : s.tasks[i]? = some task) {new : Task} {event : LogEvent}
    {store : Store} {now : ℕ}
    (hfound : ∀ p : Event → Bool, event.evaluatedEvents.countP p + task.todo.countP p =
      event.storedEvents.countP p + event.refusedEvents.countP p + new.todo.countP p)
    (hshown : ∀ p : Event → Bool, event.storedEvents.countP p + task.unshown.countP p =
      event.shownEvents.countP p + new.unshown.countP p)
    (hevents : givenEvents store = givenEvents s.store ++ event.storedEvents.map securityEventRow)
    (hrequests : givenRequests store = givenRequests s.store ++ event.storedRequests)
    (hdetails : ∀ e ∈ event.evaluatedEvents, (e.finding.details.map Prod.fst).Nodup) :
    Accounted ⟨now, store, s.tasks.set i new, s.log ++ entries i now (some event)⟩ := by
  constructor
  · intro p
    have hset := countP_flatMap_set Task.todo p htask new
    have hold := h.found p
    have hnew := hfound p
    simp only [logged_append, List.countP_append]
    simp only [logged, waiting] at hset hold ⊢
    omega
  · intro p
    have hset := countP_flatMap_set Task.unshown p htask new
    have hold := h.shown p
    have hnew := hshown p
    simp only [logged_append, List.countP_append]
    simp only [logged, waiting] at hset hold ⊢
    omega
  · rw [logged_append, List.map_append]
    exact hevents.trans (congrArg (· ++ _) h.events)
  · rw [logged_append]
    exact hrequests.trans (congrArg (· ++ _) h.requests)
  · intro e he
    rw [logged_append] at he
    exact (List.mem_append.mp he).elim (h.details e) (hdetails e)

variable {t : Text} {cfg : SecurityConfig}

theorem details_evaluate {now : ℤ} {row : Row} {engine : SecurityEngine.State} :
    ∀ e ∈ (evaluate t cfg now row engine).2, (e.finding.details.map Prod.fst).Nodup := by
  intro e he
  obtain ⟨f, hf, rfl⟩ := List.mem_map.mp he
  exact SecurityEvents.details_nodup hf

theorem Accounted.resume (h : Accounted s) {input : Input} {now : ℕ} {y : Yield Store Task LogEvent}
    (htask : s.tasks[i]? = some task) (hy : EventPipeline.resume t cfg input now s.store task = some y) :
    Accounted ⟨now, y.store, s.tasks.set i y.task, s.log ++ entries i now y.event⟩ := by
  cases task with
  | received row =>
    rw [EventPipeline.resume] at hy
    split_ifs at hy with hok
    · cases hy
      obtain ⟨hevents, hrequests⟩ := given_ask s.store (.insertRequest row)
      exact h.entered htask (fun _ => rfl) (fun _ => rfl) hevents hrequests (List.forall_mem_nil _)
    · cases hy
      obtain ⟨hevents, hrequests⟩ := given_ask s.store (.failed input.drawn 0)
      exact h.entered htask (fun _ => rfl) (fun _ => rfl) hevents hrequests (List.forall_mem_nil _)
  | inserted row =>
    cases hy
    refine h.entered htask (fun p => ?_) (fun _ => rfl) (List.append_nil _).symm (List.append_nil _).symm details_evaluate
    simp [LogEvent.evaluatedEvents, LogEvent.storedEvents, LogEvent.refusedEvents, Task.todo]
  | storing todo =>
    cases todo with
    | nil => cases hy
    | cons event todo =>
      rw [EventPipeline.resume] at hy
      split_ifs at hy with hok
      · cases hy
        obtain ⟨hevents, hrequests⟩ := given_ask s.store (.insertSecurityEvent event)
        refine h.entered htask (fun p => ?_) (fun p => ?_) hevents hrequests (List.forall_mem_nil _)
        · simp [LogEvent.evaluatedEvents, LogEvent.storedEvents, LogEvent.refusedEvents, Task.todo, List.countP_cons]
          omega
        · simp [LogEvent.storedEvents, LogEvent.shownEvents, Task.unshown]
      · cases hy
        obtain ⟨hevents, hrequests⟩ := given_ask s.store (.failed 0 input.drawn)
        refine h.entered htask (fun p => ?_) (fun _ => rfl) hevents hrequests (List.forall_mem_nil _)
        simp [LogEvent.evaluatedEvents, LogEvent.storedEvents, LogEvent.refusedEvents, Task.todo, List.countP_cons]
        omega
  | notifying event todo =>
    cases hy
    refine h.entered htask (fun p => ?_) (fun p => ?_) (List.append_nil _).symm (List.append_nil _).symm
      (List.forall_mem_nil _)
    · simp [LogEvent.evaluatedEvents, LogEvent.storedEvents, LogEvent.refusedEvents, Task.todo]
    · simp [LogEvent.storedEvents, LogEvent.shownEvents, Task.unshown]
  | failed => cases hy

theorem accounted_initial : Accounted initial :=
  ⟨fun _ => rfl, fun _ => rfl, rfl, rfl, List.forall_mem_nil _⟩

theorem Accounted.step (h : Accounted s) {a : Coroutines.Act RequestRow Input Beside} {s' : Sys}
    (hs : Coroutines.step (pipeline t cfg) s a = some s') : Accounted s' := by
  cases a with
  | arrive row =>
    cases hs
    refine ⟨fun p => ?_, fun p => ?_, h.events, h.requests, h.details⟩
    · have hold := h.found p
      simpa [waiting, logged, pipeline, Task.todo] using hold
    · have hold := h.shown p
      simpa [waiting, logged, pipeline, Task.unshown] using hold
  | resume i now input =>
    obtain ⟨-, task, y, htask, hy, rfl⟩ := resume_spec _ hs
    exact h.resume htask hy
  | other w =>
    cases hs
    obtain ⟨hevents, hrequests⟩ := given_beside s.store w
    exact ⟨h.found, h.shown, hevents.trans h.events, hrequests.trans h.requests, h.details⟩

theorem accounted_run {acts : List (Coroutines.Act RequestRow Input Beside)}
    (hs : exec (Coroutines.step (pipeline t cfg)) initial acts = some s) : Accounted s :=
  exec_invariant (fun _ _ _ hi (_ : True) he => Accounted.step hi he) accounted_initial
    (along_of_mem (fun _ _ _ _ => trivial) _) hs

theorem Accounted.evaluated_of_stored (h : Accounted s) {e : Event} (he : e ∈ logged LogEvent.storedEvents s) :
    e ∈ logged LogEvent.evaluatedEvents s := by
  have hfound := h.found fun x => x = e
  have hpos : 0 < (logged LogEvent.storedEvents s).countP fun x => x = e := List.countP_pos_iff.mpr ⟨e, he, by simp⟩
  obtain ⟨x, hx, heq⟩ := List.countP_pos_iff.mp
    (show 0 < (logged LogEvent.evaluatedEvents s).countP fun x => x = e by omega)
  exact of_decide_eq_true heq ▸ hx

/-- Every row of the table is that of an event found. -/
theorem Accounted.row_of_event (h : Accounted s) {r : Stored SecurityEvent} (hr : r ∈ s.store.db.securityEvents) :
    ∃ e ∈ logged LogEvent.storedEvents s, r.row = securityEventRow e := by
  have hleft := Retention.rowsLeft s.store.acts
  have hkept : r ∈ (Retention.withoutCleanup s.store.acts).securityEvents := by
    rw [Store.db, hleft.securityEvents] at hr
    exact Retained.left_sublist.subset hr
  have hrow : r.row ∈ givenEvents s.store := List.mem_map_of_mem hkept
  rw [h.events] at hrow
  obtain ⟨e, he, heq⟩ := List.mem_map.mp hrow
  exact ⟨e, he, heq.symm⟩

theorem Accounted.readable (h : Accounted s) (isoformat : ℤ → String) :
    SecurityEvents.Readable isoformat s.store.db.securityEvents := by
  intro r hr
  obtain ⟨e, he, hrow⟩ := h.row_of_event hr
  have hview := SecurityEvents.view_row isoformat r.id (h.details e (h.evaluated_of_stored he))
  rw [← hrow] at hview
  rw [hview]
  rfl

theorem Accounted.length_matching (h : Accounted s) {q : SecurityEvents.EventQuery}
    (hfrom : ∀ c ∈ Retention.rawCutoffs s.store.acts, c ≤ (q.fromTs : ℤ)) :
    (SecurityEvents.matching s.store.db.securityEvents q).length =
      (logged LogEvent.storedEvents s).countP fun e => q.holds (securityEventRow e) := by
  have hsame : SecurityEvents.matching s.store.db.securityEvents q =
      SecurityEvents.matching (Retention.withoutCleanup s.store.acts).securityEvents q :=
    (Retention.rowsLeft s.store.acts).filter_events hfrom
  have hrows := congrArg (List.countP q.holds) h.events
  rw [givenEvents, List.countP_map, List.countP_map] at hrows
  rw [hsame, SecurityEvents.matching, ← List.countP_eq_length_filter]
  exact hrows

end

/-! ## Totals -/

/-- **Every finding is accounted for**, in any run, at any moment: the total that the page of events gives for a range
that no cleanup has reached, what the database has refused and what is still to be stored make up what the rules have
found. Nothing is stored twice, and nothing is lost between two awaits. -/
theorem findings_accounted {t : Text} {cfg : SecurityConfig} {acts : List (Coroutines.Act RequestRow Input Beside)}
    {s : Sys} (hs : exec (Coroutines.step (pipeline t cfg)) initial acts = some s) (isoformat : ℤ → String)
    (q : SecurityEvents.EventQuery) (hfrom : ∀ c ∈ Retention.rawCutoffs s.store.acts, c ≤ (q.fromTs : ℤ))
    (page limit : ℕ) (db : SecurityEvents.EventOrder) :
    ∃ shown, SecurityEvents.getSecurityEvents isoformat s.store.db.securityEvents q (page + 1) limit db = some shown ∧
      let count (events : List Event) : ℕ := events.countP fun e => q.holds (securityEventRow e)
      shown.total + count (logged LogEvent.refusedEvents s) + count (waiting Task.todo s) =
        count (logged LogEvent.evaluatedEvents s) ∧
      count (logged LogEvent.shownEvents s) + count (waiting Task.unshown s) = shown.total := by
  have h := accounted_run hs
  refine ⟨_, SecurityEvents.getSecurityEvents_eq (h.readable isoformat) db page, ?_, ?_⟩
  · rw [h.length_matching hfrom]
    exact (h.found _).symm
  · rw [h.length_matching hfrom]
    exact (h.shown _).symm

/-- **An event is shown as it was found**: what its id names in the table is an event that the rules have found, with
the details that they have given it. -/
theorem event_shown_as_found {t : Text} {cfg : SecurityConfig} {acts : List (Coroutines.Act RequestRow Input Beside)}
    {s : Sys} (hs : exec (Coroutines.step (pipeline t cfg)) initial acts = some s) (isoformat : ℤ → String)
    {r : Stored SecurityEvent} (hr : r ∈ s.store.db.securityEvents) :
    ∃ e ∈ logged LogEvent.evaluatedEvents s, SecurityEvents.getSecurityEvent isoformat s.store.db.securityEvents r.id =
      .ok (SecurityEvents.eventView isoformat r.id e) := by
  have h := accounted_run hs
  obtain ⟨e, he, hrow⟩ := h.row_of_event hr
  have hfound := h.evaluated_of_stored he
  have hnumbered := (Retention.rowsLeft s.store.acts).numbered_left.securityEvents
  have hfind : s.store.db.securityEvents.find? (fun x => x.id = r.id) = some r := by
    have hsome : (s.store.db.securityEvents.find? fun x => x.id = r.id).isSome = true :=
      List.find?_isSome.mpr ⟨r, hr, by simp⟩
    obtain ⟨x, hx⟩ := Option.isSome_iff_exists.mp hsome
    have hid : x.id = r.id := by simpa using List.find?_some hx
    rw [hx, hnumbered.eq_of_id (List.mem_of_find?_eq_some hx) hr hid]
  have hview := SecurityEvents.view_row isoformat r.id (h.details e hfound)
  rw [← hrow] at hview
  refine ⟨e, hfound, ?_⟩
  rw [SecurityEvents.getSecurityEvent, hfind]
  show (SecurityEvents.view isoformat r).elim _ _ = _
  rw [hview]
  rfl

/-- **The pages of the events** of any run show every matching one once, whatever order the database chooses for each
page, just where no two events of one time stand on the two sides of a page boundary. All that is found for a line
is of one time. -/
theorem event_pages_iff {t : Text} {cfg : SecurityConfig} {acts : List (Coroutines.Act RequestRow Input Beside)}
    {s : Sys} (hs : exec (Coroutines.step (pipeline t cfg)) initial acts = some s) (isoformat : ℤ → String)
    (q : SecurityEvents.EventQuery) {limit : ℕ} (hl : 1 ≤ limit) :
    SecurityEvents.EveryEventOnce isoformat s.store.db.securityEvents q limit ↔
      Paging.Separated SecurityEvents.eventKey limit (SecurityEvents.matching s.store.db.securityEvents q) :=
  SecurityEvents.every_event_once_iff (Retention.rowsLeft s.store.acts).numbered_left.securityEvents
    ((accounted_run hs).readable isoformat) hl

/-! ## One line -/

def sampleConfig : SecurityConfig := ⟨300, 5000⟩

def traceRow : RequestRow := { DuckDb.sampleRow 5 with method := some "TRACE", userAgent := some "x" }

/-- A line whose method is abuse, up to the callbacks. -/
def sampleLine : List (Coroutines.Act RequestRow Input Beside) :=
  [.arrive traceRow, .resume 0 5 ⟨true, 0⟩, .resume 0 6 ⟨true, 0⟩, .resume 0 7 ⟨true, 0⟩, .resume 0 8 ⟨true, 0⟩]

def everyEvent : SecurityEvents.EventQuery := ⟨0, 10, none, none, none, none⟩

/-- `isoformat` of the time of the sample. -/
def sampleIsoformat (_ : ℤ) : String := "1970-01-01T00:00:00.000006"

theorem sampleLine_run : ∃ s : Sys, exec (Coroutines.step (pipeline asciiText sampleConfig)) initial sampleLine = some s ∧
    Retention.rawCutoffs s.store.acts = [] ∧ s.store.db.securityEvents.length = 1 := by
  have hrun : ((exec (Coroutines.step (pipeline asciiText sampleConfig)) initial sampleLine).map fun s =>
      (Retention.rawCutoffs s.store.acts, s.store.db.securityEvents.length)) = some ([], 1) := by decide +kernel
  obtain ⟨s, hs, hfacts⟩ := Option.map_eq_some_iff.mp hrun
  obtain ⟨hcutoffs, hstored⟩ := Prod.mk.inj hfacts
  exact ⟨s, hs, hcutoffs, hstored⟩

theorem findings_accounted_sample : ∃ s : Sys,
    exec (Coroutines.step (pipeline asciiText sampleConfig)) initial sampleLine = some s ∧
      ∃ shown, SecurityEvents.getSecurityEvents sampleIsoformat s.store.db.securityEvents everyEvent 1 50
          (.stable _) = some shown ∧
        let count (events : List Event) : ℕ := events.countP fun e => everyEvent.holds (securityEventRow e)
        shown.total + count (logged LogEvent.refusedEvents s) + count (waiting Task.todo s) =
          count (logged LogEvent.evaluatedEvents s) ∧
        count (logged LogEvent.shownEvents s) + count (waiting Task.unshown s) = shown.total := by
  obtain ⟨s, hs, hcutoffs, -⟩ := sampleLine_run
  refine ⟨s, hs, findings_accounted hs sampleIsoformat everyEvent ?_ 0 50 _⟩
  rw [hcutoffs]
  exact List.forall_mem_nil _

theorem event_shown_as_found_sample : ∃ s : Sys,
    exec (Coroutines.step (pipeline asciiText sampleConfig)) initial sampleLine = some s ∧
      ∃ r ∈ s.store.db.securityEvents, ∃ e ∈ logged LogEvent.evaluatedEvents s,
        SecurityEvents.getSecurityEvent sampleIsoformat s.store.db.securityEvents r.id =
          .ok (SecurityEvents.eventView sampleIsoformat r.id e) := by
  obtain ⟨s, hs, -, hstored⟩ := sampleLine_run
  obtain ⟨r, hr⟩ := List.exists_mem_of_length_pos (hstored ▸ Nat.one_pos : 0 < s.store.db.securityEvents.length)
  exact ⟨s, hs, r, hr, event_shown_as_found hs sampleIsoformat hr⟩

theorem event_pages_iff_sample : ∃ s : Sys,
    exec (Coroutines.step (pipeline asciiText sampleConfig)) initial sampleLine = some s ∧
      (SecurityEvents.EveryEventOnce sampleIsoformat s.store.db.securityEvents everyEvent 50 ↔
        Paging.Separated SecurityEvents.eventKey 50 (SecurityEvents.matching s.store.db.securityEvents everyEvent)) := by
  obtain ⟨s, hs, -, -⟩ := sampleLine_run
  exact ⟨s, hs, event_pages_iff hs sampleIsoformat everyEvent (by decide)⟩

end Cadsa.EventPipeline
