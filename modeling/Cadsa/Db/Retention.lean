import Cadsa.Db.SecurityEvents
import Cadsa.Lib.Retained

/-! The daily cleanup (`_run_cleanup` and `purge_old_data`) beside everything else that the database is asked
for. It deletes table by table, and other statements come between. A query that does not reach back beyond a
cutoff sees what it would see had no cleanup ever run. -/
namespace Cadsa.Retention
open Db Analytics Aggregation Tables DuckDb Retained
set_option autoImplicit false

/-! ## The cleanup -/

def maxRetentionDays : ℤ := 30

def capRetention (v : ℤ) : ℤ := min (max v 1) maxRetentionDays

/-- The two settings, after validation. -/
structure DatabaseConfig where
  retentionDays : ℤ
  aggregationRetentionDays : ℤ
  capped : 1 ≤ retentionDays ∧ retentionDays ≤ maxRetentionDays

def DatabaseConfig.validate (retentionDays aggregationRetentionDays : ℤ) : DatabaseConfig where
  retentionDays := capRetention retentionDays
  aggregationRetentionDays := aggregationRetentionDays
  capped := ⟨le_min (le_max_right ..) (by decide), min_le_right ..⟩

/-- The first and the last `datetime`, in microseconds since 1970. -/
def minDatetime : ℤ := -62135596800000000

def maxDatetime : ℤ := 253402300799999999

def days (n : ℤ) : ℤ := n * 86400000000

/-- `now - timedelta(days=n)`, where neither overflows. -/
def daysBefore (now : Time) (n : ℤ) : Option ℤ :=
  let t := (now : ℤ) - days n
  if -999999999 ≤ n ∧ n ≤ 999999999 ∧ minDatetime ≤ t ∧ t ≤ maxDatetime then some t else none

inductive Purged
  | requests
  | securityEvents
  | statsMinutely
  | statsHourly
  | parseErrors
  deriving DecidableEq

structure Delete where
  table : Purged
  cutoff : ℤ
  deriving DecidableEq

/-- The statements of `purge_old_data`: none where a cutoff cannot be computed. -/
def purgeOldData (cfg : DatabaseConfig) (now : Time) : List Delete :=
  match daysBefore now cfg.retentionDays, daysBefore now cfg.aggregationRetentionDays with
  | some rawCutoff, some aggCutoff => [⟨.requests, rawCutoff⟩, ⟨.securityEvents, rawCutoff⟩,
      ⟨.statsMinutely, aggCutoff⟩, ⟨.statsHourly, aggCutoff⟩, ⟨.parseErrors, rawCutoff⟩]
  | _, _ => []

def requestTs (r : Stored RequestRow) : ℤ := r.row.ts

def eventTs (r : Stored SecurityEvent) : ℤ := r.row.ts

def errorTs (r : Stored ParseError) : ℤ := r.row.ts

def keyBefore (cutoff : ℤ) (k : Time × String) : Bool := (k.1 : ℤ) < cutoff

def Delete.run (db : Database) (d : Delete) : Database :=
  match d.table with
  | .requests => { db with requests := db.requests.filter (d.cutoff ≤ requestTs ·) }
  | .securityEvents => { db with securityEvents := db.securityEvents.filter (d.cutoff ≤ eventTs ·) }
  | .statsMinutely => { db with statsMinutely := db.statsMinutely.deleteWhere (keyBefore d.cutoff) }
  | .statsHourly => { db with statsHourly := db.statsHourly.deleteWhere (keyBefore d.cutoff) }
  | .parseErrors => { db with parseErrors := db.parseErrors.filter (d.cutoff ≤ errorTs ·) }

/-! ## Runs -/

inductive Act
  | statement (s : Statement)
  | startCleanup (cfg : DatabaseConfig) (clock : Time)
  /-- The next statement of the cleanup; where it fails, so does the cleanup. -/
  | delete (ok : Bool)

/-- `cleanup` is what the running cleanup has still to do; `deleted` are no columns, but the statements
carried out so far, each with the last id that had been drawn. -/
structure State where
  db : Database
  cleanup : List Delete
  deleted : List (Purged × Deletion ℤ)

def State.empty : State := ⟨Database.empty, [], []⟩

def lastId (db : Database) (table : Purged) : ℕ :=
  if table = .securityEvents then db.seqSecurityEvents else db.seqRequests

/-- A cleanup that is due while one runs is skipped. -/
def step (s : State) : Act → State
  | .statement q => { s with db := q.run s.db }
  | .startCleanup cfg clock => if s.cleanup = [] then { s with cleanup := purgeOldData cfg clock } else s
  | .delete ok =>
    match s.cleanup with
    | [] => s
    | d :: rest =>
      if ok then ⟨d.run s.db, rest, s.deleted ++ [(d.table, ⟨d.cutoff, lastId s.db d.table⟩)]⟩
      else { s with cleanup := [] }

def run (acts : List Act) : State := acts.foldl step State.empty

def Act.statement? : Act → Option Statement
  | .statement q => some q
  | _ => none

/-- The database that has had no cleanup. -/
def withoutCleanup (acts : List Act) : Database := (acts.filterMap Act.statement?).foldl Statement.run Database.empty

def deletionsOf (table : Purged) (deleted : List (Purged × Deletion ℤ)) : List (Deletion ℤ) :=
  (deleted.filter fun d => d.1 = table).map Prod.snd

/-- The cutoffs of the cleanups that have been due: of the rows, and of the aggregates. -/
def Act.cutoffs : Act → Option (ℤ × ℤ)
  | .startCleanup cfg clock =>
    match daysBefore clock cfg.retentionDays, daysBefore clock cfg.aggregationRetentionDays with
    | some rawCutoff, some aggCutoff => some (rawCutoff, aggCutoff)
    | _, _ => none
  | _ => none

def rawCutoffs (acts : List Act) : List ℤ := (acts.filterMap Act.cutoffs).map Prod.fst

def aggCutoffs (acts : List Act) : List ℤ := (acts.filterMap Act.cutoffs).map Prod.snd

def dueCutoffs (acts : List Act) : Purged → List ℤ
  | .statsMinutely | .statsHourly => aggCutoffs acts
  | .requests | .securityEvents | .parseErrors => rawCutoffs acts

def Act.clock : Act → Option Time
  | .statement (.minutelyTick clock) => some clock
  | .statement (.hourlyTick clock) => some clock
  | .startCleanup _ clock => some clock
  | _ => none

/-- The clock of the jobs may be set back, but not by more than 22 hours. -/
def ClockHolds (acts : List Act) : Prop :=
  (acts.filterMap Act.clock).Pairwise fun earlier later => earlier ≤ later + minutes (22 * 60)

/-! ## The rows that are left -/

/-- What a run leaves, beside the same run without its cleanups. -/
structure RowsLeft (acts : List Act) (s : State) (kept : Database) : Prop where
  requests : s.db.requests = left Stored.id requestTs (deletionsOf .requests s.deleted) kept.requests
  parseErrors : s.db.parseErrors = left Stored.id errorTs (deletionsOf .parseErrors s.deleted) kept.parseErrors
  securityEvents :
    s.db.securityEvents = left Stored.id eventTs (deletionsOf .securityEvents s.deleted) kept.securityEvents
  seqRequests : s.db.seqRequests = kept.seqRequests
  seqSecurityEvents : s.db.seqSecurityEvents = kept.seqSecurityEvents
  numbered : WellNumbered kept
  due : ∀ d ∈ s.cleanup, d.cutoff ∈ dueCutoffs acts d.table
  deleted : ∀ d ∈ s.deleted, d.2.cutoff ∈ dueCutoffs acts d.1 ∧ d.2.last ≤ lastId kept d.1

section
variable {acts : List Act} {s : State} {kept : Database} {a : Act}

theorem run_concat : run (acts ++ [a]) = step (run acts) a := List.foldl_concat ..

theorem withoutCleanup_concat : withoutCleanup (acts ++ [a]) =
    match a with
    | .statement q => q.run (withoutCleanup acts)
    | _ => withoutCleanup acts := by
  rw [withoutCleanup, List.filterMap_append]
  cases a with
  | statement q => exact List.foldl_concat ..
  | startCleanup cfg clock => exact congrArg _ (List.append_nil _)
  | delete ok => exact congrArg _ (List.append_nil _)

theorem dueCutoffs_concat {table : Purged} {c : ℤ} (h : c ∈ dueCutoffs acts table) :
    c ∈ dueCutoffs (acts ++ [a]) table := by
  have hsub : acts.filterMap Act.cutoffs ⊆ (acts ++ [a]).filterMap Act.cutoffs := by
    rw [List.filterMap_append]
    exact List.subset_append_left ..
  cases table with
  | statsMinutely | statsHourly => exact List.map_subset _ hsub h
  | requests | securityEvents | parseErrors => exact List.map_subset _ hsub h

theorem purgeOldData_due {cfg : DatabaseConfig} {clock : Time} : ∀ d ∈ purgeOldData cfg clock,
    d.cutoff ∈ dueCutoffs (acts ++ [.startCleanup cfg clock]) d.table := by
  intro d hd
  rw [purgeOldData] at hd
  cases hraw : daysBefore clock cfg.retentionDays with
  | none => simp [hraw] at hd
  | some rawCutoff =>
    cases hagg : daysBefore clock cfg.aggregationRetentionDays with
    | none => simp [hraw, hagg] at hd
    | some aggCutoff =>
      have hrawDue : rawCutoff ∈ rawCutoffs (acts ++ [.startCleanup cfg clock]) := by
        simp [rawCutoffs, Act.cutoffs, hraw, hagg]
      have haggDue : aggCutoff ∈ aggCutoffs (acts ++ [.startCleanup cfg clock]) := by
        simp [aggCutoffs, Act.cutoffs, hraw, hagg]
      simp only [hraw, hagg, List.mem_cons, List.not_mem_nil, or_false] at hd
      rcases hd with rfl | rfl | rfl | rfl | rfl
      · exact hrawDue
      · exact hrawDue
      · exact haggDue
      · exact haggDue
      · exact hrawDue

theorem mem_deletionsOf {table : Purged} {deleted : List (Purged × Deletion ℤ)} {d : Deletion ℤ} :
    d ∈ deletionsOf table deleted ↔ (table, d) ∈ deleted := by
  simp only [deletionsOf, List.mem_map, List.mem_filter, decide_eq_true_eq, Prod.exists]
  constructor
  · rintro ⟨_, _, ⟨hmem, rfl⟩, rfl⟩
    exact hmem
  · exact fun hmem => ⟨table, d, ⟨hmem, rfl⟩, rfl⟩

theorem deletionsOf_concat (table : Purged) (deleted : List (Purged × Deletion ℤ)) (other : Purged) (d : Deletion ℤ) :
    deletionsOf table (deleted ++ [(other, d)]) = if other = table then deletionsOf table deleted ++ [d]
      else deletionsOf table deleted := by
  rw [deletionsOf, List.filter_append, List.map_append, List.filter_cons, List.filter_nil, ← deletionsOf]
  by_cases h : other = table
  · simp [h]
  · simp [h]

theorem rowsLeft_empty : RowsLeft [] State.empty Database.empty where
  requests := (left_nil _).symm
  parseErrors := (left_nil _).symm
  securityEvents := (left_nil _).symm
  seqRequests := rfl
  seqSecurityEvents := rfl
  numbered := wellNumbered_empty
  due _ hd := absurd hd List.not_mem_nil
  deleted _ hd := absurd hd List.not_mem_nil

theorem lastId_run (db : Database) (q : Statement) (table : Purged) : lastId db table ≤ lastId (q.run db) table := by
  rw [lastId, lastId, seqRequests_run, seqSecurityEvents_run]
  split_ifs
  · exact Nat.le_add_right ..
  · exact Nat.le_add_right ..

theorem RowsLeft.statement (h : RowsLeft acts s kept) (q : Statement) :
    RowsLeft (acts ++ [.statement q]) { s with db := q.run s.db } (q.run kept) := by
  have hlast : ∀ table, ∀ d ∈ deletionsOf table s.deleted, d.last ≤ lastId kept table := fun table d hd =>
    (h.deleted _ (mem_deletionsOf.mp hd)).2
  constructor
  · show (q.run s.db).requests = _
    rw [requests_run, requests_run, h.requests, h.seqRequests, left_append]
    exact fun d hd r hr => (hlast .requests d hd).trans_lt (lt_of_newRequests q hr)
  · show (q.run s.db).parseErrors = _
    rw [parseErrors_run, parseErrors_run, h.parseErrors, h.seqRequests, left_append]
    exact fun d hd r hr => (hlast .parseErrors d hd).trans_lt (lt_of_newParseErrors q hr)
  · show (q.run s.db).securityEvents = _
    rw [securityEvents_run, securityEvents_run, h.securityEvents, h.seqSecurityEvents, left_append]
    exact fun d hd r hr => (hlast .securityEvents d hd).trans_lt (lt_of_newSecurityEvents q hr)
  · show (q.run s.db).seqRequests = _
    rw [seqRequests_run, seqRequests_run, h.seqRequests]
  · show (q.run s.db).seqSecurityEvents = _
    rw [seqSecurityEvents_run, seqSecurityEvents_run, h.seqSecurityEvents]
  · exact h.numbered.run
  · exact fun d hd => dueCutoffs_concat (h.due d hd)
  · exact fun d hd => ⟨dueCutoffs_concat (h.deleted d hd).1, (h.deleted d hd).2.trans (lastId_run kept q d.1)⟩

theorem RowsLeft.delete (h : RowsLeft acts s kept) {d : Delete} {rest : List Delete} (hs : s.cleanup = d :: rest) :
    RowsLeft (acts ++ [.delete true])
      ⟨d.run s.db, rest, s.deleted ++ [(d.table, ⟨d.cutoff, lastId s.db d.table⟩)]⟩ kept := by
  have hdue : d.cutoff ∈ dueCutoffs acts d.table := h.due d (hs ▸ List.mem_cons_self)
  have hlast : lastId s.db d.table = lastId kept d.table := by rw [lastId, lastId, h.seqRequests, h.seqSecurityEvents]
  have hdeleted : ∀ e ∈ s.deleted ++ [(d.table, ⟨d.cutoff, lastId s.db d.table⟩)],
      e.2.cutoff ∈ dueCutoffs (acts ++ [.delete true]) e.1 ∧ e.2.last ≤ lastId kept e.1 := by
    intro e he
    rcases List.mem_append.mp he with hold | hnew
    · exact ⟨dueCutoffs_concat (h.deleted e hold).1, (h.deleted e hold).2⟩
    · rw [List.mem_singleton.mp hnew]
      exact ⟨dueCutoffs_concat hdue, hlast.le⟩
  have hrest : ∀ e ∈ rest, e.cutoff ∈ dueCutoffs (acts ++ [.delete true]) e.table := fun e he =>
    dueCutoffs_concat (h.due e (hs ▸ List.mem_cons_of_mem d he))
  obtain ⟨table, cutoff⟩ := d
  cases table with
  | requests =>
    refine ⟨?_, ?_, ?_, h.seqRequests, h.seqSecurityEvents, h.numbered, hrest, hdeleted⟩
    · rw [deletionsOf_concat, if_pos rfl, left_delete, ← h.requests]
      · rfl
      · exact fun r hr => (h.numbered.requests.drawn r hr).trans h.seqRequests.ge
    · rw [deletionsOf_concat, if_neg nofun]
      exact h.parseErrors
    · rw [deletionsOf_concat, if_neg nofun]
      exact h.securityEvents
  | parseErrors =>
    refine ⟨?_, ?_, ?_, h.seqRequests, h.seqSecurityEvents, h.numbered, hrest, hdeleted⟩
    · rw [deletionsOf_concat, if_neg nofun]
      exact h.requests
    · rw [deletionsOf_concat, if_pos rfl, left_delete, ← h.parseErrors]
      · rfl
      · exact fun r hr => (h.numbered.parseErrors.drawn r hr).trans h.seqRequests.ge
    · rw [deletionsOf_concat, if_neg nofun]
      exact h.securityEvents
  | securityEvents =>
    refine ⟨?_, ?_, ?_, h.seqRequests, h.seqSecurityEvents, h.numbered, hrest, hdeleted⟩
    · rw [deletionsOf_concat, if_neg nofun]
      exact h.requests
    · rw [deletionsOf_concat, if_neg nofun]
      exact h.parseErrors
    · rw [deletionsOf_concat, if_pos rfl, left_delete, ← h.securityEvents]
      · rfl
      · exact fun r hr => (h.numbered.securityEvents.drawn r hr).trans h.seqSecurityEvents.ge
  | statsMinutely | statsHourly =>
    refine ⟨?_, ?_, ?_, h.seqRequests, h.seqSecurityEvents, h.numbered, hrest, hdeleted⟩
    · rw [deletionsOf_concat, if_neg nofun]
      exact h.requests
    · rw [deletionsOf_concat, if_neg nofun]
      exact h.parseErrors
    · rw [deletionsOf_concat, if_neg nofun]
      exact h.securityEvents

/-- Nothing but the cleanup changes. -/
theorem RowsLeft.withCleanup (h : RowsLeft acts s kept) {cleanup : List Delete}
    (hdue : ∀ d ∈ cleanup, d.cutoff ∈ dueCutoffs (acts ++ [a]) d.table) :
    RowsLeft (acts ++ [a]) { s with cleanup := cleanup } kept :=
  ⟨h.requests, h.parseErrors, h.securityEvents, h.seqRequests, h.seqSecurityEvents, h.numbered, hdue,
    fun d hd => ⟨dueCutoffs_concat (h.deleted d hd).1, (h.deleted d hd).2⟩⟩

theorem RowsLeft.later (h : RowsLeft acts s kept) : RowsLeft (acts ++ [a]) s kept :=
  h.withCleanup fun d hd => dueCutoffs_concat (h.due d hd)

theorem rowsLeft (acts : List Act) : RowsLeft acts (run acts) (withoutCleanup acts) := by
  induction acts using List.reverseRecOn with
  | nil => exact rowsLeft_empty
  | append_singleton acts a ih =>
    rw [run_concat, withoutCleanup_concat]
    cases a with
    | statement q => exact ih.statement q
    | startCleanup cfg clock =>
      show RowsLeft _ (if _ then _ else _) _
      split_ifs
      · exact ih.withCleanup purgeOldData_due
      · exact ih.later
    | delete ok =>
      cases hs : (run acts).cleanup with
      | nil =>
        rw [step, hs]
        exact ih.later
      | cons d rest =>
        rw [step, hs]
        cases ok with
        | true => exact ih.delete hs
        | false => exact ih.withCleanup fun d hd => absurd hd List.not_mem_nil

end

/-- **What the cleanups leave** of each table of rows: those that no deletion carried out after they came in has
found to be from before its cutoff. -/
theorem rows_left (acts : List Act) :
    (run acts).db.requests =
      left Stored.id requestTs (deletionsOf .requests (run acts).deleted) (withoutCleanup acts).requests ∧
    (run acts).db.parseErrors =
      left Stored.id errorTs (deletionsOf .parseErrors (run acts).deleted) (withoutCleanup acts).parseErrors ∧
    (run acts).db.securityEvents =
      left Stored.id eventTs (deletionsOf .securityEvents (run acts).deleted) (withoutCleanup acts).securityEvents :=
  ⟨(rowsLeft acts).requests, (rowsLeft acts).parseErrors, (rowsLeft acts).securityEvents⟩

/-! ## What the queries see -/

/-- The requests that a filter selects over a range. -/
def selectedRows (db : Database) (fromTs toTs : Time) (f : Option RequestFilter) : List (Stored RequestRow) :=
  db.requests.filter fun r => (conditionsOf fromTs toTs f).all (·.holds r.row.toRequest)

def queryRequestById (db : Database) (requestId : ℕ) : Option (Stored RequestRow) :=
  db.requests.find? fun r => r.id = requestId

/-- The queries that start at a time give on one database what they give on the other. -/
structure SameFrom (fromTs : Time) (db kept : Database) : Prop where
  rows : ∀ toTs f, selectedRows db fromTs toTs f = selectedRows kept fromTs toTs f
  overview : ∀ toTs f, queryOverview db.requestRows (.datetime fromTs) (.datetime toTs) (.ofFilter f) =
    queryOverview kept.requestRows (.datetime fromTs) (.datetime toTs) (.ofFilter f)
  timeseries : ∀ timeBucket toTs f, queryTimeseries timeBucket db.requestRows (.datetime fromTs) (.datetime toTs)
    (.ofFilter f) = queryTimeseries timeBucket kept.requestRows (.datetime fromTs) (.datetime toTs) (.ofFilter f)
  performance : ∀ bucket toTs f, queryPerformance db.requestRows (.datetime fromTs) (.datetime toTs) bucket
    (.ofFilter f) = queryPerformance kept.requestRows (.datetime fromTs) (.datetime toTs) bucket (.ofFilter f)
  ipTimeline : ∀ ip toTs, ipTimeline db.requestRows ip fromTs toTs = ipTimeline kept.requestRows ip fromTs toTs
  events : ∀ q : SecurityEvents.EventQuery, q.fromTs = fromTs →
    SecurityEvents.matching db.securityEvents q = SecurityEvents.matching kept.securityEvents q
  byId : ∀ id r, fromTs ≤ r.row.ts → (queryRequestById db id = some r ↔ queryRequestById kept id = some r)

section
variable {acts : List Act} {s : State} {kept : Database}

theorem le_of_selected {fromTs toTs : Time} {f : Option RequestFilter} {r : Request}
    (h : ((conditionsOf fromTs toTs f).all (·.holds r)) = true) : fromTs ≤ r.ts := by
  have hbetween := List.all_eq_true.mp h (.between (.datetime fromTs) (.datetime toTs)) List.mem_cons_self
  simp only [Condition.holds, Bool.and_eq_true, decide_eq_true_eq] at hbetween
  exact hbetween.1

/-- Selections of requests that take none from before a cutoff. -/
theorem RowsLeft.filter_requests (h : RowsLeft acts s kept) {p : Stored RequestRow → Bool}
    (hp : ∀ r, p r = true → ∀ c ∈ rawCutoffs acts, c ≤ requestTs r) :
    s.db.requests.filter p = kept.requests.filter p := by
  rw [h.requests, filter_left]
  exact fun r hr d hd => hp r hr _ (h.deleted _ (mem_deletionsOf.mp hd)).1

theorem RowsLeft.filter_requestRows (h : RowsLeft acts s kept) {p : Request → Bool}
    (hp : ∀ r, p r = true → ∀ c ∈ rawCutoffs acts, c ≤ (r.ts : ℤ)) :
    s.db.requestRows.filter p = kept.requestRows.filter p := by
  rw [Database.requestRows, Database.requestRows, List.filter_map, List.filter_map]
  exact congrArg _ (h.filter_requests fun r hr => hp r.row.toRequest hr)

theorem RowsLeft.filter_events (h : RowsLeft acts s kept) {q : SecurityEvents.EventQuery}
    (hfrom : ∀ c ∈ rawCutoffs acts, c ≤ (q.fromTs : ℤ)) :
    SecurityEvents.matching s.db.securityEvents q = SecurityEvents.matching kept.securityEvents q := by
  rw [SecurityEvents.matching, h.securityEvents, filter_left]
  · rfl
  · intro r hr d hd
    have hcutoff : d.cutoff ≤ q.fromTs := hfrom _ (h.deleted _ (mem_deletionsOf.mp hd)).1
    simp only [SecurityEvents.EventQuery.holds, Bool.and_eq_true, decide_eq_true_eq] at hr
    exact hcutoff.trans hr.1.1.1.1.1

theorem queryRequestById_eq_some {db : Database} {last : ℕ} (hn : Numbered last db.requests) {id : ℕ}
    {r : Stored RequestRow} : queryRequestById db id = some r ↔ r ∈ db.requests ∧ r.id = id := by
  constructor
  · exact fun h => ⟨List.mem_of_find?_eq_some h, by simpa using List.find?_some h⟩
  · rintro ⟨hr, rfl⟩
    have hsome : (queryRequestById db r.id).isSome = true := List.find?_isSome.mpr ⟨r, hr, by simp⟩
    obtain ⟨q, hq⟩ := Option.isSome_iff_exists.mp hsome
    have hid : q.id = r.id := by simpa using List.find?_some hq
    rw [hq, hn.eq_of_id (List.mem_of_find?_eq_some hq) hr hid]

theorem RowsLeft.numbered_left (h : RowsLeft acts s kept) : WellNumbered s.db where
  requests := h.seqRequests ▸ h.numbered.requests.sublist (h.requests ▸ left_sublist)
  parseErrors := h.seqRequests ▸ h.numbered.parseErrors.sublist (h.parseErrors ▸ left_sublist)
  securityEvents := h.seqSecurityEvents ▸ h.numbered.securityEvents.sublist (h.securityEvents ▸ left_sublist)
  apart r hr e he := by
    rw [h.requests] at hr
    rw [h.parseErrors] at he
    exact h.numbered.apart r (left_sublist.subset hr) e (left_sublist.subset he)

theorem RowsLeft.sameFrom (h : RowsLeft acts s kept) {fromTs : Time} (hfrom : ∀ c ∈ rawCutoffs acts, c ≤ (fromTs : ℤ)) :
    SameFrom fromTs s.db kept := by
  have hbefore : ∀ ts : Time, fromTs ≤ ts → ∀ c ∈ rawCutoffs acts, c ≤ (ts : ℤ) := fun ts hts c hc =>
    (hfrom c hc).trans (Int.ofNat_le.mpr hts)
  have hselected (toTs : Time) (f : Option RequestFilter) :
      Analytics.selected s.db.requestRows fromTs toTs f = Analytics.selected kept.requestRows fromTs toTs f :=
    h.filter_requestRows fun r hr => hbefore r.ts (le_of_selected hr)
  constructor
  · exact fun toTs f => h.filter_requests fun r hr => hbefore r.row.ts (le_of_selected hr)
  · intro toTs f
    simp only [queryOverview, buildWhere_eq, bind, Except.bind, select_conditionsOf, hselected]
  · intro timeBucket toTs f
    simp only [queryTimeseries, buildWhere_eq, bind, Except.bind, select_conditionsOf, hselected]
  · intro bucket toTs f
    simp only [queryPerformance, buildWhere_eq, bind, Except.bind, select_conditionsOf, hselected]
  · intro ip toTs
    have hrows : ipRows s.db.requestRows ip fromTs toTs = ipRows kept.requestRows ip fromTs toTs := by
      refine h.filter_requestRows fun r hr => hbefore r.ts ?_
      simp only [Bool.and_eq_true, decide_eq_true_eq] at hr
      exact hr.2.1
    rw [Analytics.ipTimeline, Analytics.ipTimeline, hrows]
  · rintro q rfl
    exact h.filter_events hfrom
  · intro id r hts
    rw [queryRequestById_eq_some h.numbered_left.requests, queryRequestById_eq_some h.numbered.requests]
    have hmem : r ∈ s.db.requests ↔ r ∈ kept.requests := by
      have hfilter := h.filter_requests (p := fun q => decide (fromTs ≤ q.row.ts)) fun q hq =>
        hbefore q.row.ts (of_decide_eq_true hq)
      have hboth := congrArg (r ∈ ·) hfilter
      simpa [List.mem_filter, hts] using hboth
    rw [hmem]

end

/-- **No query notices a cleanup** that does not reach back beyond one of its cutoffs. -/
theorem cleanup_unseen (acts : List Act) {fromTs : Time} (hfrom : ∀ c ∈ rawCutoffs acts, c ≤ (fromTs : ℤ)) :
    SameFrom fromTs (run acts).db (withoutCleanup acts) := (rowsLeft acts).sameFrom hfrom

/-! ## A run with a cleanup -/

/-- Rows of the fifth and the tenth day, and a cleanup on the tenth that keeps one day. -/
def sampleActs : List Act :=
  [.statement (.insertRequest (sampleRow (5 * minutes 1440))), .statement (.insertRequest (sampleRow (9 * minutes 1440))),
    .startCleanup (.validate 0 1) (10 * minutes 1440), .delete true, .delete true, .delete true, .delete true,
    .delete true, .statement (.minutelyTick (10 * minutes 1440))]

theorem cleanup_unseen_sample : SameFrom (9 * minutes 1440) (run sampleActs).db (withoutCleanup sampleActs) ∧
    (run sampleActs).db.requests.length = 1 ∧ (withoutCleanup sampleActs).requests.length = 2 :=
  ⟨cleanup_unseen sampleActs (by decide), by rfl, by rfl⟩

/-! ## What the aggregates see -/

/-- The rows of the two tables of aggregates from a time on. -/
structure SameStats (fromTs : Time) (db kept : Database) : Prop where
  minutely : ∀ ts, fromTs ≤ ts → ∀ host, db.statsMinutely.find (ts, host) = kept.statsMinutely.find (ts, host)
  hourly : ∀ ts, fromTs ≤ ts → ∀ host, db.statsHourly.find (ts, host) = kept.statsHourly.find (ts, host)

section
variable {acts : List Act} {s : State} {kept : Database} {a : Act}

theorem ClockHolds.before (h : ClockHolds (acts ++ [a])) : ClockHolds acts := by
  rw [ClockHolds, List.filterMap_append] at h
  exact (List.pairwise_append.mp h).1

/-- Every cutoff is at least two hours before the clock of a later tick: it was a day before that of its cleanup. -/
theorem ClockHolds.cutoff_le (h : ClockHolds (acts ++ [a])) {clock : Time} (ha : a.clock = some clock) :
    ∀ c ∈ rawCutoffs acts, c + minutes (2 * 60) ≤ (clock : ℤ) := by
  intro c hc
  obtain ⟨cutoffs, hcutoffs, rfl⟩ := List.mem_map.mp hc
  obtain ⟨b, hb, hdue⟩ := List.mem_filterMap.mp hcutoffs
  rw [ClockHolds, List.filterMap_append] at h
  have hacross := (List.pairwise_append.mp h).2.2
  cases b with
  | statement | delete => cases hdue
  | startCleanup cfg started =>
    have hstarted : started ∈ acts.filterMap Act.clock := List.mem_filterMap.mpr ⟨_, hb, rfl⟩
    have hset : @LE.le ℕ _ started (clock + 22 * 60 * 60000000) := hacross started hstarted clock (by simp [ha])
    rw [Act.cutoffs] at hdue
    cases hraw : daysBefore started cfg.retentionDays with
    | none => simp [hraw] at hdue
    | some rawCutoff =>
      cases hagg : daysBefore started cfg.aggregationRetentionDays with
      | none => simp [hraw, hagg] at hdue
      | some aggCutoff =>
        have hfst : cutoffs.1 = rawCutoff := by
          simp only [hraw, hagg, Option.some.injEq] at hdue
          rw [← hdue]
        rw [daysBefore] at hraw
        simp only [Option.ite_none_right_eq_some, Option.some.injEq] at hraw
        have hcap := cfg.capped.1
        have hdays : days cfg.retentionDays = cfg.retentionDays * 86400000000 := rfl
        rw [hfst, ← hraw.2]
        simp only [minutes]
        omega

/-- A tick of a width reads no row from before a cutoff. -/
theorem ClockHolds.tick_range (h : ClockHolds (acts ++ [a])) {clock : Time} (ha : a.clock = some clock) {width : ℕ}
    (hpos : 0 < width) (hwidth : width ≤ minutes 60) :
    ∀ ts, truncated width clock - width ≤ ts → ∀ c ∈ rawCutoffs acts, c ≤ (ts : ℤ) := by
  intro ts hts c hc
  have hcutoff := h.cutoff_le ha c hc
  have hbucket : @LT.lt ℕ _ clock (truncated width clock + width) := Nat.lt_div_mul_add hpos
  have hhour : @LE.le ℕ _ width 3600000000 := hwidth
  simp only [minutes] at hcutoff
  omega

theorem find_insertOrReplace_congr {width fromTs toTs : ℕ} {requests requests' : List Request} {t t' : StatsTable}
    (hrows : requests.filter
        (fun r => fromTs ≤ r.ts && r.ts < toTs && (none : Option String).all fun h => h = "" || r.host = h) =
      requests'.filter fun r => fromTs ≤ r.ts && r.ts < toTs && (none : Option String).all fun h => h = "" || r.host = h)
    {k : Time × String} (h : t.find k = t'.find k) :
    (insertOrReplace width fromTs toTs none requests t).find k =
      (insertOrReplace width fromTs toTs none requests' t').find k := by
  rw [insertOrReplace, insertOrReplace, find_foldl_upsert _ _ fun _ => rfl, find_foldl_upsert _ _ fun _ => rfl, hrows, h]

theorem RowsLeft.tick_eq (h : RowsLeft acts s kept) (hclock : ClockHolds (acts ++ [a])) {clock : Time}
    (ha : a.clock = some clock) {width : ℕ} (hpos : 0 < width) (hwidth : width ≤ minutes 60) {t t' : StatsTable}
    {k : Time × String} (hfind : t.find k = t'.find k) :
    (insertOrReplace width (truncated width clock - width) (truncated width clock) none s.db.requestRows t).find k =
      (insertOrReplace width (truncated width clock - width) (truncated width clock) none
        kept.requestRows t').find k := by
  refine find_insertOrReplace_congr (h.filter_requestRows fun r hr => ?_) hfind
  simp only [Bool.and_eq_true, decide_eq_true_eq] at hr
  exact hclock.tick_range ha hpos hwidth r.ts hr.1.1

theorem keyBefore_eq_false {cutoff : ℤ} {fromTs ts : Time} (hcutoff : cutoff ≤ (fromTs : ℤ)) (hts : fromTs ≤ ts)
    (host : String) : keyBefore cutoff (ts, host) = false :=
  decide_eq_false (Int.not_lt.mpr (hcutoff.trans (Int.ofNat_le.mpr hts)))

/-- A deletion of aggregates before the time; of other rows, whatever the cutoff. -/
theorem SameStats.delete {fromTs : Time} {db : Database} (h : SameStats fromTs db kept) {d : Delete}
    (hd : d.table = .statsMinutely ∨ d.table = .statsHourly → d.cutoff ≤ (fromTs : ℤ)) :
    SameStats fromTs (d.run db) kept := by
  obtain ⟨table, cutoff⟩ := d
  cases table with
  | requests | securityEvents | parseErrors => exact ⟨h.minutely, h.hourly⟩
  | statsMinutely =>
    refine ⟨fun ts hts host => ?_, h.hourly⟩
    show (db.statsMinutely.deleteWhere (keyBefore cutoff)).find (ts, host) = _
    rw [find_deleteWhere, keyBefore_eq_false (hd (.inl rfl)) hts]
    exact h.minutely ts hts host
  | statsHourly =>
    refine ⟨h.minutely, fun ts hts host => ?_⟩
    show (db.statsHourly.deleteWhere (keyBefore cutoff)).find (ts, host) = _
    rw [find_deleteWhere, keyBefore_eq_false (hd (.inr rfl)) hts]
    exact h.hourly ts hts host

theorem SameStats.statement {fromTs : Time} (h : SameStats fromTs s.db kept) (hleft : RowsLeft acts s kept)
    {q : Statement}
    (hclock : ClockHolds (acts ++ [.statement q])) : SameStats fromTs (q.run s.db) (q.run kept) := by
  cases q with
  | insertRequest | insertParseError | insertSecurityEvent | failed => exact ⟨h.minutely, h.hourly⟩
  | minutelyTick clock =>
    exact ⟨fun ts hts host => hleft.tick_eq hclock rfl (by decide) (by decide) (h.minutely ts hts host), h.hourly⟩
  | hourlyTick clock =>
    exact ⟨h.minutely, fun ts hts host => hleft.tick_eq hclock rfl (by decide) (by decide) (h.hourly ts hts host)⟩

end

/-- **The aggregates of a run with cleanups** are those of the run without, from every cutoff of the aggregates on. -/
theorem aggregates_unseen (acts : List Act) (hclock : ClockHolds acts) {fromTs : Time}
    (hfrom : ∀ c ∈ aggCutoffs acts, c ≤ (fromTs : ℤ)) : SameStats fromTs (run acts).db (withoutCleanup acts) := by
  induction acts using List.reverseRecOn with
  | nil => exact ⟨fun _ _ _ => rfl, fun _ _ _ => rfl⟩
  | append_singleton acts a ih =>
    have hbefore : ∀ c ∈ aggCutoffs acts, c ≤ (fromTs : ℤ) := fun c hc =>
      hfrom c (@dueCutoffs_concat acts a .statsMinutely c hc)
    have hsame := ih hclock.before hbefore
    have hleft := rowsLeft acts
    rw [run_concat, withoutCleanup_concat]
    cases a with
    | statement q => exact hsame.statement hleft hclock
    | startCleanup cfg clock =>
      rw [step]
      split_ifs
      · exact hsame
      · exact hsame
    | delete ok =>
      cases hs : (run acts).cleanup with
      | nil =>
        rw [step, hs]
        exact hsame
      | cons d rest =>
        rw [step, hs]
        cases ok with
        | false => exact hsame
        | true =>
          refine hsame.delete fun htable => hbefore _ ?_
          have hdue := hleft.due d (hs ▸ List.mem_cons_self)
          rcases htable with ht | ht
          · rwa [ht] at hdue
          · rwa [ht] at hdue

theorem aggregates_unseen_sample :
    SameStats (9 * minutes 1440) (run sampleActs).db (withoutCleanup sampleActs) :=
  aggregates_unseen sampleActs (by unfold ClockHolds; decide) (by decide)

/-! ## What an id names -/

section
variable {s : State} {a : Act}

theorem seqRequests_le_step : s.db.seqRequests ≤ (step s a).db.seqRequests := by
  cases a with
  | statement q => exact (Nat.le_add_right ..).trans (seqRequests_run s.db q).ge
  | startCleanup cfg clock =>
    rw [step]
    split_ifs
    · exact Nat.le_refl _
    · exact Nat.le_refl _
  | delete ok =>
    rw [step]
    split
    · exact Nat.le_refl _
    · rename_i d rest hs
      obtain ⟨table, cutoff⟩ := d
      cases ok with
      | false => exact Nat.le_refl _
      | true => cases table <;> exact Nat.le_refl _

/-- A row that a step brings in has an id that had not been drawn. -/
theorem mem_requests_step {r : Stored RequestRow} (h : r ∈ (step s a).db.requests) :
    r ∈ s.db.requests ∨ s.db.seqRequests < r.id := by
  cases a with
  | statement q =>
    replace h : r ∈ (q.run s.db).requests := h
    rw [requests_run] at h
    exact (List.mem_append.mp h).imp_right (lt_of_newRequests q)
  | startCleanup cfg clock =>
    rw [step] at h
    split_ifs at h
    · exact .inl h
    · exact .inl h
  | delete ok =>
    rw [step] at h
    split at h
    · exact .inl h
    · rename_i d rest hs
      obtain ⟨table, cutoff⟩ := d
      cases ok with
      | false => exact .inl h
      | true =>
        cases table with
        | requests => exact .inl (List.mem_of_mem_filter h)
        | securityEvents | statsMinutely | statsHourly | parseErrors => exact .inl h

theorem mem_requests_run (acts : List Act) {r : Stored RequestRow} (h : r ∈ (acts.foldl step s).db.requests) :
    r ∈ s.db.requests ∨ s.db.seqRequests < r.id := by
  induction acts generalizing s with
  | nil => exact .inl h
  | cons a acts ih =>
    rcases ih h with hstep | hlate
    · exact mem_requests_step hstep
    · exact .inr (seqRequests_le_step.trans_lt hlate)

end

/-- **An id names one row**, at any later time as now: what has been deleted does not come back, nor does another
request take its id. An id above the last one drawn names none yet, and no id names a request and a parse error. -/
theorem id_names_one_row (acts more : List Act) (id : ℕ) :
    (id ≤ (run acts).db.seqRequests → queryRequestById (run (acts ++ more)).db id = queryRequestById (run acts).db id ∨
      queryRequestById (run (acts ++ more)).db id = none) ∧
    ((run acts).db.seqRequests < id → queryRequestById (run acts).db id = none) ∧
    (∀ e ∈ (run acts).db.parseErrors, e.id = id → queryRequestById (run acts).db id = none) := by
  have hnow := (rowsLeft acts).numbered_left
  have hlater := (rowsLeft (acts ++ more)).numbered_left
  refine ⟨fun hid => ?_, fun hid => ?_, ?_⟩
  · cases hq : queryRequestById (run (acts ++ more)).db id with
    | none => exact .inr rfl
    | some r =>
      obtain ⟨hr, rfl⟩ := (queryRequestById_eq_some hlater.requests).mp hq
      rw [run, List.foldl_append] at hr
      rcases mem_requests_run more hr with hmem | hlate
      · exact .inl ((queryRequestById_eq_some hnow.requests).mpr ⟨hmem, rfl⟩).symm
      · exact absurd hid (Nat.not_le.mpr hlate)
  · cases hq : queryRequestById (run acts).db id with
    | none => rfl
    | some r =>
      obtain ⟨hr, rfl⟩ := (queryRequestById_eq_some hnow.requests).mp hq
      exact absurd (hnow.requests.drawn r hr) (Nat.not_le.mpr hid)
  · rintro e he rfl
    cases hq : queryRequestById (run acts).db e.id with
    | none => rfl
    | some r =>
      obtain ⟨hr, hid⟩ := (queryRequestById_eq_some hnow.requests).mp hq
      exact absurd hid (hnow.apart r hr e he)

end Cadsa.Retention
