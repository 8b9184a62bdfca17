import Cadsa.Db.DuckDb
import Cadsa.Db.RequestsPage

/-! The endpoints that show security events: a page of those that match a query, and one by its id. The details
are text in the table, and are parsed for every response. -/
namespace Cadsa.SecurityEvents
open Db DuckDb PyJson SecurityEngine Paging OrderDual
open RequestsPage (totalPages le_totalPages)
set_option autoImplicit false

structure EventQuery where
  fromTs : Time
  toTs : Time
  host : Option String
  remoteIp : Option String
  eventType : Option String
  severity : Option String

/-- A clause for a value that is there and not empty. -/
def clause (value : Option String) (column : String) : Bool := value.all fun s => s = "" || column = s

def EventQuery.holds (q : EventQuery) (r : SecurityEvent) : Bool :=
  q.fromTs ≤ r.ts && r.ts ≤ q.toTs && clause q.host r.host && clause q.remoteIp r.remoteIp &&
    clause q.eventType r.eventType && clause q.severity r.severity

structure EventView where
  id : ℕ
  ts : String
  eventType : String
  severity : String
  remoteIp : String
  host : String
  uri : String
  details : Json
  alertSent : Bool

abbrev SecurityEventsTable := List (Stored SecurityEvent)

def eventKey (r : Stored SecurityEvent) : ℤᵒᵈ := toDual r.row.ts

/-- `ORDER BY ts DESC`: events of one time in any order. -/
abbrev EventOrder := OrderBy eventKey

inductive Response
  | ok (event : EventView)
  | notFound (detail : String)
  | serverError

section
variable (isoformat : ℤ → String)

def viewWith (r : Stored SecurityEvent) (details : Json) : EventView where
  id := r.id
  ts := isoformat r.row.ts
  eventType := r.row.eventType
  severity := r.row.severity
  remoteIp := r.row.remoteIp
  host := r.row.host
  uri := r.row.uri
  details := details
  alertSent := r.row.alertSent

/-- Nothing where the details cannot be parsed. -/
def view (r : Stored SecurityEvent) : Option EventView :=
  (if r.row.details = "" then some (.obj []) else JsonDump.loads r.row.details).map (viewWith isoformat r)

def querySecurityEvents (events : SecurityEventsTable) (q : EventQuery) (limit offset : ℕ) (db : EventOrder) :
    Option (List EventView × ℕ) := do
  let rows := events.filter fun r => q.holds r.row
  let data ← (((db.run rows).drop offset).take limit).mapM (view isoformat)
  return (data, rows.length)

structure EventsPage where
  total : ℕ
  page : ℕ
  limit : ℕ
  data : List EventView

def getSecurityEvents (events : SecurityEventsTable) (q : EventQuery) (page limit : ℕ) (db : EventOrder) :
    Option EventsPage := do
  let (rows, total) ← querySecurityEvents isoformat events q limit ((page - 1) * limit) db
  return ⟨total, page, limit, rows⟩

def getSecurityEvent (events : SecurityEventsTable) (eventId : ℕ) : Response :=
  match events.find? fun r => r.id = eventId with
  | none => .notFound "Event not found"
  | some r => (view isoformat r).elim .serverError .ok

end

/-! ## What an event is shown as -/

theorem dumpable_details {details : List (String × Detail)} (h : (details.map Prod.fst).Nodup) :
    JsonDump.Dumpable (detailsJson details) := by
  refine .obj (by rwa [List.map_map]) fun m hm => ?_
  obtain ⟨d, -, rfl⟩ := List.mem_map.mp hm
  obtain ⟨key, value⟩ := d
  cases value with
  | int n => exact .int n
  | str s => exact .str s

section
variable {t : Text} {cfg : SecurityConfig} {row : Row} {n : Counts}

/-- No rule writes a key twice. -/
theorem details_nodup {f : Finding} (h : f ∈ findings t cfg row n) : (f.details.map Prod.fst).Nodup := by
  rw [mem_findings] at h
  cases htype : f.eventType <;> rw [htype] at h <;> simp only [findingsOf, rateLimitRule, sqliRule, xssRule,
    pathTraversalRule, scannerRule, badBotRule, emptyUaRule, portScanRule, authFailRule, methodAbuseRule,
    slowRequestRule, List.mem_append, List.mem_ite_nil_right, List.mem_singleton] at h
  case badBot =>
    rcases h with ⟨-, rfl⟩ | ⟨-, rfl⟩
    · exact List.nodup_singleton _
    · exact List.nodup_cons.mpr ⟨by simp, List.nodup_singleton _⟩
  case rateLimitTrigger | sqlInjectionAttempt | slowRequestSpike =>
    obtain ⟨-, rfl⟩ := h
    exact List.nodup_cons.mpr ⟨by simp, List.nodup_singleton _⟩
  all_goals
    obtain ⟨-, rfl⟩ := h
    exact List.nodup_singleton _

end

section
variable (isoformat : ℤ → String)

def eventView (id : ℕ) (e : Event) : EventView where
  id := id
  ts := isoformat e.ts
  eventType := EventType.name e.finding.eventType
  severity := Severity.name e.finding.severity
  remoteIp := e.remoteIp
  host := e.host
  uri := e.uri
  details := detailsJson e.finding.details
  alertSent := false

theorem view_row (id : ℕ) {e : Event} (h : (e.finding.details.map Prod.fst).Nodup) :
    view isoformat ⟨id, securityEventRow e⟩ = some (eventView isoformat id e) := by
  have hdump := dumpable_details h
  have hloads : JsonDump.loads (securityEventRow e).details = some (detailsJson e.finding.details) :=
    JsonDump.loads_dumps hdump
  have hne : (securityEventRow e).details ≠ "" := JsonDump.dumps_ne_empty hdump
  show Option.map _ (if (securityEventRow e).details = "" then _ else JsonDump.loads (securityEventRow e).details) = _
  rw [if_neg hne, hloads]
  rfl

end

/-! ## Paging through -/

def matching (events : SecurityEventsTable) (q : EventQuery) : SecurityEventsTable := events.filter fun r => q.holds r.row

/-- Every row can be shown. -/
def Readable (isoformat : ℤ → String) (events : SecurityEventsTable) : Prop :=
  ∀ r ∈ events, (view isoformat r).isSome = true

/-- Whatever order the database chooses at each query, the pages show the matching events, each once. -/
def EveryEventOnce (isoformat : ℤ → String) (events : SecurityEventsTable) (q : EventQuery) (limit : ℕ) : Prop :=
  ∀ choice : ℕ → EventOrder, ∃ data : ℕ → List EventView,
    (∀ k < totalPages (matching events q).length limit, getSecurityEvents isoformat events q (k + 1) limit (choice k) =
      some ⟨(matching events q).length, k + 1, limit, data k⟩) ∧
    ((List.range (totalPages (matching events q).length limit)).flatMap data).Perm
      ((matching events q).filterMap (view isoformat))

section
variable {isoformat : ℤ → String} {events : SecurityEventsTable} {q : EventQuery} {limit : ℕ}

theorem mapM_view {rows : SecurityEventsTable} (h : Readable isoformat rows) :
    rows.mapM (view isoformat) = some (rows.filterMap (view isoformat)) := by
  induction rows with
  | nil => rfl
  | cons r rows ih =>
    obtain ⟨v, hv⟩ := Option.isSome_iff_exists.mp (h r List.mem_cons_self)
    rw [List.mapM_cons, hv, ih fun r' hr' => h r' (List.mem_cons_of_mem r hr'), List.filterMap_cons_some hv]
    rfl

theorem getSecurityEvents_eq (hread : Readable isoformat events) (db : EventOrder) (k : ℕ) :
    getSecurityEvents isoformat events q (k + 1) limit db = some ⟨(matching events q).length, k + 1, limit,
      (page limit k (db.run (matching events q))).filterMap (view isoformat)⟩ := by
  have hpage : Readable isoformat (page limit k (db.run (matching events q))) := fun r hr => by
    have hrun : r ∈ db.run (matching events q) := List.mem_of_mem_drop (List.mem_of_mem_take hr)
    exact hread r (List.mem_of_mem_filter ((db.ordered _).perm.mem_iff.mp hrun))
  have hmap := mapM_view hpage
  rw [page, matching] at hmap
  rw [getSecurityEvents, querySecurityEvents, Nat.add_sub_cancel, hmap]
  rfl

theorem view_id {r : Stored SecurityEvent} {v : EventView} (h : view isoformat r = some v) : v.id = r.id := by
  obtain ⟨details, -, rfl⟩ := Option.map_eq_some_iff.mp h
  rfl

theorem map_id_view {rows : SecurityEventsTable} (h : Readable isoformat rows) :
    (rows.filterMap (view isoformat)).map EventView.id = rows.map Stored.id := by
  induction rows with
  | nil => rfl
  | cons r rows ih =>
    obtain ⟨v, hv⟩ := Option.isSome_iff_exists.mp (h r List.mem_cons_self)
    rw [List.filterMap_cons_some hv, List.map_cons, List.map_cons, view_id hv,
      ih fun r' hr' => h r' (List.mem_cons_of_mem r hr')]

/-- **Pages of events.** They show every matching event once, in every order that the database may choose, if and
only if no two events of one time stand on the two sides of a page boundary. -/
theorem every_event_once_iff {last : ℕ} (hn : Numbered last events) (hread : Readable isoformat events) (hl : 1 ≤ limit) :
    EveryEventOnce isoformat events q limit ↔ Separated eventKey limit (matching events q) := by
  have hids : ((matching events q).map Stored.id).Nodup :=
    ((hn.sublist List.filter_sublist).ascending).imp Nat.ne_of_lt
  constructor
  · intro h
    refine separated_of_nodup hl (le_totalPages _ hl) fun choice hc => ?_
    obtain ⟨data, hdata, hperm⟩ := h fun k => OrderBy.giving (hc k)
    have hpages : (List.range (totalPages (matching events q).length limit)).flatMap data =
        (pages limit (totalPages (matching events q).length limit) choice).filterMap (view isoformat) := by
      rw [pages, List.filterMap_flatMap]
      refine List.flatMap_congr fun k hk => ?_
      have hpage := hdata k (List.mem_range.mp hk)
      rw [getSecurityEvents_eq hread, OrderBy.run_giving] at hpage
      exact (congrArg EventsPage.data (Option.some.inj hpage)).symm
    have hreadPages : Readable isoformat (pages limit (totalPages (matching events q).length limit) choice) := by
      intro r hr
      obtain ⟨k, -, hk⟩ := List.mem_flatMap.mp hr
      have hchoice : r ∈ choice k := List.mem_of_mem_drop (List.mem_of_mem_take hk)
      exact hread r (List.mem_of_mem_filter ((hc k).perm.mem_iff.mp hchoice))
    have hreadMatching : Readable isoformat (matching events q) := fun r hr => hread r (List.mem_of_mem_filter hr)
    rw [hpages] at hperm
    have hmap := hperm.map EventView.id
    rw [map_id_view hreadPages, map_id_view hreadMatching] at hmap
    exact List.Nodup.of_map _ (hmap.nodup_iff.mpr hids)
  · intro hs choice
    refine ⟨_, fun k _ => getSecurityEvents_eq hread (choice k) k, ?_⟩
    have hperm := pages_perm hs (le_totalPages _ hl) fun k => (choice k).ordered (matching events q)
    have hviews := hperm.filterMap (view isoformat)
    rwa [pages, List.filterMap_flatMap] at hviews

end

end Cadsa.SecurityEvents
