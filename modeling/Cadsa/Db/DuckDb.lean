import Cadsa.Core.SecurityEngine
import Cadsa.Db.Aggregation
import Cadsa.Lib.JsonDump

/-! The tables of `db/duckdb_manager.py` and the statements that fill them. The ids come from sequences, one of
which `requests` and `parse_errors` share: a number is drawn for each row, and is never given back. -/
namespace Cadsa.DuckDb
open Db Analytics Aggregation Tables PyJson SecurityEngine
set_option autoImplicit false

/-- The columns that `insert_request` fills, and the time that they start with. -/
structure RequestRow extends Request where
  uri : Option String
  query : Option String
  protocol : Option String
  userAgent : Option String
  uaBrowser : Option String
  uaOs : Option String
  uaDevice : Option String
  referer : Option String
  refererDomain : Option String
  tlsVersion : Option String
  tlsCipher : Option String
  tlsAlpn : Option String
  tlsResumed : Option Bool
  tlsEch : Option Bool
  httpProto : Option String
  loggerId : Option String
  countryName : Option String
  city : Option String
  latitude : Option ℚ
  longitude : Option ℚ
  asn : Option ℤ
  org : Option String
  isBot : Option Bool
  threatScore : Option ℤ
  logSource : Option String
  loggerName : Option String
  deriving DecidableEq

/-- A page that was asked for, with no more columns than it needs. -/
def sampleRow (ts : Time) : RequestRow where
  toRequest := ⟨ts, "a.example", "10.0.0.1", some "GET", some 200, some "2xx", some "/", none, none, none, none⟩
  uri := some "/"
  query := none
  protocol := none
  userAgent := none
  uaBrowser := none
  uaOs := none
  uaDevice := none
  referer := none
  refererDomain := none
  tlsVersion := none
  tlsCipher := none
  tlsAlpn := none
  tlsResumed := none
  tlsEch := none
  httpProto := none
  loggerId := none
  countryName := none
  city := none
  latitude := none
  longitude := none
  asn := none
  org := none
  isBot := some false
  threatScore := some 0
  logSource := none
  loggerName := none

structure ParseError where
  ts : Time
  rawLine : String
  errorMsg : String
  logSource : String
  deriving DecidableEq

structure SecurityEvent where
  ts : ℤ
  eventType : String
  severity : String
  remoteIp : String
  host : String
  uri : String
  details : String
  alertSent : Bool
  deriving DecidableEq

/-- A row and its id. -/
structure Stored (ρ : Type) where
  id : ℕ
  row : ρ
  deriving DecidableEq

/-- `seqRequests` and `seqSecurityEvents` are the last numbers drawn. -/
structure Database where
  requests : List (Stored RequestRow)
  parseErrors : List (Stored ParseError)
  securityEvents : List (Stored SecurityEvent)
  statsMinutely : StatsTable
  statsHourly : StatsTable
  seqRequests : ℕ
  seqSecurityEvents : ℕ

def Database.empty : Database :=
  ⟨[], [], [], Aggregation.State.empty.minutely.table, Aggregation.State.empty.hourly.table, 0, 0⟩

/-- What the queries and the aggregates read of `requests`. -/
def Database.requestRows (db : Database) : List Request := db.requests.map (·.row.toRequest)

/-! ## Statements -/

def EventType.name : EventType → String
  | .rateLimitTrigger => "rate_limit_trigger"
  | .sqlInjectionAttempt => "sql_injection_attempt"
  | .xssAttempt => "xss_attempt"
  | .pathTraversal => "path_traversal"
  | .knownScanner => "known_scanner"
  | .badBot => "bad_bot"
  | .portScanAttempt => "port_scan_attempt"
  | .repeatedAuthFail => "repeated_auth_fail"
  | .httpMethodAbuse => "http_method_abuse"
  | .slowRequestSpike => "slow_request_spike"

def Severity.name : Severity → String
  | .info => "info"
  | .low => "low"
  | .medium => "medium"
  | .high => "high"
  | .critical => "critical"

def Detail.json : Detail → Json
  | .int n => .int n
  | .str s => .str s

def detailsJson (details : List (String × Detail)) : Json := .obj (details.map fun d => (d.1, Detail.json d.2))

def insertRequest (db : Database) (row : RequestRow) : Database :=
  { db with
    requests := db.requests ++ [⟨db.seqRequests + 1, row⟩]
    seqRequests := db.seqRequests + 1 }

def insertParseError (db : Database) (now : Time) (rawLine errorMsg logSource : String) : Database :=
  { db with
    parseErrors := db.parseErrors ++
      [⟨db.seqRequests + 1, ⟨now, LogParser.cut 4096 rawLine, LogParser.cut 1024 errorMsg, logSource⟩⟩]
    seqRequests := db.seqRequests + 1 }

def securityEventRow (event : Event) : SecurityEvent where
  ts := event.ts
  eventType := EventType.name event.finding.eventType
  severity := Severity.name event.finding.severity
  remoteIp := event.remoteIp
  host := event.host
  uri := event.uri
  details := JsonDump.dumps (detailsJson event.finding.details)
  alertSent := false

def insertSecurityEvent (db : Database) (event : Event) : Database :=
  { db with
    securityEvents := db.securityEvents ++ [⟨db.seqSecurityEvents + 1, securityEventRow event⟩]
    seqSecurityEvents := db.seqSecurityEvents + 1 }

def minutelyTick (db : Database) (clock : Time) : Database :=
  { db with statsMinutely := aggregateMinutely clock none db.requestRows db.statsMinutely }

def hourlyTick (db : Database) (clock : Time) : Database :=
  { db with statsHourly := runHourly clock db.requestRows db.statsHourly }

/-- What the program asks of the database, cleanups apart. An insert that fails may have drawn its number. -/
inductive Statement
  | insertRequest (row : RequestRow)
  | insertParseError (now : Time) (rawLine errorMsg logSource : String)
  | insertSecurityEvent (event : Event)
  | failed (requests securityEvents : ℕ)
  | minutelyTick (clock : Time)
  | hourlyTick (clock : Time)

def Statement.run (db : Database) : Statement → Database
  | .insertRequest row => DuckDb.insertRequest db row
  | .insertParseError now rawLine errorMsg logSource => DuckDb.insertParseError db now rawLine errorMsg logSource
  | .insertSecurityEvent event => DuckDb.insertSecurityEvent db event
  | .failed requests securityEvents => { db with
      seqRequests := db.seqRequests + requests
      seqSecurityEvents := db.seqSecurityEvents + securityEvents }
  | .minutelyTick clock => DuckDb.minutelyTick db clock
  | .hourlyTick clock => DuckDb.hourlyTick db clock

/-! ## Ids -/

/-- The ids of a table, in the order of its rows, and none above the last number drawn. -/
structure Numbered {ρ : Type} (last : ℕ) (rows : List (Stored ρ)) : Prop where
  ascending : (rows.map Stored.id).Pairwise (· < ·)
  drawn : ∀ r ∈ rows, r.id ≤ last

section
variable {ρ : Type} {last : ℕ} {rows : List (Stored ρ)}

theorem Numbered.later (h : Numbered last rows) {more : ℕ} (hle : last ≤ more) : Numbered more rows :=
  ⟨h.ascending, fun r hr => (h.drawn r hr).trans hle⟩

theorem Numbered.sublist (h : Numbered last rows) {kept : List (Stored ρ)} (hs : kept.Sublist rows) :
    Numbered last kept :=
  ⟨h.ascending.sublist (hs.map Stored.id), fun r hr => h.drawn r (hs.subset hr)⟩

theorem Numbered.insert (h : Numbered last rows) (row : ρ) : Numbered (last + 1) (rows ++ [⟨last + 1, row⟩]) where
  ascending := by
    rw [List.map_append]
    refine List.pairwise_append.mpr ⟨h.ascending, List.pairwise_singleton .., fun i hi j hj => ?_⟩
    obtain ⟨r, hr, rfl⟩ := List.mem_map.mp hi
    rw [List.mem_singleton.mp hj]
    exact Nat.lt_succ_of_le (h.drawn r hr)
  drawn r hr := by
    rcases List.mem_append.mp hr with hold | hnew
    · exact Nat.le_succ_of_le (h.drawn r hold)
    · rw [List.mem_singleton.mp hnew]

/-- One row for an id. -/
theorem Numbered.eq_of_id (h : Numbered last rows) {r q : Stored ρ} (hr : r ∈ rows) (hq : q ∈ rows) (hid : r.id = q.id) :
    r = q :=
  List.inj_on_of_nodup_map (h.ascending.imp Nat.ne_of_lt) hr hq hid

end

/-! ## What a statement adds -/

def Statement.newRequests (seq : ℕ) : Statement → List (Stored RequestRow)
  | .insertRequest row => [⟨seq + 1, row⟩]
  | _ => []

def Statement.newParseErrors (seq : ℕ) : Statement → List (Stored ParseError)
  | .insertParseError now rawLine errorMsg logSource =>
    [⟨seq + 1, ⟨now, LogParser.cut 4096 rawLine, LogParser.cut 1024 errorMsg, logSource⟩⟩]
  | _ => []

def Statement.newSecurityEvents (seq : ℕ) : Statement → List (Stored SecurityEvent)
  | .insertSecurityEvent event => [⟨seq + 1, securityEventRow event⟩]
  | _ => []

/-- How many numbers it draws. -/
def Statement.drawsRequests : Statement → ℕ
  | .insertRequest _ => 1
  | .insertParseError .. => 1
  | .failed requests _ => requests
  | _ => 0

def Statement.drawsSecurityEvents : Statement → ℕ
  | .insertSecurityEvent _ => 1
  | .failed _ securityEvents => securityEvents
  | _ => 0

section
variable (db : Database) (q : Statement)

theorem seqRequests_run : (q.run db).seqRequests = db.seqRequests + q.drawsRequests := by cases q <;> rfl

theorem seqSecurityEvents_run : (q.run db).seqSecurityEvents = db.seqSecurityEvents + q.drawsSecurityEvents := by
  cases q <;> rfl

theorem requests_run : (q.run db).requests = db.requests ++ q.newRequests db.seqRequests := by
  cases q with
  | insertRequest row => rfl
  | _ => exact (List.append_nil _).symm

theorem parseErrors_run : (q.run db).parseErrors = db.parseErrors ++ q.newParseErrors db.seqRequests := by
  cases q with
  | insertParseError now rawLine errorMsg logSource => rfl
  | _ => exact (List.append_nil _).symm

theorem securityEvents_run :
    (q.run db).securityEvents = db.securityEvents ++ q.newSecurityEvents db.seqSecurityEvents := by
  cases q with
  | insertSecurityEvent event => rfl
  | _ => exact (List.append_nil _).symm

theorem lt_of_newRequests {seq : ℕ} {r : Stored RequestRow} (h : r ∈ q.newRequests seq) : seq < r.id := by
  cases q with
  | insertRequest row =>
    rw [List.mem_singleton.mp h]
    exact Nat.lt_succ_self seq
  | _ => exact absurd h List.not_mem_nil

theorem lt_of_newParseErrors {seq : ℕ} {r : Stored ParseError} (h : r ∈ q.newParseErrors seq) : seq < r.id := by
  cases q with
  | insertParseError now rawLine errorMsg logSource =>
    rw [List.mem_singleton.mp h]
    exact Nat.lt_succ_self seq
  | _ => exact absurd h List.not_mem_nil

theorem lt_of_newSecurityEvents {seq : ℕ} {r : Stored SecurityEvent} (h : r ∈ q.newSecurityEvents seq) :
    seq < r.id := by
  cases q with
  | insertSecurityEvent event =>
    rw [List.mem_singleton.mp h]
    exact Nat.lt_succ_self seq
  | _ => exact absurd h List.not_mem_nil

/-- The ids of the database: no two rows of a table share one, nor do a request and a parse error. -/
structure WellNumbered (db : Database) : Prop where
  requests : Numbered db.seqRequests db.requests
  parseErrors : Numbered db.seqRequests db.parseErrors
  securityEvents : Numbered db.seqSecurityEvents db.securityEvents
  apart : ∀ r ∈ db.requests, ∀ e ∈ db.parseErrors, r.id ≠ e.id

theorem Numbered.empty {ρ : Type} (last : ℕ) : Numbered last ([] : List (Stored ρ)) := ⟨List.Pairwise.nil, nofun⟩

theorem wellNumbered_empty : WellNumbered Database.empty where
  requests := Numbered.empty 0
  parseErrors := Numbered.empty 0
  securityEvents := Numbered.empty 0
  apart _ hr := absurd hr List.not_mem_nil

variable {db q}

theorem WellNumbered.run (h : WellNumbered db) : WellNumbered (q.run db) := by
  cases q with
  | insertRequest row =>
    refine ⟨h.requests.insert row, h.parseErrors.later (Nat.le_succ _), h.securityEvents, fun r hr e he => ?_⟩
    rcases List.mem_append.mp hr with hold | hnew
    · exact h.apart r hold e he
    · rw [List.mem_singleton.mp hnew]
      exact (Nat.lt_succ_of_le (h.parseErrors.drawn e he)).ne'
  | insertParseError now rawLine errorMsg logSource =>
    refine ⟨h.requests.later (Nat.le_succ _), h.parseErrors.insert _, h.securityEvents, fun r hr e he => ?_⟩
    rcases List.mem_append.mp he with hold | hnew
    · exact h.apart r hr e hold
    · rw [List.mem_singleton.mp hnew]
      exact (Nat.lt_succ_of_le (h.requests.drawn r hr)).ne
  | insertSecurityEvent event => exact ⟨h.requests, h.parseErrors, h.securityEvents.insert _, h.apart⟩
  | failed requests securityEvents =>
    exact ⟨h.requests.later (Nat.le_add_right ..), h.parseErrors.later (Nat.le_add_right ..),
      h.securityEvents.later (Nat.le_add_right ..), h.apart⟩
  | minutelyTick clock => exact ⟨h.requests, h.parseErrors, h.securityEvents, h.apart⟩
  | hourlyTick clock => exact ⟨h.requests, h.parseErrors, h.securityEvents, h.apart⟩

end

end Cadsa.DuckDb
