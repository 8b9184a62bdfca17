import Mathlib.Data.Finset.Card
import Mathlib.Data.Finset.Insert
import Mathlib.Logic.Function.Basic
import Cadsa.Core.Ingestion
import Cadsa.Lib.Lowercase
import Cadsa.Lib.Outcomes
import Cadsa.Lib.Regex
import Cadsa.Lib.Window

/-! `core/security_engine.py`: the rules that a row of the log is judged by, the windows they count in,
and the cleanup of addresses that have gone quiet. Times are microseconds since 1970. -/
namespace Cadsa.SecurityEngine
open Regexes
set_option autoImplicit false

/-- Python's text, as far as the rules use it: `\\w` and `\\d` of a pattern are the last two. -/
structure Text where
  lower : String → String
  upper : String → String
  isWord : Char → Bool
  isDigit : Char → Bool

/-- Text whose letters are those of ASCII. -/
def asciiText : Text where
  lower s := String.ofList (Lowercase.lowerAscii s.toList)
  upper s := String.ofList (s.toList.map Char.toUpper)
  isWord c := c.isAlphanum || c = '_'
  isDigit := Char.isDigit

/-! ## Patterns -/

def scannerUa : Regex := oneOf (["nikto", "nessus", "sqlmap", "masscan", "zgrab", "nuclei", "nmap", "dirbuster",
  "gobuster", "wfuzz", "hydra", "medusa", "metasploit", "burpsuite", "acunetix", "netsparker", "appscan", "w3af",
  "skipfish", "whatweb", "httprint", "fimap", "commix", "dalfox", "jaeles", "feroxbuster", "ffuf", "dirb"].map word)

def badBotUa : Regex := oneOf (["ahrefsbot", "semrushbot", "dotbot", "majestic", "mj12bot", "petalbot", "yandexbot",
  "baiduspider", "ia_archiver"].map word)

def anyChar : Char → Bool := (· ≠ '\n')

def isHex (c : Char) : Bool := ('0' ≤ c && c ≤ '9') || ('a' ≤ c.toLower && c.toLower ≤ 'f')

def sqli (t : Text) : Regex := oneOf [
  concat [word "union", spaces 1, word "select"],
  concat [word "select", spaces 1, .many 0 anyChar, spaces 1, word "from"],
  concat [word "insert", spaces 1, word "into"],
  concat [word "drop", spaces 1, word "table"],
  concat [word "'", spaces 0, word "or", spaces 1, word "'1'", spaces 0, word "=", spaces 0, word "'1"],
  concat [word "--", spaces 0, .ending],
  concat [word ";", spaces 0, word "--"],
  concat [.boundary t.isWord, word "exec", spaces 0, word "("],
  word "xp_cmdshell",
  concat [word "0x", .many 4 isHex],
  concat [word "char(", .many 1 t.isDigit, word ")", spaces 0, word "+"]]

def xss (t : Text) : Regex := oneOf [
  concat [word "<script", .many 0 (· ≠ '>'), word ">"],
  word "javascript:",
  concat [word "on", .many 1 t.isWord, spaces 0, word "="],
  concat [word "<img", .many 1 (· ≠ '>'), word "src", spaces 0, word "=", spaces 0,
    option (.char fun c => c = '\'' || c = '"'), word "javascript"],
  concat [word "eval", spaces 0, word "("],
  word "document.cookie",
  concat [word "alert", spaces 0, word "("],
  concat [word "<iframe", .many 0 (· ≠ '>'), word ">"]]

def pathTraversal : Regex := oneOf [word "../", word "..\\", word "%2e%2e", word "%252e%252e", word "\x00", word "%00"]

/-! ## Rows, events and state -/

/-- The keys of a row that are read. -/
structure Row where
  ts : ℤ
  remoteIp : String
  host : String
  uri : Option String
  path : Option String
  userAgent : Option String
  method : Option String
  status : Option ℤ
  durationMs : Option ℤ
  deriving DecidableEq

/-- The row that a parsed line gives, if its user agent is text or nothing. -/
def Row.ofParsed (row : LogParser.Row) : Option Row :=
  let ua := row.userAgent.getD .null
  let ofAgent (agent : Option String) : Row :=
    ⟨row.ts, row.remoteIp, row.host, row.uri, row.path, agent, row.method, row.status, row.durationMs⟩
  if ua.truthy then
    match ua with
    | .str s => some (ofAgent (some s))
    | _ => none
  else some (ofAgent none)

theorem userAgent_of_scoreThreat {e : Ingestion.Machine} {row scored : LogParser.Row}
    (h : Ingestion.scoreThreat e row = .ok scored) : scored.userAgent = row.userAgent ∧
      ((row.userAgent.getD .null).truthy = true → ∃ text, row.userAgent.getD .null = .str text) := by
  rw [Ingestion.scoreThreat] at h
  generalize row.userAgent.getD .null = ua at h ⊢
  by_cases htrue : ua.truthy = true
  · rw [if_pos htrue] at h
    cases ua with
    | str text => exact ⟨(Except.ok.inj h).symm ▸ rfl, fun _ => ⟨text, rfl⟩⟩
    | null | bool | int | float | arr | obj => cases h
  · rw [if_neg htrue] at h
    exact ⟨(Except.ok.inj h).symm ▸ rfl, fun ht => absurd ht htrue⟩

/-- Nothing else gets as far as the engine: the enrichment raises before. -/
theorem ofParsed_of_enrich {e : Ingestion.Machine} {row enriched : LogParser.Row}
    (h : Ingestion.enrich e row = .ok enriched) : (Row.ofParsed enriched).isSome := by
  obtain ⟨mid, -, hscore⟩ := Outcomes.bind_eq_ok.mp h
  obtain ⟨hsame, htext⟩ := userAgent_of_scoreThreat hscore
  rw [Row.ofParsed, hsame]
  split_ifs with htrue
  · obtain ⟨text, ht⟩ := htext htrue
    rw [ht]
    rfl
  · rfl

structure SecurityConfig where
  rateLimitThreshold : ℤ
  slowRequestThresholdMs : ℤ
  deriving DecidableEq

inductive EventType
  | rateLimitTrigger
  | sqlInjectionAttempt
  | xssAttempt
  | pathTraversal
  | knownScanner
  | badBot
  | portScanAttempt
  | repeatedAuthFail
  | httpMethodAbuse
  | slowRequestSpike
  deriving DecidableEq

inductive Severity
  | info
  | low
  | medium
  | high
  | critical
  deriving DecidableEq

inductive Detail
  | int (n : ℤ)
  | str (s : String)
  deriving DecidableEq

/-- What a rule finds. -/
structure Finding where
  eventType : EventType
  severity : Severity
  details : List (String × Detail)
  deriving DecidableEq

structure Event where
  ts : ℤ
  finding : Finding
  remoteIp : String
  host : String
  uri : String
  deriving DecidableEq

structure State where
  ipReqWindow : String → Option (List ℤ)
  ip404Paths : String → Option (Finset String)
  ipLoginPosts : String → Option (List ℤ)
  hostReqWindow : String → Option (List ℤ)

def initial : State := ⟨fun _ => none, fun _ => none, fun _ => none, fun _ => none⟩

def seconds (n : ℤ) : ℤ := n * 1000000

/-! ## `_evaluate` -/

variable (t : Text) (cfg : SecurityConfig) (now : ℤ) (row : Row) (s : State)

def Row.lowerUri : String := t.lower (row.uri.getD "")

def Row.lowerPath : String := t.lower (row.path.getD "")

def Row.lowerUa : String := t.lower (row.userAgent.getD "")

def Row.upperMethod : String := t.upper (row.method.getD "")

def Row.is404 : Bool := row.status.getD 0 = 404

def Row.isLoginPost : Bool := row.upperMethod t = "POST" &&
  ["/login", "/auth", "/signin", "/wp-login"].any fun p => Ingestion.occurs p (row.lowerPath t)

def expireWindow (window : List ℤ) (now : ℤ) (secs : ℤ) : List ℤ := Window.expire (now - seconds secs) window

/-- One more entry under a key, and the old ones of that key expired. -/
def record (capacity : ℕ) (secs : ℤ) (windows : String → Option (List ℤ)) (key : String) (now : ℤ) :
    String → Option (List ℤ) :=
  Function.update windows key (some (expireWindow (Window.push capacity ((windows key).getD []) now) now secs))

def track : State where
  ipReqWindow := record 1000 60 s.ipReqWindow row.remoteIp now
  ip404Paths := if row.is404 then
      Function.update s.ip404Paths row.remoteIp
        (some (insert (row.lowerPath t) ((s.ip404Paths row.remoteIp).getD ∅)))
    else s.ip404Paths
  ipLoginPosts := if row.isLoginPost t then record 100 3600 s.ipLoginPosts row.remoteIp now else s.ipLoginPosts
  hostReqWindow := record 10000 60 s.hostReqWindow row.host now

theorem track_ip404Paths : (track t now row s).ip404Paths = if row.is404 then
    Function.update s.ip404Paths row.remoteIp (some (insert (row.lowerPath t) ((s.ip404Paths row.remoteIp).getD ∅)))
    else s.ip404Paths := rfl

theorem track_ipLoginPosts : (track t now row s).ipLoginPosts =
    if row.isLoginPost t then record 100 3600 s.ipLoginPosts row.remoteIp now else s.ipLoginPosts := rfl

/-- What the rules see of the state, for the address of a row. -/
structure Counts where
  requests : ℕ
  paths404 : ℕ
  loginPosts : ℕ
  deriving DecidableEq

def counts (ip : String) : Counts where
  requests := ((s.ipReqWindow ip).getD []).length
  paths404 := ((s.ip404Paths ip).getD ∅).card
  loginPosts := ((s.ipLoginPosts ip).getD []).length

section
variable (n : Counts)

def rateLimitRule : List Finding :=
  if cfg.rateLimitThreshold ≤ n.requests then
    [⟨.rateLimitTrigger, .high, [("req_per_min", .int n.requests), ("threshold", .int cfg.rateLimitThreshold)]⟩]
  else []

def sqliRule : List Finding :=
  if (sqli t).search (row.lowerUri t) then
    [⟨.sqlInjectionAttempt, .high, [("pattern", .str "sqli"), ("uri", .str (LogParser.cut 500 (row.lowerUri t)))]⟩]
  else []

def xssRule : List Finding :=
  if (xss t).search (row.lowerUri t) then
    [⟨.xssAttempt, .medium, [("uri", .str (LogParser.cut 500 (row.lowerUri t)))]⟩]
  else []

def pathTraversalRule : List Finding :=
  if pathTraversal.search (row.lowerUri t) then
    [⟨.pathTraversal, .high, [("uri", .str (LogParser.cut 500 (row.lowerUri t)))]⟩]
  else []

def scannerRule : List Finding :=
  if scannerUa.search (row.lowerUa t) then
    [⟨.knownScanner, .critical, [("ua", .str (LogParser.cut 200 (row.lowerUa t)))]⟩]
  else []

def badBotRule : List Finding :=
  if badBotUa.search (row.lowerUa t) && !scannerUa.search (row.lowerUa t) then
    [⟨.badBot, .low, [("ua", .str (LogParser.cut 200 (row.lowerUa t)))]⟩]
  else []

def emptyUaRule : List Finding :=
  if row.lowerUa t = "" ∧ 50 < n.requests then
    [⟨.badBot, .medium, [("ua", .str "empty"), ("req_per_min", .int n.requests)]⟩]
  else []

def portScanRule : List Finding :=
  if row.is404 ∧ 50 < n.paths404 then
    [⟨.portScanAttempt, .high, [("unique_404_paths", .int n.paths404)]⟩]
  else []

def authFailRule : List Finding :=
  if row.isLoginPost t ∧ 10 < n.loginPosts then
    [⟨.repeatedAuthFail, .high, [("login_attempts", .int n.loginPosts)]⟩]
  else []

def methodAbuseRule : List Finding :=
  if row.upperMethod t ∈ ["TRACE", "CONNECT"] ∨ row.upperMethod t = "OPTIONS" ∧ 20 < n.requests then
    [⟨.httpMethodAbuse, .medium, [("method", .str (row.upperMethod t))]⟩]
  else []

def slowRequestRule : List Finding :=
  if cfg.slowRequestThresholdMs < row.durationMs.getD 0 then
    [⟨.slowRequestSpike, .info,
      [("duration_ms", .int (row.durationMs.getD 0)), ("threshold", .int cfg.slowRequestThresholdMs)]⟩]
  else []

def findings : List Finding :=
  rateLimitRule cfg n ++ sqliRule t row ++ xssRule t row ++ pathTraversalRule t row ++ scannerRule t row ++
    badBotRule t row ++ emptyUaRule t row n ++ portScanRule row n ++ authFailRule t row n ++ methodAbuseRule t row n ++
    slowRequestRule cfg row

/-- The findings of one type: two rules find bad bots. -/
def findingsOf : EventType → List Finding
  | .rateLimitTrigger => rateLimitRule cfg n
  | .sqlInjectionAttempt => sqliRule t row
  | .xssAttempt => xssRule t row
  | .pathTraversal => pathTraversalRule t row
  | .knownScanner => scannerRule t row
  | .badBot => badBotRule t row ++ emptyUaRule t row n
  | .portScanAttempt => portScanRule row n
  | .repeatedAuthFail => authFailRule t row n
  | .httpMethodAbuse => methodAbuseRule t row n
  | .slowRequestSpike => slowRequestRule cfg row

variable {t cfg row n}

theorem eventType_of_mem {type : EventType} {f : Finding} (h : f ∈ findingsOf t cfg row n type) : f.eventType = type := by
  cases type <;> simp only [findingsOf, rateLimitRule, sqliRule, xssRule, pathTraversalRule, scannerRule, badBotRule,
    emptyUaRule, portScanRule, authFailRule, methodAbuseRule, slowRequestRule, List.mem_append, List.mem_ite_nil_right,
    List.mem_singleton] at h
  case badBot =>
    rcases h with ⟨-, rfl⟩ | ⟨-, rfl⟩
    · rfl
    · rfl
  all_goals
    obtain ⟨-, rfl⟩ := h
    rfl

theorem mem_findings {f : Finding} : f ∈ findings t cfg row n ↔ f ∈ findingsOf t cfg row n f.eventType := by
  have hsome : f ∈ findings t cfg row n ↔ ∃ type, f ∈ findingsOf t cfg row n type := by
    constructor
    · intro h
      simp only [findings, List.mem_append] at h
      rcases h with (((((((((h | h) | h) | h) | h) | h) | h) | h) | h) | h) | h
      · exact ⟨.rateLimitTrigger, h⟩
      · exact ⟨.sqlInjectionAttempt, h⟩
      · exact ⟨.xssAttempt, h⟩
      · exact ⟨.pathTraversal, h⟩
      · exact ⟨.knownScanner, h⟩
      · exact ⟨.badBot, List.mem_append_left _ h⟩
      · exact ⟨.badBot, List.mem_append_right _ h⟩
      · exact ⟨.portScanAttempt, h⟩
      · exact ⟨.repeatedAuthFail, h⟩
      · exact ⟨.httpMethodAbuse, h⟩
      · exact ⟨.slowRequestSpike, h⟩
    · rintro ⟨type, h⟩
      simp only [findings, List.mem_append]
      cases type <;> simp only [findingsOf, List.mem_append] at h
      case badBot =>
        rcases h with h | h
        · simp only [h, true_or, or_true]
        · simp only [h, true_or, or_true]
      all_goals simp only [h, true_or, or_true]
  rw [hsome]
  constructor
  · rintro ⟨type, h⟩
    rw [eventType_of_mem h]
    exact h
  · exact fun h => ⟨_, h⟩

end

def makeEvent (finding : Finding) : Event := ⟨now, finding, row.remoteIp, row.host, row.uri.getD ""⟩

def evaluate : State × List Event :=
  let s := track t now row s
  (s, (findings t cfg row (counts s row.remoteIp)).map (makeEvent now row))

/-- What has been stored, and what the callbacks have been called with. -/
structure Delivered (κ : Type) where
  stored : List Event
  broadcast : List (κ × Event)
  deriving DecidableEq

/-- Each event on its own: one that the database refuses is not passed on. `stores` says how each insert ends. -/
def deliver {κ : Type} (callbacks : List κ) (stores : ℕ → Bool) (events : List Event) : Delivered κ :=
  let stored := (events.zipIdx.filter fun e => stores e.2).map Prod.fst
  ⟨stored, stored.flatMap fun e => callbacks.map fun cb => (cb, e)⟩

def evaluateAsync {κ : Type} (callbacks : List κ) (stores : ℕ → Bool) : State × Delivered κ :=
  let (s, events) := evaluate t cfg now row s
  (s, deliver callbacks stores events)

/-! ## `cleanup_stale_ip_data` -/

/-- `not w or w[-1] < cutoff`. -/
def isStale (cutoff : ℤ) (window : List ℤ) : Bool := window.getLast?.all (· < cutoff)

def State.stale (ip : String) : Bool := (s.ipReqWindow ip).any (isStale (now - seconds 3600))

def cleanupStaleIpData : State where
  ipReqWindow ip := if s.stale now ip then none else s.ipReqWindow ip
  ip404Paths ip := if s.stale now ip then none else s.ip404Paths ip
  ipLoginPosts ip := if s.stale now ip then none else s.ipLoginPosts ip
  hostReqWindow := s.hostReqWindow

end Cadsa.SecurityEngine
