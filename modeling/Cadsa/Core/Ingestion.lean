import Mathlib.Algebra.Order.Ring.Int
import Cadsa.Core.LogParser
import Cadsa.Lib.Regex

/-! `core/enrichment.py` and the way of a line in `core/ingestion.py` from the file watcher to one of
two tables. What comes after the insert is left out, and so is the time of a parse error. -/
namespace Cadsa.Ingestion
open PyJson LogParser
set_option autoImplicit false

structure Geo where
  countryCode : Option String
  countryName : Option String
  city : Option String
  latitude : Option String
  longitude : Option String

/-- What `user_agent_parser.Parse` finds; `""` where it finds nothing. -/
structure Agent where
  family : String
  major : String
  osFamily : String
  osMajor : String
  deviceFamily : String
  brand : String

/-- The surroundings of the pipeline: `geoip` is there once a database is loaded, `stores` says
whether a VARCHAR column takes a value that is no text, and `errorText` is `str(e)`. -/
structure Machine where
  py : Python
  geoip : Option (String → Except PyError Geo)
  parseAgent : String → Except PyError Agent
  stores : Json → Bool
  errorText : PyError → String
  loggerToHosts : List (String × List String)
  sourceLabels : List (String × String)

/-! ## `enrich` -/

def badBotPatterns : List String :=
  ["nikto", "nessus", "sqlmap", "masscan", "zgrab", "nuclei", "nmap", "dirbuster", "gobuster", "wfuzz", "hydra",
    "medusa", "metasploit", "burpsuite", "acunetix", "netsparker", "appscan", "w3af", "skipfish", "whatweb",
    "httprint", "fimap", "commix", "dalfox", "jaeles", "subfinder", "amass", "feroxbuster", "ffuf", "dirb", "crawl",
    "spider", "python-requests", "go-http-client", "curl/", "wget/", "libwww", "lwp-", "scrapy", "mechanize",
    "ahrefsbot", "semrushbot", "dotbot", "majestic", "mj12bot", "petalbot", "yandexbot", "baiduspider",
    "duckduckbot", "ia_archiver", "facebookexternalhit", "twitterbot", "linkedinbot", "slackbot"]

def occurs (word s : String) : Bool := decide (word.toList <:+: s.toList)

def badBots : Regexes.Regex := Regexes.oneOf (badBotPatterns.map Regexes.word)

def isBadBot (ua : String) : Bool := badBots.search ua

def enrichGeoip (e : Machine) (row : Row) : Row :=
  match e.geoip with
  | none => row
  | some city =>
    if row.remoteIp = "" ∨ row.remoteIp ∈ ["127.0.0.1", "::1"] then row
    else match city row.remoteIp with
    | .ok geo => { row with
        countryCode := geo.countryCode
        countryName := geo.countryName
        city := geo.city
        latitude := geo.latitude
        longitude := geo.longitude }
    | .error _ => row

def versioned (family major : String) : Option String :=
  let name := if major = "" then family else family ++ " " ++ major
  if name = "" then none else some name

def deviceOf (lower : String → String) (isBot : Bool) (agent : Agent) : String :=
  let device := lower agent.deviceFamily
  let brand := lower agent.brand
  if isBot || occurs "bot" device || occurs "spider" device then "bot"
  else if occurs "mobile" device || occurs "phone" device || occurs "android" brand then "mobile"
  else if occurs "tablet" device || occurs "ipad" device then "tablet"
  else "desktop"

/-- The pattern is searched outside the `try`, and raises unless the agent is text. -/
def enrichUa (e : Machine) (row : Row) : Except PyError Row :=
  let ua := row.userAgent.getD .null
  if ua.truthy then
    match ua with
    | .str s =>
      let isBot := row.isBot || isBadBot s
      match e.parseAgent s with
      | .ok agent => .ok { row with
          isBot := isBot
          uaBrowser := versioned agent.family agent.major
          uaOs := versioned agent.osFamily agent.osMajor
          uaDevice := some (deviceOf e.py.lower isBot agent) }
      | .error _ => .ok { row with isBot := isBot, uaBrowser := none, uaOs := none, uaDevice := some "unknown" }
    | _ => .error .typeError
  else .ok { row with uaBrowser := none, uaOs := none, uaDevice := some "bot", isBot := true }

def scoreThreat (e : Machine) (row : Row) : Except PyError Row :=
  let ua := row.userAgent.getD .null
  let status := row.status.getD 0
  let scored (ua : String) : Row :=
    let score := (if isBadBot ua then 40 else 0) + (if ua = "" then 15 else 0) +
      if status ∈ [400, 401, 403, 404, 405, 429] then 5 else 0
    { row with threatScore := min score 100 }
  if ua.truthy then
    match ua with
    | .str s => .ok (scored (e.py.lower s))
    | _ => .error .attributeError
  else .ok (scored "")

def enrich (e : Machine) (row : Row) : Except PyError Row := do
  let row ← enrichUa e (enrichGeoip e row)
  scoreThreat e row

/-- The row as the parser leaves it, which fills none of the columns that `enrich` fills. -/
def unenriched (row : Row) : Row :=
  { row with
    countryCode := none
    countryName := none
    city := none
    latitude := none
    longitude := none
    uaBrowser := none
    uaOs := none
    uaDevice := none
    isBot := false
    threatScore := 0 }

section
variable {e : Machine} {row row' : Row}

theorem enrichGeoip_unenriched (e : Machine) (row : Row) : unenriched (enrichGeoip e row) = unenriched row := by
  unfold enrichGeoip
  split
  · rfl
  · split
    · rfl
    · split <;> rfl

theorem enrichUa_unenriched (h : enrichUa e row = .ok row') : unenriched row' = unenriched row := by
  unfold enrichUa at h
  dsimp only at h
  split at h
  · split at h
    · split at h <;> cases h <;> rfl
    · cases h
  · cases h
    rfl

theorem scoreThreat_unenriched (h : scoreThreat e row = .ok row') : unenriched row' = unenriched row := by
  unfold scoreThreat at h
  dsimp only at h
  split at h
  · split at h
    · cases h
      rfl
    · cases h
  · cases h
    rfl

theorem enrich_unenriched (h : enrich e row = .ok row') : unenriched row' = unenriched row := by
  obtain ⟨mid, hmid, h⟩ := Outcomes.bind_eq_ok.mp h
  exact (scoreThreat_unenriched h).trans ((enrichUa_unenriched hmid).trans (enrichGeoip_unenriched e row))

end

/-! ## The tables -/

structure ParseError where
  rawLine : String
  errorMsg : String
  logSource : String

structure Tables where
  requests : List Row
  parseErrors : List ParseError

/-- NULL, or an integer of so many bits. -/
def inWidth (bits : ℕ) (value : Option ℤ) : Bool := value.all fun n => -2 ^ (bits - 1) ≤ n && n < 2 ^ (bits - 1)

def textColumn (stores : Json → Bool) : Option Json → Bool
  | none => true
  | some (.str _) => true
  | some j => stores j

/-- Every value is one of its column's type. -/
def fits (stores : Json → Bool) (row : Row) : Bool :=
  inWidth 16 row.status && inWidth 64 row.responseBytes && inWidth 64 row.requestBytes && inWidth 32 row.durationMs &&
    inWidth 32 row.asn && inWidth 16 row.threatScore && textColumn stores row.protocol &&
    textColumn stores row.userAgent && textColumn stores row.referer && textColumn stores row.httpProto &&
    textColumn stores row.loggerId && textColumn stores row.loggerName

/-- Nothing where the database raises. -/
def insertRequest (e : Machine) (row : Row) (t : Tables) : Option Tables :=
  if fits e.stores row then some { t with requests := t.requests ++ [row] } else none

def insertParseError (rawLine errorMsg logSource : String) (t : Tables) : Tables :=
  { t with parseErrors := t.parseErrors ++ [⟨cut 4096 rawLine, cut 1024 errorMsg, logSource⟩] }

/-! ## The pipeline -/

def processLine (e : Machine) (rawLine logSource : String) (t : Tables) : Except PyError (Option Row) × Tables :=
  let label := (e.sourceLabels.lookup logSource).getD ""
  match parseLine e.py rawLine e.loggerToHosts label logSource with
  | .error err => (.ok none, insertParseError rawLine (e.errorText err) logSource t)
  | .ok none => (.ok none, t)
  | .ok (some row) => (some <$> enrich e row, t)

theorem processLine_parsed {e : Machine} {rawLine logSource : String} {t : Tables} {row' : Row}
    (h : (processLine e rawLine logSource t).1 = .ok (some row')) :
    ∃ row, parseLine e.py rawLine e.loggerToHosts ((e.sourceLabels.lookup logSource).getD "") logSource =
      .ok (some row) ∧ unenriched row' = unenriched row := by
  unfold processLine at h
  dsimp only at h
  split at h
  · cases h
  · cases h
  · rename_i row hrow
    refine ⟨row, hrow, ?_⟩
    cases henrich : enrich e row with
    | error err =>
      rw [henrich] at h
      cases h
    | ok row'' =>
      rw [henrich] at h
      cases h
      exact enrich_unenriched henrich

/-- An exception of `enrich` goes through to the caller. -/
def ingestLineAsync (e : Machine) (rawLine logSource : String) (t : Tables) : Except PyError Unit × Tables :=
  match processLine e rawLine logSource t with
  | (.error err, t) => (.error err, t)
  | (.ok none, t) => (.ok (), t)
  | (.ok (some row), t) => (.ok (), (insertRequest e row t).getD t)

end Cadsa.Ingestion
