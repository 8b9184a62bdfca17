import Mathlib.Data.List.DropRight
import Cadsa.Lib.Lowercase
import Cadsa.Lib.Outcomes
import Cadsa.Lib.PyJson
import Cadsa.Lib.PyText

/-! `core/log_parser.py`: from a line of Caddy's access log to the columns of a request. A member of
the line may be of any JSON type, and which operations that makes raise is part of the model. -/
namespace Cadsa.LogParser
open PyJson PyText
set_option autoImplicit false

structure Url where
  path : String
  query : String
  netloc : String

/-- What the code takes from Python's library. A float is its `repr`, a date the microseconds since 1970. -/
structure Python where
  loads : String → Except PyError Json
  containerRepr : Json → String
  floatOfInt : ℤ → Except PyError String
  floatOfStr : String → Except PyError String
  intOfFloat : String → Except PyError ℤ
  intOfStr : String → Except PyError ℤ
  timesThousand : String → String
  fromTimestamp : String → Except PyError ℤ
  lower : String → String
  upper : String → String
  urlparse : String → Except PyError Url

section
variable (py : Python)

def pyFloat : Json → Except PyError String
  | .float r => .ok r
  | .int n => py.floatOfInt n
  | .bool b => .ok (if b then "1.0" else "0.0")
  | .str s => py.floatOfStr s
  | .null | .arr _ | .obj _ => .error .typeError

def pyInt : Json → Except PyError ℤ
  | .int n => .ok n
  | .bool b => .ok (if b then 1 else 0)
  | .float r => py.intOfFloat r
  | .str s => py.intOfStr s
  | .null | .arr _ | .obj _ => .error .typeError

def text (j : Json) : String := j.pyStr py.containerRepr

/-! ## Helpers -/

def decodeTls (names : List (ℤ × String)) : Json → Option String
  | .null => none
  | .int v => some ((names.lookup v).getD ("UNKNOWN(" ++ toString v ++ ")"))
  -- `True` and `False` are integers, but none of the keys.
  | .bool b => some ("UNKNOWN(" ++ text py (.bool b) ++ ")")
  | v => some (text py v)

def tlsVersionMap : List (ℤ × String) := [(769, "TLS 1.0"), (770, "TLS 1.1"), (771, "TLS 1.2"), (772, "TLS 1.3")]

def tlsCipherMap : List (ℤ × String) :=
  [(4865, "TLS_AES_128_GCM_SHA256"), (4866, "TLS_AES_256_GCM_SHA384"), (4867, "TLS_CHACHA20_POLY1305_SHA256"),
    (49195, "TLS_ECDHE_ECDSA_WITH_AES_128_GCM_SHA256"), (49196, "TLS_ECDHE_ECDSA_WITH_AES_256_GCM_SHA384"),
    (49199, "TLS_ECDHE_RSA_WITH_AES_128_GCM_SHA256"), (49200, "TLS_ECDHE_RSA_WITH_AES_256_GCM_SHA384"),
    (52392, "TLS_ECDHE_RSA_WITH_CHACHA20_POLY1305"), (52393, "TLS_ECDHE_ECDSA_WITH_CHACHA20_POLY1305")]

def decodeTlsVersion (v : Json) : Option String := decodeTls py tlsVersionMap v

def decodeTlsCipher (c : Json) : Option String := decodeTls py tlsCipherMap c

/-- `deep_get` with names only: nothing where a step is missing or no dict. -/
def deepGet : Json → List String → Json
  | d, [] => d
  | .obj members, key :: keys => deepGet (getMember members key) keys
  | _, _ :: _ => .null

/-- The first element of a list may be of any type. -/
def getHeader (entry : Json) (name : String) : Json :=
  match deepGet entry ["request", "headers", name] with
  | .null => .null
  | .arr items => items.headD .null
  | v => .str (text py v)

def cleanHost (h : String) : String :=
  let h := (strip h.toList).rdropWhile (· = '.')
  if h = [] then ""
  else
    let inner := match h with
      | '[' :: rest => if ']' ∈ rest then rest.takeWhile (· ≠ ']') else h
      | _ => if h.count ':' = 1 then h.takeWhile (· ≠ ':') else h
    py.lower (String.ofList inner)

def cleanIp (ip : String) : String :=
  let ip := strip ip.toList
  let ip := match ip with
    | '[' :: rest => rest
    | _ => ip
  let ip := (ip.takeWhile (· ≠ ']')).takeWhile (· ≠ '%')
  String.ofList (if ip.count ':' = 1 then ip.takeWhile (· ≠ ':') else ip)

def loggerName (members : List (String × Json)) : Json := (members.lookup "logger").getD (.str "")

/-- What follows the last dot. -/
def loggerId (logger : Json) : Except PyError Json := do
  if ← logger.contains "." then
    match logger with
    | .str s => pure (.str (String.ofList (s.toList.rtakeWhile (· ≠ '.'))))
    | _ => .error .attributeError
  else pure logger

/-- The value is there and its text is not blank. -/
def nonblank (j : Json) : Bool := j.truthy && decide (strip (text py j).toList ≠ [])

/-- `host_header and host_header.strip()`. -/
def headerGiven : Json → Except PyError Bool
  | .str s => .ok (strip s.toList ≠ [])
  | j => if j.truthy then .error .attributeError else .ok false

/-- The host that Caddy's configuration has for the logger, or the label of the source. -/
def fallbackHost (loggerToHosts : List (String × List String)) (sourceLabel : String) (loggerId : Json) :
    Except PyError String :=
  let label := if sourceLabel = "" then "unknown" else sourceLabel
  if loggerId.truthy then
    match loggerId with
    | .str s => .ok (((loggerToHosts.lookup s).getD []).headD label)
    -- A list is not hashable.
    | _ => .error .typeError
  else .ok label

def resolveHost (loggerToHosts : List (String × List String)) (sourceLabel : String) (members : List (String × Json)) :
    Except PyError String :=
  let h := deepGet (.obj members) ["request", "host"]
  let sni := deepGet (.obj members) ["request", "tls", "server_name"]
  let header := getHeader py (.obj members) "Host"
  if nonblank py h then .ok (cleanHost py (text py h))
  else if nonblank py sni then .ok (cleanHost py (text py sni))
  else do
    if ← headerGiven header then pure (cleanHost py (text py header))
    else
      let id ← loggerId (loggerName members)
      fallbackHost loggerToHosts sourceLabel id

def extractPathAndQuery (uri : String) : String × String :=
  if uri = "" then ("", "")
  else match py.urlparse uri with
  | .ok url => (url.path, url.query)
  | .error _ => (String.ofList (uri.toList.takeWhile (· ≠ '?')), String.ofList ((uri.toList.dropWhile (· ≠ '?')).drop 1))

/-- Of anything but text `urlparse` raises, and the exception is caught. -/
def extractRefererDomain : Json → String
  | .str s =>
    if s = "" then ""
    else match py.urlparse s with
    | .ok url => url.netloc
    | .error _ => ""
  | _ => ""

def getStatusClass : Option ℤ → Option String
  | none => none
  | some status =>
    if 200 ≤ status ∧ status < 300 then some "2xx"
    else if 300 ≤ status ∧ status < 400 then some "3xx"
    else if 400 ≤ status ∧ status < 500 then some "4xx"
    else if 500 ≤ status ∧ status < 600 then some "5xx"
    else none

/-! ## `parse_line` -/

/-- The keys of the returned dict. The columns that are sliced without a `str` may hold a list. -/
structure Row where
  ts : ℤ
  host : String
  remoteIp : String
  method : Option String
  uri : Option String
  path : Option String
  query : Option String
  protocol : Option Json
  status : Option ℤ
  statusClass : Option String
  responseBytes : Option ℤ
  requestBytes : Option ℤ
  durationMs : Option ℤ
  userAgent : Option Json
  uaBrowser : Option String
  uaOs : Option String
  uaDevice : Option String
  referer : Option Json
  refererDomain : Option String
  tlsVersion : Option String
  tlsCipher : Option String
  tlsAlpn : Option String
  tlsResumed : Option Bool
  tlsEch : Option Bool
  httpProto : Option Json
  loggerId : Option Json
  loggerName : Option Json
  logSource : String
  countryCode : Option String
  countryName : Option String
  city : Option String
  latitude : Option String
  longitude : Option String
  asn : Option ℤ
  org : Option String
  isBot : Bool
  threatScore : ℤ

def cut (n : ℕ) (s : String) : String := String.ofList (s.toList.take n)

/-- `s[:n] if s else None`. -/
def cutText (n : ℕ) (s : String) : Option String := if s = "" then none else some (cut n s)

/-- `j[:n] if j else None`. -/
def slice (n : ℕ) (j : Json) : Except PyError (Option Json) :=
  if j.truthy then
    match j with
    | .str s => .ok (some (.str (cut n s)))
    | .arr items => .ok (some (.arr (items.take n)))
    | _ => .error .typeError
  else .ok none

/-- `method.upper()[:10] if method else None`. -/
def upperMethod (j : Json) : Except PyError (Option String) :=
  if j.truthy then
    match j with
    | .str s => .ok (some (cut 10 (py.upper s)))
    | _ => .error .attributeError
  else .ok none

def optInt (j : Json) : Except PyError (Option ℤ) :=
  match j with
  | .null => .ok none
  | j => some <$> pyInt py j

def durationMs (j : Json) : Except PyError (Option ℤ) :=
  match j with
  | .null => .ok none
  | j => do
    let seconds ← pyFloat py j
    some <$> py.intOfFloat (py.timesThousand seconds)

def optBool (j : Json) : Option Bool :=
  match j with
  | .null => none
  | j => some j.truthy

/-! The values that the columns are read from. -/

variable (m : List (String × Json))

def tsRaw : Json := ((getMember m "ts").or (getMember m "time")).or (getMember m "timestamp")

def remoteIpRaw : Json :=
  ((deepGet (.obj m) ["request", "client_ip"]).or (deepGet (.obj m) ["request", "remote_ip"])).or
    ((deepGet (.obj m) ["request", "remote_addr"]).or (.str ""))

def methodRaw : Json := (deepGet (.obj m) ["request", "method"]).or (.str "")

def uriRaw : Json := ((deepGet (.obj m) ["request", "uri"]).or (deepGet (.obj m) ["request", "url"])).or (.str "")

def protoRaw : Json := (deepGet (.obj m) ["request", "proto"]).or (.str "")

def statusRaw : Json := (getMember m "status").or (deepGet (.obj m) ["response", "status"])

def responseBytesRaw : Json :=
  ((getMember m "size").or (deepGet (.obj m) ["response", "size"])).or (getMember m "bytes_written")

def requestBytesRaw : Json := (getMember m "bytes_read").or (deepGet (.obj m) ["request", "bytes_read"])

def durationRaw : Json := getMember m "duration"

def userAgentRaw : Json := (getHeader py (.obj m) "User-Agent").or (.str "")

def refererRaw : Json := ((getHeader py (.obj m) "Referer").or (getHeader py (.obj m) "Referrer")).or (.str "")

def parseEntry (loggerToHosts : List (String × List String)) (sourceLabel logSource : String) : Except PyError Row := do
  let seconds ← pyFloat py (tsRaw m)
  let ts ← py.fromTimestamp seconds
  let id ← loggerId (loggerName m)
  let host ← resolveHost py loggerToHosts sourceLabel m
  let pathAndQuery := extractPathAndQuery py (text py (uriRaw m))
  let status ← optInt py (statusRaw m)
  let responseBytes ← optInt py (responseBytesRaw m)
  let requestBytes ← optInt py (requestBytesRaw m)
  let duration ← durationMs py (durationRaw m)
  let tlsAlpn := deepGet (.obj m) ["request", "tls", "proto"]
  let method ← upperMethod py (methodRaw m)
  let protocol ← slice 10 (protoRaw m)
  let userAgent ← slice 512 (userAgentRaw py m)
  let referer ← slice 512 (refererRaw py m)
  let loggerId ← slice 20 id
  let logger ← slice 64 (loggerName m)
  pure {
    ts := ts
    host := host
    remoteIp := cleanIp (text py (remoteIpRaw m))
    method := method
    uri := if (uriRaw m).truthy then some (cut 4096 (text py (uriRaw m))) else none
    path := cutText 2048 pathAndQuery.1
    query := cutText 2048 pathAndQuery.2
    protocol := protocol
    status := status
    statusClass := getStatusClass status
    responseBytes := responseBytes
    requestBytes := requestBytes
    durationMs := duration
    userAgent := userAgent
    uaBrowser := none
    uaOs := none
    uaDevice := none
    referer := referer
    refererDomain := cutText 128 (extractRefererDomain py (refererRaw py m))
    tlsVersion := decodeTlsVersion py (deepGet (.obj m) ["request", "tls", "version"])
    tlsCipher := decodeTlsCipher py (deepGet (.obj m) ["request", "tls", "cipher_suite"])
    tlsAlpn := if tlsAlpn.truthy then some (cut 10 (text py tlsAlpn)) else none
    tlsResumed := optBool (deepGet (.obj m) ["request", "tls", "resumed"])
    tlsEch := optBool (deepGet (.obj m) ["request", "tls", "ech"])
    httpProto := protocol
    loggerId := loggerId
    loggerName := logger
    logSource := logSource
    countryCode := none
    countryName := none
    city := none
    latitude := none
    longitude := none
    asn := none
    org := none
    isBot := false
    threatScore := 0 }

/-- Nothing for a line that is no access log line, and for one without a time. -/
def parseLine (rawLine : String) (loggerToHosts : List (String × List String)) (sourceLabel logSource : String) :
    Except PyError (Option Row) :=
  let line := strip rawLine.toList
  if line = [] then .ok none
  else do
    match ← py.loads (String.ofList line) with
    | .obj m =>
      if (getMember m "msg").isStr "handled request" then
        match tsRaw m with
        | .null => pure none
        | _ => some <$> parseEntry py m loggerToHosts sourceLabel logSource
      else pure none
    | _ => .error .attributeError

end

/-! ## Where a row comes from -/

section
variable {py : Python} {m : List (String × Json)} {rawLine : String} {hosts : List (String × List String)}
  {label source : String} {row : Row}

theorem parseEntry_host (h : parseEntry py m hosts label source = .ok row) :
    resolveHost py hosts label m = .ok row.host := by
  simp only [parseEntry, Outcomes.bind_eq_ok] at h
  obtain ⟨seconds, -, ts, -, id, -, host, hhost, status, -, rb, -, qb, -, ms, -, method, -, proto, -, agent, -,
    referer, -, lid, -, logger, -, hrow⟩ := h
  cases hrow
  exact hhost

theorem parseEntry_ts (h : parseEntry py m hosts label source = .ok row) :
    ∃ seconds, pyFloat py (tsRaw m) = .ok seconds ∧ py.fromTimestamp seconds = .ok row.ts := by
  simp only [parseEntry, Outcomes.bind_eq_ok] at h
  obtain ⟨seconds, hseconds, ts, hts, id, -, host, -, status, -, rb, -, qb, -, ms, -, method, -, proto, -, agent, -,
    referer, -, lid, -, logger, -, hrow⟩ := h
  cases hrow
  exact ⟨seconds, hseconds, hts⟩

theorem parseEntry_path (h : parseEntry py m hosts label source = .ok row) :
    row.path = cutText 2048 (extractPathAndQuery py (text py (uriRaw m))).1 ∧
      row.query = cutText 2048 (extractPathAndQuery py (text py (uriRaw m))).2 := by
  simp only [parseEntry, Outcomes.bind_eq_ok] at h
  obtain ⟨seconds, -, ts, -, id, -, host, -, status, -, rb, -, qb, -, ms, -, method, -, proto, -, agent, -, referer, -,
    lid, -, logger, -, hrow⟩ := h
  cases hrow
  exact ⟨rfl, rfl⟩

/-- The line is an object of an access log with a time. -/
theorem parseLine_eq_some (h : parseLine py rawLine hosts label source = .ok (some row)) :
    ∃ m, strip rawLine.toList ≠ [] ∧ py.loads (String.ofList (strip rawLine.toList)) = .ok (.obj m) ∧
      (getMember m "msg").isStr "handled request" = true ∧ tsRaw m ≠ .null ∧
      parseEntry py m hosts label source = .ok row := by
  unfold parseLine at h
  dsimp only at h
  by_cases hline : strip rawLine.toList = []
  · rw [if_pos hline] at h
    cases h
  rw [if_neg hline] at h
  obtain ⟨j, hj, h⟩ := Outcomes.bind_eq_ok.mp h
  cases j with
  | obj m =>
    dsimp only at h
    split_ifs at h with hmsg
    · split at h
      · cases h
      · rename_i hts
        refine ⟨m, hline, hj, hmsg, hts, ?_⟩
        cases hentry : parseEntry py m hosts label source with
        | error e =>
          rw [hentry] at h
          cases h
        | ok row' =>
          rw [hentry] at h
          cases h
          rfl
    · cases h
  | _ => cases h

end

/-- A library that knows the letters of ASCII, and reads nothing. -/
def asciiLibrary : Python where
  loads _ := .error .valueError
  containerRepr _ := ""
  floatOfInt n := .ok (toString n ++ ".0")
  floatOfStr _ := .error .valueError
  intOfFloat _ := .error .valueError
  intOfStr _ := .error .valueError
  timesThousand s := s
  fromTimestamp _ := .error .overflowError
  lower s := String.ofList (Lowercase.lowerAscii s.toList)
  upper := String.toUpper
  urlparse _ := .error .valueError

end Cadsa.LogParser
