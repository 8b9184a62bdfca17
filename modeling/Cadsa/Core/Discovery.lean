import Mathlib.Data.List.Dedup
import Cadsa.Lib.PyJson
import Cadsa.Lib.PyText
import Cadsa.Lib.Slots

/-! `core/discovery.py`: where the log files are found. Manual sources, Caddy's Admin API, the
Caddyfile, and a scan of the usual directories, in this order. What the code asks of the machine
it runs on is the field of a structure. -/
namespace Cadsa.Discovery
open PyJson PyText
set_option autoImplicit false

structure DirEntry where
  name : String
  path : String
  isFile : Bool

/-- The answers of the machine. An exception is its text. -/
structure Machine where
  /-- `session.get(url)`: the status and the body as JSON. -/
  get : String → Except String (ℕ × Except String Json)
  readText : String → Except String (List Char)
  /-- The lines `open(path)` gives before the file or an exception ends it. -/
  readLines : String → List (List Char)
  loads : List Char → Option Json
  containerRepr : Json → String
  /-- `list` of a set: the order is unspecified. -/
  setOrder : { order : List String → List String // ∀ l, (order l).Perm l }
  /-- The command lines psutil lists, as far as it comes. -/
  cmdlines : List (List String)
  userCaddyfile : String
  isFile : String → Bool
  scandir : String → List DirEntry

structure DiscoveryResult where
  success : Bool
  logFiles : List String := []
  loggerToHosts : List (String × List String) := []
  loggerToFile : List (String × String) := []
  skipHosts : List Json := []
  source : String := ""
  failures : List String := []

def DiscoveryResult.failure (reason : String) : DiscoveryResult := { success := false, failures := [reason] }

/-! ## Admin API -/

def deepGet : Json → List String → Json
  | d, [] => d
  | .obj members, key :: keys => deepGet (getMember members key) keys
  | _, _ :: _ => .null

def addHost (m : Machine) (hostname : String) (hosts : List (String × List String)) :
    Json → List (String × List String)
  | .arr lids => lids.foldl (fun hosts lid => appendItem hosts (lid.pyStr m.containerRepr) hostname) hosts
  | loggerId => if loggerId.truthy then appendItem hosts (loggerId.pyStr m.containerRepr) hostname else hosts

def readServer (m : Machine) (acc : List (String × List String) × List Json) :
    Json → Except PyError (List (String × List String) × List Json)
  | .obj server =>
    match (getMember server "logs").orEmpty with
    | .obj logsCfg => do
      let skip := getMember logsCfg "skip_hosts"
      let sSkip ← if skip.truthy then skip.setElems else .ok []
      let hosts := match (getMember logsCfg "logger_names").orEmpty with
        | .obj names => names.foldl (fun hosts (hostname, loggerIds) =>
            if sSkip.any (Json.isStr hostname) then hosts else addHost m hostname hosts loggerIds) acc.1
        | _ => acc.1
      pure (hosts, acc.2 ++ sSkip)
    -- `logs_cfg.get` on a value that is no dict
    | _ => .error .attributeError
  | _ => .ok acc

def readLogs (m : Machine) (files : List (String × String)) : List (String × Json) → List (String × String)
  | [] => files
  | (logId, logCfg) :: logs =>
    if logId = "default" then readLogs m files logs
    else
      let filename := deepGet logCfg ["writer", "filename"]
      readLogs m (if filename.truthy then setItem files logId (filename.pyStr m.containerRepr) else files) logs

def loggedFiles (m : Machine) (logConfigs : Json) (loggerToFile : List (String × String)) : List String :=
  let logFiles := m.setOrder.val (loggerToFile.map (·.2)).dedup
  let systemLog := deepGet logConfigs ["default", "writer", "filename"]
  let systemPath := systemLog.pyStr m.containerRepr
  if systemLog.truthy && !(logFiles.contains systemPath) then logFiles ++ [systemPath] else logFiles

def tryCaddyAdminApi (m : Machine) (baseUrl : String) : Except PyError DiscoveryResult :=
  let url := String.ofList (baseUrl.toList.rdropWhile (· = '/')) ++ "/config/"
  match m.get url with
  | .error e => .ok (.failure s!"Caddy Admin API at {url} — {e}")
  | .ok (status, body) =>
    if status ≠ 200 then .ok (.failure s!"Caddy Admin API at {url} returned HTTP {status}")
    else match body with
    | .error e => .ok (.failure s!"Caddy Admin API at {url} — {e}")
    | .ok config => do
      let (loggerToHosts, skipHosts) ← match (deepGet config ["apps", "http", "servers"]).orEmpty with
        | .obj servers => (servers.map (·.2)).foldlM (readServer m) ([], [])
        | _ => pure ([], [])
      let logConfigs := (deepGet config ["logging", "logs"]).orEmpty
      let loggerToFile := match logConfigs with
        | .obj logs => readLogs m [] logs
        | _ => []
      let logFiles := loggedFiles m logConfigs loggerToFile
      if logFiles = [] then
        pure (.failure s!"Caddy Admin API at {url} succeeded but no log file paths found in config")
      else
        pure { success := true, logFiles, loggerToHosts, loggerToFile, skipHosts, source := "caddy_admin_api" }

/-! ## Caddyfile -/

def configArg : List String → Option String
  | arg :: next :: rest => if arg = "--config" ∨ arg = "-config" then some next else configArg (next :: rest)
  | _ => none

/-- `"caddy" in cmdline[0].lower()`; no character but an ASCII letter becomes one of these five. -/
def isCaddy : List String → Bool
  | [] => false
  | arg0 :: _ => decide ("caddy".toList <:+: arg0.toList.map Char.toLower)

def findCaddyfile (m : Machine) : Option String :=
  match (m.cmdlines.filter isCaddy).findSome? configArg with
  | some path => some path
  | none => ["/etc/caddy/Caddyfile", "/etc/caddy/caddy.conf", "/usr/local/etc/caddy/Caddyfile",
      "/opt/caddy/Caddyfile", m.userCaddyfile].find? m.isFile

def isNameChar (c : Char) : Bool := !isSpace c && c ≠ '\x7b'

def afterWord (word text : List Char) : Option (List Char) :=
  if word <+: text then some (text.drop word.length) else none

def afterSpaces (text : List Char) : Option (List Char) :=
  match text with
  | c :: _ => if isSpace c then some (text.dropWhile isSpace) else none
  | [] => none

/-- The pattern at the start of the text: the name in its group and the rest. What stands behind
each run of whitespace is no whitespace, so there is only one way to match. -/
def outputFileAt (text : List Char) : Option (List Char × List Char) := do
  let text ← afterWord "output".toList text
  let text ← afterSpaces text
  let text ← afterWord "file".toList text
  let text ← afterSpaces text
  let name := text.takeWhile isNameChar
  if name = [] then none else some (name, text.dropWhile isNameChar)

/-- `re.findall`; the fuel is the length of the text. -/
def findAllFrom : ℕ → List Char → List (List Char)
  | 0, _ => []
  | _, [] => []
  | fuel + 1, c :: text =>
    match outputFileAt (c :: text) with
    | some (name, rest) => name :: findAllFrom fuel rest
    | none => findAllFrom fuel text

def isQuote (c : Char) : Bool := c = '"' || c = '\''

def parseCaddyfileForLogs (m : Machine) (path : String) : DiscoveryResult :=
  match m.readText path with
  | .error e => .failure s!"Could not read Caddyfile at {path}: {e}"
  | .ok content =>
    let logFiles := (findAllFrom content.length content).map fun name => String.ofList (stripOf isQuote name)
    if logFiles = [] then .failure s!"No log file directives found in {path}"
    else { success := true, logFiles, source := "caddyfile" }

/-! ## Scan -/

def scanDirectories : List String := ["/var/log/caddy/", "/var/log/", "/tmp/", "/home/"]

def logFilenamePatterns : List String := ["access.log", "access*.log", "caddy*.log", "*.access.log"]

/-- `fnmatch` for a pattern whose only wildcard is the star. -/
def fnmatch : List Char → List Char → Bool
  | [], name => name.isEmpty
  | '*' :: pattern, name => name.tails.any (fnmatch pattern)
  | _ :: _, [] => false
  | c :: pattern, d :: name => c = d && fnmatch pattern name

/-- `"msg" in obj and "request" in obj`; an exception counts as no. -/
def isCaddyEntry (obj : Json) : Bool :=
  match obj.contains "msg", obj.contains "request" with
  | .ok a, .ok b => a && b
  | _, _ => false

def looksLikeCaddyLog (m : Machine) (path : String) : Bool :=
  ((m.readLines path).take 5).any fun line => match m.loads line with
    | some obj => isCaddyEntry obj
    | none => false

def scanCommonLogLocations (m : Machine) : DiscoveryResult :=
  let found := scanDirectories.flatMap fun directory =>
    ((m.scandir directory).filter fun entry => entry.isFile &&
      logFilenamePatterns.any (fun pattern => fnmatch pattern.toList entry.name.toList) &&
        looksLikeCaddyLog m entry.path).map DirEntry.path
  if found = [] then .failure "Filesystem scan found no matching log files"
  else { success := true, logFiles := found, source := "filesystem_scan" }

/-! ## All of them -/

/-- What the configuration tells the discovery; of a manual source the path is used. -/
structure Settings where
  adminApiUrl : String
  adminApiEnabled : Bool
  caddyfilePath : String
  manualPaths : List String

def stepNote (what : String) (result : DiscoveryResult) : String :=
  what ++ " — " ++ if result.success then "OK" else result.failures.headD ""

def discoverByScan (m : Machine) (tried : List String) : DiscoveryResult × List String :=
  let result := scanCommonLogLocations m
  let tried := tried ++ [stepNote "Filesystem scan" result]
  if result.success then (result, tried) else (.failure "Could not find any Caddy log files", tried)

def discoverOffline (m : Machine) (cfg : Settings) (tried : List String) : DiscoveryResult × List String :=
  let path := if cfg.caddyfilePath ≠ "" then some cfg.caddyfilePath else findCaddyfile m
  match path.filter (· ≠ "") with
  | none => discoverByScan m (tried ++ ["Caddyfile — not found (checked process args and common paths)"])
  | some path =>
    let result := parseCaddyfileForLogs m path
    let tried := tried ++ [stepNote s!"Caddyfile at {path}" result]
    if result.success then (result, tried) else discoverByScan m tried

def discoverCaddyLogs (m : Machine) (cfg : Settings) : Except PyError (DiscoveryResult × List String) :=
  -- manual override
  if cfg.manualPaths ≠ [] then
    .ok ({ success := true, logFiles := cfg.manualPaths, source := "manual_config" }, [])
  else if cfg.adminApiEnabled then do
    let result ← tryCaddyAdminApi m cfg.adminApiUrl
    let tried := [stepNote ("Caddy Admin API at " ++ cfg.adminApiUrl) result]
    if result.success then pure (result, tried) else pure (discoverOffline m cfg tried)
  else .ok (discoverOffline m cfg [])

/-! ## What a result can be -/

def Sound (result : DiscoveryResult) : Prop := result.success = false → result.logFiles = []

theorem sound_failure (reason : String) : Sound (.failure reason) := fun _ => rfl

theorem sound_of_success {result : DiscoveryResult} (h : result.success = true) : Sound result :=
  fun hn => absurd h (by rw [hn]; decide)

theorem sound_discoverByScan (m : Machine) (tried : List String) : Sound (discoverByScan m tried).1 := by
  unfold discoverByScan
  dsimp only
  split_ifs with h
  · exact sound_of_success h
  · exact sound_failure _

theorem sound_discoverOffline (m : Machine) (cfg : Settings) (tried : List String) :
    Sound (discoverOffline m cfg tried).1 := by
  unfold discoverOffline
  dsimp only
  split
  · exact sound_discoverByScan m _
  · split_ifs with h
    · exact sound_of_success h
    · exact sound_discoverByScan m _

theorem sound_discover {m : Machine} {cfg : Settings} {result : DiscoveryResult} {tried : List String}
    (h : discoverCaddyLogs m cfg = .ok (result, tried)) : Sound result := by
  unfold discoverCaddyLogs at h
  split_ifs at h with hm he
  · cases h
    exact sound_of_success rfl
  · cases hr : tryCaddyAdminApi m cfg.adminApiUrl with
    | error e =>
      rw [hr] at h
      cases h
    | ok r =>
      rw [hr] at h
      change (if r.success = true then _ else _) = _ at h
      split_ifs at h with hs
      · cases h
        exact sound_of_success hs
      · have := sound_discoverOffline m cfg [stepNote ("Caddy Admin API at " ++ cfg.adminApiUrl) r]
        rwa [show discoverOffline m cfg _ = (result, tried) from Except.ok.inj h] at this
  · have := sound_discoverOffline m cfg []
    rwa [show discoverOffline m cfg _ = (result, tried) from Except.ok.inj h] at this

end Cadsa.Discovery
