import Cadsa.Core.Accounting
import Cadsa.Core.Watching

/-! The label of a manual log source on its way from the configuration to the rows. Discovery builds
a table of the labels that it does not return, and `lifespan` sets the state of the ingestion
without one. -/
namespace Cadsa.SourceLabels
open Discovery (Settings discoverCaddyLogs)
open LogWatcher PyJson PyText PosixPath LogParser Ingestion
set_option autoImplicit false

structure LogSource where
  path : String
  label : String

def withSources (cfg : Settings) (sources : List LogSource) : Settings :=
  { cfg with manualPaths := sources.map LogSource.path }

def setDiscoveryState (e : Ingestion.Machine) (loggerToHosts : List (String × List String))
    (sourceLabels : Option (List (String × String))) : Ingestion.Machine :=
  { e with loggerToHosts := loggerToHosts, sourceLabels := sourceLabels.getD [] }

/-- `lifespan` with the state it leaves to the ingestion, which has been given `e` so far. -/
def startup (fromtimestamp : ℚ → FromTimestamp) (m : Discovery.Machine) (cfg : Settings) (fs : FileSystem)
    (cwd : String) (cutoffTs : Option Instant) (getLastTs : String → Option Instant) (e : Ingestion.Machine) :
    Except PyError (Ingestion.Machine × List LogFileHandler × List IngestCall) := do
  let (result, _) ← discoverCaddyLogs m cfg
  pure (if result.success then
    (setDiscoveryState e result.loggerToHosts none, startWatching fromtimestamp fs cwd cutoffTs getLastTs result.logFiles)
  else (e, [], []))

theorem startup_lifespan (fromtimestamp : ℚ → FromTimestamp) (m : Discovery.Machine) (cfg : Settings) (fs : FileSystem)
    (cwd : String) (cutoffTs : Option Instant) (getLastTs : String → Option Instant) (e : Ingestion.Machine) :
    Prod.snd <$> startup fromtimestamp m cfg fs cwd cutoffTs getLastTs e =
      Watching.lifespan fromtimestamp m cfg fs cwd cutoffTs getLastTs := by
  unfold startup Watching.lifespan
  cases discoverCaddyLogs m cfg with
  | error err => rfl
  | ok found =>
    obtain ⟨result, tried⟩ := found
    change Except.ok (Prod.snd (if result.success then _ else _)) = Except.ok (if result.success then _ else _)
    split_ifs <;> rfl

/-! ## What a row of a source shows -/

/-- The label of the source, and `unknown` where there is none. -/
def shownLabel (label : String) : String := if label = "" then "unknown" else label

/-- No `request.host`, no TLS server name and no Host header. -/
structure Hostless (py : Python) (m : List (String × Json)) : Prop where
  host : nonblank py (deepGet (.obj m) ["request", "host"]) = false
  serverName : nonblank py (deepGet (.obj m) ["request", "tls", "server_name"]) = false
  header : headerGiven (getHeader py (.obj m) "Host") = .ok false

/-- A line that names no host, as the handler of the source hands it on. -/
structure HostlessRead (py : Python) (cwd : String) (handlers : List LogFileHandler) (backfilled : List IngestCall)
    (source : LogSource) (call : IngestCall) : Prop where
  file : call.logSource = abspath cwd source.path
  read : call ∈ backfilled ∨
    ∃ h ∈ handlers, ∃ pos fs, call ∈ (LogFileHandler.readNewLines ⟨h.filepath, pos⟩ fs).2
  hostless : ∀ m, py.loads (String.ofList (strip call.line)) = .ok (.obj m) → Hostless py m

section
variable {py : Python} {m : List (String × Json)} {hosts : List (String × List String)} {label host : String}

/-- Without a mapping of the loggers the label is all that is left. -/
theorem fallbackHost_unmapped {id : Json} (h : fallbackHost [] label id = .ok host) : host = shownLabel label := by
  unfold fallbackHost at h
  by_cases hid : id.truthy = true
  · simp only [if_pos hid] at h
    split at h
    · cases h
      rfl
    · cases h
  · simp only [if_neg hid] at h
    cases h
    rfl

theorem resolveHost_hostless (hm : Hostless py m) (h : resolveHost py [] label m = .ok host) : host = shownLabel label := by
  unfold resolveHost at h
  dsimp only at h
  rw [hm.host, hm.serverName, hm.header] at h
  change loggerId (loggerName m) >>= fallbackHost [] label = .ok host at h
  obtain ⟨id, -, hfall⟩ := Outcomes.bind_eq_ok.mp h
  exact fallbackHost_unmapped hfall

end

/-- From manual sources the ingestion learns no mapping of loggers and no label. -/
theorem startup_manual {e e' : Ingestion.Machine} {fromtimestamp : ℚ → FromTimestamp} {m : Discovery.Machine} {cfg : Settings} {fs : FileSystem}
    {cwd : String} {cutoffTs : Option Instant} {getLastTs : String → Option Instant} {sources : List LogSource}
    {handlers : List LogFileHandler} {backfilled : List IngestCall} (hne : sources ≠ [])
    (h : startup fromtimestamp m (withSources cfg sources) fs cwd cutoffTs getLastTs e = .ok (e', handlers, backfilled)) :
    e' = { e with loggerToHosts := [], sourceLabels := [] } := by
  have hpaths : (withSources cfg sources).manualPaths ≠ [] := by
    rw [withSources]
    exact mt List.map_eq_nil_iff.mp hne
  unfold startup at h
  rw [discoverCaddyLogs, if_pos hpaths] at h
  cases h
  rfl

section
variable {fromtimestamp : ℚ → FromTimestamp} {m : Discovery.Machine} {cfg : Settings} {fs : FileSystem} {cwd : String}
  {cutoffTs : Option Instant} {getLastTs : String → Option Instant} {sources : List LogSource} {source : LogSource}
  {e e' : Ingestion.Machine} {handlers : List LogFileHandler} {backfilled : List IngestCall} {call : IngestCall}
  {row : Row} {t : Tables}

theorem host_is_unknown (hs : source ∈ sources)
    (hstart : startup fromtimestamp m (withSources cfg sources) fs cwd cutoffTs getLastTs e = .ok (e', handlers, backfilled))
    (hread : HostlessRead e'.py cwd handlers backfilled source call)
    (hrow : (processLine e' (String.ofList call.line) call.logSource t).1 = .ok (some row)) : row.host = "unknown" := by
  obtain ⟨parsed, hparse, hsame⟩ := processLine_parsed hrow
  obtain ⟨m, -, hloads, -, -, hentry⟩ := parseLine_eq_some hparse
  rw [String.toList_ofList] at hloads
  have hhost := parseEntry_host hentry
  rw [startup_manual (List.ne_nil_of_mem hs) hstart] at hhost hloads
  rw [startup_manual (List.ne_nil_of_mem hs) hstart] at hread
  have hkept := congrArg Row.host hsame
  calc row.host = parsed.host := hkept
    _ = "unknown" := resolveHost_hostless (hread.hostless m hloads) hhost

/-- **The label is lost.** A row of a source has the label of the source for its host just where
that is the text that stands for no label. -/
theorem source_label_shown_iff (hs : source ∈ sources)
    (hstart : startup fromtimestamp m (withSources cfg sources) fs cwd cutoffTs getLastTs e = .ok (e', handlers, backfilled))
    (hread : HostlessRead e'.py cwd handlers backfilled source call)
    (hrow : (processLine e' (String.ofList call.line) call.logSource t).1 = .ok (some row)) :
    row.host = shownLabel source.label ↔ source.label = "" ∨ source.label = "unknown" := by
  rw [host_is_unknown hs hstart hread hrow, shownLabel]
  split_ifs with hlabel
  · exact iff_of_true rfl (.inl hlabel)
  · constructor
    · exact fun h => .inr h.symm
    · rintro (h | h)
      · exact absurd h hlabel
      · exact h.symm

end

/-- One file under every path, with one line in it. -/
def oneLine (line : String) : FileSystem := fun _ => some (Utf8.encode (line.toList ++ ['\n']))

def goodCall : IngestCall := ⟨goodLine.toList, abspath "/" "/a.log"⟩

def goodTail : LogFileHandler := ⟨abspath "/" "/a.log", 1⟩

theorem startup_one_file (label : String) :
    startup (fun _ => .valueError) (Watching.withCaddyfile "") (withSources Watching.fromCaddyfile [⟨"/a.log", label⟩])
        (oneLine "") "/" none (fun _ => none) (machineOn goodLine goodEntry) =
      .ok (machineOn goodLine goodEntry, [goodTail], []) := by
  rfl

theorem goodCall_read (label : String) :
    HostlessRead (libraryOn goodLine goodEntry) "/" [goodTail] [] ⟨"/a.log", label⟩ goodCall where
  file := rfl
  read := by
    refine .inr ⟨goodTail, List.mem_singleton_self _, 0, oneLine goodLine, ?_⟩
    have hpieces : goodLine.toList ∈ pieces (Utf8.decode (Utf8.encode (goodLine.toList ++ ['\n']))) := by
      rw [Utf8.decode_encode]
      decide +kernel
    exact List.mem_map_of_mem hpieces
  hostless m h := by
    cases h
    exact ⟨rfl, rfl, rfl⟩

theorem source_label_shown_none : ∃ row,
    (processLine (machineOn goodLine goodEntry) goodLine goodCall.logSource ⟨[], []⟩).1 = .ok (some row) ∧
      row.host = shownLabel "" := by
  obtain ⟨row, hrow⟩ : ∃ row,
    (processLine (machineOn goodLine goodEntry) (String.ofList goodCall.line) goodCall.logSource ⟨[], []⟩).1 =
      .ok (some row) := ⟨_, rfl⟩
  refine ⟨row, hrow, ?_⟩
  exact (source_label_shown_iff (List.mem_singleton_self _) (startup_one_file "") (goodCall_read "") hrow).mpr (.inl rfl)

/-- A source labelled `global`, whose row is shown under `unknown`. -/
theorem global_label_lost :
    startup (fun _ => .valueError) (Watching.withCaddyfile "") (withSources Watching.fromCaddyfile [⟨"/a.log", "global"⟩])
        (oneLine "") "/" none (fun _ => none) (machineOn goodLine goodEntry) =
      .ok (machineOn goodLine goodEntry, [goodTail], []) ∧
    HostlessRead (libraryOn goodLine goodEntry) "/" [goodTail] [] ⟨"/a.log", "global"⟩ goodCall ∧
    ∃ row, (processLine (machineOn goodLine goodEntry) goodLine goodCall.logSource ⟨[], []⟩).1 = .ok (some row) ∧
      row.host ≠ shownLabel "global" := by
  obtain ⟨row, hrow⟩ : ∃ row,
    (processLine (machineOn goodLine goodEntry) (String.ofList goodCall.line) goodCall.logSource ⟨[], []⟩).1 =
      .ok (some row) := ⟨_, rfl⟩
  refine ⟨startup_one_file "global", goodCall_read "global", row, hrow, ?_⟩
  rw [host_is_unknown (List.mem_singleton_self _) (startup_one_file "global") (goodCall_read "global") hrow]
  decide

end Cadsa.SourceLabels
