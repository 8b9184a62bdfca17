import Mathlib.Data.List.Forall2
import Cadsa.Core.Ingestion
import Cadsa.Core.Restart

/-! The names that one log file goes by. Its rows and its label are under the absolute path that the handler has made of
the configured one, while `start_watching` asks for its newest row by the path as it is configured. -/
namespace Cadsa.SourceIdentity
open LogWatcher Ingestion Restart Utf8 PosixPath PyJson LogParser
set_option autoImplicit false

/-! ## Rows and their sources -/

/-- The path of some handler, whatever directory its process ran in. -/
def Handled (source : String) : Prop := ∃ cwd p, IsAbsolute cwd ∧ source = abspath cwd p

/-- Of the stored rows the two columns that `_get_last_ts` reads. -/
def stored (t : Tables) : List Restart.Row := t.requests.map fun row => ⟨row.ts, row.logSource⟩

/-- Calls of `ingest_line_async`, one after the other, by processes that may have learned different things. -/
def ingestAll (calls : List (Ingestion.Machine × IngestCall)) (t : Tables) : Tables :=
  calls.foldl (fun t c => (ingestLineAsync c.1 (String.ofList c.2.line) c.2.logSource t).2) t

def Sourced (rows : List Restart.Row) : Prop := ∀ row ∈ rows, Handled row.logSource

section
variable {py : Python} {m : List (String × Json)} {hosts : List (String × List String)} {label source raw : String}
  {row : LogParser.Row}

theorem parseEntry_logSource (h : parseEntry py m hosts label source = .ok row) : row.logSource = source := by
  simp only [parseEntry, Outcomes.bind_eq_ok] at h
  obtain ⟨_, -, _, -, _, -, _, -, _, -, _, -, _, -, _, -, _, -, _, -, _, -, _, -, _, -, _, -, h⟩ := h
  cases h
  rfl

theorem parseLine_logSource (h : parseLine py raw hosts label source = .ok (some row)) : row.logSource = source := by
  rw [parseLine] at h
  split_ifs at h
  · cases h
  · obtain ⟨j, -, h⟩ := Outcomes.bind_eq_ok.mp h
    split at h
    · split_ifs at h
      · split at h
        · cases h
        · obtain ⟨row', hrow, heq⟩ := Outcomes.bind_eq_ok.mp h
          cases heq
          exact parseEntry_logSource hrow
      · cases h
    · cases h

theorem processLine_logSource {e : Ingestion.Machine} {t : Tables} (h : (processLine e raw source t).1 = .ok (some row)) :
    row.logSource = source := by
  obtain ⟨parsed, hparsed, hsame⟩ := processLine_parsed h
  have hcolumn := congrArg LogParser.Row.logSource hsame
  rw [← parseLine_logSource hparsed]
  exact hcolumn

end

theorem processLine_requests (e : Ingestion.Machine) (raw source : String) (t : Tables) :
    (processLine e raw source t).2.requests = t.requests := by
  rw [processLine]
  split <;> rfl

/-- A call adds no row, or one under its own source. -/
theorem ingest_requests (e : Ingestion.Machine) (raw source : String) (t : Tables) :
    (ingestLineAsync e raw source t).2.requests = t.requests ∨
      ∃ row, row.logSource = source ∧ (ingestLineAsync e raw source t).2.requests = t.requests ++ [row] := by
  have hkept := processLine_requests e raw source t
  rw [ingestLineAsync]
  match hline : processLine e raw source t with
  | (.error err, t') =>
    rw [hline] at hkept
    exact .inl hkept
  | (.ok none, t') =>
    rw [hline] at hkept
    exact .inl hkept
  | (.ok (some row), t') =>
    rw [hline] at hkept
    dsimp only
    rw [insertRequest]
    split_ifs
    · exact .inr ⟨row, processLine_logSource (congrArg Prod.fst hline), congrArg (· ++ [row]) hkept⟩
    · exact .inl hkept

theorem sourced_ingest {e : Ingestion.Machine} {raw source : String} {t : Tables} (h : Sourced (stored t))
    (hsource : Handled source) : Sourced (stored (ingestLineAsync e raw source t).2) := by
  rcases ingest_requests e raw source t with hsame | ⟨row, hrow, hadded⟩
  · rw [stored, hsame]
    exact h
  · rw [stored, hadded, List.map_append]
    intro r hr
    rcases List.mem_append.mp hr with hr | hr
    · exact h r hr
    · rw [List.mem_singleton.mp hr]
      show Handled row.logSource
      rw [hrow]
      exact hsource

theorem sourced_foldl {calls : List (Ingestion.Machine × IngestCall)} (hcalls : ∀ c ∈ calls, Handled c.2.logSource)
    {t : Tables} (h : Sourced (stored t)) : Sourced (stored (ingestAll calls t)) := by
  induction calls generalizing t with
  | nil => exact h
  | cons c calls ih =>
    refine ih (fun c' hc' => hcalls c' (List.mem_cons_of_mem _ hc')) ?_
    exact sourced_ingest h (hcalls c List.mem_cons_self)

/-- Every row that was ever stored is under the path of a handler. -/
theorem sourced_ingestAll {calls : List (Ingestion.Machine × IngestCall)} (hcalls : ∀ c ∈ calls, Handled c.2.logSource) :
    Sourced (stored (ingestAll calls ⟨[], []⟩)) :=
  sourced_foldl hcalls fun _ hr => absurd hr List.not_mem_nil

/-! ## The keys of a source -/

structure Keys where
  rows : String
  newest : String
  label : String

def keysOf (cwd p : String) : Keys where
  rows := abspath cwd p
  newest := p
  label := abspath cwd p

theorem backfill_filepath {fromtimestamp : ℚ → FromTimestamp} {h : LogFileHandler} {fs : FileSystem} {cutoff : Instant}
    {lastTs : Option Instant} : (h.backfill fromtimestamp fs cutoff lastTs).1.filepath = h.filepath := by
  rw [LogFileHandler.backfill]
  split <;> rfl

theorem backfill_logSource {fromtimestamp : ℚ → FromTimestamp} {h : LogFileHandler} {fs : FileSystem} {cutoff : Instant}
    {lastTs : Option Instant} : ∀ call ∈ (h.backfill fromtimestamp fs cutoff lastTs).2, call.logSource = h.filepath := by
  intro call hcall
  rw [LogFileHandler.backfill] at hcall
  split at hcall
  · obtain ⟨raw, -, rfl⟩ := List.mem_map.mp hcall
    rfl
  · exact absurd hcall List.not_mem_nil

theorem readNewLines_logSource {h : LogFileHandler} {fs : FileSystem} :
    ∀ call ∈ (h.readNewLines fs).2, call.logSource = h.filepath := by
  intro call hcall
  rw [LogFileHandler.readNewLines] at hcall
  split at hcall
  · obtain ⟨line, -, rfl⟩ := List.mem_map.mp hcall
    rfl
  · exact absurd hcall List.not_mem_nil

section
variable {fromtimestamp : ℚ → FromTimestamp} {fs : FileSystem} {cwd p : String} {cutoffTs : Option Instant}
  {getLastTs : String → Option Instant}

/-- What the backfill and the handler of a path hand on is under its key for the rows. -/
theorem keysOf_rows {h : LogFileHandler} {calls : List IngestCall}
    (hwatch : watchFile fromtimestamp fs cwd cutoffTs getLastTs p = some (h, calls)) :
    h.filepath = (keysOf cwd p).rows ∧ (∀ call ∈ calls, call.logSource = (keysOf cwd p).rows) ∧
      ∀ pos fs', ∀ call ∈ (LogFileHandler.readNewLines { h with pos := pos } fs').2,
        call.logSource = (keysOf cwd p).rows := by
  have hboth : h.filepath = abspath cwd p ∧ ∀ call ∈ calls, call.logSource = abspath cwd p := by
    rw [watchFile] at hwatch
    split_ifs at hwatch
    cases cutoffTs with
    | none =>
      cases hwatch
      exact ⟨rfl, fun _ hc => absurd hc List.not_mem_nil⟩
    | some cutoff =>
      obtain ⟨rfl, rfl⟩ := Prod.mk.inj (Option.some.inj hwatch)
      exact ⟨backfill_filepath, fun call hc => backfill_logSource call hc⟩
  refine ⟨hboth.1, hboth.2, fun pos fs' call hcall => ?_⟩
  exact (readNewLines_logSource call hcall).trans hboth.1

/-- What is known of stored rows is asked for by the key for the newest one, and by no other. -/
theorem keysOf_newest {getLastTs' : String → Option Instant}
    (h : getLastTs (keysOf cwd p).newest = getLastTs' (keysOf cwd p).newest) :
    watchFile fromtimestamp fs cwd cutoffTs getLastTs p = watchFile fromtimestamp fs cwd cutoffTs getLastTs' p := by
  rw [watchFile, watchFile, show getLastTs p = getLastTs' p from h]

/-- Of the labels, the ingestion of a line looks at the one under the key that the line came with. -/
theorem keysOf_label {e : Ingestion.Machine} {labels : List (String × String)} {raw : String} {t : Tables}
    (h : labels.lookup (keysOf cwd p).label = e.sourceLabels.lookup (keysOf cwd p).label) :
    processLine { e with sourceLabels := labels } raw (keysOf cwd p).rows t = processLine e raw (keysOf cwd p).rows t := by
  have hlabel : labels.lookup (keysOf cwd p).rows = e.sourceLabels.lookup (keysOf cwd p).rows := h
  unfold processLine
  dsimp only
  rw [hlabel]
  rfl

end

/-! ## The restart -/

/-- The log file of a source when the process starts again: all its lines are stored under the key for the rows, and
the times that they carry, which are those of their rows, increase from line to line. Other rows may be stored too. -/
structure Settled (fromtimestamp : ℚ → FromTimestamp) (cwd p : String) (content : Bytes) (times : List Instant)
    (rows : List Restart.Row) : Prop where
  carried : List.Forall₂ (fun line t => extractTs fromtimestamp (rstrip line) = .ok (some t)) (fileLines content) times
  increasing : times.Pairwise (· < ·)
  recorded : ∀ t ∈ times, ⟨t, (keysOf cwd p).rows⟩ ∈ rows
  sourced : Sourced rows

/-- What the backfill of the source hands on. -/
def handedOn (fromtimestamp : ℚ → FromTimestamp) (fs : FileSystem) (cwd p : String) (cutoff : Instant)
    (rows : List Restart.Row) : List IngestCall :=
  ((watchFile fromtimestamp fs cwd (some cutoff) (getLastTs rows) p).map Prod.snd).getD []

/-- The three keys are one, and to start again hands on nothing of what is stored. -/
structure OneIdentity (cwd p : String) : Prop where
  newest : (keysOf cwd p).newest = (keysOf cwd p).rows
  label : (keysOf cwd p).label = (keysOf cwd p).rows
  restart : ∀ fromtimestamp fs cutoff content times rows, fs (abspath cwd p) = some content →
    Settled fromtimestamp cwd p content times rows → handedOn fromtimestamp fs cwd p cutoff rows = []

section
variable {fromtimestamp : ℚ → FromTimestamp} {fs : FileSystem} {cwd p : String} {cutoff : Instant} {content : Bytes}
  {times : List Instant} {rows : List Restart.Row}

theorem handedOn_eq (hf : fs (abspath cwd p) = some content) :
    handedOn fromtimestamp fs cwd p cutoff rows =
      (scan fromtimestamp cutoff (getLastTs rows p) (fileLines content)).1.map fun raw =>
        ⟨decode raw, abspath cwd p⟩ := by
  simp [handedOn, watchFile, LogFileHandler.init, LogFileHandler.backfill, hf]

/-- Of lines that all carry a time, the scan selects those whose time is fresh. -/
theorem scan_carried {lines : List Bytes} {lastTs : Option Instant}
    (h : List.Forall₂ (fun line t => extractTs fromtimestamp (rstrip line) = .ok (some t)) lines times) :
    (scan fromtimestamp cutoff lastTs lines).1 =
      ((lines.zip times).filter fun c => fresh cutoff lastTs c.2).map fun c => rstrip c.1 := by
  rw [scan_eq]
  induction h with
  | nil => rfl
  | @cons line t lines times hline hlines ih =>
    have hread : readable fromtimestamp line = true := by rw [readable, hline]
    have haccept : accepts fromtimestamp cutoff lastTs line = fresh cutoff lastTs t := by rw [accepts, hline]
    rw [List.takeWhile_cons_of_pos hread, List.zip_cons_cons, List.filter_cons, List.filter_cons, haccept]
    split_ifs
    · rw [List.map_cons, List.map_cons, ih]
    · exact ih

/-- A path that is not its own absolute path is no handler's. -/
theorem not_handled (h : abspath cwd p ≠ p) : ¬ Handled p := by
  rintro ⟨cwd', q, hcwd', rfl⟩
  exact h (abspath_abspath hcwd' cwd q)

theorem getLastTs_of_unsourced (hrows : Sourced rows) (h : abspath cwd p ≠ p) : getLastTs rows p = none := by
  have hnone : rows.filter (fun row => row.logSource = p) = [] := by
    rw [List.filter_eq_nil_iff]
    intro row hrow hsource
    exact not_handled h (of_decide_eq_true hsource ▸ hrows row hrow)
  rw [getLastTs, hnone]
  rfl

/-- Under a path that is no handler's nothing counts as stored: all lines of the window are handed on again. -/
theorem handedOn_of_other_path (hf : fs (abspath cwd p) = some content)
    (hs : Settled fromtimestamp cwd p content times rows) (h : abspath cwd p ≠ p) :
    handedOn fromtimestamp fs cwd p cutoff rows =
      (((fileLines content).zip times).filter fun c => !decide (c.2 < cutoff)).map fun c =>
        ⟨decode (rstrip c.1), abspath cwd p⟩ := by
  rw [handedOn_eq hf, getLastTs_of_unsourced hs.sourced h, scan_carried hs.carried, List.map_map]
  simp only [fresh, Bool.and_true]
  rfl

theorem handedOn_of_own_path (hf : fs (abspath cwd p) = some content)
    (hs : Settled fromtimestamp cwd p content times rows) (h : abspath cwd p = p) :
    handedOn fromtimestamp fs cwd p cutoff rows = [] := by
  rw [handedOn_eq hf, scan_carried hs.carried, List.map_map, List.map_eq_nil_iff, List.filter_eq_nil_iff]
  intro c hc hfresh
  have hnew := ((fresh_getLastTs cutoff rows p c.2).mp hfresh).2
  have hrow := hs.recorded c.2 (List.of_mem_zip hc).2
  exact lt_irrefl _ (hnew _ hrow h)

theorem handedOn_eq_nil_iff (hf : fs (abspath cwd p) = some content)
    (hs : Settled fromtimestamp cwd p content times rows) :
    handedOn fromtimestamp fs cwd p cutoff rows = [] ↔ abspath cwd p = p ∨ ∀ t ∈ times, t < cutoff := by
  by_cases h : abspath cwd p = p
  · exact iff_of_true (handedOn_of_own_path hf hs h) (.inl h)
  · rw [handedOn_of_other_path hf hs h, List.map_eq_nil_iff, List.filter_eq_nil_iff, or_iff_right h]
    have hlength := hs.carried.length_eq
    constructor
    · intro hold t ht
      rw [← List.map_snd_zip (Nat.le_of_eq hlength.symm)] at ht
      obtain ⟨c, hc, rfl⟩ := List.mem_map.mp ht
      have := hold c hc
      simpa using this
    · intro hold c hc
      have := hold c.2 (List.of_mem_zip hc).2
      simpa using this

end

/-- **A source has one identity** just where its path is configured as the absolute path that the handler makes of it.
Otherwise to start again hands on every line of the window, however often it is stored. -/
theorem oneIdentity_iff (cwd p : String) :
    (OneIdentity cwd p ↔ abspath cwd p = p) ∧
    ∀ fromtimestamp fs cutoff content times rows, fs (abspath cwd p) = some content →
      Settled fromtimestamp cwd p content times rows →
      (handedOn fromtimestamp fs cwd p cutoff rows = [] ↔ abspath cwd p = p ∨ ∀ t ∈ times, t < cutoff) := by
  refine ⟨⟨fun h => h.newest.symm, fun h => ⟨h.symm, rfl, ?_⟩⟩, ?_⟩
  · intro fromtimestamp fs cutoff content times rows hf hs
    exact handedOn_of_own_path hf hs h
  · intro fromtimestamp fs cutoff content times rows hf hs
    exact handedOn_eq_nil_iff hf hs

/-- A path with two slashes: both lines are stored, and the restart hands both on again. -/
theorem not_oneIdentity_slashes :
    ¬ OneIdentity "/" "/var/log//a.log" ∧
      Settled utcInstant "/" "/var/log//a.log" twoRequests [1000000, 2000000]
        [⟨1000000, "/var/log/a.log"⟩, ⟨2000000, "/var/log/a.log"⟩] ∧
      handedOn utcInstant (fun _ => some twoRequests) "/" "/var/log//a.log" 0
        [⟨1000000, "/var/log/a.log"⟩, ⟨2000000, "/var/log/a.log"⟩] =
          [⟨early, "/var/log/a.log"⟩, ⟨late, "/var/log/a.log"⟩] := by
  have hown : abspath "/" "/var/log//a.log" = "/var/log/a.log" := by decide +kernel
  refine ⟨fun h => ?_, ⟨?_, by decide, ?_, ?_⟩, by decide +kernel⟩
  · have hnewest : "/var/log//a.log" = abspath "/" "/var/log//a.log" := h.newest
    rw [hown] at hnewest
    exact absurd hnewest (by decide)
  · rw [fileLines_twoRequests]
    exact .cons (by decide +kernel) (.cons (by decide +kernel) .nil)
  · rw [keysOf, hown]
    decide
  · intro row hrow
    have hsource : row.logSource = "/var/log/a.log" := by
      rcases List.mem_pair.mp hrow with rfl | rfl <;> rfl
    exact ⟨"/", "/var/log//a.log", rfl, hsource.trans hown.symm⟩

end Cadsa.SourceIdentity
