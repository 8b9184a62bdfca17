import Mathlib.Data.Rat.Defs
import Cadsa.Lib.Chunks
import Cadsa.Lib.PosixPath

/-! `core/log_watcher.py`: the handler that tails one log file, the startup backfill, and
`start_watching`. A file is the list of its bytes; the calls a handler schedules on the event
loop are returned in order. -/
namespace Cadsa.LogWatcher
open Utf8 PyText PosixPath
set_option autoImplicit false

abbrev Bytes := List UInt8

/-- Microseconds since the epoch: the resolution of `datetime`. -/
abbrev Instant := ℤ

/-- The files that exist, by normalised absolute path. -/
abbrev FileSystem := String → Option Bytes

structure IngestCall where
  line : List Char
  logSource : String
  deriving DecidableEq

structure LogFileHandler where
  filepath : String
  pos : ℕ
  deriving DecidableEq

/-! ## Tailing -/

/-- `__init__`: start at the end of the file, or at 0 where its size cannot be read. -/
def LogFileHandler.init (fs : FileSystem) (cwd filepath : String) : LogFileHandler :=
  let path := abspath cwd filepath
  ⟨path, match fs path with
    | some content => content.length
    | none => 0⟩

def LogFileHandler.start (h : LogFileHandler) (content : Bytes) : ℕ :=
  if content.length < h.pos then 0 else h.pos

def LogFileHandler.readContent (h : LogFileHandler) (content : Bytes) : LogFileHandler × List IngestCall :=
  let newData := content.drop (h.start content)
  ({ h with pos := h.start content + newData.length }, (pieces (decode newData)).map (⟨·, h.filepath⟩))

theorem LogFileHandler.readContent_eq (h : LogFileHandler) (content : Bytes) :
    h.readContent content = ({ h with pos := content.length },
      (pieces (decode (content.drop (h.start content)))).map (⟨·, h.filepath⟩)) := by
  have hs : h.start content ≤ content.length := by
    unfold LogFileHandler.start
    split_ifs <;> omega
  simp only [LogFileHandler.readContent, List.length_drop, Nat.add_sub_cancel' hs]

theorem LogFileHandler.start_of_le {h : LogFileHandler} {content : Bytes} (hp : h.pos ≤ content.length) :
    h.start content = h.pos := if_neg (Nat.not_lt.mpr hp)

def LogFileHandler.readNewLines (h : LogFileHandler) (fs : FileSystem) : LogFileHandler × List IngestCall :=
  match fs h.filepath with
  | some content => h.readContent content
  | none => (h, [])

def LogFileHandler.onModified (h : LogFileHandler) (fs : FileSystem) (cwd srcPath : String) :
    LogFileHandler × List IngestCall :=
  if abspath cwd srcPath ≠ h.filepath then (h, []) else h.readNewLines fs

/-! ## The fast timestamp -/

def isByteSpace (b : UInt8) : Bool := b ∈ [0x20, 0x09, 0x0A, 0x0B, 0x0C, 0x0D]

def isDigit (b : UInt8) : Bool := 0x30 ≤ b && b ≤ 0x39

def digitsValue (ds : Bytes) : ℕ := ds.foldl (fun n d => 10 * n + (d.toNat - 0x30)) 0

/-- `_TS_RE` at the start of the bytes; the value of the number in its group. -/
def tsAt : Bytes → Option ℚ
  | 0x22 :: 0x74 :: 0x73 :: 0x22 :: s =>
    match s.dropWhile isByteSpace with
    | 0x3A :: s =>
      let s := s.dropWhile isByteSpace
      let whole := s.takeWhile isDigit
      if whole = [] then none
      else match s.dropWhile isDigit with
        | 0x2E :: s =>
          -- without a digit behind it the point is not part of the match
          let frac := s.takeWhile isDigit
          some (digitsValue whole + digitsValue frac / 10 ^ frac.length)
        | _ => some (digitsValue whole)
    | _ => none
  | _ => none

def tsSearch : Bytes → Option ℚ
  | [] => none
  | b :: s => match tsAt (b :: s) with
    | some q => some q
    | none => tsSearch s

/-- `datetime.fromtimestamp(float(text), tz=utc)` of a decimal text: the instant, or the exception. -/
inductive FromTimestamp where
  | ok (t : Instant)
  | valueError
  | overflowError
  deriving DecidableEq

/-- `_extract_ts`; `overflowError` is the exception it lets through. -/
def extractTs (fromtimestamp : ℚ → FromTimestamp) (raw : Bytes) : Except Unit (Option Instant) :=
  match tsSearch raw with
  | none => .ok none
  | some q => match fromtimestamp q with
    | .ok t => .ok (some t)
    | .valueError => .ok none
    | .overflowError => .error ()

/-! ## Backfill -/

/-- Iterating a binary file: its lines, each with its newline. -/
def fileLinesFrom (line : Bytes) : Bytes → List Bytes
  | [] => if line = [] then [] else [line.reverse]
  | b :: s => if b = 0x0A then (b :: line).reverse :: fileLinesFrom [] s else fileLinesFrom (b :: line) s

def fileLines (content : Bytes) : List Bytes := fileLinesFrom [] content

def rstrip (raw : Bytes) : Bytes := raw.rdropWhile isByteSpace

def fresh (cutoffTs : Instant) (lastTs : Option Instant) (ts : Instant) : Bool :=
  !(decide (ts < cutoffTs)) && match lastTs with
    | some last => !(decide (ts ≤ last))
    | none => true

/-- The loop of `backfill`: the raw lines handed on, and whether it came to the end of the file. -/
def scan (fromtimestamp : ℚ → FromTimestamp) (cutoffTs : Instant) (lastTs : Option Instant) :
    List Bytes → List Bytes × Bool
  | [] => ([], true)
  | line :: lines =>
    let raw := rstrip line
    if raw = [] then scan fromtimestamp cutoffTs lastTs lines
    else match extractTs fromtimestamp raw with
      | .error _ => ([], false)
      | .ok none => scan fromtimestamp cutoffTs lastTs lines
      | .ok (some ts) =>
        let rest := scan fromtimestamp cutoffTs lastTs lines
        if fresh cutoffTs lastTs ts then (raw :: rest.1, rest.2) else rest

def LogFileHandler.backfill (fromtimestamp : ℚ → FromTimestamp) (h : LogFileHandler) (fs : FileSystem)
    (cutoffTs : Instant) (lastTs : Option Instant) : LogFileHandler × List IngestCall :=
  match fs h.filepath with
  | some content =>
    let (raws, done) := scan fromtimestamp cutoffTs lastTs (fileLines content)
    ({ h with pos := if done then content.length else h.pos },
      raws.map fun raw => ⟨decode raw, h.filepath⟩)
  | none => (h, [])

/-! ## The scan as a selection -/

section
variable (fromtimestamp : ℚ → FromTimestamp)

def readable (line : Bytes) : Bool :=
  match extractTs fromtimestamp (rstrip line) with
  | .ok _ => true
  | .error _ => false

def accepts (cutoff : Instant) (lastTs : Option Instant) (line : Bytes) : Bool :=
  match extractTs fromtimestamp (rstrip line) with
  | .ok (some ts) => fresh cutoff lastTs ts
  | _ => false

theorem extractTs_nil : extractTs fromtimestamp [] = .ok none := rfl

theorem scan_eq (cutoff : Instant) (lastTs : Option Instant) (ls : List Bytes) :
    (scan fromtimestamp cutoff lastTs ls).1 =
      ((ls.takeWhile (readable fromtimestamp)).filter (accepts fromtimestamp cutoff lastTs)).map rstrip := by
  induction ls with
  | nil => rfl
  | cons line ls ih =>
    by_cases hb : rstrip line = []
    · have hr : readable fromtimestamp line = true := by simp [readable, hb, extractTs_nil]
      have ha : accepts fromtimestamp cutoff lastTs line = false := by simp [accepts, hb, extractTs_nil]
      rw [scan, if_pos hb, ih, List.takeWhile_cons_of_pos hr, List.filter_cons_of_neg (by simp [ha])]
    · rw [scan, if_neg hb, List.takeWhile_cons, readable]
      match he : extractTs fromtimestamp (rstrip line) with
      | .error _ => rfl
      | .ok none =>
        have ha : accepts fromtimestamp cutoff lastTs line = false := by simp [accepts, he]
        rw [if_pos rfl, List.filter_cons_of_neg (by simp [ha])]
        exact ih
      | .ok (some ts) =>
        have ha : accepts fromtimestamp cutoff lastTs line = fresh cutoff lastTs ts := by simp [accepts, he]
        rw [if_pos rfl, List.filter_cons, ha]
        cases hf : fresh cutoff lastTs ts with
        | false => simpa [hf] using ih
        | true => simpa [hf] using ih

theorem scan_done (cutoff : Instant) (lastTs : Option Instant) (ls : List Bytes) :
    (scan fromtimestamp cutoff lastTs ls).2 = ls.all (readable fromtimestamp) := by
  induction ls with
  | nil => rfl
  | cons line ls ih =>
    by_cases hb : rstrip line = []
    · have hr : readable fromtimestamp line = true := by simp [readable, hb, extractTs_nil]
      rw [scan, if_pos hb, ih, List.all_cons, hr, Bool.true_and]
    · rw [scan, if_neg hb, List.all_cons, readable]
      match he : extractTs fromtimestamp (rstrip line) with
      | .error _ => rfl
      | .ok none => exact ih
      | .ok (some ts) => cases hf : fresh cutoff lastTs ts <;> simpa [hf] using ih

theorem scan_sublist (cutoff : Instant) (lastTs : Option Instant) (ls : List Bytes) :
    (scan fromtimestamp cutoff lastTs ls).1.Sublist (ls.map rstrip) := by
  rw [scan_eq]
  exact (List.filter_sublist.trans (List.takeWhile_sublist _)).map rstrip

end

/-! ## `start_watching` -/

/-- One entry of `log_files`: the handler that is scheduled for it and what its backfill hands on;
nothing for a path where no file exists. -/
def watchFile (fromtimestamp : ℚ → FromTimestamp) (fs : FileSystem) (cwd : String)
    (cutoffTs : Option Instant) (getLastTs : String → Option Instant) (filepath : String) :
    Option (LogFileHandler × List IngestCall) :=
  if (fs (abspath cwd filepath)).isNone then none
  else
    let handler := LogFileHandler.init fs cwd filepath
    match cutoffTs with
    | some cutoff => some (handler.backfill fromtimestamp fs cutoff (getLastTs filepath))
    | none => some (handler, [])

def startWatching (fromtimestamp : ℚ → FromTimestamp) (fs : FileSystem) (cwd : String)
    (cutoffTs : Option Instant) (getLastTs : String → Option Instant) (logFiles : List String) :
    List LogFileHandler × List IngestCall :=
  let started := logFiles.filterMap (watchFile fromtimestamp fs cwd cutoffTs getLastTs)
  (started.map (·.1), started.flatMap (·.2))

end Cadsa.LogWatcher
