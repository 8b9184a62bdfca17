import Mathlib.Data.Int.Order.Basic
import Mathlib.Data.List.Nodup
import Cadsa.Core.LogWatcher

/-! Restart: the backfill of a source against what the previous run had stored of it. The lines
stored so far are known by the newest timestamp among them alone; `handed_iff` says when that
is enough. -/
namespace Cadsa.Restart
open LogWatcher Utf8 PyText PosixPath
set_option autoImplicit false

structure Row where
  ts : Instant
  logSource : String
  deriving DecidableEq

/-- `SELECT MAX(ts) FROM requests WHERE log_source = ?`. -/
def getLastTs (requests : List Row) (filepath : String) : Option Instant :=
  ((requests.filter (·.logSource = filepath)).map Row.ts).max?

section
variable (fromtimestamp : ℚ → FromTimestamp) (rowTs : List Char → Option Instant)

/-- The timestamp of the row that `ingest_fn` stores for a line of the file; `none` where the
line is not an access line. -/
def lineTs (line : Bytes) : Option Instant := rowTs (decode (rstrip line))

/-- What the previous run left behind: the log file, which of its lines were stored, and the
table with a row for each of these (and any others). -/
structure Stopped (filepath : String) where
  content : Bytes
  stored : ℕ → Bool
  requests : List Row
  has_row : ∀ p ∈ (fileLines content).zipIdx, stored p.2 = true →
    ∃ row ∈ requests, row.logSource = filepath ∧ lineTs rowTs p.1 = some row.ts

variable {rowTs} in
def Stopped.lines {filepath : String} (s : Stopped rowTs filepath) : List (Bytes × ℕ) :=
  (fileLines s.content).zipIdx

variable {rowTs} in
/-- An access line inside the window that is not stored. -/
def Stopped.missing {filepath : String} (s : Stopped rowTs filepath) (cutoff : Instant) (p : Bytes × ℕ) : Bool :=
  !s.stored p.2 && match lineTs rowTs p.1 with
    | some t => decide (cutoff ≤ t)
    | none => false

def callFor (filepath : String) (p : Bytes × ℕ) : IngestCall := ⟨decode (rstrip p.1), filepath⟩

/-- The scan reads in every access line the timestamp that is stored with it. -/
def Stamped (content : Bytes) : Prop :=
  ∀ line ∈ fileLines content, ∀ t, lineTs rowTs line = some t →
    extractTs fromtimestamp (rstrip line) = .ok (some t)

def accessCalls (calls : List IngestCall) : List IngestCall := calls.filter fun c => (rowTs c.line).isSome

theorem backfill_calls {fs : FileSystem} {cwd filepath : String} {content : Bytes}
    (hp : abspath cwd filepath = filepath) (hf : fs filepath = some content) (cutoff : Instant)
    (lastTs : String → Option Instant) :
    (watchFile fromtimestamp fs cwd (some cutoff) lastTs filepath).map (·.2) =
      some ((scan fromtimestamp cutoff (lastTs filepath) (fileLines content)).1.map fun raw =>
        ⟨decode raw, filepath⟩) := by
  simp [watchFile, LogFileHandler.init, LogFileHandler.backfill, hp, hf]

theorem accessCalls_scan (filepath : String) (content : Bytes) (cutoff : Instant) (lastTs : Option Instant) :
    accessCalls rowTs ((scan fromtimestamp cutoff lastTs (fileLines content)).1.map fun raw =>
        ⟨decode raw, filepath⟩) =
      (((fileLines content).zipIdx.takeWhile fun p => readable fromtimestamp p.1).filter fun p =>
        accepts fromtimestamp cutoff lastTs p.1 && (lineTs rowTs p.1).isSome).map (callFor filepath) := by
  conv_lhs => rw [scan_eq, ← List.zipIdx_map_fst 0 (fileLines content)]
  simp only [accessCalls, List.takeWhile_map, List.filter_map, List.map_map, List.filter_filter]
  congr 1
  exact List.filter_congr fun p _ => by simp [Function.comp_def, lineTs, Bool.and_comm]

/-! ## The high-water mark -/

theorem fresh_getLastTs (cutoff : Instant) (requests : List Row) (filepath : String) (t : Instant) :
    fresh cutoff (getLastTs requests filepath) t = true ↔
      cutoff ≤ t ∧ ∀ row ∈ requests, row.logSource = filepath → row.ts < t := by
  cases hm : getLastTs requests filepath with
  | none =>
    have he := List.max?_eq_none_iff.mp hm
    simp only [List.map_eq_nil_iff, List.filter_eq_nil_iff, decide_eq_true_eq] at he
    simp only [fresh, Bool.and_true, Bool.not_eq_true', decide_eq_false_iff_not, not_lt]
    exact ⟨fun h => ⟨h, fun row hr hs => absurd hs (he row hr)⟩, fun h => h.1⟩
  | some last =>
    obtain ⟨hmem, hle⟩ := List.max?_eq_some_iff.mp hm
    obtain ⟨top, htop, rfl⟩ := List.mem_map.mp hmem
    rw [List.mem_filter, decide_eq_true_eq] at htop
    simp only [fresh, Bool.and_eq_true, Bool.not_eq_true', decide_eq_false_iff_not, not_lt, not_le]
    refine and_congr_right fun _ => ⟨fun h row hr hs => ?_, fun h => h top htop.1 htop.2⟩
    have hrow : row.ts ∈ (requests.filter (·.logSource = filepath)).map Row.ts :=
      List.mem_map_of_mem (List.mem_filter.mpr ⟨hr, by simp [hs]⟩)
    exact lt_of_le_of_lt (hle _ hrow) h

/-! ## Comparing two selections of one list -/

theorem map_selected_eq_iff {α β : Type} {l : List α} (hl : l.Nodup) (go sel want : α → Bool) (f : α → β)
    (hs : ∀ a ∈ l, sel a = true → want a = true) :
    ((l.takeWhile go).filter sel).map f = (l.filter want).map f ↔
      ∀ a ∈ l, want a = true → a ∈ l.takeWhile go ∧ sel a = true := by
  have hsplit := List.takeWhile_append_dropWhile (p := go) (l := l)
  generalize l.takeWhile go = A at *
  generalize l.dropWhile go = B at *
  subst hsplit
  have hsub : (A.filter sel).Sublist (A.filter want) := by
    have h : A.filter sel = (A.filter want).filter sel := by
      rw [List.filter_filter]
      refine List.filter_congr fun a ha => ?_
      cases hsa : sel a with
      | false => simp
      | true => simp [hs a (List.mem_append_left _ ha) hsa]
    rw [h]
    exact List.filter_sublist
  rw [List.filter_append]
  constructor
  · intro h a ha hw
    have hlen := congrArg List.length h
    simp only [List.length_map, List.length_append] at hlen
    have hle := hsub.length_le
    have hB : B.filter want = [] := List.eq_nil_of_length_eq_zero (by omega)
    have hA := hsub.eq_of_length (by omega)
    rcases List.mem_append.mp ha with ha | ha
    · have hm : a ∈ A.filter sel := hA ▸ List.mem_filter.mpr ⟨ha, hw⟩
      exact ⟨ha, (List.mem_filter.mp hm).2⟩
    · exact absurd hw (List.filter_eq_nil_iff.mp hB a ha)
  · intro h
    have hB : B.filter want = [] := List.filter_eq_nil_iff.mpr fun b hb hw =>
      (List.nodup_append.mp hl).2.2 b (h b (List.mem_append_right _ hb) hw).1 b hb rfl
    have hA : A.filter sel = A.filter want := List.filter_congr fun a ha => by
      rw [Bool.eq_iff_iff]
      exact ⟨hs a (List.mem_append_left _ ha), fun hw => (h a (List.mem_append_left _ ha) hw).2⟩
    rw [hA, hB, List.append_nil]

/-! ## The restart -/

/-- The restart hands on the missing access lines of the file, each once and in order. -/
def HandsMissing (fs : FileSystem) (cwd : String) (cutoff : Instant) {filepath : String}
    (s : Stopped rowTs filepath) : Prop :=
  (watchFile fromtimestamp fs cwd (some cutoff) (getLastTs s.requests) filepath).map (accessCalls rowTs ·.2) =
    some ((s.lines.filter (s.missing cutoff)).map (callFor filepath))

/-- The scan comes to the line, and every row stored for the source is older. -/
def NewerThanStored {filepath : String} (s : Stopped rowTs filepath) (p : Bytes × ℕ) : Prop :=
  p ∈ s.lines.takeWhile (fun q => readable fromtimestamp q.1) ∧
    ∀ row ∈ s.requests, row.logSource = filepath → ∀ t, lineTs rowTs p.1 = some t → row.ts < t

variable {fromtimestamp rowTs}

theorem accepts_iff {filepath : String} {s : Stopped rowTs filepath} (hst : Stamped fromtimestamp rowTs s.content)
    {cutoff : Instant} {p : Bytes × ℕ} (hp : p ∈ s.lines) {t : Instant} (ht : lineTs rowTs p.1 = some t) :
    accepts fromtimestamp cutoff (getLastTs s.requests filepath) p.1 = true ↔
      cutoff ≤ t ∧ ∀ row ∈ s.requests, row.logSource = filepath → row.ts < t := by
  have hm : p.1 ∈ fileLines s.content := List.fst_mem_of_mem_zipIdx hp
  rw [accepts, hst p.1 hm t ht]
  exact fresh_getLastTs cutoff s.requests filepath t

theorem missing_iff {filepath : String} {s : Stopped rowTs filepath} {cutoff : Instant} {p : Bytes × ℕ} :
    s.missing cutoff p = true ↔ s.stored p.2 = false ∧ ∃ t, lineTs rowTs p.1 = some t ∧ cutoff ≤ t := by
  rw [Stopped.missing, Bool.and_eq_true, Bool.not_eq_true']
  cases lineTs rowTs p.1 with
  | none => simp
  | some t => simp

theorem missing_of_accepts {filepath : String} {s : Stopped rowTs filepath}
    (hst : Stamped fromtimestamp rowTs s.content) {cutoff : Instant} {p : Bytes × ℕ} (hp : p ∈ s.lines)
    (ha : accepts fromtimestamp cutoff (getLastTs s.requests filepath) p.1 = true)
    (hacc : (lineTs rowTs p.1).isSome = true) : s.missing cutoff p = true := by
  obtain ⟨t, ht⟩ := Option.isSome_iff_exists.mp hacc
  obtain ⟨hc, hn⟩ := (accepts_iff hst hp ht).mp ha
  refine missing_iff.mpr ⟨?_, t, ht, hc⟩
  by_contra hs
  obtain ⟨row, hr, hsrc, hts⟩ := s.has_row p hp (by simpa using hs)
  obtain rfl : t = row.ts := Option.some.inj (ht.symm.trans hts)
  exact lt_irrefl _ (hn row hr hsrc)

/-- **Restart.** In a file whose access lines carry the timestamps they are stored with, the
backfill hands on exactly the missing lines if and only if it comes to each of them and each is
newer than everything stored for the source. -/
theorem handed_iff (fs : FileSystem) (cwd filepath : String) (cutoff : Instant) (s : Stopped rowTs filepath)
    (hp : abspath cwd filepath = filepath) (hf : fs filepath = some s.content)
    (hst : Stamped fromtimestamp rowTs s.content) :
    HandsMissing fromtimestamp rowTs fs cwd cutoff s ↔
      ∀ p ∈ s.lines, s.missing cutoff p = true → NewerThanStored fromtimestamp rowTs s p := by
  have hcalls := congrArg (Option.map (accessCalls rowTs))
    (backfill_calls fromtimestamp hp hf cutoff (getLastTs s.requests))
  rw [Option.map_map, Option.map_some, accessCalls_scan] at hcalls
  rw [HandsMissing, show (fun r : LogFileHandler × List IngestCall => accessCalls rowTs r.2) =
    accessCalls rowTs ∘ (·.2) from rfl, hcalls, Option.some.injEq]
  have hnodup : s.lines.Nodup := by
    refine List.Nodup.of_map Prod.snd ?_
    rw [Stopped.lines, List.zipIdx_map_snd]
    exact List.nodup_range'
  have hsel := map_selected_eq_iff hnodup (fun p => readable fromtimestamp p.1)
    (fun p => accepts fromtimestamp cutoff (getLastTs s.requests filepath) p.1 && (lineTs rowTs p.1).isSome)
    (s.missing cutoff) (callFor filepath) fun p hp ha => by
      rw [Bool.and_eq_true] at ha
      exact missing_of_accepts hst hp ha.1 ha.2
  refine hsel.trans (forall₂_congr fun p hp => ?_)
  refine forall_congr' fun hm => and_congr_right fun _ => ?_
  obtain ⟨-, t, ht, hc⟩ := missing_iff.mp hm
  rw [Bool.and_eq_true, accepts_iff hst hp ht, ht]
  simp [hc]

end

/-! ## Two requests -/

def early : List Char := "\x7b\"ts\":1,\"msg\":\"handled request\"\x7d".toList

def late : List Char := "\x7b\"ts\":2,\"msg\":\"handled request\"\x7d".toList

def twoRequests : Bytes := encode (unlines [early, late])

def rowOf (text : List Char) : Option Instant :=
  if text = early then some 1000000 else if text = late then some 2000000 else none

def utcInstant (q : ℚ) : FromTimestamp := .ok (q * 1000000).floor

theorem fileLines_twoRequests :
    fileLines twoRequests = [encode (unlines [early]), encode (unlines [late])] := by decide

theorem stamped_twoRequests : Stamped utcInstant rowOf twoRequests := by
  intro line hl t ht
  rw [fileLines_twoRequests] at hl
  rcases List.mem_pair.mp hl with rfl | rfl
  · obtain rfl : t = 1000000 := Option.some.inj (ht.symm.trans (by decide))
    decide +kernel
  · obtain rfl : t = 2000000 := Option.some.inj (ht.symm.trans (by decide))
    decide +kernel

def earlyStored : Stopped rowOf "/a.log" where
  content := twoRequests
  stored i := i == 0
  requests := [⟨1000000, "/a.log"⟩]
  has_row := by decide

/-- The coroutine of the later line finished first, and the run stopped there. -/
def lateStored : Stopped rowOf "/a.log" where
  content := twoRequests
  stored i := i == 1
  requests := [⟨2000000, "/a.log"⟩]
  has_row := by decide

theorem handed_late : HandsMissing utcInstant rowOf (fun _ => some twoRequests) "/" 0 earlyStored := by
  refine (handed_iff (fun _ => some twoRequests) "/" "/a.log" 0 earlyStored (by decide) rfl
    stamped_twoRequests).mpr fun p hp hm => ?_
  have hl : earlyStored.lines = [(encode (unlines [early]), 0), (encode (unlines [late]), 1)] := by decide
  rw [hl] at hp
  rcases List.mem_pair.mp hp with rfl | rfl
  · exact absurd hm (by decide)
  · refine ⟨by rw [hl]; decide +kernel, ?_⟩
    intro row hr _ t ht
    obtain rfl : t = 2000000 := Option.some.inj (ht.symm.trans (by decide))
    rw [List.mem_singleton.mp hr]
    decide

theorem early_lost : Stamped utcInstant rowOf lateStored.content ∧
    ¬ HandsMissing utcInstant rowOf (fun _ => some twoRequests) "/" 0 lateStored := by
  refine ⟨stamped_twoRequests, ?_⟩
  rw [HandsMissing]
  decide +kernel

end Cadsa.Restart
