import Cadsa.Core.LogWatcher

/-! Live tail of a log that is only appended to. The writer's bytes arrive in appends cut
anywhere, reads are interleaved in any order; the handler decodes and splits what it finds at
each read on its own. `exactly_once_iff` says for which runs the lines come out whole. -/
namespace Cadsa.LiveTail
open LogWatcher Utf8 PyText Chunks PosixPath
set_option autoImplicit false

inductive Event where
  | append (data : Bytes)
  | read
  deriving DecidableEq

structure Tail where
  content : Bytes
  handler : LogFileHandler
  handed : List IngestCall
  deriving DecidableEq

def Tail.step (s : Tail) : Event → Tail
  | .append data => { s with content := s.content ++ data }
  | .read =>
    let r := s.handler.readContent s.content
    { s with handler := r.1, handed := s.handed ++ r.2 }

def Tail.run (s : Tail) (es : List Event) : Tail := es.foldl Tail.step s

def Tail.started (cwd filepath : String) : Tail := ⟨[], .init (fun _ => some []) cwd filepath, []⟩

def written : List Event → Bytes
  | [] => []
  | .append data :: es => data ++ written es
  | .read :: es => written es

/-- The size of the file at each read; `size` is its size at the start. -/
def readOffsets (size : ℕ) : List Event → List ℕ
  | [] => []
  | .append data :: es => readOffsets (size + data.length) es
  | .read :: es => size :: readOffsets size es

/-- What is to be handed on: the lines that are not blank, without surrounding whitespace. -/
def callsFor (filepath : String) (lines : List (List Char)) : List IngestCall :=
  ((lines.map strip).filter (· ≠ [])).map (⟨·, filepath⟩)

theorem callsFor_append (path : String) (ls ms : List (List Char)) :
    callsFor path (ls ++ ms) = callsFor path ls ++ callsFor path ms := by
  simp only [callsFor, List.map_append, List.filter_append]

theorem callsFor_lines (path : String) (ls : List Line) :
    callsFor path (ls.map Line.text) = (pieces (unlines (ls.map Line.text))).map (⟨·, path⟩) := by
  rw [callsFor, ← pieces_unlines (unbroken_texts ls)]

/-- Every line whole, once, in file order. -/
def ExactlyOnce (cwd filepath : String) (lines : List (List Char)) (es : List Event) : Prop :=
  ((Tail.started cwd filepath).run es).handed = callsFor (abspath cwd filepath) lines

instance (cwd filepath : String) (lines : List (List Char)) (es : List Event) :
    Decidable (ExactlyOnce cwd filepath lines es) :=
  inferInstanceAs (Decidable (_ = _))

/-! ## What a read finds -/

theorem step_read_of_le {s : Tail} (hp : s.handler.pos ≤ s.content.length) :
    s.step .read = ⟨s.content, { s.handler with pos := s.content.length }, s.handed ++
      (pieces (decode (s.content.drop s.handler.pos))).map (⟨·, s.handler.filepath⟩)⟩ := by
  simp only [Tail.step, LogFileHandler.readContent_eq, LogFileHandler.start_of_le hp]

/-- The bytes each read decodes; `unread` is what the file holds behind the offset. -/
def chunks (unread : Bytes) : List Event → List Bytes
  | [] => []
  | .append data :: es => chunks (unread ++ data) es
  | .read :: es => unread :: chunks [] es

theorem run_handed (s : Tail) (es : List Event) (hp : s.handler.pos ≤ s.content.length) :
    (s.run es).handed = s.handed ++
      (chunkPieces (chunks (s.content.drop s.handler.pos) es)).map (⟨·, s.handler.filepath⟩) := by
  induction es generalizing s with
  | nil => simp [Tail.run, chunks]
  | cons e es ih =>
    cases e with
    | append data =>
      have hl : s.handler.pos ≤ (s.step (.append data)).content.length := by
        simp only [Tail.step, List.length_append]
        omega
      have h := ih (s.step (.append data)) hl
      rw [show (s.step (.append data)).content = s.content ++ data from rfl,
        show (s.step (.append data)).handler = s.handler from rfl,
        List.drop_append_of_le_length hp] at h
      exact h
    | read =>
      have hs := step_read_of_le hp
      have h := ih (s.step .read) (by simp [hs])
      change ((s.step .read).run es).handed = _
      rw [h, hs, chunks, chunkPieces_cons, List.drop_length, List.map_append, List.append_assoc]

theorem chunks_flatten (unread : Bytes) (es : List Event) :
    (chunks unread (es ++ [.read])).flatten = unread ++ written es := by
  induction es generalizing unread with
  | nil => simp [chunks, written]
  | cons e es ih =>
    cases e with
    | append data => simp [chunks, written, ih]
    | read => simp [chunks, written, ih]

theorem readOffsets_add (n m : ℕ) (es : List Event) :
    readOffsets (n + m) es = (readOffsets m es).map (n + ·) := by
  induction es generalizing m with
  | nil => rfl
  | cons e es ih =>
    cases e with
    | append data => rw [readOffsets, readOffsets, Nat.add_assoc, ih]
    | read => rw [readOffsets, readOffsets, List.map_cons, ih]

theorem cuts_chunks (unread : Bytes) (es : List Event) :
    cuts (chunks unread es) = readOffsets unread.length es := by
  induction es generalizing unread with
  | nil => rfl
  | cons e es ih =>
    cases e with
    | append data => rw [chunks, readOffsets, ih, List.length_append]
    | read =>
      have h := readOffsets_add unread.length 0 es
      rw [Nat.add_zero] at h
      rw [chunks, cuts, readOffsets, ih, h]
      rfl

theorem readOffsets_concat (size : ℕ) (es : List Event) :
    readOffsets size (es ++ [.read]) = readOffsets size es ++ [size + (written es).length] := by
  induction es generalizing size with
  | nil => simp [readOffsets, written]
  | cons e es ih =>
    cases e with
    | append data => simp [readOffsets, written, ih, Nat.add_assoc]
    | read => simp [readOffsets, written, ih]

theorem harmless_end (t : List Char) : Harmless t (encode t).length :=
  ⟨t, [], by simp, rfl, .inr blank_nil⟩

/-- **Live tail.** Once a read follows the last append, the lines handed on are exactly the
non-blank lines of the file if and only if every earlier read stopped between two characters,
with nothing but whitespace of the line at the end of the file before or behind that point. -/
theorem exactly_once_iff (cwd filepath : String) (lines : List (List Char)) (es : List Event)
    (hl : ∀ l ∈ lines, Unbroken l) (hw : written es = encode (unlines lines)) :
    ExactlyOnce cwd filepath lines (es ++ [.read]) ↔ ∀ p ∈ readOffsets 0 es, Harmless (unlines lines) p := by
  have hrun := run_handed (Tail.started cwd filepath) (es ++ [.read]) (Nat.zero_le _)
  have hflat : (chunks [] (es ++ [.read])).flatten = encode (unlines lines) := by
    rw [chunks_flatten, List.nil_append, hw]
  have hcuts : cuts (chunks [] (es ++ [.read])) = readOffsets 0 es ++ [(encode (unlines lines)).length] := by
    rw [cuts_chunks, readOffsets_concat, hw]
    simp
  have hiff := chunkPieces_iff (plain_unlines hl) hflat
  have hinj : Function.Injective (fun l => IngestCall.mk l (abspath cwd filepath)) := fun a b h => by
    injection h
  rw [ExactlyOnce, hrun, callsFor, ← pieces_unlines hl]
  change (chunkPieces (chunks [] (es ++ [.read]))).map (fun l => IngestCall.mk l (abspath cwd filepath)) =
    (pieces (unlines lines)).map _ ↔ _
  rw [(List.map_injective_iff.mpr hinj).eq_iff, hiff, hcuts]
  constructor
  · intro h p hp
    exact h p (by simp [hp])
  · intro h p hp
    rcases List.mem_append.mp hp with hp | hp
    · exact h p hp
    · rw [List.mem_singleton.mp hp]
      exact harmless_end _

theorem exactly_once_blank_cut : ExactlyOnce "/" "/a.log" ["ab".toList, "c".toList]
    ([.append (encode "ab".toList), .read, .append (encode "\nc\n".toList)] ++ [.read]) :=
  (exactly_once_iff "/" "/a.log" _ _ (by decide) (by decide)).mpr fun p hp => by
    rw [List.mem_singleton.mp hp]
    exact ⟨"ab".toList, "\nc\n".toList, by decide, by decide, .inr (by decide)⟩

theorem read_inside_line_splits : written [.append (encode "a".toList), .read, .append (encode "b\n".toList)] =
      encode (unlines ["ab".toList]) ∧ Unbroken "ab".toList ∧
    ¬ ExactlyOnce "/" "/a.log" ["ab".toList]
      ([.append (encode "a".toList), .read, .append (encode "b\n".toList)] ++ [.read]) := by
  decide

end Cadsa.LiveTail
