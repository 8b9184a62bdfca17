import Cadsa.Lib.Runs
import Cadsa.Core.LiveTail

/-! Log rotation: the path comes to name a new, empty file. The handler sees a rotation only in
a file that is shorter than its offset; `all_lines` is what it hands on as long as every
rotation shows. -/
namespace Cadsa.Rotation
open LogWatcher LiveTail Utf8 PyText PosixPath Runs
set_option autoImplicit false

inductive Event where
  | append (line : Line)
  | rotate
  | read
  deriving DecidableEq

/-- The file the path names, its handler and the calls so far. `seen`, `rotated` and `written`
only record the history: how much of this file was read from its start on, whether it replaced
another since the last read, and every line written since the handler started. -/
structure Watched where
  content : Bytes
  handler : LogFileHandler
  handed : List IngestCall
  seen : ℕ
  rotated : Bool
  written : List Line
  deriving DecidableEq

def Watched.step (s : Watched) : Event → Option Watched
  | .append line =>
    some { s with content := s.content ++ encode (line.text ++ ['\n']), written := s.written ++ [line] }
  | .rotate =>
    -- every byte of the old file was read
    if s.seen = s.content.length then some { s with content := [], seen := 0, rotated := true } else none
  | .read =>
    let r := s.handler.readContent s.content
    some { s with
      handler := r.1
      handed := s.handed ++ r.2
      seen := if s.handler.start s.content ≤ s.seen then s.content.length else s.seen
      rotated := false }

def Watched.started (cwd filepath : String) (content : Bytes) : Watched :=
  ⟨content, .init (fun _ => some content) cwd filepath, [], content.length, false, []⟩

/-- The new file is shorter than the offset, or there is only whitespace in front of it. -/
def Recognised (s : Watched) : Prop :=
  s.content.length < s.handler.pos ∨
    let front := s.content.take s.handler.pos
    Blank (decode front) ∧ encode (decode front) = front

instance (s : Watched) : Decidable (Recognised s) :=
  inferInstanceAs (Decidable (_ ∨ let _ := _; Blank _ ∧ _ = _))

def Guard (s : Watched) (e : Event) : Prop := e = .read → s.rotated = true → Recognised s

instance (s : Watched) (e : Event) : Decidable (Guard s e) :=
  inferInstanceAs (Decidable (e = .read → s.rotated = true → Recognised s))

/-! ## What is still to be read -/

def Watched.base (s : Watched) : ℕ := if s.rotated then 0 else s.handler.pos

/-- `pending` lies behind the base of the file, and everything written before it was handed on. -/
structure Tracks (path : String) (s : Watched) (pending : List Line) : Prop where
  path_eq : s.handler.filepath = path
  base_le : s.base ≤ s.content.length
  seen_le : s.seen ≤ s.base
  unread : s.content.drop s.base = encode (unlines (pending.map Line.text))
  handed : ∃ done, s.written = done ++ pending ∧ s.handed = callsFor path (done.map Line.text)

theorem tracks_started (cwd filepath : String) (content : Bytes) :
    Tracks (abspath cwd filepath) (.started cwd filepath content) [] :=
  ⟨rfl, le_rfl, le_rfl, List.drop_length, [], rfl, rfl⟩

theorem Tracks.append {path : String} {s : Watched} {pending : List Line} (h : Tracks path s pending)
    {line : Line} {s' : Watched} (hs : s.step (.append line) = some s') : Tracks path s' (pending ++ [line]) := by
  cases hs
  obtain ⟨done, hw, hd⟩ := h.handed
  refine ⟨h.path_eq, ?_, h.seen_le, ?_, done, ?_, hd⟩
  · have := h.base_le
    simp only [Watched.base, List.length_append] at this ⊢
    omega
  · have hu := h.unread
    change (s.content ++ _).drop s.base = _
    rw [List.drop_append_of_le_length h.base_le, hu, ← encode_append, List.map_append, unlines_append]
    simp [unlines]
  · rw [hw, List.append_assoc]

theorem Tracks.rotate {path : String} {s : Watched} {pending : List Line} (h : Tracks path s pending)
    {s' : Watched} (hs : s.step .rotate = some s') : Tracks path s' [] := by
  by_cases hc : s.seen = s.content.length
  · rw [Watched.step, if_pos hc] at hs
    cases hs
    -- nothing was pending in the old file
    have hb : s.base = s.content.length := le_antisymm h.base_le (hc ▸ h.seen_le)
    have hu := h.unread
    rw [hb, List.drop_length, ← encode_nil] at hu
    have hp : pending = [] := by
      cases pending with
      | nil => rfl
      | cons l ls =>
        have he := encode_injective hu
        simp [unlines] at he
    subst hp
    exact ⟨h.path_eq, le_rfl, le_rfl, rfl, h.handed⟩
  · rw [Watched.step, if_neg hc] at hs
    cases hs

theorem Tracks.pieces_read {path : String} {s : Watched} {pending : List Line} (h : Tracks path s pending)
    (hg : Guard s .read) :
    pieces (decode (s.content.drop (s.handler.start s.content))) = pending.map fun l => strip l.text := by
  have hu := h.unread
  rw [← pieces_lines]
  cases hr : s.rotated with
  | false =>
    have hb : s.base = s.handler.pos := by simp [Watched.base, hr]
    have hl := h.base_le
    rw [hb] at hl hu
    rw [LogFileHandler.start_of_le hl, hu, decode_encode]
  | true =>
    have hb : s.base = 0 := by simp [Watched.base, hr]
    rw [hb, List.drop_zero] at hu
    rcases Nat.lt_or_ge s.content.length s.handler.pos with hlt | hle
    · rw [LogFileHandler.start, if_pos hlt, List.drop_zero, hu, decode_encode]
    · -- the offset lies behind some whitespace of the first line
      obtain ⟨hblank, hfront⟩ := (hg rfl hr).resolve_left (Nat.not_lt.mpr hle)
      have hc : encode (decode (s.content.take s.handler.pos)) ++ s.content.drop s.handler.pos =
          encode (unlines (pending.map Line.text)) := by
        rw [hfront, List.take_append_drop, hu]
      obtain ⟨t, ht, hr⟩ := encode_prefix hc
      rw [LogFileHandler.start_of_le hle, hr, ht, pieces_append_left hblank, decode_encode]

theorem Tracks.read {path : String} {s : Watched} {pending : List Line} (h : Tracks path s pending)
    (hg : Guard s .read) {s' : Watched} (hs : s.step .read = some s') : Tracks path s' [] := by
  cases hs
  obtain ⟨done, hw, hd⟩ := h.handed
  rw [LogFileHandler.readContent_eq]
  refine ⟨h.path_eq, le_rfl, ?_, List.drop_length, done ++ pending, by simp [hw], ?_⟩
  · have := h.base_le
    have := h.seen_le
    change (if s.handler.start s.content ≤ s.seen then s.content.length else s.seen) ≤ s.content.length
    split_ifs <;> omega
  · change s.handed ++ (pieces (decode (s.content.drop (s.handler.start s.content)))).map _ = _
    rw [hd, h.pieces_read hg, h.path_eq, List.map_append, callsFor_append, callsFor_lines path pending, pieces_lines]

/-! ## Runs -/

theorem tracks_step {path : String} (s : Watched) (e : Event) (s' : Watched)
    (h : ∃ pending, Tracks path s pending) (hg : Guard s e) (hs : s.step e = some s') :
    ∃ pending, Tracks path s' pending := by
  obtain ⟨pending, h⟩ := h
  cases e with
  | append line => exact ⟨_, h.append hs⟩
  | rotate => exact ⟨_, h.rotate hs⟩
  | read => exact ⟨_, h.read hg hs⟩

theorem tracks_idle_step {path : String} (s : Watched) (e : Event) (s' : Watched) (h : Tracks path s [])
    (hg : Guard s e ∧ ∀ line, e ≠ .append line) (hs : s.step e = some s') : Tracks path s' [] := by
  cases e with
  | append line => exact absurd rfl (hg.2 line)
  | rotate => exact h.rotate hs
  | read => exact h.read hg.1 hs

theorem Tracks.written_handed {path : String} {s : Watched} (h : Tracks path s []) :
    s.handed = callsFor path (s.written.map Line.text) := by
  obtain ⟨done, hw, hd⟩ := h.handed
  rw [hd, hw, List.append_nil]

/-- **Rotation.** Where every rotation shows, a read after the last append completes the calls:
all lines written since the handler started, once and in order. -/
theorem all_lines (cwd filepath : String) (content : Bytes) (before after : List Event) (s : Watched)
    (hrun : exec Watched.step (.started cwd filepath content) (before ++ .read :: after) = some s)
    (hafter : ∀ e ∈ after, ∀ line, e ≠ .append line)
    (hguard : Along Watched.step (fun s e _ => Guard s e) (.started cwd filepath content)
      (before ++ .read :: after)) :
    s.handed = callsFor (abspath cwd filepath) (s.written.map Line.text) := by
  obtain ⟨m, hm, hrest⟩ := exec_append_some hrun
  obtain ⟨r, hr, hidle⟩ := exec_cons_some hrest
  obtain ⟨hg₁, hg₂⟩ := hguard.append hm
  have hbefore : ∃ pending, Tracks (abspath cwd filepath) m pending :=
    exec_invariant tracks_step ⟨[], tracks_started cwd filepath content⟩ hg₁ hm
  obtain ⟨pending, hp⟩ := hbefore
  obtain ⟨hg, hg₃⟩ := hg₂ r hr
  -- from the read on nothing is pending
  have hall : Tracks (abspath cwd filepath) s [] :=
    exec_invariant tracks_idle_step (hp.read hg hr) (hg₃.and (along_of_mem (fun a ha _ _ => hafter a ha) _)) hidle
  exact hall.written_handed

def lineA : Line := ⟨['a'], by decide, by decide⟩

def lineB : Line := ⟨['b', 'b'], by decide, by decide⟩

theorem all_lines_short_file : ∃ s, exec Watched.step (.started "/" "/a.log" [])
      ([.append lineB, .read, .rotate, .append lineA] ++ [.read]) = some s ∧
    s.handed = callsFor (abspath "/" "/a.log") (s.written.map Line.text) := by
  obtain ⟨s, hs⟩ := Option.isSome_iff_exists.mp (show (exec Watched.step (.started "/" "/a.log" [])
      ([.append lineB, .read, .rotate, .append lineA] ++ [.read])).isSome = true by decide)
  exact ⟨s, hs, all_lines "/" "/a.log" [] _ [] s hs (by simp) (by decide)⟩

theorem hidden_rotation_loses_line : exec Watched.step (.started "/" "/a.log" [])
      ([.append lineA, .read, .rotate, .append lineB] ++ [.read]) =
        some ⟨encode "bb\n".toList, ⟨"/a.log", 3⟩, [⟨['a'], "/a.log"⟩], 0, false, [lineA, lineB]⟩ ∧
    [⟨['a'], "/a.log"⟩] ≠ callsFor "/a.log" ([lineA, lineB].map Line.text) := by
  decide

end Cadsa.Rotation
