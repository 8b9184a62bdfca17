import Mathlib.Algebra.BigOperators.Group.List.Basic
import Cadsa.Core.Accounting
import Cadsa.Core.Restart

/-! The two ways in which a file is read, line by line in the backfill and as one text in the tail. -/
namespace Cadsa.BackfillTail
open LogWatcher LogParser Utf8 PyText PyJson
set_option autoImplicit false

def stripped (calls : List IngestCall) : List IngestCall := calls.map fun c => { c with line := strip c.line }

section
variable (fromtimestamp : ℚ → FromTimestamp) (cutoff : Instant)

/-- Both hand on the same lines and leave the handler at the end of the file. -/
def SameLines (h : LogFileHandler) (fs : FileSystem) (content : Bytes) : Prop :=
  let filled := h.backfill fromtimestamp fs cutoff none
  let tailed := { h with pos := 0 }.readNewLines fs
  stripped filled.2 = stripped tailed.2 ∧ filled.1.pos = content.length ∧ tailed.1.pos = content.length

/-- The scan finds a time inside the window, and the line is one line for the tail too. -/
def Whole (line : Bytes) : Prop :=
  (∃ ts, extractTs fromtimestamp (rstrip line) = .ok (some ts) ∧ cutoff ≤ ts) ∧ Unbroken (strip (decode line))

/-! ## The lines of the file -/

theorem pieces_fileLinesFrom (line content : Bytes) :
    pieces (decode (line.reverse ++ content)) = (fileLinesFrom line content).flatMap fun l => pieces (decode l) := by
  induction content generalizing line with
  | nil =>
    rw [List.append_nil, fileLinesFrom]
    split_ifs with hl
    · rw [hl]
      rfl
    · rw [List.flatMap_cons, List.flatMap_nil, List.append_nil]
  | cons b content ih =>
    rw [fileLinesFrom]
    split_ifs with hb
    · subst hb
      have hend : decode ((0x0A :: line).reverse) = decode line.reverse ++ ['\n'] := by
        rw [List.reverse_cons, decode_ascii (by decide)]
        rfl
      rw [decode_ascii (by decide), List.flatMap_cons, hend, ← ih []]
      exact pieces_append_newline _ _
    · rw [← ih (b :: line), List.reverse_cons, List.append_assoc, List.singleton_append]

theorem pieces_decode (content : Bytes) :
    pieces (decode content) = (fileLines content).flatMap fun l => pieces (decode l) :=
  pieces_fileLinesFrom [] content

theorem isByteSpace_ascii {b : UInt8} (h : isByteSpace b = true) :
    b.toNat < 0x80 ∧ isSpace (Char.ofNat b.toNat) = true := by
  simp only [isByteSpace, List.mem_cons, List.not_mem_nil, or_false, decide_eq_true_eq] at h
  obtain rfl | rfl | rfl | rfl | rfl | rfl := h <;> decide

theorem decode_spaces {w : Bytes} (hw : ∀ b ∈ w, isByteSpace b = true) (s : Bytes) :
    ∃ t, Blank t ∧ decode (s ++ w) = decode s ++ t := by
  induction w using List.reverseRecOn with
  | nil => exact ⟨[], blank_nil, by rw [List.append_nil, List.append_nil]⟩
  | append_singleton w b ih =>
    obtain ⟨t, ht, hs⟩ := ih fun d hd => hw d (List.mem_append_left [b] hd)
    obtain ⟨hascii, hspace⟩ := isByteSpace_ascii (hw b (List.mem_append_right w (List.mem_singleton_self b)))
    refine ⟨t ++ [Char.ofNat b.toNat], (blank_append _ _).mpr ⟨ht, blank_singleton hspace⟩, ?_⟩
    rw [← List.append_assoc, decode_ascii hascii, hs, List.append_assoc, decode_nil]

theorem strip_decode_rstrip (line : Bytes) : strip (decode (rstrip line)) = strip (decode line) := by
  have hline : rstrip line ++ line.rtakeWhile isByteSpace = line := List.rdropWhile_append_rtakeWhile
  obtain ⟨t, ht, hs⟩ := decode_spaces (fun b hb => List.mem_rtakeWhile_imp hb) (rstrip line)
  conv_rhs => rw [← hline, hs, strip_append_right ht]

/-! ## Lines with a time -/

theorem quote_mem_of_tsSearch {s : Bytes} {q : ℚ} (h : tsSearch s = some q) : 0x22 ∈ s := by
  induction s with
  | nil => cases h
  | cons b s ih =>
    rw [tsSearch] at h
    split at h
    · rename_i hat
      unfold tsAt at hat
      split at hat
      · rename_i hcons
        rw [hcons]
        exact List.mem_cons_self
      · cases hat
    · exact List.mem_cons_of_mem b (ih h)

theorem not_blank_of_tsSearch {line : Bytes} {q : ℚ} (h : tsSearch (rstrip line) = some q) : ¬ Blank (decode line) := by
  have hmem : (0x22 : UInt8) ∈ line := (List.rdropWhile_prefix _ _).subset (quote_mem_of_tsSearch h)
  obtain ⟨a, b, rfl⟩ := List.append_of_mem hmem
  intro hb
  rw [decode_ascii (by decide)] at hb
  exact absurd (hb '"' (by simp)) (by decide)

theorem extractTs_blank {line : Bytes} (h : Blank (decode line)) : extractTs fromtimestamp (rstrip line) = .ok none := by
  rw [extractTs]
  cases hq : tsSearch (rstrip line) with
  | none => rfl
  | some q => exact absurd h (not_blank_of_tsSearch hq)

theorem not_blank_of_ts {line : Bytes} {ts : Instant} (h : extractTs fromtimestamp (rstrip line) = .ok (some ts)) :
    ¬ Blank (decode line) := fun hb => by
  rw [extractTs_blank fromtimestamp hb] at h
  cases h

theorem accepts_iff {line : Bytes} : accepts fromtimestamp cutoff none line = true ↔
    ∃ ts, extractTs fromtimestamp (rstrip line) = .ok (some ts) ∧ cutoff ≤ ts := by
  rw [accepts]
  constructor
  · intro h
    split at h
    · rename_i ts hts
      exact ⟨ts, hts, by simpa [fresh] using h⟩
    · cases h
  · rintro ⟨ts, hts, hcut⟩
    simp [hts, fresh, hcut]

/-! ## Counting -/

theorem length_filter_le_flatMap {α β : Type} {l : List α} {f : α → List β} {p : α → Bool}
    (h : ∀ x ∈ l, p x = true → 0 < (f x).length) : (l.filter p).length ≤ (l.flatMap f).length := by
  induction l with
  | nil => exact Nat.le_refl _
  | cons x l ih =>
    have hl := ih fun y hy => h y (List.mem_cons_of_mem x hy)
    rw [List.flatMap_cons, List.length_append, List.filter_cons]
    split_ifs with hx
    · have hpos := h x List.mem_cons_self hx
      rw [List.length_cons]
      omega
    · omega

/-- As many results as selected elements: each of these has one, and the others none. -/
theorem length_eq_of_flatMap_le {α β : Type} {l : List α} {f : α → List β} {p : α → Bool}
    (h : ∀ x ∈ l, p x = true → 0 < (f x).length) (hle : (l.flatMap f).length ≤ (l.filter p).length) :
    ∀ x ∈ l, (f x).length = if p x = true then 1 else 0 := by
  induction l with
  | nil => exact fun x hx => absurd hx List.not_mem_nil
  | cons x l ih =>
    have hl : ∀ y ∈ l, p y = true → 0 < (f y).length := fun y hy => h y (List.mem_cons_of_mem x hy)
    have hrest := length_filter_le_flatMap hl
    rw [List.flatMap_cons, List.length_append, List.filter_cons] at hle
    have hhere : (f x).length = (if p x = true then 1 else 0) ∧ (l.flatMap f).length ≤ (l.filter p).length := by
      split_ifs at hle ⊢ with hx
      · have hpos := h x List.mem_cons_self hx
        rw [List.length_cons] at hle
        omega
      · omega
    intro y hy
    rcases List.mem_cons.mp hy with rfl | hy
    · exact hhere.1
    · exact ih hl hhere.2 y hy

theorem map_filter_eq_flatMap {α β : Type} {l : List α} {f : α → List β} {p : α → Bool} {g : α → β}
    (h : ∀ x ∈ l, f x = if p x = true then [g x] else []) : (l.filter p).map g = l.flatMap f := by
  induction l with
  | nil => rfl
  | cons x l ih =>
    have hl := ih fun y hy => h y (List.mem_cons_of_mem x hy)
    rw [List.flatMap_cons, h x List.mem_cons_self, ← hl, List.filter_cons]
    split_ifs <;> rfl

/-! ## Backfill and tail -/

variable {h : LogFileHandler} {fs : FileSystem} {content : Bytes}

theorem stripped_backfill (hf : fs h.filepath = some content) :
    stripped (h.backfill fromtimestamp fs cutoff none).2 =
      ((((fileLines content).takeWhile (readable fromtimestamp)).filter (accepts fromtimestamp cutoff none)).map
        fun line => ⟨strip (decode line), h.filepath⟩) := by
  simp only [stripped, LogFileHandler.backfill, hf, scan_eq, List.map_map]
  refine List.map_congr_left fun line _ => ?_
  simp only [Function.comp_apply, strip_decode_rstrip]

theorem strip_of_mem_pieces {s l : List Char} (h : l ∈ pieces s) : strip l = l := by
  obtain ⟨hl, -⟩ := List.mem_filter.mp h
  obtain ⟨line, -, rfl⟩ := List.mem_map.mp hl
  exact strip_strip line

theorem stripped_tail (hf : fs h.filepath = some content) :
    stripped ({ h with pos := 0 }.readNewLines fs).2 =
      ((fileLines content).flatMap fun l => pieces (decode l)).map (⟨·, h.filepath⟩) := by
  have hread : ({ h with pos := 0 }.readNewLines fs).2 = (pieces (decode content)).map (⟨·, h.filepath⟩) := by
    rw [LogFileHandler.readNewLines]
    simp only [hf, LogFileHandler.readContent_eq, LogFileHandler.start, Nat.not_lt_zero, if_false, List.drop_zero]
  rw [hread, pieces_decode, stripped, List.map_map]
  refine List.map_congr_left fun l hl => ?_
  obtain ⟨line, -, hl⟩ := List.mem_flatMap.mp hl
  simp only [Function.comp_apply, strip_of_mem_pieces hl]

theorem backfill_pos (hf : fs h.filepath = some content) : (h.backfill fromtimestamp fs cutoff none).1.pos =
    if (fileLines content).all (readable fromtimestamp) = true then content.length else h.pos := by
  simp only [LogFileHandler.backfill, hf, scan_done]

theorem tail_pos (hf : fs h.filepath = some content) : ({ h with pos := 0 }.readNewLines fs).1.pos = content.length := by
  rw [LogFileHandler.readNewLines]
  simp only [hf, LogFileHandler.readContent_eq]

theorem whole_of_sameLines (hf : fs h.filepath = some content) (hs : SameLines fromtimestamp cutoff h fs content) :
    ∀ line ∈ fileLines content, ¬ Blank (decode line) → Whole fromtimestamp cutoff line := by
  obtain ⟨hlines, -, -⟩ := hs
  rw [stripped_backfill fromtimestamp cutoff hf, stripped_tail hf] at hlines
  have hlength := congrArg List.length hlines
  rw [List.length_map, List.length_map] at hlength
  have hle : ((fileLines content).flatMap fun l => pieces (decode l)).length ≤
      ((fileLines content).filter (accepts fromtimestamp cutoff none)).length := by
    rw [← hlength]
    exact ((List.takeWhile_sublist _).filter _).length_le
  have hpieces : ∀ line ∈ fileLines content, accepts fromtimestamp cutoff none line = true →
      0 < (pieces (decode line)).length := by
    intro line _ ha
    obtain ⟨ts, hts, -⟩ := (accepts_iff fromtimestamp cutoff).mp ha
    exact List.length_pos_of_ne_nil (mt (pieces_eq_nil_iff _).mp (not_blank_of_ts fromtimestamp hts))
  have hcount := length_eq_of_flatMap_le hpieces hle
  intro line hl hb
  have hline := hcount line hl
  have hpos : 0 < (pieces (decode line)).length := List.length_pos_of_ne_nil (mt (pieces_eq_nil_iff _).mp hb)
  split_ifs at hline with ha
  · refine ⟨(accepts_iff fromtimestamp cutoff).mp ha, ?_⟩
    by_contra hbroken
    have := pieces_length_of_broken hbroken
    omega
  · omega

theorem sameLines_of_whole (hf : fs h.filepath = some content)
    (hw : ∀ line ∈ fileLines content, ¬ Blank (decode line) → Whole fromtimestamp cutoff line) :
    SameLines fromtimestamp cutoff h fs content := by
  have hreadable : ∀ line ∈ fileLines content, readable fromtimestamp line = true := by
    intro line hl
    rw [readable]
    by_cases hb : Blank (decode line)
    · rw [extractTs_blank fromtimestamp hb]
    · obtain ⟨⟨ts, hts, -⟩, -⟩ := hw line hl hb
      rw [hts]
  have htake : (fileLines content).takeWhile (readable fromtimestamp) = fileLines content :=
    List.takeWhile_eq_self_iff.mpr hreadable
  refine ⟨?_, ?_, tail_pos hf⟩
  · rw [stripped_backfill fromtimestamp cutoff hf, stripped_tail hf, htake, List.map_flatMap]
    refine map_filter_eq_flatMap fun line hl => ?_
    by_cases hb : Blank (decode line)
    · have ha : accepts fromtimestamp cutoff none line = false := by rw [accepts, extractTs_blank fromtimestamp hb]
      rw [(pieces_eq_nil_iff _).mpr hb, ha]
      rfl
    · obtain ⟨hts, hunbroken⟩ := hw line hl hb
      rw [pieces_of_unbroken hunbroken, piece_of_not_blank hb, (accepts_iff fromtimestamp cutoff).mpr hts]
      rfl
  · rw [backfill_pos fromtimestamp cutoff hf, if_pos (List.all_eq_true.mpr hreadable)]

/-- **Backfill and tail.** They hand on the same lines if and only if in every line that is not blank the scan
finds a time inside the window and the line has no further line end inside. -/
theorem same_lines_iff (hf : fs h.filepath = some content) : SameLines fromtimestamp cutoff h fs content ↔
    ∀ line ∈ fileLines content, ¬ Blank (decode line) → Whole fromtimestamp cutoff line :=
  ⟨whole_of_sameLines fromtimestamp cutoff hf, sameLines_of_whole fromtimestamp cutoff hf⟩

end

def handler : LogFileHandler := ⟨"/a.log", 0⟩

def laterLine : String := "\x7b\"msg\":\"handled request\",\"status\":404,\"ts\":2.5\x7d"

/-- Two entries with a blank line between them. -/
def plainFile : Bytes := encode (unlines [Ingestion.goodLine.toList, [' '], laterLine.toList])

theorem plain_same_lines : SameLines Restart.utcInstant 0 handler (fun _ => some plainFile) plainFile := by
  refine (same_lines_iff (h := handler) Restart.utcInstant 0 rfl).mpr fun line hl hb => ?_
  have hlines : fileLines plainFile = [encode (unlines [Ingestion.goodLine.toList]), encode (unlines [[' ']]),
      encode (unlines [laterLine.toList])] := by decide +kernel
  rw [hlines] at hl
  rcases List.mem_cons.mp hl with rfl | hl
  · exact ⟨⟨1000000, by decide +kernel, by decide⟩, by decide⟩
  rcases List.mem_pair.mp hl with rfl | rfl
  · exact absurd (by decide) hb
  · exact ⟨⟨2500000, by decide +kernel, by decide⟩, by decide⟩

/-- A string may hold the line separator U+2028 as it is. -/
def separatorLine : String := "\x7b\"msg\":\"handled request\",\"ts\":1,\"note\":\"one\u2028two\"\x7d"

def separatorEntry : List (String × Json) :=
  [("msg", .str "handled request"), ("ts", .int 1), ("note", .str "one\u2028two")]

def separatorFile : Bytes := encode (unlines [separatorLine.toList])

/-- A line of the log that the backfill hands on whole and the tail in two parts. -/
theorem separator_cuts_entry :
    ((parseLine (Ingestion.libraryOn separatorLine separatorEntry) separatorLine [] "" "").map
      fun row => row.map Row.ts) = .ok (some 1000000) ∧
    ¬ SameLines Restart.utcInstant 0 handler (fun _ => some separatorFile) separatorFile := by
  refine ⟨by decide +kernel, ?_⟩
  intro h
  have hlength := congrArg List.length h.1
  revert hlength
  decide +kernel

end Cadsa.BackfillTail
