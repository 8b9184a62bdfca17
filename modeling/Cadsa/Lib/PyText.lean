import Mathlib.Data.List.DropRight
import Mathlib.Data.List.TakeWhile
import Mathlib.Tactic.SplitIfs
import Mathlib.Data.Nat.Notation

/-! Python's text methods on strings as character lists: `str.isspace` of one character,
`str.strip`, `str.splitlines`. `pieces` is the common idiom "split into lines, strip each,
drop the empty ones"; the lemmas say how it behaves when a text is cut in two. -/
namespace PyText
set_option autoImplicit false

/-- The characters at which `str.splitlines` ends a line. -/
def isLineBreak (c : Char) : Bool :=
  c.toNat ∈ [0x0A, 0x0B, 0x0C, 0x0D, 0x1C, 0x1D, 0x1E, 0x85, 0x2028, 0x2029]

/-- The characters `str.strip` removes, which are those `\\s` matches in a text pattern. -/
def isSpace (c : Char) : Bool :=
  (0x09 ≤ c.toNat && c.toNat ≤ 0x0D) || (0x1C ≤ c.toNat && c.toNat ≤ 0x20) ||
    (0x2000 ≤ c.toNat && c.toNat ≤ 0x200A) ||
    c.toNat ∈ [0x85, 0xA0, 0x1680, 0x2028, 0x2029, 0x202F, 0x205F, 0x3000]

def stripOf (p : Char → Bool) (s : List Char) : List Char := (s.dropWhile p).rdropWhile p

def strip (s : List Char) : List Char := stripOf isSpace s

/-- `line` is the current line, read so far, in reverse. -/
def splitlinesFrom (line : List Char) : List Char → List (List Char)
  | [] => if line = [] then [] else [line.reverse]
  | '\r' :: '\n' :: s => line.reverse :: splitlinesFrom [] s
  | c :: s => if isLineBreak c then line.reverse :: splitlinesFrom [] s else splitlinesFrom (c :: line) s

def splitlines (s : List Char) : List (List Char) := splitlinesFrom [] s

/-- `[line.strip() for line in s.splitlines() if line.strip()]`. -/
def pieces (s : List Char) : List (List Char) := ((splitlines s).map strip).filter (· ≠ [])

def Blank (s : List Char) : Prop := ∀ c ∈ s, isSpace c = true

instance (s : List Char) : Decidable (Blank s) := List.decidableBAll (fun c => isSpace c = true) s

def Unbroken (s : List Char) : Prop := ∀ c ∈ s, isLineBreak c = false

def Plain (s : List Char) : Prop := ∀ c ∈ s, c ≠ '\n' → isLineBreak c = false

instance (s : List Char) : Decidable (Unbroken s) := List.decidableBAll (fun c => isLineBreak c = false) s

instance (s : List Char) : Decidable (Plain s) :=
  List.decidableBAll (fun c => c ≠ '\n' → isLineBreak c = false) s

/-! ## Blank texts -/

@[simp] theorem blank_nil : Blank [] := by simp [Blank]

@[simp] theorem blank_append (s t : List Char) : Blank (s ++ t) ↔ Blank s ∧ Blank t := by
  simp [Blank, or_imp, forall_and]

/-- No end of the text is stripped. -/
def Trimmed (p : Char → Bool) (s : List Char) : Prop := (∀ c ∈ s.head?, p c = false) ∧ ∀ c ∈ s.getLast?, p c = false

section
variable {p : Char → Bool} {s t : List Char}

theorem stripOf_eq_nil_iff (p : Char → Bool) (s : List Char) : stripOf p s = [] ↔ ∀ c ∈ s, p c = true := by
  rw [stripOf, List.rdropWhile_eq_nil_iff]
  constructor
  · intro h c hc
    by_contra hn
    -- the first character that stays survives the strip on the left
    have hd : s.dropWhile p ≠ [] := by
      intro he
      exact hn (List.dropWhile_eq_nil_iff.mp he c hc)
    have hf := List.head_dropWhile_not p hd
    exact absurd (h _ (List.head_mem hd)) (by simp [hf])
  · intro h c hc
    exact h c ((List.dropWhile_sublist p).subset hc)

theorem stripOf_append_left (h : ∀ c ∈ s, p c = true) (t : List Char) : stripOf p (s ++ t) = stripOf p t := by
  rw [stripOf, List.dropWhile_append, List.dropWhile_eq_nil_iff.mpr h]
  rfl

theorem stripOf_append_right (h : ∀ c ∈ t, p c = true) (s : List Char) : stripOf p (s ++ t) = stripOf p s := by
  have ht : t.dropWhile p = [] := List.dropWhile_eq_nil_iff.mpr h
  rw [stripOf, List.dropWhile_append]
  by_cases hs : (s.dropWhile p).isEmpty
  · have he : s.dropWhile p = [] := by simpa using hs
    rw [if_pos hs, ht, stripOf, he]
  · rw [if_neg hs, List.rdropWhile, List.reverse_append, List.dropWhile_append,
      List.dropWhile_eq_nil_iff.mpr (fun c hc => h c (List.mem_reverse.mp hc))]
    rfl

theorem dropWhile_of_head (h : ∀ c ∈ s.head?, p c = false) : s.dropWhile p = s := by
  cases s with
  | nil => rfl
  | cons c s => rw [List.dropWhile_cons_of_neg (by rw [h c rfl]; decide)]

theorem trimmed_stripOf (p : Char → Bool) (s : List Char) : Trimmed p (stripOf p s) := by
  constructor
  · intro c hc
    obtain ⟨rest, hrest⟩ := List.rdropWhile_prefix p (s.dropWhile p)
    have hne : s.dropWhile p ≠ [] := by
      intro he
      rw [stripOf, he] at hc
      cases hc
    have hhead : (s.dropWhile p).head? = some c := by
      rw [← hrest, List.head?_append, show (List.rdropWhile p (s.dropWhile p)).head? = some c from hc]
      rfl
    rw [List.head?_eq_some_head hne] at hhead
    rw [← Option.some.inj hhead]
    exact List.head_dropWhile_not p hne
  · intro c hc
    have hne : stripOf p s ≠ [] := by
      intro he
      rw [he] at hc
      cases hc
    rw [List.getLast?_eq_some_getLast hne] at hc
    rw [← Option.some.inj hc, ← Bool.not_eq_true]
    exact List.rdropWhile_last_not p (s.dropWhile p) hne

theorem rdropWhile_of_last (h : ∀ c ∈ s.getLast?, p c = false) : s.rdropWhile p = s := by
  refine List.rdropWhile_eq_self_iff.mpr fun hne => ?_
  rw [h _ (List.getLast?_eq_some_getLast hne)]
  decide

theorem stripOf_of_trimmed (h : Trimmed p s) : stripOf p s = s := by
  rw [stripOf, dropWhile_of_head h.1, rdropWhile_of_last h.2]

theorem stripOf_within (p : Char → Bool) (s : List Char) : stripOf p s <:+: s :=
  (List.rdropWhile_prefix p _).isInfix.trans (List.dropWhile_suffix p).isInfix

/-- What is left of a text between two others is that text. -/
theorem stripOf_between_iff {a : List Char} (ha : ∀ c ∈ a, p c = true) :
    stripOf p (a ++ (s ++ t)) = s ↔ Trimmed p s ∧ ∀ c ∈ t, p c = true := by
  rw [stripOf_append_left ha]
  constructor
  · intro h
    have htrim : Trimmed p s := by
      rw [← h]
      exact trimmed_stripOf p _
    refine ⟨htrim, ?_⟩
    by_cases hs : s = []
    · rw [hs, List.nil_append] at h
      exact (stripOf_eq_nil_iff p t).mp h
    · have hhead : ∀ c ∈ (s ++ t).head?, p c = false := by
        intro c hc
        rw [List.head?_append_of_ne_nil _ hs] at hc
        exact htrim.1 c hc
      rw [stripOf, dropWhile_of_head hhead] at h
      have hsplit : (s ++ t).rdropWhile p ++ (s ++ t).rtakeWhile p = s ++ t := List.rdropWhile_append_rtakeWhile
      rw [h] at hsplit
      intro c hc
      rw [← List.append_cancel_left hsplit] at hc
      exact List.mem_rtakeWhile_imp hc
  · rintro ⟨htrim, ht⟩
    rw [stripOf_append_right ht, stripOf_of_trimmed htrim]

end

theorem strip_eq_nil_iff (s : List Char) : strip s = [] ↔ Blank s := stripOf_eq_nil_iff isSpace s

theorem strip_append_left {s : List Char} (h : Blank s) (t : List Char) : strip (s ++ t) = strip t :=
  stripOf_append_left h t

theorem strip_append_right {t : List Char} (h : Blank t) (s : List Char) : strip (s ++ t) = strip s :=
  stripOf_append_right h s

/-! ## One line at a time -/

theorem isLineBreak_newline : isLineBreak '\n' = true := by decide

theorem Unbroken.ne_newline {s : List Char} (h : Unbroken s) : '\n' ∉ s := fun hm => by
  simpa [isLineBreak_newline] using h '\n' hm

theorem Unbroken.plain {s : List Char} (h : Unbroken s) : Plain s := fun c hc _ => h c hc

theorem Plain.unbroken {s : List Char} (h : Plain s) (hn : '\n' ∉ s) : Unbroken s :=
  fun c hc => h c hc (fun he => hn (he ▸ hc))

theorem plain_append (s t : List Char) : Plain (s ++ t) ↔ Plain s ∧ Plain t := by
  simp [Plain, or_imp, forall_and]

theorem unbroken_append (s t : List Char) : Unbroken (s ++ t) ↔ Unbroken s ∧ Unbroken t := by
  simp [Unbroken, or_imp, forall_and]

theorem splitlinesFrom_unbroken (line l s : List Char) (h : Unbroken l) :
    splitlinesFrom line (l ++ s) = splitlinesFrom (l.reverse ++ line) s := by
  induction l generalizing line with
  | nil => rfl
  | cons c l ih =>
    have hc : isLineBreak c = false := h c (by simp)
    have hr : c ≠ '\r' := fun he => by rw [he] at hc; exact absurd hc (by decide)
    rw [List.cons_append, splitlinesFrom, if_neg (by simp [hc]), ih _ fun d hd => h d (by simp [hd])]
    · simp
    · intro s' h1 _
      exact hr h1

theorem splitlines_line (l s : List Char) (h : Unbroken l) :
    splitlines (l ++ '\n' :: s) = l :: splitlines s := by
  rw [splitlines, splitlinesFrom_unbroken _ _ _ h, splitlinesFrom]
  · simp [isLineBreak_newline, splitlines]
  · intro s' h1 _
    exact absurd h1 (by decide)

theorem splitlines_unbroken (l : List Char) (h : Unbroken l) :
    splitlines l = if l = [] then [] else [l] := by
  have hl := splitlinesFrom_unbroken [] l [] h
  rw [List.append_nil] at hl
  rw [splitlines, hl]
  simp [splitlinesFrom]

def piece (l : List Char) : List (List Char) := if strip l = [] then [] else [strip l]

theorem pieces_line (l s : List Char) (h : Unbroken l) :
    pieces (l ++ '\n' :: s) = piece l ++ pieces s := by
  rw [pieces, splitlines_line l s h, List.map_cons, List.filter_cons]
  by_cases hl : strip l = [] <;> simp [piece, pieces, hl]

theorem pieces_unbroken (l : List Char) (h : Unbroken l) : pieces l = piece l := by
  rw [pieces, splitlines_unbroken l h]
  by_cases hn : l = []
  · subst hn
    rfl
  · by_cases hl : strip l = [] <;> simp [piece, hn, hl]

@[simp] theorem pieces_nil : pieces [] = [] := rfl

theorem piece_length_le (l : List Char) : (piece l).length ≤ 1 := by
  unfold piece
  split_ifs <;> simp

theorem piece_of_blank {l : List Char} (h : Blank l) : piece l = [] := if_pos ((strip_eq_nil_iff l).mpr h)

theorem piece_of_not_blank {l : List Char} (h : ¬ Blank l) : piece l = [strip l] :=
  if_neg (fun hs => h ((strip_eq_nil_iff l).mp hs))

/-! ## Cutting a text in two -/

def firstLine (s : List Char) : List Char := s.takeWhile (· ≠ '\n')

def lastLine (s : List Char) : List Char := s.rtakeWhile (· ≠ '\n')

/-- A cut that no line shows: it leaves only whitespace of the line it falls in on one side. -/
def CleanCut (s t : List Char) : Prop := Blank (lastLine s) ∨ Blank (firstLine t)

instance (s t : List Char) : Decidable (CleanCut s t) :=
  inferInstanceAs (Decidable (Blank (lastLine s) ∨ Blank (firstLine t)))

theorem ne_newline {l : List Char} (h : '\n' ∉ l) : ∀ c ∈ l, decide (c ≠ '\n') = true :=
  fun _ hc => decide_eq_true fun he => h (he ▸ hc)

theorem firstLine_line {l : List Char} (h : '\n' ∉ l) (s : List Char) : firstLine (l ++ '\n' :: s) = l := by
  rw [firstLine, List.takeWhile_append_of_pos (ne_newline h)]
  simp

theorem firstLine_of_not_mem {l : List Char} (h : '\n' ∉ l) : firstLine l = l :=
  List.takeWhile_eq_self_iff.mpr (ne_newline h)

theorem lastLine_line (l s : List Char) : lastLine (l ++ '\n' :: s) = lastLine s := by
  rw [lastLine, List.rtakeWhile, List.reverse_append, List.reverse_cons, List.append_assoc]
  rw [lastLine, List.rtakeWhile]
  congr 1
  generalize s.reverse = r
  induction r with
  | nil => simp
  | cons c r ih =>
    rw [List.cons_append, List.takeWhile_cons, List.takeWhile_cons, ih]

theorem lastLine_of_not_mem {l : List Char} (h : '\n' ∉ l) : lastLine l = l :=
  List.rtakeWhile_eq_self_iff.mpr (ne_newline h)

theorem line_cases (s : List Char) : '\n' ∉ s ∨ ∃ l s', '\n' ∉ l ∧ s = l ++ '\n' :: s' := by
  by_cases h : '\n' ∈ s
  · obtain ⟨l, s', rfl, hl⟩ := List.eq_append_cons_of_mem h
    exact .inr ⟨l, s', hl, rfl⟩
  · exact .inl h

theorem line_induction {motive : List Char → Prop} (unfinished : ∀ s, '\n' ∉ s → motive s)
    (line : ∀ l s, '\n' ∉ l → motive s → motive (l ++ '\n' :: s)) (s : List Char) : motive s := by
  induction hn : s.length using Nat.strong_induction_on generalizing s with
  | _ n ih =>
    rcases line_cases s with h | ⟨l, s', hl, rfl⟩
    · exact unfinished s h
    · refine line l s' hl (ih s'.length ?_ s' rfl)
      subst hn
      simp only [List.length_append, List.length_cons]
      omega

/-- The unfinished line of `s` meets the first line of `t`: what the two texts contribute apart
from the lines they share. -/
theorem pieces_append_unfinished {s : List Char} (hs : Unbroken s) {t : List Char} (ht : Plain t) :
    ∃ more, pieces t = piece (firstLine t) ++ more ∧ pieces (s ++ t) = piece (s ++ firstLine t) ++ more := by
  rcases line_cases t with hn | ⟨m, t', hm, rfl⟩
  · have hu := ht.unbroken hn
    refine ⟨[], ?_, ?_⟩
    · rw [firstLine_of_not_mem hn, pieces_unbroken _ hu, List.append_nil]
    · rw [firstLine_of_not_mem hn, pieces_unbroken _ ((unbroken_append s t).mpr ⟨hs, hu⟩), List.append_nil]
  · have hu : Unbroken m := ((plain_append _ _).mp ht).1.unbroken hm
    refine ⟨pieces t', ?_, ?_⟩
    · rw [firstLine_line hm, pieces_line _ _ hu]
    · rw [firstLine_line hm, ← List.append_assoc, pieces_line _ _ ((unbroken_append s m).mpr ⟨hs, hu⟩)]

theorem pieces_append {s t : List Char} (hs : Plain s) (ht : Plain t) (hc : CleanCut s t) :
    pieces (s ++ t) = pieces s ++ pieces t := by
  induction s using line_induction with
  | unfinished s hn =>
    have hu := hs.unbroken hn
    obtain ⟨more, h1, h2⟩ := pieces_append_unfinished hu ht
    rw [h1, h2, pieces_unbroken s hu, ← List.append_assoc]
    congr 1
    rcases hc with hb | hb
    · rw [lastLine_of_not_mem hn] at hb
      rw [piece_of_blank hb, piece, piece, strip_append_left hb]
      rfl
    · rw [piece_of_blank hb, piece, piece, strip_append_right hb, List.append_nil]
  | line l s hl ih =>
    obtain ⟨h1, h2⟩ := (plain_append _ _).mp hs
    have h3 : Plain s := fun c hc => h2 c (by simp [hc])
    have hc' : CleanCut s t := by rwa [CleanCut, lastLine_line] at hc
    rw [List.append_assoc, List.cons_append, pieces_line _ _ (h1.unbroken hl),
      pieces_line _ _ (h1.unbroken hl), ih h3 hc', List.append_assoc]

/-- At any other cut one line shows up twice. -/
theorem pieces_append_length {s t : List Char} (hs : Plain s) (ht : Plain t) (hc : ¬ CleanCut s t) :
    (pieces s).length + (pieces t).length = (pieces (s ++ t)).length + 1 := by
  induction s using line_induction with
  | unfinished s hn =>
    have hu := hs.unbroken hn
    obtain ⟨more, h1, h2⟩ := pieces_append_unfinished hu ht
    rw [CleanCut, not_or, lastLine_of_not_mem hn] at hc
    have hj : ¬ Blank (s ++ firstLine t) := fun h => hc.1 ((blank_append _ _).mp h).1
    rw [h1, h2, pieces_unbroken s hu, piece_of_not_blank hc.1, piece_of_not_blank hc.2,
      piece_of_not_blank hj]
    simp only [List.length_append, List.length_singleton]
    omega
  | line l s hl ih =>
    obtain ⟨h1, h2⟩ := (plain_append _ _).mp hs
    have h3 : Plain s := fun c hc => h2 c (by simp [hc])
    have hc' : ¬ CleanCut s t := by rwa [CleanCut, lastLine_line] at hc
    have := ih h3 hc'
    rw [List.append_assoc, List.cons_append, pieces_line _ _ (h1.unbroken hl),
      pieces_line _ _ (h1.unbroken hl)]
    simp only [List.length_append]
    omega

theorem pieces_append_le {s t : List Char} (hs : Plain s) (ht : Plain t) :
    (pieces (s ++ t)).length ≤ (pieces s).length + (pieces t).length := by
  by_cases hc : CleanCut s t
  · rw [pieces_append hs ht hc, List.length_append]
  · have := pieces_append_length hs ht hc
    omega

theorem pieces_replace_le {s a b t : List Char} (hs : Plain s) (ha : Unbroken a) (hb : Unbroken b)
    (hv : ¬ Blank b) (ht : Plain t) :
    (pieces (s ++ (a ++ t))).length ≤ (pieces (s ++ (b ++ t))).length := by
  induction s using line_induction with
  | unfinished s hn =>
    have hu := hs.unbroken hn
    obtain ⟨m₁, h1, h2⟩ := pieces_append_unfinished ((unbroken_append s a).mpr ⟨hu, ha⟩) ht
    obtain ⟨m₂, h3, h4⟩ := pieces_append_unfinished ((unbroken_append s b).mpr ⟨hu, hb⟩) ht
    have hm : m₁ = m₂ := List.append_cancel_left (h1.symm.trans h3)
    have hj : ¬ Blank (s ++ b ++ firstLine t) := fun h =>
      hv ((blank_append _ _).mp ((blank_append _ _).mp h).1).2
    have hl := piece_length_le (s ++ a ++ firstLine t)
    rw [← List.append_assoc, ← List.append_assoc, h2, h4, hm, piece_of_not_blank hj]
    simp only [List.length_append, List.length_singleton]
    omega
  | line l s hl ih =>
    obtain ⟨h1, h2⟩ := (plain_append _ _).mp hs
    have h3 : Plain s := fun c hc => h2 c (by simp [hc])
    have := ih h3
    simp only [List.append_assoc, List.cons_append, pieces_line _ _ (h1.unbroken hl), List.length_append] at this ⊢
    omega

/-! ## Whole lines -/

def unlines (lines : List (List Char)) : List Char := lines.flatMap (· ++ ['\n'])

theorem unlines_append (ls ms : List (List Char)) : unlines (ls ++ ms) = unlines ls ++ unlines ms :=
  List.flatMap_append

theorem plain_unlines {lines : List (List Char)} (hl : ∀ l ∈ lines, Unbroken l) : Plain (unlines lines) := by
  intro c hc hn
  obtain ⟨l, hm, hc⟩ := List.mem_flatMap.mp hc
  rcases List.mem_append.mp hc with h | h
  · exact hl l hm c h
  · exact absurd (List.mem_singleton.mp h) hn

theorem pieces_unlines {lines : List (List Char)} (hl : ∀ l ∈ lines, Unbroken l) :
    pieces (unlines lines) = (lines.map strip).filter (· ≠ []) := by
  induction lines with
  | nil => rfl
  | cons l lines ih =>
    have h := ih fun d hd => hl d (by simp [hd])
    rw [unlines, List.flatMap_cons, List.append_assoc, List.singleton_append,
      pieces_line l _ (hl l (by simp)), ← unlines, h, List.map_cons, List.filter_cons]
    by_cases hs : strip l = [] <;> simp [piece, hs]

structure Line where
  text : List Char
  unbroken : Unbroken text
  visible : ¬ Blank text
  deriving DecidableEq

theorem unbroken_texts (ls : List Line) : ∀ l ∈ ls.map Line.text, Unbroken l := fun l hl => by
  obtain ⟨m, -, rfl⟩ := List.mem_map.mp hl
  exact m.unbroken

theorem pieces_lines (ls : List Line) : pieces (unlines (ls.map Line.text)) = ls.map fun l => strip l.text := by
  rw [pieces_unlines (unbroken_texts ls), List.map_map, List.filter_eq_self.mpr]
  · rfl
  · intro s hs
    obtain ⟨l, -, rfl⟩ := List.mem_map.mp hs
    exact decide_eq_true fun h => l.visible ((strip_eq_nil_iff _).mp h)

/-! ## Any text -/

/-- The pieces of a text of whose first line `line` has been read. -/
def piecesFrom (line s : List Char) : List (List Char) := ((splitlinesFrom line s).map strip).filter (· ≠ [])

theorem blank_reverse (s : List Char) : Blank s.reverse ↔ Blank s := by simp [Blank]

theorem isSpace_of_isLineBreak {c : Char} (h : isLineBreak c = true) : isSpace c = true := by
  simp only [isLineBreak, List.mem_cons, List.not_mem_nil, or_false, decide_eq_true_eq] at h
  rcases h with h | h | h | h | h | h | h | h | h | h <;> rw [isSpace, h] <;> rfl

theorem piecesFrom_nil (line : List Char) : piecesFrom line [] = piece line.reverse := by
  by_cases hn : line = []
  · subst hn
    rfl
  · by_cases hl : strip line.reverse = [] <;> simp [piecesFrom, splitlinesFrom, piece, hn, hl]

theorem piecesFrom_char {c : Char} (hc : isLineBreak c = false) (line s : List Char) :
    piecesFrom line (c :: s) = piecesFrom (c :: line) s := by
  have h := splitlinesFrom_unbroken line [c] s fun d hd => by rw [List.mem_singleton.mp hd, hc]
  exact congrArg (fun ls => (ls.map strip).filter (· ≠ [])) h

theorem pieces_newline (s : List Char) : pieces ('\n' :: s) = pieces s :=
  pieces_line [] s fun _ hc => absurd hc List.not_mem_nil

/-- A line end of two characters is like two line ends: the line between them is blank. -/
theorem piecesFrom_break {c : Char} (hc : isLineBreak c = true) (line s : List Char) :
    piecesFrom line (c :: s) = piece line.reverse ++ pieces s := by
  have hcons : ∀ rest : List (List Char), ((line.reverse :: rest).map strip).filter (· ≠ []) =
      piece line.reverse ++ (rest.map strip).filter (· ≠ []) := by
    intro rest
    by_cases hl : strip line.reverse = [] <;> simp [piece, hl]
  by_cases hcrlf : ∃ t, c = '\r' ∧ s = '\n' :: t
  · obtain ⟨t, rfl, rfl⟩ := hcrlf
    rw [piecesFrom, splitlinesFrom, hcons, pieces_newline]
    rfl
  · rw [piecesFrom, splitlinesFrom, if_pos hc, hcons]
    · rfl
    · intro t h1 h2
      exact hcrlf ⟨t, h1, h2⟩

theorem piecesFrom_eq_nil_iff (line s : List Char) : piecesFrom line s = [] ↔ Blank line ∧ Blank s := by
  have hpiece : ∀ l : List Char, piece l.reverse = [] ↔ Blank l := by
    intro l
    rw [← blank_reverse l, ← strip_eq_nil_iff, piece]
    by_cases hl : strip l.reverse = [] <;> simp [hl]
  induction s generalizing line with
  | nil => rw [piecesFrom_nil, hpiece, and_iff_left blank_nil]
  | cons c s ih =>
    cases hc : isLineBreak c with
    | true =>
      rw [piecesFrom_break hc, List.append_eq_nil_iff, hpiece]
      refine and_congr_right fun _ => (ih []).trans ?_
      simp [Blank, isSpace_of_isLineBreak hc]
    | false =>
      rw [piecesFrom_char hc]
      refine (ih (c :: line)).trans ?_
      simp only [Blank, List.forall_mem_cons]
      constructor
      · rintro ⟨⟨h, hline⟩, hs⟩
        exact ⟨hline, h, hs⟩
      · rintro ⟨hline, h, hs⟩
        exact ⟨⟨h, hline⟩, hs⟩

theorem pieces_eq_nil_iff (s : List Char) : pieces s = [] ↔ Blank s :=
  (piecesFrom_eq_nil_iff [] s).trans (and_iff_right blank_nil)

theorem piecesFrom_append_newline (line s t : List Char) :
    piecesFrom line (s ++ '\n' :: t) = piecesFrom line (s ++ ['\n']) ++ pieces t := by
  induction s generalizing line with
  | nil =>
    rw [List.nil_append, List.nil_append, piecesFrom_break isLineBreak_newline, piecesFrom_break isLineBreak_newline,
      pieces_nil, List.append_nil]
  | cons c s ih =>
    rw [List.cons_append, List.cons_append]
    cases hc : isLineBreak c with
    | true =>
      rw [piecesFrom_break hc, piecesFrom_break hc, List.append_assoc]
      exact congrArg (piece line.reverse ++ ·) (ih [])
    | false => rw [piecesFrom_char hc, piecesFrom_char hc, ih]

theorem pieces_append_newline (s t : List Char) : pieces (s ++ '\n' :: t) = pieces (s ++ ['\n']) ++ pieces t :=
  piecesFrom_append_newline [] s t

theorem piece_blank_append {a : List Char} (h : Blank a) (l : List Char) : piece (a ++ l) = piece l := by
  rw [piece, strip_append_left h, piece]

theorem piece_append_blank {b : List Char} (h : Blank b) (l : List Char) : piece (l ++ b) = piece l := by
  rw [piece, strip_append_right h, piece]

theorem blank_singleton {c : Char} (h : isSpace c = true) : Blank [c] := fun _ hd => by rw [List.mem_singleton.mp hd, h]

theorem piecesFrom_space {c : Char} (h : isSpace c = true) (line s : List Char) :
    piecesFrom (line ++ [c]) s = piecesFrom line s := by
  have hpiece : ∀ l : List Char, piece (l ++ [c]).reverse = piece l.reverse := by
    intro l
    rw [List.reverse_append]
    exact piece_blank_append (blank_singleton h) _
  induction s generalizing line with
  | nil => rw [piecesFrom_nil, piecesFrom_nil, hpiece]
  | cons d s ih =>
    cases hd : isLineBreak d with
    | true => rw [piecesFrom_break hd, piecesFrom_break hd, hpiece]
    | false => rw [piecesFrom_char hd, piecesFrom_char hd, ← List.cons_append, ih]

theorem pieces_append_left {a : List Char} (h : Blank a) (s : List Char) : pieces (a ++ s) = pieces s := by
  induction a with
  | nil => rfl
  | cons c a ih =>
    have hc : isSpace c = true := h c List.mem_cons_self
    have ha := ih fun d hd => h d (List.mem_cons_of_mem c hd)
    cases hb : isLineBreak c with
    | true =>
      have hbreak := piecesFrom_break hb [] (a ++ s)
      exact hbreak.trans ha
    | false =>
      have hchar := (piecesFrom_char hb [] (a ++ s)).trans (piecesFrom_space hc [] (a ++ s))
      exact hchar.trans ha

theorem piecesFrom_blank {b : List Char} (h : Blank b) (line : List Char) : piecesFrom line b = piece line.reverse := by
  induction b generalizing line with
  | nil => exact piecesFrom_nil line
  | cons c b ih =>
    have hc : isSpace c = true := h c List.mem_cons_self
    have hb : Blank b := fun d hd => h d (List.mem_cons_of_mem c hd)
    cases hbreak : isLineBreak c with
    | true => rw [piecesFrom_break hbreak, (pieces_eq_nil_iff b).mpr hb, List.append_nil]
    | false => rw [piecesFrom_char hbreak, ih hb, List.reverse_cons, piece_append_blank (blank_singleton hc)]

theorem pieces_append_right {b : List Char} (h : Blank b) (s : List Char) : pieces (s ++ b) = pieces s := by
  suffices hs : ∀ line, piecesFrom line (s ++ b) = piecesFrom line s from hs []
  induction s with
  | nil =>
    intro line
    rw [List.nil_append, piecesFrom_blank h, piecesFrom_nil]
  | cons c s ih =>
    intro line
    rw [List.cons_append]
    cases hc : isLineBreak c with
    | true =>
      rw [piecesFrom_break hc, piecesFrom_break hc]
      exact congrArg (piece line.reverse ++ ·) (ih [])
    | false => rw [piecesFrom_char hc, piecesFrom_char hc, ih]

theorem strip_split (s : List Char) : ∃ a b, Blank a ∧ Blank b ∧ s = a ++ (strip s ++ b) := by
  refine ⟨s.takeWhile isSpace, (s.dropWhile isSpace).rtakeWhile isSpace, fun c hc => List.mem_takeWhile_imp hc,
    fun c hc => List.mem_rtakeWhile_imp hc, ?_⟩
  rw [strip, stripOf, List.rdropWhile_append_rtakeWhile, List.takeWhile_append_dropWhile]

theorem strip_strip (s : List Char) : strip (strip s) = strip s := stripOf_of_trimmed (trimmed_stripOf isSpace s)

theorem length_strip_le (s : List Char) : (strip s).length ≤ s.length := (stripOf_within isSpace s).length_le

theorem pieces_strip (s : List Char) : pieces (strip s) = pieces s := by
  obtain ⟨a, b, ha, hb, hs⟩ := strip_split s
  conv_rhs => rw [hs, pieces_append_left ha, pieces_append_right hb]

/-- A text with no line end inside is one line at most. -/
theorem pieces_of_unbroken {s : List Char} (h : Unbroken (strip s)) : pieces s = piece s := by
  rw [← pieces_strip, pieces_unbroken _ h, piece, piece, strip_strip]

theorem unbroken_split {s : List Char} (h : ¬ Unbroken s) :
    ∃ x c y, Unbroken x ∧ isLineBreak c = true ∧ s = x ++ c :: y := by
  have hsplit := List.takeWhile_append_dropWhile (p := fun c => !isLineBreak c) (l := s)
  cases hd : s.dropWhile fun c => !isLineBreak c with
  | nil =>
    refine absurd (fun c hc => ?_) h
    simpa using List.dropWhile_eq_nil_iff.mp hd c hc
  | cons c y =>
    refine ⟨s.takeWhile fun c => !isLineBreak c, c, y, fun d hd => ?_, ?_, by rw [← hd, hsplit]⟩
    · simpa using List.mem_takeWhile_imp hd
    · have hne : s.dropWhile (fun c => !isLineBreak c) ≠ [] := by simp [hd]
      have hhead := List.head_dropWhile_not (fun c => !isLineBreak c) hne
      simpa [hd] using hhead

theorem pieces_break {x : List Char} {c : Char} (hx : Unbroken x) (hc : isLineBreak c = true) (y : List Char) :
    pieces (x ++ c :: y) = piece x ++ pieces y := by
  have hfrom : pieces (x ++ c :: y) = piecesFrom x.reverse (c :: y) := by
    have hlines := splitlinesFrom_unbroken [] x (c :: y) hx
    rw [List.append_nil] at hlines
    exact congrArg (fun ls => (ls.map strip).filter (· ≠ [])) hlines
  rw [hfrom, piecesFrom_break hc, List.reverse_reverse]

/-- A stripped text has other characters on both sides of a space. -/
theorem not_blank_around {s x y : List Char} {c : Char} (hs : strip s = x ++ c :: y) (hc : isSpace c = true) :
    ¬ Blank x ∧ ¬ Blank y := by
  have hlen : (strip s).length = x.length + 1 + y.length := by
    rw [hs, List.length_append, List.length_cons]
    omega
  constructor
  · intro hb
    have hy : strip s = strip y := by
      rw [← strip_strip s, hs, strip_append_left hb]
      exact strip_append_left (blank_singleton hc) y
    have := length_strip_le y
    rw [hy] at hlen
    omega
  · intro hb
    have hcy : Blank (c :: y) := (blank_append [c] y).mpr ⟨blank_singleton hc, hb⟩
    have hx : strip s = strip x := by rw [← strip_strip s, hs, strip_append_right hcy]
    have := length_strip_le x
    rw [hx] at hlen
    omega

/-- A line end inside makes two lines of it. -/
theorem pieces_length_of_broken {s : List Char} (h : ¬ Unbroken (strip s)) : 2 ≤ (pieces s).length := by
  obtain ⟨x, c, y, hx, hc, hs⟩ := unbroken_split h
  obtain ⟨hfront, hback⟩ := not_blank_around hs (isSpace_of_isLineBreak hc)
  have hrest : 0 < (pieces y).length := List.length_pos_of_ne_nil (mt (pieces_eq_nil_iff y).mp hback)
  rw [← pieces_strip, hs, pieces_break hx hc, piece_of_not_blank hfront, List.length_append, List.length_singleton]
  omega

end PyText
