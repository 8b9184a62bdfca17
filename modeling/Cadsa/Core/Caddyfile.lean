import Cadsa.Core.Watching
import Cadsa.Lib.Scanning

/-! The log files that `parse_caddyfile_for_logs` finds, against the `output file` directives that the Caddyfile has.
A Caddyfile is a sequence of tokens on lines; the code looks for a pattern in its text. -/
namespace Cadsa.Caddyfile
open Discovery PyText Scanning Watching
set_option autoImplicit false

/-! ## The grammar -/

/-- Whitespace within a line. -/
def isBlank (c : Char) : Bool := isSpace c && c ≠ '\n'

inductive Lexeme
  | newline
  | word (w : List Char)
  | quoted (w : List Char)
  deriving DecidableEq

/-- A lexeme, with the text from where it begins and the text behind it. -/
structure Token where
  lexeme : Lexeme
  start : List Char
  rest : List Char
  deriving DecidableEq

/-- The tokens of a text. A comment begins where a token might and ends with its line; a quoted token ends with the next
quote, on whatever line. The fuel is the length of the text. -/
def tokens : ℕ → List Char → List Token
  | 0, _ => []
  | _, [] => []
  | fuel + 1, c :: s =>
    if c = '\n' then ⟨.newline, c :: s, s⟩ :: tokens fuel s
    else if isSpace c then tokens fuel s
    else if c = '#' then tokens fuel (s.dropWhile (· ≠ '\n'))
    else if c = '"' then
      let rest := (s.dropWhile (· ≠ '"')).tail
      ⟨.quoted (s.takeWhile (· ≠ '"')), c :: s, rest⟩ :: tokens fuel rest
    else
      let rest := s.dropWhile (!isSpace ·)
      ⟨.word (c :: s.takeWhile (!isSpace ·)), c :: s, rest⟩ :: tokens fuel rest

/-- `output file <name>`, by the text from its first word on, with the token of its name. -/
structure Directive where
  start : List Char
  name : Token
  deriving DecidableEq

/-- A directive begins a line, or stands behind a brace. -/
def opens : Lexeme → Bool
  | .newline => true
  | .word w => w = ['\x7b'] || w = ['\x7d']
  | .quoted _ => false

def outputWord : List Char := "output".toList

def fileWord : List Char := "file".toList

/-- The directives among the tokens, whose three tokens are on one line. -/
def directives : Bool → List Token → List Directive
  | opened, output :: file :: name :: rest =>
    if opened ∧ output.lexeme = .word outputWord ∧ file.lexeme = .word fileWord ∧ name.lexeme ≠ .newline then
      ⟨output.start, name⟩ :: directives false rest
    else directives (opens output.lexeme) (file :: name :: rest)
  | _, _ => []

/-- The name without its quotes. -/
def Directive.text (d : Directive) : List Char :=
  match d.name.lexeme with
  | .newline => []
  | .word w => w
  | .quoted w => w

def directivesOf (content : List Char) : List Directive := directives true (tokens content.length content)

/-- What the extraction should give. -/
def fileNames (content : List Char) : List String := (directivesOf content).map fun d => String.ofList d.text

example : fileNames "log \x7b\n output file \"/my site.log\" \x7b # roll\n \x7d\n\x7d\n# output file /old.log".toList =
    ["/my site.log"] := by decide +kernel

/-! ## The pattern -/

section
variable {s t w rest name : List Char}

theorem afterWord_append (word t : List Char) : afterWord word (word ++ t) = some t := by
  rw [afterWord, if_pos (List.prefix_append word t), List.drop_left]

theorem afterWord_eq_some {word : List Char} (h : afterWord word s = some t) : s = word ++ t := by
  rw [afterWord] at h
  split_ifs at h with hpre
  obtain ⟨u, rfl⟩ := hpre
  rw [List.drop_left] at h
  rw [Option.some.inj h]

theorem afterSpaces_append (hw : Blank w) (hne : w ≠ []) (ht : ∀ c ∈ t.head?, isSpace c = false) :
    afterSpaces (w ++ t) = some t := by
  obtain ⟨c, w, rfl⟩ := List.exists_cons_of_ne_nil hne
  rw [List.cons_append, afterSpaces, if_pos (hw c List.mem_cons_self), ← List.cons_append, List.dropWhile_append,
    List.dropWhile_eq_nil_iff.mpr hw]
  cases t with
  | nil => rfl
  | cons d t => simp [ht d rfl]

theorem afterSpaces_eq_some (h : afterSpaces s = some t) : ∃ w, s = w ++ t ∧ Blank w ∧ w ≠ [] := by
  cases s with
  | nil => cases h
  | cons c s =>
    rw [afterSpaces] at h
    split_ifs at h with hc
    cases h
    refine ⟨(c :: s).takeWhile isSpace, (List.takeWhile_append_dropWhile).symm, ?_, ?_⟩
    · exact fun d hd => List.mem_takeWhile_imp hd
    · rw [List.takeWhile_cons_of_pos hc]
      exact List.cons_ne_nil _ _

/-- The pattern matches the two words, each with whitespace behind it, and what it can of a name. -/
theorem outputFileAt_eq_some (h : outputFileAt s = some (name, rest)) :
    ∃ w₁ w₂, s = outputWord ++ w₁ ++ fileWord ++ w₂ ++ name ++ rest ∧ Blank w₁ ∧ w₁ ≠ [] ∧ Blank w₂ ∧ w₂ ≠ [] ∧
      (∀ c ∈ name, isNameChar c = true) ∧ name ≠ [] := by
  obtain ⟨t₁, h₁, h⟩ := Option.bind_eq_some_iff.mp h
  obtain ⟨t₂, h₂, h⟩ := Option.bind_eq_some_iff.mp h
  obtain ⟨t₃, h₃, h⟩ := Option.bind_eq_some_iff.mp h
  obtain ⟨t₄, h₄, h⟩ := Option.bind_eq_some_iff.mp h
  dsimp only at h
  split_ifs at h with hname
  obtain ⟨rfl, rfl⟩ := Prod.mk.inj (Option.some.inj h)
  obtain rfl := afterWord_eq_some h₁
  obtain ⟨w₁, rfl, hw₁, hne₁⟩ := afterSpaces_eq_some h₂
  obtain rfl := afterWord_eq_some h₃
  obtain ⟨w₂, rfl, hw₂, hne₂⟩ := afterSpaces_eq_some h₄
  refine ⟨w₁, w₂, ?_, hw₁, hne₁, hw₂, hne₂, fun c hc => List.mem_takeWhile_imp hc, hname⟩
  rw [List.append_assoc _ (t₄.takeWhile isNameChar), List.takeWhile_append_dropWhile, List.append_assoc,
    List.append_assoc, List.append_assoc]
  rfl

theorem outputFileAt_append {w₁ w₂ : List Char} (hw₁ : Blank w₁) (hne₁ : w₁ ≠ []) (hw₂ : Blank w₂) (hne₂ : w₂ ≠ [])
    (ht : ∀ c ∈ t.head?, isSpace c = false) :
    outputFileAt (outputWord ++ w₁ ++ fileWord ++ w₂ ++ t) =
      if t.takeWhile isNameChar = [] then none else some (t.takeWhile isNameChar, t.dropWhile isNameChar) := by
  have hfile : ∀ c ∈ (fileWord ++ (w₂ ++ t)).head?, isSpace c = false := by
    intro c hc
    cases hc
    rfl
  have hfirst : afterWord "output".toList (outputWord ++ (w₁ ++ (fileWord ++ (w₂ ++ t)))) =
      some (w₁ ++ (fileWord ++ (w₂ ++ t))) := afterWord_append _ _
  have hsecond : afterWord "file".toList (fileWord ++ (w₂ ++ t)) = some (w₂ ++ t) := afterWord_append _ _
  rw [List.append_assoc, List.append_assoc, List.append_assoc, outputFileAt, hfirst, Option.bind_eq_bind,
    Option.bind_some, afterSpaces_append hw₁ hne₁ hfile, Option.bind_some, hsecond, Option.bind_some,
    afterSpaces_append hw₂ hne₂ ht, Option.bind_some]

theorem outputFileAt_length (h : outputFileAt s = some (name, rest)) : rest <:+ s ∧ rest.length < s.length := by
  obtain ⟨w₁, w₂, rfl, -, -, -, -, -, hne⟩ := outputFileAt_eq_some h
  refine ⟨List.suffix_append _ _, ?_⟩
  have hpos : 0 < (outputWord ++ w₁ ++ fileWord ++ w₂ ++ name).length :=
    List.length_pos_of_ne_nil (List.append_ne_nil_of_right_ne_nil _ hne)
  rw [List.length_append]
  omega

def outputFile : Pattern Char (List Char) where
  matchAt := outputFileAt
  suffix h := (outputFileAt_length h).1
  shorter h := (outputFileAt_length h).2

theorem findAllFrom_eq (fuel : ℕ) (text : List Char) :
    findAllFrom fuel text = (outputFile.findAll fuel text).map Prod.snd := by
  induction fuel generalizing text with
  | zero => rfl
  | succ fuel ih =>
    cases text with
    | nil => rfl
    | cons c text =>
      have hmatch : outputFile.matchAt (c :: text) = outputFileAt (c :: text) := rfl
      rw [findAllFrom, Pattern.findAll, hmatch]
      cases outputFileAt (c :: text) with
      | none => exact ih text
      | some found => exact congrArg (found.1 :: ·) (ih found.2)

end

/-! ## The tokens in the text -/

/-- What a token says of the text that it stands in. -/
inductive Token.WellFormed : Token → Prop
  | newline (rest : List Char) : WellFormed ⟨.newline, '\n' :: rest, rest⟩
  | word {w rest : List Char} (hspace : ∀ c ∈ w, isSpace c = false) (hquote : ∀ c ∈ w.head?, c ≠ '"') (hne : w ≠ [])
    (hstop : ∀ c ∈ rest.head?, isSpace c = true) : WellFormed ⟨.word w, w ++ rest, rest⟩
  | quoted {w : List Char} (hquote : '"' ∉ w) (rest : List Char) :
    WellFormed ⟨.quoted w, '"' :: (w ++ '"' :: rest), rest⟩
  /-- The text ends before the second quote. -/
  | unclosed {w : List Char} (hquote : '"' ∉ w) : WellFormed ⟨.quoted w, '"' :: w, []⟩

theorem Token.WellFormed.suffix {t : Token} (h : t.WellFormed) : ∃ taken, t.start = taken ++ t.rest ∧ taken ≠ [] := by
  cases h with
  | newline rest => exact ⟨['\n'], rfl, List.cons_ne_nil _ _⟩
  | word _ _ hne _ => exact ⟨_, rfl, hne⟩
  | @quoted w _ rest => exact ⟨'"' :: (w ++ ['"']), by simp, List.cons_ne_nil _ _⟩
  | @unclosed w _ => exact ⟨'"' :: w, (List.append_nil _).symm, List.cons_ne_nil _ _⟩

theorem dropWhile_ne_cons {a c : Char} {s rest : List Char} (h : s.dropWhile (· ≠ a) = c :: rest) : c = a := by
  have hhead := List.head_dropWhile_not (fun x => decide (x ≠ a)) (l := s) (by rw [h]; exact List.cons_ne_nil _ _)
  simp only [h, List.head_cons] at hhead
  simpa using hhead

theorem wellFormed_quoted (s : List Char) :
    Token.WellFormed ⟨.quoted (s.takeWhile (· ≠ '"')), '"' :: s, (s.dropWhile (· ≠ '"')).tail⟩ := by
  have hsplit := List.takeWhile_append_dropWhile (p := (· ≠ '"')) (l := s)
  have hnone : '"' ∉ s.takeWhile (· ≠ '"') := fun h => by simpa using List.mem_takeWhile_imp h
  cases hdrop : s.dropWhile (· ≠ '"') with
  | nil =>
    rw [hdrop, List.append_nil] at hsplit
    rw [hsplit] at hnone ⊢
    exact .unclosed hnone
  | cons c rest =>
    obtain rfl := dropWhile_ne_cons hdrop
    rw [hdrop] at hsplit
    conv => arg 1; arg 2; rw [← hsplit]
    exact .quoted hnone rest

theorem wellFormed_word {c : Char} (hspace : isSpace c = false) (hquote : c ≠ '"') (s : List Char) :
    Token.WellFormed ⟨.word (c :: s.takeWhile (!isSpace ·)), c :: s, s.dropWhile (!isSpace ·)⟩ := by
  have hsplit : c :: s = (c :: s.takeWhile (!isSpace ·)) ++ s.dropWhile (!isSpace ·) := by
    rw [List.cons_append, List.takeWhile_append_dropWhile]
  rw [hsplit]
  refine .word ?_ ?_ (List.cons_ne_nil _ _) ?_
  · intro d hd
    rcases List.mem_cons.mp hd with rfl | hd
    · exact hspace
    · simpa using List.mem_takeWhile_imp hd
  · intro d hd
    cases hd
    exact hquote
  · intro d hd
    have hne : s.dropWhile (!isSpace ·) ≠ [] := fun he => by
      rw [he] at hd
      cases hd
    have hhead := List.head_dropWhile_not (fun x => !isSpace x) hne
    rw [List.head?_eq_some_head hne] at hd
    obtain rfl := Option.some.inj hd
    simpa using hhead

theorem tokens_newline {fuel : ℕ} {s : List Char} {t : Token} {ts : List Token} (h : tokens fuel ('\n' :: s) = t :: ts) :
    t.lexeme = .newline := by
  cases fuel with
  | zero => cases h
  | succ fuel =>
    rw [tokens, if_pos rfl] at h
    rw [← (List.cons.inj h).1]

theorem tokens_nil (fuel : ℕ) : tokens fuel [] = [] := by cases fuel <;> rfl

/-- The first token stands behind whitespace of its line, unless it is the end of the line, and the others are those of
the text behind it. -/
theorem tokens_eq_cons {fuel : ℕ} {s : List Char} {t : Token} {ts : List Token} (h : tokens fuel s = t :: ts) :
    ∃ gap fuel', s = gap ++ t.start ∧ (t.lexeme ≠ .newline → ∀ c ∈ gap, isBlank c = true) ∧ t.WellFormed ∧
      ts = tokens fuel' t.rest := by
  induction fuel generalizing s with
  | zero => cases h
  | succ fuel ih =>
    cases s with
    | nil => cases h
    | cons c s =>
      have hnil : ∀ c ∈ ([] : List Char), isBlank c = true := fun _ hc => absurd hc List.not_mem_nil
      rw [tokens] at h
      split_ifs at h with hline hspace hcomment hquote
      · obtain ⟨rfl, rfl⟩ := List.cons.inj h
        rw [hline]
        exact ⟨[], fuel, rfl, fun _ => hnil, .newline s, rfl⟩
      · obtain ⟨gap, fuel', rfl, hgap, hwf, hts⟩ := ih h
        refine ⟨c :: gap, fuel', rfl, fun hne d hd => ?_, hwf, hts⟩
        rcases List.mem_cons.mp hd with rfl | hd
        · rw [isBlank, hspace, decide_eq_true hline]
          rfl
        · exact hgap hne d hd
      · -- Behind a comment is the end of the line.
        obtain ⟨gap, fuel', hs, hgap, hwf, hts⟩ := ih h
        have hlexeme : t.lexeme = .newline := by
          cases hdrop : s.dropWhile (· ≠ '\n') with
          | nil =>
            rw [hdrop, tokens_nil] at h
            cases h
          | cons d rest =>
            rw [hdrop, dropWhile_ne_cons hdrop] at h
            exact tokens_newline h
        refine ⟨c :: (s.takeWhile (· ≠ '\n') ++ gap), fuel', ?_, fun hne => absurd hlexeme hne, hwf, hts⟩
        rw [List.cons_append, List.append_assoc, ← hs, List.takeWhile_append_dropWhile]
      · obtain ⟨rfl, rfl⟩ := List.cons.inj h
        rw [hquote]
        exact ⟨[], fuel, rfl, fun _ => hnil, wellFormed_quoted s, rfl⟩
      · obtain ⟨rfl, rfl⟩ := List.cons.inj h
        rw [Bool.not_eq_true] at hspace
        exact ⟨[], fuel, rfl, fun _ => hnil, wellFormed_word hspace hquote s, rfl⟩

/-- The fuel is enough: more of it than characters makes no difference. -/
theorem tokens_succ {fuel : ℕ} {s : List Char} (h : s.length ≤ fuel) : tokens (fuel + 1) s = tokens fuel s := by
  induction fuel generalizing s with
  | zero =>
    obtain rfl := List.eq_nil_of_length_eq_zero (Nat.le_zero.mp h)
    rfl
  | succ fuel ih =>
    cases s with
    | nil => rfl
    | cons c s =>
      have hlen : s.length ≤ fuel := Nat.le_of_succ_le_succ h
      have hdrop : ∀ p : Char → Bool, (s.dropWhile p).length ≤ fuel :=
        fun p => ((List.dropWhile_sublist p).length_le).trans hlen
      have htail : (s.dropWhile (· ≠ '"')).tail.length ≤ fuel :=
        ((List.tail_sublist _).length_le).trans (hdrop _)
      rw [tokens, tokens]
      dsimp only
      rw [ih hlen, ih (hdrop _), ih htail, ih (hdrop _)]

/-! ## The directives in the text -/

section
variable {content s gap : List Char} {t : Token} {d : Directive}

theorem Token.WellFormed.word_start (h : t.WellFormed) {w : List Char} (hw : t.lexeme = .word w) :
    t.start = w ++ t.rest ∧ ∀ c ∈ t.rest.head?, isSpace c = true := by
  cases h with
  | newline rest => cases hw
  | word hspace hquote hne hstop =>
    cases hw
    exact ⟨rfl, hstop⟩
  | quoted hquote rest => cases hw
  | unclosed hquote => cases hw

theorem Token.WellFormed.head (h : t.WellFormed) (hline : t.lexeme ≠ .newline) :
    ∃ c rest, t.start = c :: rest ∧ isSpace c = false := by
  cases h with
  | newline rest => exact absurd rfl hline
  | @word w rest hspace _ hne _ =>
    obtain ⟨c, w, rfl⟩ := List.exists_cons_of_ne_nil hne
    exact ⟨c, w ++ rest, rfl, hspace c List.mem_cons_self⟩
  | quoted _ rest => exact ⟨'"', _, rfl, rfl⟩
  | unclosed _ => exact ⟨'"', _, rfl, rfl⟩

/-- Behind a word there is whitespace before the next token of the line. -/
theorem gap_ne_nil (hstop : ∀ c ∈ s.head?, isSpace c = true) (hs : s = gap ++ t.start) (h : t.WellFormed)
    (hline : t.lexeme ≠ .newline) : gap ≠ [] := by
  rintro rfl
  obtain ⟨c, rest, hstart, hc⟩ := h.head hline
  rw [List.nil_append, hstart] at hs
  rw [hs] at hstop
  have := hstop c rfl
  rw [hc] at this
  contradiction

/-- A directive may begin, but for whitespace, between the two texts. -/
def Opening (before s : List Char) : Prop :=
  before = [] ∨ (∃ v, before = v ++ ['\n']) ∨
    ∃ v b, before = v ++ [b] ∧ (b = '\x7b' ∨ b = '\x7d') ∧ ∀ c ∈ s.head?, isSpace c = true

/-- How a directive stands in the text. -/
structure Placed (content : List Char) (d : Directive) : Prop where
  spelled : ∃ w₁ w₂, d.start = outputWord ++ w₁ ++ fileWord ++ w₂ ++ d.name.start ∧ (∀ c ∈ w₁, isBlank c = true) ∧
    w₁ ≠ [] ∧ (∀ c ∈ w₂, isBlank c = true) ∧ w₂ ≠ []
  wellFormed : d.name.WellFormed
  named : d.name.lexeme ≠ .newline
  opened : ∃ before gap, content = before ++ (gap ++ d.start) ∧ (∀ c ∈ gap, isBlank c = true) ∧
    Opening before (gap ++ d.start)

theorem opening_of_opens (h : t.WellFormed) (hopens : opens t.lexeme = true) (before : List Char) :
    ∃ taken, t.start = taken ++ t.rest ∧ Opening (before ++ taken) t.rest := by
  cases h with
  | newline rest => exact ⟨['\n'], rfl, .inr (.inl ⟨before, rfl⟩)⟩
  | @word w rest _ _ _ hstop =>
    refine ⟨w, rfl, .inr (.inr ?_)⟩
    rw [opens, Bool.or_eq_true, decide_eq_true_iff, decide_eq_true_iff] at hopens
    rcases hopens with rfl | rfl
    · exact ⟨before, _, rfl, .inl rfl, hstop⟩
    · exact ⟨before, _, rfl, .inr rfl, hstop⟩
  | quoted _ rest => cases hopens
  | unclosed _ => cases hopens

/-- The three tokens of a directive in the text before and behind them. -/
theorem placed_of_tokens {fuel : ℕ} {before : List Char} {output file name : Token} {rest : List Token}
    (htoks : tokens fuel s = output :: file :: name :: rest) (houtput : output.lexeme = .word outputWord)
    (hfile : file.lexeme = .word fileWord) (hname : name.lexeme ≠ .newline) (hcontent : content = before ++ s)
    (hopening : Opening before s) :
    Placed content ⟨output.start, name⟩ ∧ output.start <:+ s ∧ name.rest.length < output.start.length ∧
      ∃ taken fuel', s = taken ++ name.rest ∧ rest = tokens fuel' name.rest := by
  obtain ⟨gap₀, fuel₁, hs, hgap₀, hwf₀, htoks₁⟩ := tokens_eq_cons htoks
  obtain ⟨gap₁, fuel₂, hs₁, hgap₁, hwf₁, htoks₂⟩ := tokens_eq_cons htoks₁.symm
  obtain ⟨gap₂, fuel₃, hs₂, hgap₂, hwf₂, htoks₃⟩ := tokens_eq_cons htoks₂.symm
  have hline₀ : output.lexeme ≠ .newline := by
    rw [houtput]
    exact Lexeme.noConfusion
  have hline₁ : file.lexeme ≠ .newline := by
    rw [hfile]
    exact Lexeme.noConfusion
  obtain ⟨hstart₀, hstop₀⟩ := hwf₀.word_start houtput
  obtain ⟨hstart₁, hstop₁⟩ := hwf₁.word_start hfile
  obtain ⟨taken, htaken, hne⟩ := hwf₂.suffix
  have hstart : output.start = outputWord ++ gap₁ ++ fileWord ++ gap₂ ++ name.start := by
    rw [hstart₀, hs₁, hstart₁, hs₂]
    simp only [List.append_assoc]
  refine ⟨⟨⟨gap₁, gap₂, hstart, hgap₁ hline₁, gap_ne_nil hstop₀ hs₁ hwf₁ hline₁, hgap₂ hname,
    gap_ne_nil hstop₁ hs₂ hwf₂ hname⟩, hwf₂, hname, before, gap₀, ?_, hgap₀ hline₀, ?_⟩, ?_, ?_, ?_⟩
  · rw [hcontent, hs]
  · rw [← hs]
    exact hopening
  · rw [hs]
    exact List.suffix_append _ _
  · have hpos : 0 < taken.length := List.length_pos_of_ne_nil hne
    rw [hstart, htaken]
    simp only [List.length_append]
    omega
  · refine ⟨gap₀ ++ (outputWord ++ gap₁ ++ fileWord ++ gap₂ ++ taken), fuel₃, ?_, htoks₃⟩
    conv_lhs => rw [hs, hstart, htaken]
    simp only [List.append_assoc]

theorem directives_placed {opened : Bool} {toks : List Token} {fuel : ℕ} {before : List Char}
    (htoks : toks = tokens fuel s) (hcontent : content = before ++ s) (hopened : opened = true → Opening before s) :
    (∀ d ∈ directives opened toks, Placed content d ∧ d.start <:+ s) ∧
      (directives opened toks).Pairwise fun d e => e.start.length < d.start.length := by
  induction opened, toks using directives.induct generalizing s before fuel with
  | case1 opened output file name rest hdir ih =>
    obtain ⟨hopen, houtput, hfile, hname⟩ := hdir
    obtain ⟨hplaced, hsuffix, hlt, taken, fuel', hs, htoks'⟩ :=
      placed_of_tokens htoks.symm houtput hfile hname hcontent (hopened hopen)
    have hcontent' : content = (before ++ taken) ++ name.rest := by
      rw [hcontent, hs, List.append_assoc]
    obtain ⟨hrest, hpair⟩ := ih htoks' hcontent' fun h => absurd h Bool.false_ne_true
    rw [directives, if_pos ⟨hopen, houtput, hfile, hname⟩]
    refine ⟨fun d hd => ?_, List.pairwise_cons.mpr ⟨fun e he => ?_, hpair⟩⟩
    · rcases List.mem_cons.mp hd with rfl | hd
      · exact ⟨hplaced, hsuffix⟩
      · refine ⟨(hrest d hd).1, (hrest d hd).2.trans ?_⟩
        rw [hs]
        exact List.suffix_append _ _
    · exact Nat.lt_of_le_of_lt (hrest e he).2.length_le hlt
  | case2 opened output file name rest hdir ih =>
    obtain ⟨gap₀, fuel₁, hs, hgap₀, hwf₀, htoks₁⟩ := tokens_eq_cons htoks.symm
    obtain ⟨taken, htaken, -⟩ := hwf₀.suffix
    have hcontent' : content = (before ++ gap₀ ++ taken) ++ output.rest := by
      rw [hcontent, hs, htaken]
      simp only [List.append_assoc]
    rw [directives, if_neg hdir]
    obtain ⟨hrest, hpair⟩ := ih htoks₁ hcontent' fun hopens => by
      obtain ⟨taken', htaken', hopening⟩ := opening_of_opens hwf₀ hopens (before ++ gap₀)
      obtain rfl : taken' = taken := List.append_cancel_right (htaken'.symm.trans htaken)
      exact hopening
    refine ⟨fun d hd => ⟨(hrest d hd).1, (hrest d hd).2.trans ?_⟩, hpair⟩
    rw [hs, htaken]
    exact (List.suffix_append _ _).trans (List.suffix_append _ _)
  | case3 toks opened hshort =>
    have hnil : directives opened toks = [] := by
      rw [directives]
      exact hshort
    rw [hnil]
    exact ⟨fun d hd => absurd hd List.not_mem_nil, .nil⟩

theorem placed_directivesOf (content : List Char) :
    (∀ d ∈ directivesOf content, Placed content d ∧ d.start <:+ content) ∧
      (directivesOf content).Pairwise fun d e => e.start.length < d.start.length :=
  directives_placed rfl (List.nil_append content).symm fun _ => .inl rfl

end

/-! ## What begins within an occurrence -/

section
variable {content : List Char} {d e : Directive}

theorem newline_of_blank {c : Char} (h : isBlank c = true) : isSpace c = true ∧ c ≠ '\n' := by
  rw [isBlank, Bool.and_eq_true, decide_eq_true_iff] at h
  exact h

theorem not_brace_of_space {c : Char} (h : isSpace c = true) : c ≠ '\x7b' ∧ c ≠ '\x7d' := by
  constructor
  all_goals
    rintro rfl
    exact absurd h (by decide)

/-- Where no brace stands before the name, none stands before whitespace. -/
theorem not_brace_before_space {left name u v : List Char} {b z : Char} (hleft : ∀ c ∈ left, c ≠ '\x7b' ∧ c ≠ '\x7d')
    (hname : ∀ c ∈ name, isNameChar c = true) (h : left ++ name = u ++ b :: z :: v) (hz : isSpace z = true) :
    b ≠ '\x7b' ∧ b ≠ '\x7d' := by
  have hnot : z ∉ name := fun hmem => by
    have := hname z hmem
    rw [isNameChar, hz] at this
    contradiction
  rcases List.append_eq_append_iff.mp h with ⟨a, rfl, hback⟩ | ⟨a, rfl, hback⟩
  · exact absurd (hback ▸ List.mem_append_right a (by simp)) hnot
  · cases a with
    | nil => exact absurd (by rw [List.nil_append] at hback; rw [← hback]; simp) hnot
    | cons b' a =>
      obtain ⟨rfl, -⟩ := List.cons.inj hback
      exact hleft b (List.mem_append_right u List.mem_cons_self)

theorem not_brace_spelled {w₁ w₂ : List Char} (hw₁ : Blank w₁) (hw₂ : Blank w₂) :
    ∀ c ∈ outputWord ++ w₁ ++ fileWord ++ w₂, c ≠ '\x7b' ∧ c ≠ '\x7d' := by
  have hall : (outputWord ++ fileWord).all (fun c => decide (c ≠ '\x7b' ∧ c ≠ '\x7d')) = true := by decide
  have hwords : ∀ c ∈ outputWord ++ fileWord, c ≠ '\x7b' ∧ c ≠ '\x7d' := fun c hc =>
    of_decide_eq_true (List.all_eq_true.mp hall c hc)
  intro c hc
  simp only [List.mem_append, or_assoc] at hc
  rcases hc with hc | hc | hc | hc
  · exact hwords c (List.mem_append_left _ hc)
  · exact not_brace_of_space (hw₁ c hc)
  · exact hwords c (List.mem_append_right _ hc)
  · exact not_brace_of_space (hw₂ c hc)

/-- What stands before a directive, cut where a text ends that is more than whitespace. -/
theorem Opening.cut {before gap t x y : List Char} (h : Opening before t) (hcut : before ++ gap = y ++ x)
    (hmore : ¬ x <:+ gap) :
    (∃ x', x = x' ++ '\n' :: gap) ∨
      ∃ x' b, x = x' ++ b :: gap ∧ (b = '\x7b' ∨ b = '\x7d') ∧ ∀ c ∈ t.head?, isSpace c = true := by
  have hsplit : ∀ v b, before = v ++ [b] → ∃ x', x = x' ++ b :: gap := by
    intro v b hv
    rw [hv, List.append_assoc] at hcut
    rcases List.append_eq_append_iff.mp hcut with ⟨a, -, ha⟩ | ⟨a, -, ha⟩
    · cases a with
      | nil => exact ⟨[], ha.symm⟩
      | cons b' a =>
        obtain ⟨-, hgapx⟩ := List.cons.inj ha
        exact absurd ⟨a, hgapx.symm⟩ hmore
    · exact ⟨a, ha⟩
  rcases h with rfl | ⟨v, hv⟩ | ⟨v, b, hv, hb, hspace⟩
  · exact absurd ⟨y, hcut.symm⟩ hmore
  · exact .inl (hsplit v _ hv)
  · obtain ⟨x', hx'⟩ := hsplit v b hv
    exact .inr ⟨x', b, hx', hb, hspace⟩

/-- Within an occurrence no brace stands before whitespace. -/
theorem not_brace_inside {m name rest x v t : List Char} {b z : Char} (hmatch : outputFileAt m = some (name, rest))
    (hm : (x ++ b :: z :: v) ++ t = m) (hrest : rest.length < t.length) (hz : isSpace z = true) :
    b ≠ '\x7b' ∧ b ≠ '\x7d' := by
  obtain ⟨u₁, u₂, hspan, hu₁, -, hu₂, -, hname, -⟩ := outputFileAt_eq_some hmatch
  rw [hspan, List.append_eq_append_iff] at hm
  rcases hm with ⟨a, ha, -⟩ | ⟨a, -, hback⟩
  · refine not_brace_before_space (not_brace_spelled hu₁ hu₂) hname (u := x) (v := v ++ a) ?_ hz
    rw [ha, List.append_assoc]
    rfl
  · rw [hback, List.length_append] at hrest
    omega

theorem Placed.head (hd : Placed content d) : ∃ tail, d.start = 'o' :: tail := by
  obtain ⟨w₁, w₂, hstart, -⟩ := hd.spelled
  rw [hstart]
  exact ⟨_, rfl⟩

/-- A directive that begins within an occurrence of the pattern is on a later line than this. -/
theorem newline_of_inside (hd : Placed content d) {m : List Char} (hm : m <:+ content)
    (hinside : outputFile.Inside m d.start) :
    ∃ x gap, m = (x ++ '\n' :: gap) ++ d.start ∧ ∀ c ∈ gap, isBlank c = true := by
  obtain ⟨hlt, name, rest, hmatch, hrest⟩ := hinside
  obtain ⟨before, gap, hcontent, hgap, hopening⟩ := hd.opened
  obtain ⟨tail, htail⟩ := hd.head
  have hsuffix : d.start <:+ m := by
    refine List.suffix_of_suffix_length_le ?_ hm hlt.le
    rw [hcontent]
    exact (List.suffix_append _ _).trans (List.suffix_append _ _)
  obtain ⟨x, hx⟩ := hsuffix
  obtain ⟨y, hy⟩ := hm
  obtain ⟨u₁, u₂, hspan, -⟩ := outputFileAt_eq_some hmatch
  -- The occurrence begins with a letter, which is not in the whitespace before the directive.
  have hmore : ¬ x <:+ gap := by
    rintro ⟨g, rfl⟩
    cases x with
    | nil =>
      rw [List.nil_append] at hx
      rw [hx] at hlt
      exact Nat.lt_irrefl _ hlt
    | cons c x =>
      have hc : (c :: x ++ d.start).head? = some 'o' := by
        rw [hx, hspan]
        rfl
      obtain rfl : c = 'o' := Option.some.inj hc
      have := (newline_of_blank (hgap 'o' (List.mem_append_right g List.mem_cons_self))).1
      exact absurd this (by decide)
  have hcut : before ++ gap = y ++ x := by
    have : (before ++ gap) ++ d.start = (y ++ x) ++ d.start := by
      rw [List.append_assoc, ← hcontent, List.append_assoc, hx, hy]
    exact List.append_cancel_right this
  rcases hopening.cut hcut hmore with ⟨x', rfl⟩ | ⟨x', b, rfl, hb, hspace⟩
  · exact ⟨x', gap, hx.symm, hgap⟩
  · cases gap with
    | nil =>
      rw [List.nil_append, htail] at hspace
      exact absurd (hspace 'o' rfl) (by decide)
    | cons z gap =>
      have hbrace := not_brace_inside hmatch hx hrest (hspace z rfl)
      rcases hb with rfl | rfl
      · exact absurd rfl hbrace.1
      · exact absurd rfl hbrace.2

/-- The pattern has no second place where a directive could begin. -/
theorem not_mem_behind {u₁ u₂ x a : List Char} (hu₁ : Blank u₁) (hu₂ : Blank u₂) (hne : x ≠ [])
    (h : outputWord ++ u₁ ++ fileWord ++ u₂ = x ++ 'o' :: a) : False := by
  obtain ⟨c, x, rfl⟩ := List.exists_cons_of_ne_nil hne
  have htail : "utput".toList ++ u₁ ++ fileWord ++ u₂ = x ++ 'o' :: a := (List.cons.inj h).2
  have hmem : 'o' ∈ "utput".toList ++ u₁ ++ fileWord ++ u₂ := by
    rw [htail]
    exact List.mem_append_right x List.mem_cons_self
  simp only [List.mem_append, or_assoc] at hmem
  rcases hmem with hmem | hmem | hmem | hmem
  · exact absurd hmem (by decide)
  · exact absurd (hu₁ _ hmem) (by decide)
  · exact absurd hmem (by decide)
  · exact absurd (hu₂ _ hmem) (by decide)

theorem takeWhile_isNameChar_space {s : List Char} (h : ∀ c ∈ s.head?, isSpace c = true) :
    s.takeWhile isNameChar = [] := by
  cases s with
  | nil => rfl
  | cons c s =>
    refine List.takeWhile_cons_of_neg ?_
    rw [isNameChar, h c rfl]
    exact Bool.false_ne_true

theorem eq_nil_of_space_before {x gap front a : List Char} (hgap : ∀ c ∈ gap, isBlank c = true)
    (ha : ∀ c ∈ a, isNameChar c = true) (h : x ++ '\n' :: gap = front ++ a) : a = [] := by
  rcases List.eq_nil_or_concat a with rfl | ⟨a, z, rfl⟩
  · rfl
  · have hlast : (x ++ '\n' :: gap).getLast? = some z := by
      rw [h, List.concat_eq_append, ← List.append_assoc, List.getLast?_concat]
    rw [List.getLast?_append_of_ne_nil x (List.cons_ne_nil _ _)] at hlast
    have hz : isSpace z = true := by
      rcases List.mem_cons.mp (List.mem_of_getLast? hlast) with rfl | hmem
      · rfl
      · exact (newline_of_blank (hgap z hmem)).1
    have hname := ha z (by rw [List.concat_eq_append]; exact List.mem_append_right a List.mem_cons_self)
    rw [isNameChar, hz] at hname
    contradiction

/-- Such an occurrence has its two words before the directive. -/
theorem spelled_before (hd : Placed content d) {m : List Char} (hm : m <:+ content)
    (hinside : outputFile.Inside m d.start) : ∃ u₁ u₂, m = outputWord ++ u₁ ++ fileWord ++ u₂ ++ d.start ∧
      Blank u₁ ∧ u₁ ≠ [] ∧ Blank u₂ ∧ u₂ ≠ [] := by
  obtain ⟨x, gap, hx, hgap⟩ := newline_of_inside hd hm hinside
  obtain ⟨-, name, rest, hmatch, hrest⟩ := hinside
  obtain ⟨u₁, u₂, hspan, hu₁, hne₁, hu₂, hne₂, hname, -⟩ := outputFileAt_eq_some hmatch
  refine ⟨u₁, u₂, ?_, hu₁, hne₁, hu₂, hne₂⟩
  have hcut := hx
  rw [hspan, List.append_assoc, List.append_eq_append_iff] at hcut
  rcases hcut with ⟨a, hpre, hback⟩ | ⟨a, hpre, hback⟩
  · -- The whitespace before the directive is not in the name.
    have hlen := congrArg List.length hback
    rw [List.length_append, List.length_append] at hlen
    have htaken : a <+: name :=
      List.prefix_of_prefix_length_le ⟨_, hback.symm⟩ (List.prefix_append name rest) (by omega)
    obtain rfl := eq_nil_of_space_before hgap (fun c hc => hname c (htaken.subset hc)) hpre
    rw [hx, hpre, List.append_nil]
  · -- Nothing in the two words but their beginning could begin the directive.
    cases a with
    | nil =>
      rw [List.append_nil] at hpre
      rw [hx, hpre]
    | cons c a =>
      obtain ⟨tail, htail⟩ := hd.head
      rw [htail] at hback
      obtain ⟨rfl, -⟩ := List.cons.inj hback
      exact (not_mem_behind hu₁ hu₂ (List.append_ne_nil_of_right_ne_nil _ (List.cons_ne_nil _ _)) hpre).elim

theorem Placed.takeWhile_start (hd : Placed content d) : d.start.takeWhile isNameChar = outputWord := by
  obtain ⟨w₁, w₂, hstart, hw₁, hne, -⟩ := hd.spelled
  have hall : outputWord.all isNameChar = true := by decide
  rw [hstart, List.append_assoc, List.append_assoc, List.append_assoc,
    List.takeWhile_append_of_pos (List.all_eq_true.mp hall), takeWhile_isNameChar_space, List.append_nil]
  intro c hc
  obtain ⟨z, w₁, rfl⟩ := List.exists_cons_of_ne_nil hne
  cases hc
  exact (newline_of_blank (hw₁ c List.mem_cons_self)).1

/-- The occurrence ends behind the first word of the directive, which it takes for the name. -/
theorem matchAt_of_inside (hd : Placed content d) {m : List Char} (hm : m <:+ content)
    (hinside : outputFile.Inside m d.start) :
    ∃ rest, outputFileAt m = some (outputWord, rest) ∧ d.start = outputWord ++ rest := by
  obtain ⟨u₁, u₂, rfl, hu₁, hne₁, hu₂, hne₂⟩ := spelled_before hd hm hinside
  obtain ⟨tail, htail⟩ := hd.head
  refine ⟨d.start.dropWhile isNameChar, ?_, ?_⟩
  · rw [outputFileAt_append hu₁ hne₁ hu₂ hne₂, hd.takeWhile_start]
    · rfl
    · rw [htail]
      intro c hc
      cases hc
      rfl
  · conv_lhs => rw [← List.takeWhile_append_dropWhile (p := isNameChar) (l := d.start), hd.takeWhile_start]

/-! ## The name of a directive -/

/-- What the pattern takes for the name. -/
def Directive.matched (d : Directive) : List Char := d.name.start.takeWhile isNameChar

theorem Placed.matchAt (hd : Placed content d) : outputFileAt d.start =
    if d.matched = [] then none else some (d.matched, d.name.start.dropWhile isNameChar) := by
  obtain ⟨w₁, w₂, hstart, hw₁, hne₁, hw₂, hne₂⟩ := hd.spelled
  obtain ⟨c, rest, hname, hc⟩ := hd.wellFormed.head hd.named
  rw [hstart, outputFileAt_append (fun c hc => (newline_of_blank (hw₁ c hc)).1) hne₁
    (fun c hc => (newline_of_blank (hw₂ c hc)).1) hne₂]
  · rfl
  · intro c' hc'
    rw [hname] at hc'
    cases hc'
    exact hc

/-- No directive begins within the occurrence of another. -/
theorem not_inside_directive (hd : Placed content d) (he : Placed content e) (hsuffix : d.start <:+ content) :
    ¬ outputFile.Inside d.start e.start := by
  intro hinside
  obtain ⟨x, gap, hx, -⟩ := newline_of_inside he hsuffix hinside
  have hnewline : '\n' ∈ x ++ '\n' :: gap := List.mem_append_right x List.mem_cons_self
  obtain ⟨-, name, rest, hmatch, hrest⟩ := hinside
  obtain ⟨w₁, w₂, hstart, hw₁, -, hw₂, -⟩ := hd.spelled
  have hmatched := hmatch.symm.trans hd.matchAt
  split_ifs at hmatched
  obtain ⟨rfl, rfl⟩ := Prod.mk.inj (Option.some.inj hmatched)
  have hspan : d.start = (outputWord ++ w₁ ++ fileWord ++ w₂ ++ d.matched) ++ d.name.start.dropWhile isNameChar := by
    rw [hstart, Directive.matched, List.append_assoc _ (d.name.start.takeWhile isNameChar),
      List.takeWhile_append_dropWhile]
  rw [hx, List.append_eq_append_iff] at hspan
  rcases hspan with ⟨a, ha, -⟩ | ⟨a, -, hback⟩
  · have hmem : '\n' ∈ outputWord ++ w₁ ++ fileWord ++ w₂ ++ d.matched := by
      rw [ha]
      exact List.mem_append_left a hnewline
    simp only [List.mem_append, or_assoc] at hmem
    rcases hmem with h | h | h | h | h
    · exact absurd h (by decide)
    · exact (newline_of_blank (hw₁ _ h)).2 rfl
    · exact absurd h (by decide)
    · exact (newline_of_blank (hw₂ _ h)).2 rfl
    · exact absurd (List.mem_takeWhile_imp h) (by decide)
  · rw [hback, List.length_append] at hrest
    omega

theorem nameChar_of_quote {c : Char} (h : isQuote c = true) : isNameChar c = true := by
  rw [isQuote, Bool.or_eq_true, decide_eq_true_iff, decide_eq_true_iff] at h
  rcases h with rfl | rfl <;> rfl

/-- When the pattern and the strip of the quotes leave the name that stands behind a quote, or behind none. -/
theorem stripOf_takeWhile_iff {lead w tail : List Char} (hlead : ∀ c ∈ lead, isQuote c = true) :
    stripOf isQuote ((lead ++ (w ++ tail)).takeWhile isNameChar) = w ↔
      (∀ c ∈ w, isNameChar c = true) ∧ Trimmed isQuote w ∧ ∀ c ∈ tail.takeWhile isNameChar, isQuote c = true := by
  rw [List.takeWhile_append_of_pos fun c hc => nameChar_of_quote (hlead c hc)]
  by_cases hw : ∀ c ∈ w, isNameChar c = true
  · rw [List.takeWhile_append_of_pos hw, stripOf_between_iff hlead, and_iff_right hw]
  · refine iff_of_false (fun h => hw ?_) fun h => hw h.1
    have hpart : (w ++ tail).takeWhile isNameChar = w.takeWhile isNameChar := by
      rw [List.takeWhile_append, if_neg]
      intro hlen
      have hall := (List.takeWhile_prefix isNameChar (l := w)).eq_of_length hlen
      exact hw (List.takeWhile_eq_self_iff.mp hall)
    rw [hpart, stripOf_append_left hlead] at h
    have hlen : w.length ≤ (w.takeWhile isNameChar).length := by
      have hle := (stripOf_within isQuote (w.takeWhile isNameChar)).length_le
      rw [h] at hle
      exact hle
    have htaken : w.takeWhile isNameChar <+: w := List.takeWhile_prefix isNameChar
    exact List.takeWhile_eq_self_iff.mp (htaken.eq_of_length (Nat.le_antisymm htaken.length_le hlen))

/-- A word without an opening brace and without a quote at its ends, or a quoted text that is such a word or empty, with
nothing joined to it but quotes. -/
def PlainName (t : Token) : Prop :=
  match t.lexeme with
  | .newline => False
  | .word w => '\x7b' ∉ w ∧ Trimmed isQuote w
  | .quoted w => (∀ c ∈ w, isNameChar c = true) ∧ Trimmed isQuote w ∧
    ∀ c ∈ t.rest.takeWhile isNameChar, isQuote c = true

theorem Placed.stripOf_matched (hd : Placed content d) : stripOf isQuote d.matched = d.text ↔ PlainName d.name := by
  obtain ⟨start, name⟩ := d
  have hwf : name.WellFormed := hd.wellFormed
  have hquote : ∀ c ∈ ['"'], isQuote c = true := List.forall_mem_singleton.mpr rfl
  cases hwf with
  | newline rest => exact absurd rfl hd.named
  | @word w rest hspace _ _ hstop =>
    have hrest := takeWhile_isNameChar_space hstop
    have hbrace : (∀ c ∈ w, isNameChar c = true) ↔ '\x7b' ∉ w := by
      constructor
      · intro h hmem
        exact absurd (h _ hmem) (by decide)
      · intro h c hc
        have hne : c ≠ '\x7b' := fun he => h (he ▸ hc)
        rw [isNameChar, hspace c hc, decide_eq_true hne]
        rfl
    have hiff := @stripOf_takeWhile_iff [] w rest fun _ hc => absurd hc List.not_mem_nil
    rw [hrest, hbrace] at hiff
    exact hiff.trans (and_congr_right fun _ => and_iff_left fun _ hc => absurd hc List.not_mem_nil)
  | @quoted w _ rest =>
    have hiff := @stripOf_takeWhile_iff ['"'] w ('"' :: rest) hquote
    rw [List.takeWhile_cons_of_pos (show isNameChar '"' = true from rfl), List.forall_mem_cons,
      and_iff_right (show isQuote '"' = true from rfl)] at hiff
    exact hiff
  | @unclosed w _ =>
    have hiff := @stripOf_takeWhile_iff ['"'] w [] hquote
    rw [List.append_nil] at hiff
    exact hiff

/-- Where the pattern finds no name at all, the name begins with a brace. -/
theorem Placed.brace_of_unmatched (hd : Placed content d) (h : d.matched = []) :
    ∃ c ∈ d.text, isNameChar c = false := by
  obtain ⟨start, name⟩ := d
  have hwf : name.WellFormed := hd.wellFormed
  cases hwf with
  | newline rest => exact absurd rfl hd.named
  | @word w rest _ _ hne _ =>
    obtain ⟨c, w, rfl⟩ := List.exists_cons_of_ne_nil hne
    refine ⟨c, List.mem_cons_self, ?_⟩
    by_contra hc
    rw [Bool.not_eq_false] at hc
    have hmatched : (c :: (w ++ rest)).takeWhile isNameChar = [] := h
    rw [List.takeWhile_cons_of_pos hc] at hmatched
    exact List.cons_ne_nil _ _ hmatched
  | quoted _ rest => exact absurd h (List.cons_ne_nil _ _)
  | unclosed _ => exact absurd h (List.cons_ne_nil _ _)

theorem Placed.matched_ne_nil (hd : Placed content d) (h : PlainName d.name) : d.matched ≠ [] := by
  intro hnil
  obtain ⟨c, hc, hno⟩ := hd.brace_of_unmatched hnil
  have hstrip := hd.stripOf_matched.mpr h
  rw [hnil] at hstrip
  rw [← hstrip] at hc
  exact absurd hc List.not_mem_nil

theorem Placed.occurs (hd : Placed content d) (h : d.matched ≠ []) : outputFile.Occurs d.start :=
  ⟨d.matched, d.name.start.dropWhile isNameChar, hd.matchAt.trans (if_neg h)⟩

/-! ## When the extraction is exact -/

/-- The pattern occurs nowhere but at the directives and within them, and their names are plain. -/
structure Plain (content : List Char) : Prop where
  within : ∀ s, s <:+ content → outputFile.Occurs s →
    ∃ d ∈ directivesOf content, s = d.start ∨ outputFile.Inside d.start s
  names : ∀ d ∈ directivesOf content, PlainName d.name

/-- An occurrence that gives the name of a directive: it is the directive, or begins before this and takes its first word,
which is then also its name. -/
def Names (s : List Char) (d : Directive) : Prop :=
  (s = d.start ∧ PlainName d.name) ∨ (outputFile.Inside s d.start ∧ d.text = outputWord)

/-- The occurrences from left to right, each behind the one before, are one for each directive and give its name. -/
def Aligned (content : List Char) : Prop :=
  ∃ place : Directive → List Char, outputFile.Selection content ((directivesOf content).map place) ∧
    ∀ d ∈ directivesOf content, Names (place d) d

/-- What the code is to return of a file with such a text. -/
structure Extracts (m : Machine) (path : String) (content : List Char) : Prop where
  logFiles : (parseCaddyfileForLogs m path).logFiles = fileNames content
  failure : (parseCaddyfileForLogs m path).success = false ↔ fileNames content = []

def nameAt (s : List Char) : List Char := ((outputFileAt s).map Prod.fst).getD []

/-- The names by the places that they are found at. -/
theorem findAll_names (content : List Char) (fuel : ℕ) :
    findAllFrom fuel content = ((outputFile.findAll fuel content).map Prod.fst).map nameAt := by
  rw [findAllFrom_eq, List.map_map]
  refine List.map_congr_left fun f hf => ?_
  obtain ⟨rest, hmatch⟩ := findAll_match f hf
  have hmatch' : outputFileAt f.1 = some (f.2, rest) := hmatch
  rw [Function.comp_apply, nameAt, hmatch']
  rfl

def foundPlaces (content : List Char) : List (List Char) := (outputFile.findAll content.length content).map Prod.fst

theorem extracts_iff {m : Machine} {path : String} (hread : m.readText path = .ok content) :
    Extracts m path content ↔
      (foundPlaces content).map (fun s => stripOf isQuote (nameAt s)) = (directivesOf content).map Directive.text := by
  have hfiles : ((findAllFrom content.length content).map fun name => String.ofList (stripOf isQuote name)) =
      (foundPlaces content).map fun s => String.ofList (stripOf isQuote (nameAt s)) := by
    rw [findAll_names, List.map_map]
    rfl
  have hnames : ((foundPlaces content).map fun s => String.ofList (stripOf isQuote (nameAt s))) = fileNames content ↔
      (foundPlaces content).map (fun s => stripOf isQuote (nameAt s)) = (directivesOf content).map Directive.text := by
    have hinj : Function.Injective String.ofList := fun a b h => String.ofList_inj.mp h
    rw [fileNames, ← (List.map_injective_iff.mpr hinj).eq_iff, List.map_map, List.map_map]
    rfl
  have hresult : (parseCaddyfileForLogs m path).logFiles =
        ((foundPlaces content).map fun s => String.ofList (stripOf isQuote (nameAt s))) ∧
      ((parseCaddyfileForLogs m path).success = false ↔
        ((foundPlaces content).map fun s => String.ofList (stripOf isQuote (nameAt s))) = []) := by
    rw [parseCaddyfileForLogs, hread]
    dsimp only
    rw [hfiles]
    split_ifs with hnil
    · rw [hnil]
      exact ⟨rfl, iff_of_true rfl rfl⟩
    · exact ⟨rfl, iff_of_false (fun h => nomatch h) hnil⟩
  rw [← hnames]
  constructor
  · intro h
    rw [← hresult.1, h.logFiles]
  · intro h
    exact ⟨hresult.1.trans h, hresult.2.trans (by rw [h])⟩

theorem selection_foundPlaces (content : List Char) : outputFile.Selection content (foundPlaces content) :=
  selection_findAll outputFile content

theorem nameAt_start (hd : Placed content d) : nameAt d.start = d.matched := by
  rw [nameAt, hd.matchAt]
  split_ifs with h
  · exact h.symm
  · rfl

theorem nameAt_of_inside (hd : Placed content d) {s : List Char} (hs : s <:+ content)
    (hinside : outputFile.Inside s d.start) : nameAt s = outputWord := by
  obtain ⟨rest, hmatch, -⟩ := matchAt_of_inside hd hs hinside
  rw [nameAt, hmatch]
  rfl

theorem stripOf_outputWord : stripOf isQuote outputWord = outputWord := by decide

theorem text_of_names (hd : Placed content d) {s : List Char} (hs : s <:+ content) (h : Names s d) :
    stripOf isQuote (nameAt s) = d.text := by
  rcases h with ⟨rfl, hplain⟩ | ⟨hinside, htext⟩
  · rw [nameAt_start hd]
    exact hd.stripOf_matched.mpr hplain
  · rw [nameAt_of_inside hd hs hinside, stripOf_outputWord, htext]

theorem names_of_text (hd : Placed content d) {s : List Char} (hs : s <:+ content)
    (hplace : s = d.start ∨ outputFile.Inside s d.start) (h : stripOf isQuote (nameAt s) = d.text) : Names s d := by
  rcases hplace with rfl | hinside
  · rw [nameAt_start hd] at h
    exact .inl ⟨rfl, hd.stripOf_matched.mp h⟩
  · rw [nameAt_of_inside hd hs hinside, stripOf_outputWord] at h
    exact .inr ⟨hinside, h.symm⟩

theorem names_of_aligned (h : Aligned content) :
    (foundPlaces content).map (fun s => stripOf isQuote (nameAt s)) = (directivesOf content).map Directive.text := by
  obtain ⟨place, hselection, hnames⟩ := h
  rw [(selection_foundPlaces content).unique hselection, List.map_map]
  refine List.map_congr_left fun d hd => ?_
  have hs : place d <:+ content := hselection.suffix (place d) (List.mem_map_of_mem hd)
  exact text_of_names ((placed_directivesOf content).1 d hd).1 hs (hnames d hd)

/-- Where the names are right, the pattern finds some of each directive. -/
theorem matched_ne_nil_of_names
    (h : (foundPlaces content).map (fun s => stripOf isQuote (nameAt s)) = (directivesOf content).map Directive.text)
    (hd : d ∈ directivesOf content) : d.matched ≠ [] := by
  intro hnil
  obtain ⟨c, hc, hno⟩ := ((placed_directivesOf content).1 d hd).1.brace_of_unmatched hnil
  have hmem : d.text ∈ (foundPlaces content).map fun s => stripOf isQuote (nameAt s) := h ▸ List.mem_map_of_mem hd
  obtain ⟨s, hs, htext⟩ := List.mem_map.mp hmem
  obtain ⟨name, rest, hmatch⟩ := (selection_foundPlaces content).occurs s hs
  have hmatch' : outputFileAt s = some (name, rest) := hmatch
  obtain ⟨w₁, w₂, -, -, -, -, -, hname, -⟩ := outputFileAt_eq_some hmatch'
  rw [nameAt, hmatch'] at htext
  rw [← htext] at hc
  have hin : c ∈ name := (stripOf_within isQuote name).subset hc
  rw [hname c hin] at hno
  contradiction

/-- What is found of a later directive is found behind what is found of an earlier one. -/
theorem place_lt {s t : List Char} (hd : Placed content d) (he : Placed content e) (hsuffix : d.start <:+ content)
    (ht : t <:+ content) (hlt : e.start.length < d.start.length) (hs : s = d.start ∨ outputFile.Inside s d.start)
    (hte : t = e.start ∨ outputFile.Inside t e.start) : t.length < s.length := by
  have hle : d.start.length ≤ s.length := by
    rcases hs with rfl | hinside
    · exact le_rfl
    · exact hinside.1.le
  refine Nat.lt_of_lt_of_le ?_ hle
  rcases hte with rfl | hinside
  · exact hlt
  · by_contra hnot
    rcases Nat.eq_or_lt_of_le (Nat.le_of_not_lt hnot) with heq | hgt
    · have hsame : d.start = t := (List.suffix_of_suffix_length_le hsuffix ht heq.le).eq_of_length heq
      exact not_inside_directive hd he hsuffix (hsame ▸ hinside)
    · obtain ⟨rest, hmatch, hestart⟩ := matchAt_of_inside he ht hinside
      obtain ⟨-, name, rest', hmatch', hrest⟩ := hinside
      obtain ⟨rest'', hmatch'', hdstart⟩ := matchAt_of_inside hd ht ⟨hgt, name, rest', hmatch', hrest.trans hlt⟩
      obtain ⟨-, rfl⟩ := Prod.mk.inj (Option.some.inj (hmatch.symm.trans hmatch''))
      rw [hestart, hdstart] at hlt
      exact Nat.lt_irrefl _ hlt

/-- With as many names as directives, there is one place for each. -/
theorem aligned_of_names
    (h : (foundPlaces content).map (fun s => stripOf isQuote (nameAt s)) = (directivesOf content).map Directive.text) :
    Aligned content := by
  have hselection := selection_foundPlaces content
  obtain ⟨hplaced, hordered⟩ := placed_directivesOf content
  have hcharge : ∀ d ∈ directivesOf content, ∃ s ∈ foundPlaces content, s = d.start ∨ outputFile.Inside s d.start := by
    intro d hd
    rcases hselection.covers d.start (hplaced d hd).2 ((hplaced d hd).1.occurs (matched_ne_nil_of_names h hd)) with
      hmem | ⟨t, ht, hinside⟩
    · exact ⟨d.start, hmem, .inl rfl⟩
    · exact ⟨t, ht, .inr hinside⟩
  choose! place hmem hplace using hcharge
  have hdecreasing : ((directivesOf content).map place).Pairwise fun s t => t.length < s.length := by
    refine List.pairwise_map.mpr (hordered.imp_of_mem fun {d e} hd he hlt => ?_)
    exact place_lt (hplaced d hd).1 (hplaced e he).1 (hplaced d hd).2 (hselection.suffix _ (hmem e he)) hlt
      (hplace d hd) (hplace e he)
  have hsubset : (directivesOf content).map place ⊆ foundPlaces content := by
    intro s hs
    obtain ⟨d, hd, rfl⟩ := List.mem_map.mp hs
    exact hmem d hd
  have hlength : (foundPlaces content).length ≤ ((directivesOf content).map place).length := by
    have hsame := congrArg List.length h
    rw [List.length_map, List.length_map] at hsame
    rw [List.length_map, hsame]
  have hall := eq_of_decreasing_subset hdecreasing hselection.decreasing hsubset hlength
  refine ⟨place, hall ▸ hselection, fun d hd => ?_⟩
  rw [← hall, List.map_map] at h
  exact names_of_text (hplaced d hd).1 (hselection.suffix _ (hmem d hd)) (hplace d hd) (List.map_inj_left.mp h d hd)

theorem aligned_of_plain (h : Plain content) : Aligned content := by
  obtain ⟨hplaced, hordered⟩ := placed_directivesOf content
  refine ⟨Directive.start, ⟨?_, ?_, ?_, ?_⟩, fun d hd => .inl ⟨rfl, h.names d hd⟩⟩
  · intro s hs
    obtain ⟨d, hd, rfl⟩ := List.mem_map.mp hs
    exact (hplaced d hd).2
  · intro s hs
    obtain ⟨d, hd, rfl⟩ := List.mem_map.mp hs
    exact (hplaced d hd).1.occurs ((hplaced d hd).1.matched_ne_nil (h.names d hd))
  · refine List.pairwise_map.mpr (hordered.imp_of_mem fun {d e} hd he hlt b rest hmatch => ?_)
    by_contra hle
    exact not_inside_directive (hplaced d hd).1 (hplaced e he).1 (hplaced d hd).2
      ⟨hlt, b, rest, hmatch, Nat.lt_of_not_le hle⟩
  · intro s hs hocc
    obtain ⟨d, hd, rfl | hinside⟩ := h.within s hs hocc
    · exact .inl (List.mem_map_of_mem hd)
    · exact .inr ⟨d.start, List.mem_map_of_mem hd, hinside⟩

theorem plain_of_aligned (hno : ∀ d ∈ directivesOf content, d.text ≠ outputWord) (h : Aligned content) :
    Plain content := by
  obtain ⟨place, hselection, hnames⟩ := h
  have hstart : ∀ d ∈ directivesOf content, place d = d.start ∧ PlainName d.name := fun d hd =>
    (hnames d hd).resolve_right fun hshadow => hno d hd hshadow.2
  constructor
  · intro s hs hocc
    rcases hselection.covers s hs hocc with hmem | ⟨t, ht, hinside⟩
    · obtain ⟨d, hd, rfl⟩ := List.mem_map.mp hmem
      exact ⟨d, hd, .inl (hstart d hd).1⟩
    · obtain ⟨d, hd, rfl⟩ := List.mem_map.mp ht
      exact ⟨d, hd, .inr ((hstart d hd).1 ▸ hinside)⟩
  · exact fun d hd => (hstart d hd).2

/-- **The extraction is exact** where the occurrences of the pattern are one for each directive and give its name. In a
text with no log file of the name `output` they are when the pattern occurs at the directives alone, or within them,
and all their names are plain. -/
theorem extracts_iff_aligned (m : Machine) (path : String) (content : List Char)
    (hread : m.readText path = .ok content) :
    (Extracts m path content ↔ Aligned content) ∧
      ((∀ d ∈ directivesOf content, d.text ≠ outputWord) → (Aligned content ↔ Plain content)) := by
  refine ⟨(extracts_iff hread).trans ⟨aligned_of_names, names_of_aligned⟩, fun hno => ?_⟩
  exact ⟨plain_of_aligned hno, aligned_of_plain⟩

theorem extracts_iff_aligned_two_sites :
    let text := "a \x7b\n log \x7b\n  output file \"/a.log\" \x7b\n \x7d\nb \x7b\n log \x7b\n  output file /b.log # kept\n"
    Extracts (withCaddyfile text) "/etc/caddy/Caddyfile" text.toList ∧ Plain text.toList := by
  intro text
  have hextracts : Extracts (withCaddyfile text) "/etc/caddy/Caddyfile" text.toList :=
    ⟨by decide +kernel, by decide +kernel⟩
  have h := extracts_iff_aligned (withCaddyfile text) "/etc/caddy/Caddyfile" text.toList rfl
  exact ⟨hextracts, (h.2 (by decide +kernel)).mp (h.1.mp hextracts)⟩

/-- A quoted name is cut at its space, a placeholder lost, and a comment taken for a directive. -/
theorem not_extracts :
    ¬ Extracts (withCaddyfile "log \x7b\n  output file \"/var/log/my site.log\"\n\x7d") "/etc/caddy/Caddyfile"
        "log \x7b\n  output file \"/var/log/my site.log\"\n\x7d".toList ∧
      ¬ Extracts (withCaddyfile "log \x7b\n  output file \x7benv.LOG\x7d\n\x7d") "/etc/caddy/Caddyfile"
        "log \x7b\n  output file \x7benv.LOG\x7d\n\x7d".toList ∧
      ¬ Extracts (withCaddyfile "# output file /old.log") "/etc/caddy/Caddyfile" "# output file /old.log".toList :=
  ⟨fun h => absurd h.logFiles (by decide +kernel), fun h => absurd h.logFiles (by decide +kernel),
    fun h => absurd h.logFiles (by decide +kernel)⟩

end

end Cadsa.Caddyfile
