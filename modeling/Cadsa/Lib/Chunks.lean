import Cadsa.Lib.Utf8
import Cadsa.Lib.PyText

/-! A text that is read in chunks of bytes, each chunk decoded and split into lines on its own.
`chunkPieces_iff` says exactly when the result is that of reading the whole text at once:
when every chunk ends between two characters and leaves only whitespace of the line it ends
in on one side. -/
namespace Chunks
open Utf8 PyText
set_option autoImplicit false

def chunkPieces (bs : List (List UInt8)) : List (List Char) := bs.flatMap fun b => pieces (decode b)

def cuts : List (List UInt8) → List ℕ
  | [] => []
  | b :: bs => b.length :: (cuts bs).map (b.length + ·)

/-- The offset falls between two characters, and no line shows the cut. -/
def Harmless (t : List Char) (p : ℕ) : Prop :=
  ∃ t₁ t₂, t = t₁ ++ t₂ ∧ (encode t₁).length = p ∧ CleanCut t₁ t₂

@[simp] theorem chunkPieces_nil : chunkPieces [] = [] := rfl

@[simp] theorem chunkPieces_cons (b : List UInt8) (bs : List (List UInt8)) :
    chunkPieces (b :: bs) = pieces (decode b) ++ chunkPieces bs := rfl

/-! ## Replacement characters are visible -/

theorem replacement_unbroken : Unbroken [replacement] := by decide

theorem unbroken_replicate (m : ℕ) : Unbroken (List.replicate m replacement) := fun c hc => by
  rw [List.eq_of_mem_replicate hc]
  decide

theorem not_blank_of_mem {s : List Char} (h : replacement ∈ s) : ¬ Blank s := fun hb =>
  absurd (hb replacement h) (by decide)

theorem lastLine_suffix (s l : List Char) (h : '\n' ∉ l) : lastLine (s ++ l) = lastLine s ++ l := by
  rw [lastLine, lastLine, List.rtakeWhile, List.rtakeWhile, List.reverse_append,
    List.takeWhile_append_of_pos (fun c hc => ne_newline h c (List.mem_reverse.mp hc)),
    List.reverse_append, List.reverse_reverse]

theorem firstLine_prefix (l s : List Char) (h : '\n' ∉ l) : firstLine (l ++ s) = l ++ firstLine s := by
  rw [firstLine, firstLine, List.takeWhile_append_of_pos (ne_newline h)]

theorem not_clean_in_char (s t : List Char) {m : ℕ} (hm : 0 < m) :
    ¬ CleanCut (s ++ [replacement]) (List.replicate m replacement ++ t) := by
  have h1 : '\n' ∉ [replacement] := by decide
  have h2 : '\n' ∉ List.replicate m replacement := (unbroken_replicate m).ne_newline
  rw [CleanCut, lastLine_suffix _ _ h1, firstLine_prefix _ _ h2, not_or]
  refine ⟨not_blank_of_mem (by simp), not_blank_of_mem ?_⟩
  simp [List.mem_replicate, Nat.pos_iff_ne_zero.mp hm]

theorem pieces_lt_in_char {s t : List Char} {c : Char} {m : ℕ} (hs : Plain s) (hc : Unbroken [c])
    (ht : Plain t) (hm : 0 < m) : (pieces (s ++ ([c] ++ t))).length <
      (pieces (s ++ [replacement])).length + (pieces (List.replicate m replacement ++ t)).length := by
  have h1 : Plain (s ++ [replacement]) := (plain_append _ _).mpr ⟨hs, replacement_unbroken.plain⟩
  have h2 : Plain (List.replicate m replacement ++ t) :=
    (plain_append _ _).mpr ⟨(unbroken_replicate m).plain, ht⟩
  have hl := pieces_append_length h1 h2 (not_clean_in_char s t hm)
  have hv : ¬ Blank ([replacement] ++ List.replicate m replacement) := not_blank_of_mem (by simp)
  have hr := pieces_replace_le hs hc
    ((unbroken_append _ _).mpr ⟨replacement_unbroken, unbroken_replicate m⟩) hv ht
  simp only [List.append_assoc] at hl hr
  omega

/-! ## One cut -/

/-- What remains to be read: the rest of a character that was cut, then whole characters. -/
structure Remains (b : List UInt8) where
  conts : List UInt8
  text : List Char
  eq : b = conts ++ encode text
  cont : ∀ x ∈ conts, Cont x
  plain : Plain text

theorem Remains.decode {b : List UInt8} (r : Remains b) :
    decode b = List.replicate r.conts.length replacement ++ r.text := by
  conv_lhs => rw [r.eq]
  rw [decode_conts _ r.cont, decode_encode]

theorem Remains.plain_decode {b : List UInt8} (r : Remains b) : Plain (Utf8.decode b) := by
  rw [r.decode]
  exact (plain_append _ _).mpr ⟨(unbroken_replicate _).plain, r.plain⟩

theorem unbroken_of_cut {c : Char} {w x : List UInt8} (h : String.utf8EncodeChar c = w ++ x)
    (hw : w ≠ []) (hx : x ≠ []) {s t : List Char} (hp : Plain (s ++ c :: t)) : Unbroken [c] := by
  have hc : c ≠ '\n' := by
    rintro rfl
    have hl := congrArg List.length h
    rw [List.length_append, show (String.utf8EncodeChar '\n').length = 1 from rfl] at hl
    have := List.length_pos_of_ne_nil hw
    have := List.length_pos_of_ne_nil hx
    omega
  intro d hd
  rw [List.mem_singleton.mp hd]
  exact hp c (by simp) hc

/-- A cut of what remains leaves something that remains, and either the two parts decode to the
whole or a character was cut. -/
theorem Remains.split {b u v : List UInt8} (r : Remains b) (h : b = u ++ v) :
    ∃ r' : Remains v, Utf8.decode b = Utf8.decode u ++ Utf8.decode v ∨
      ∃ s c m, 0 < m ∧ Unbroken [c] ∧ Utf8.decode b = s ++ ([c] ++ r'.text) ∧
        Utf8.decode u = s ++ [replacement] ∧ Utf8.decode v = List.replicate m replacement ++ r'.text := by
  obtain ⟨k, t, hb, hk, ht⟩ := r
  rcases List.append_eq_append_iff.mp (hb.symm.trans h) with ⟨u', rfl, h'⟩ | ⟨k', hk', hv⟩
  · rcases encode_split h' with ⟨t₁, t₂, rfl, rfl, rfl⟩ | ⟨t₁, c, t₂, w, x, rfl, hc, hw, hx, rfl, rfl⟩
    · obtain ⟨h1, h2⟩ := (plain_append _ _).mp ht
      refine ⟨⟨[], t₂, rfl, by simp, h2⟩, .inl ?_⟩
      rw [hb, decode_conts _ hk, decode_conts _ hk, decode_encode, decode_encode, decode_encode,
        List.append_assoc]
    · have h2 : Plain t₂ := fun d hd => ht d (by simp [hd])
      refine ⟨⟨x, t₂, rfl, conts_of_cut hc hw, h2⟩, .inr
        ⟨List.replicate k.length replacement ++ t₁, c, x.length, List.length_pos_of_ne_nil hx,
          unbroken_of_cut hc hw hx ht, ?_, ?_, ?_⟩⟩
      · rw [hb, decode_conts _ hk, decode_encode]
        simp
      · rw [decode_conts _ hk, decode_encode_append, decode_cut hc hw hx, List.append_assoc]
      · rw [decode_conts _ (conts_of_cut hc hw), decode_encode]
  · have hu : ∀ x ∈ u, Cont x := fun x hx => hk x (by simp [hk', hx])
    have hw : ∀ x ∈ k', Cont x := fun x hx => hk x (by simp [hk', hx])
    refine ⟨⟨k', t, hv, hw, ht⟩, .inl ?_⟩
    have hd := decode_conts u hu []
    rw [List.append_nil, decode_nil, List.append_nil] at hd
    rw [h, decode_conts u hu, hd]

theorem Remains.pieces_le {b u v : List UInt8} (r : Remains b) (h : b = u ++ v) :
    (pieces (Utf8.decode b)).length ≤ (pieces (Utf8.decode u)).length + (pieces (Utf8.decode v)).length := by
  have hp := r.plain_decode
  obtain ⟨r', hd | ⟨s, c, m, hm, hc, hd, hu, hv⟩⟩ := r.split h
  · rw [hd] at hp ⊢
    obtain ⟨h1, h2⟩ := (plain_append _ _).mp hp
    exact pieces_append_le h1 h2
  · have hs : Plain s := ((plain_append _ _).mp (hd ▸ hp)).1
    rw [hd, hu, hv]
    exact (pieces_lt_in_char hs hc r'.plain hm).le

theorem Remains.chunkPieces_le {bs : List (List UInt8)} (r : Remains bs.flatten) :
    (pieces (Utf8.decode bs.flatten)).length ≤ (chunkPieces bs).length := by
  induction bs with
  | nil => simp
  | cons b bs ih =>
    obtain ⟨r', -⟩ := r.split List.flatten_cons
    have h1 := r.pieces_le List.flatten_cons
    have h2 := ih r'
    rw [chunkPieces_cons, List.length_append]
    omega

/-! ## All the cuts -/

theorem lastLine_append_blank {s t : List Char} (h : Blank (lastLine (s ++ t))) : Blank (lastLine t) := by
  by_cases hn : '\n' ∈ t
  · obtain ⟨l, t', rfl, -⟩ := List.eq_append_cons_of_mem hn
    rwa [← List.append_assoc, lastLine_line, ← lastLine_line l] at h
  · rw [lastLine_suffix _ _ hn] at h
    rw [lastLine_of_not_mem hn]
    exact ((blank_append _ _).mp h).2

theorem cleanCut_shift {s a b : List Char} (h : CleanCut s (a ++ b)) :
    CleanCut (s ++ a) b ↔ CleanCut a b := by
  constructor
  · rintro (hl | hf)
    · exact .inl (lastLine_append_blank hl)
    · exact .inr hf
  · rintro (hl | hf)
    · by_cases hn : '\n' ∈ a
      · obtain ⟨l, a', rfl, -⟩ := List.eq_append_cons_of_mem hn
        left
        rw [← List.append_assoc, lastLine_line]
        rwa [lastLine_line] at hl
      · rw [lastLine_of_not_mem hn] at hl
        rw [CleanCut, firstLine_prefix _ _ hn] at h
        rcases h with h | h
        · exact .inl (by rw [lastLine_suffix _ _ hn]; exact (blank_append _ _).mpr ⟨h, hl⟩)
        · exact .inr ((blank_append _ _).mp h).2
    · exact .inr hf

theorem length_encode_lt {t : List Char} (c : Char) (u : List Char) :
    (encode t).length < (encode (t ++ c :: u)).length := by
  have := List.length_pos_of_ne_nil (encodeChar_ne_nil c)
  simp only [encode_append, encode_cons, List.length_append]
  omega

theorem split_le {s t a b : List Char} (h : s ++ t = a ++ b) {q : ℕ}
    (hq : (encode a).length = (encode s).length + q) :
    ∃ m, a = s ++ m ∧ t = m ++ b ∧ (encode m).length = q := by
  rcases List.append_eq_append_iff.mp h with ⟨m, rfl, rfl⟩ | ⟨m, rfl, rfl⟩
  · refine ⟨m, rfl, rfl, ?_⟩
    rw [encode_append, List.length_append] at hq
    omega
  · cases m with
    | nil => exact ⟨[], by simp, by simp, by simp at hq ⊢; omega⟩
    | cons c m =>
      have := length_encode_lt (t := a) c m
      omega

theorem harmless_shift {s t : List Char} (h : CleanCut s t) (q : ℕ) :
    Harmless (s ++ t) ((encode s).length + q) ↔ Harmless t q := by
  constructor
  · rintro ⟨a, b, he, hl, hc⟩
    obtain ⟨m, rfl, rfl, hm⟩ := split_le he hl
    exact ⟨m, b, rfl, hm, (cleanCut_shift h).mp hc⟩
  · rintro ⟨a, b, rfl, rfl, hc⟩
    exact ⟨s ++ a, b, by simp, by simp, (cleanCut_shift h).mpr hc⟩

theorem harmless_at (s t : List Char) : Harmless (s ++ t) (encode s).length ↔ CleanCut s t := by
  constructor
  · rintro ⟨a, b, he, hl, hc⟩
    obtain ⟨m, rfl, rfl, hm⟩ := split_le (q := 0) he hl
    cases m with
    | nil => simpa using hc
    | cons c m =>
      have := length_encode_lt (t := []) c m
      simp only [List.nil_append, encode_nil, List.length_nil] at this
      omega
  · intro hc
    exact ⟨s, t, rfl, rfl, hc⟩

theorem not_harmless_in_char {t : List Char} {u v : List UInt8} (h : encode t = u ++ v)
    (hh : Harmless t u.length) : ∃ t₁ t₂, t = t₁ ++ t₂ ∧ u = encode t₁ ∧ v = encode t₂ ∧ CleanCut t₁ t₂ := by
  obtain ⟨t₁, t₂, rfl, hl, hc⟩ := hh
  rw [encode_append] at h
  obtain ⟨h1, h2⟩ := List.append_inj h hl
  exact ⟨t₁, t₂, rfl, h1.symm, h2.symm, hc⟩

/-- **Chunked reading.** The chunks give the lines of the whole text exactly when every cut
between them is harmless. -/
theorem chunkPieces_iff {t : List Char} (ht : Plain t) {bs : List (List UInt8)}
    (h : bs.flatten = encode t) : chunkPieces bs = pieces t ↔ ∀ p ∈ cuts bs, Harmless t p := by
  induction bs generalizing t with
  | nil =>
    have : t = [] := encode_injective h.symm
    subst this
    simp [cuts]
  | cons b bs ih =>
    rw [List.flatten_cons] at h
    have r : Remains (b ++ bs.flatten) := ⟨[], t, h, by simp, ht⟩
    have hdec : decode (b ++ bs.flatten) = t := by rw [h, decode_encode]
    constructor
    · intro he
      have hlen := congrArg List.length he
      rw [chunkPieces_cons, List.length_append] at hlen
      -- no line was shown twice, so the first cut is clean
      have hfirst : ∃ t₁ t₂, t = t₁ ++ t₂ ∧ b = encode t₁ ∧ bs.flatten = encode t₂ ∧ CleanCut t₁ t₂ := by
        rcases encode_split h.symm with ⟨t₁, t₂, rfl, rfl, h2⟩ | ⟨t₁, c, t₂, w, x, rfl, hc, hw, hx, rfl, hv⟩
        · refine ⟨t₁, t₂, rfl, rfl, h2, ?_⟩
          obtain ⟨h3, h4⟩ := (plain_append _ _).mp ht
          by_contra hn
          have r' : Remains bs.flatten := ⟨[], t₂, h2, by simp, h4⟩
          have h5 := r'.chunkPieces_le
          rw [h2, decode_encode] at h5
          rw [decode_encode] at hlen
          have h6 := pieces_append_length h3 h4 hn
          omega
        · exfalso
          have h2 : Plain t₂ := fun d hd => ht d (by simp [hd])
          have hs : Plain t₁ := ((plain_append _ _).mp ht).1
          have hx' := conts_of_cut hc hw
          have r' : Remains bs.flatten := ⟨x, t₂, hv, hx', h2⟩
          have h5 := r'.chunkPieces_le
          have h6 := pieces_lt_in_char hs (unbroken_of_cut hc hw hx ht) h2 (List.length_pos_of_ne_nil hx)
          rw [hv, decode_conts x hx', decode_encode] at h5
          rw [decode_encode_append, decode_cut hc hw hx] at hlen
          rw [List.singleton_append] at h6
          omega
      obtain ⟨t₁, t₂, rfl, rfl, h2, hc⟩ := hfirst
      obtain ⟨h3, h4⟩ := (plain_append _ _).mp ht
      have hrest : chunkPieces bs = pieces t₂ := by
        rw [chunkPieces_cons, decode_encode, pieces_append h3 h4 hc] at he
        exact List.append_cancel_left he
      intro p hp
      rw [cuts, List.mem_cons, List.mem_map] at hp
      rcases hp with rfl | ⟨q, hq, rfl⟩
      · exact (harmless_at t₁ t₂).mpr hc
      · exact (harmless_shift hc q).mpr ((ih h4 h2).mp hrest q hq)
    · intro hall
      obtain ⟨t₁, t₂, rfl, rfl, h2, hc⟩ := not_harmless_in_char h.symm (hall _ (by simp [cuts]))
      obtain ⟨h3, h4⟩ := (plain_append _ _).mp ht
      have hrest : chunkPieces bs = pieces t₂ := (ih h4 h2).mpr fun q hq =>
        (harmless_shift hc q).mp (hall _ (by simp [cuts, hq]))
      rw [chunkPieces_cons, decode_encode, hrest, pieces_append h3 h4 hc]

end Chunks
