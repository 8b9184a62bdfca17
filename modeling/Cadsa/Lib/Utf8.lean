import Mathlib.Algebra.Group.Nat.Defs
import Mathlib.Data.List.Basic
import Mathlib.Tactic.SplitIfs
import Mathlib.Data.Nat.Notation

/-! UTF-8 with replacement: the decoder as a machine that reads one byte at a time,
emits U+FFFD for every maximal ill-formed part and for a sequence cut off by the end of
the input. The encoder is the core library's `String.utf8EncodeChar`. Three facts are
used elsewhere: a whole character decodes to itself, a cut one to a single U+FFFD, and
the bytes left over from a cut character to one U+FFFD each. -/
namespace Utf8
set_option autoImplicit false
set_option maxRecDepth 4000

/-! ## The machine -/

/-- Between characters, or inside one: `owed + 1` continuation bytes are due, the next one
in `[lo, hi]`, below the bits read so far. -/
inductive State where
  | start
  | tail (owed lo hi bits : ℕ)
  deriving DecidableEq, Repr

def replacement : Char := '\uFFFD'

def lead (b : ℕ) : List Char × State :=
  if b < 0x80 then ([Char.ofNat b], .start)
  else if b < 0xC2 then ([replacement], .start)
  else if b < 0xE0 then ([], .tail 0 0x80 0xBF (b % 0x20))
  else if b < 0xF0 then
    ([], .tail 1 (if b = 0xE0 then 0xA0 else 0x80) (if b = 0xED then 0x9F else 0xBF) (b % 0x10))
  else if b < 0xF5 then
    ([], .tail 2 (if b = 0xF0 then 0x90 else 0x80) (if b = 0xF4 then 0x8F else 0xBF) (b % 0x08))
  else ([replacement], .start)

/-- One byte: what is emitted and the state after it. A byte that cannot continue the
character is replaced together with what precedes it and read again as a first byte. -/
def feed : State → ℕ → List Char × State
  | .start, b => lead b
  | .tail owed lo hi bits, b =>
    if lo ≤ b ∧ b ≤ hi then
      match owed with
      | 0 => ([Char.ofNat (bits * 0x40 + b % 0x40)], .start)
      | n + 1 => ([], .tail n 0x80 0xBF (bits * 0x40 + b % 0x40))
    else (replacement :: (lead b).1, (lead b).2)

def decodeFrom : State → List UInt8 → List Char
  | .start, [] => []
  | .tail _ _ _ _, [] => [replacement]
  | s, b :: bs => (feed s b.toNat).1 ++ decodeFrom (feed s b.toNat).2 bs

def decode (bs : List UInt8) : List Char := decodeFrom .start bs

def encode (t : List Char) : List UInt8 := t.flatMap String.utf8EncodeChar

@[simp] theorem decode_nil : decode [] = [] := rfl

@[simp] theorem encode_nil : encode [] = [] := rfl

@[simp] theorem encode_cons (c : Char) (t : List Char) :
    encode (c :: t) = String.utf8EncodeChar c ++ encode t := List.flatMap_cons

@[simp] theorem encode_append (t u : List Char) : encode (t ++ u) = encode t ++ encode u :=
  List.flatMap_append

theorem decode_cons (b : UInt8) (bs : List UInt8) :
    decode (b :: bs) = (lead b.toNat).1 ++ decodeFrom (lead b.toNat).2 bs := rfl

/-! ## The bytes of one character -/

def Cont (b : UInt8) : Prop := 0x80 ≤ b.toNat ∧ b.toNat < 0xC0

theorem scalar_bounds (c : Char) :
    c.val.toNat < 0xD800 ∨ (0xDFFF < c.val.toNat ∧ c.val.toNat < 0x110000) := c.valid

theorem ofNat_scalar (c : Char) : Char.ofNat c.val.toNat = c := Char.ofNat_toNat c

/-- The four shapes of an encoded character, with the value rebuilt from its bytes. -/
inductive Shape (c : Char) : Prop
  | one (a : UInt8) (he : String.utf8EncodeChar c = [a]) (ha : a.toNat < 0x80) (hv : c.val.toNat = a.toNat)
  | two (a b : UInt8) (he : String.utf8EncodeChar c = [a, b]) (ha : 0xC2 ≤ a.toNat ∧ a.toNat < 0xE0)
      (hb : Cont b) (hv : c.val.toNat = (a.toNat % 0x20) * 0x40 + b.toNat % 0x40)
  | three (a b d : UInt8) (he : String.utf8EncodeChar c = [a, b, d]) (ha : 0xE0 ≤ a.toNat ∧ a.toNat < 0xF0)
      (hb : (if a.toNat = 0xE0 then 0xA0 else 0x80) ≤ b.toNat ∧
        b.toNat ≤ (if a.toNat = 0xED then 0x9F else 0xBF)) (hd : Cont d)
      (hv : c.val.toNat = ((a.toNat % 0x10) * 0x40 + b.toNat % 0x40) * 0x40 + d.toNat % 0x40)
  | four (a b d e : UInt8) (he : String.utf8EncodeChar c = [a, b, d, e]) (ha : 0xF0 ≤ a.toNat ∧ a.toNat < 0xF5)
      (hb : (if a.toNat = 0xF0 then 0x90 else 0x80) ≤ b.toNat ∧
        b.toNat ≤ (if a.toNat = 0xF4 then 0x8F else 0xBF)) (hd : Cont d) (hx : Cont e)
      (hv : c.val.toNat = (((a.toNat % 0x08) * 0x40 + b.toNat % 0x40) * 0x40 + d.toNat % 0x40) * 0x40
        + e.toNat % 0x40)

theorem shape (c : Char) : Shape c := by
  have hs := scalar_bounds c
  by_cases h1 : c.val.toNat ≤ 127
  · refine .one (UInt8.ofNat c.val.toNat) (by simp only [String.utf8EncodeChar, h1, if_true]) ?_ ?_ <;>
      simp only [UInt8.toNat_ofNat'] <;> omega
  by_cases h2 : c.val.toNat ≤ 2047
  · refine .two _ _ (by simp only [String.utf8EncodeChar, h1, h2, if_true, if_false]; rfl) ?_ ?_ ?_ <;>
      simp only [Cont, UInt8.toNat_ofNat'] <;> omega
  by_cases h3 : c.val.toNat ≤ 65535
  · refine .three _ _ _ (by simp only [String.utf8EncodeChar, h1, h2, h3, if_true, if_false]; rfl)
      ?_ ?_ ?_ ?_ <;> simp only [Cont, UInt8.toNat_ofNat'] <;> (try split_ifs) <;> omega
  · refine .four _ _ _ _ (by simp only [String.utf8EncodeChar, h1, h2, h3, if_false]; rfl)
      ?_ ?_ ?_ ?_ ?_ <;> simp only [Cont, UInt8.toNat_ofNat'] <;> (try split_ifs) <;> omega

/-! ## Whole, cut and leftover characters -/

theorem decodeFrom_start (bs : List UInt8) : decodeFrom .start bs = decode bs := rfl

theorem lead_ascii {b : ℕ} (h : b < 0x80) : lead b = ([Char.ofNat b], .start) := by
  simp only [lead, h, if_true]

theorem lead_cont {b : ℕ} (h : 0x80 ≤ b ∧ b < 0xC2) : lead b = ([replacement], .start) := by
  have h1 : ¬ b < 0x80 := by omega
  simp only [lead, h1, h.2, if_true, if_false]

theorem lead_two {b : ℕ} (h : 0xC2 ≤ b ∧ b < 0xE0) : lead b = ([], .tail 0 0x80 0xBF (b % 0x20)) := by
  have h1 : ¬ b < 0x80 := by omega
  have h2 : ¬ b < 0xC2 := by omega
  simp only [lead, h1, h2, h.2, if_true, if_false]

theorem lead_three {b : ℕ} (h : 0xE0 ≤ b ∧ b < 0xF0) : lead b =
    ([], .tail 1 (if b = 0xE0 then 0xA0 else 0x80) (if b = 0xED then 0x9F else 0xBF) (b % 0x10)) := by
  have h1 : ¬ b < 0x80 := by omega
  have h2 : ¬ b < 0xC2 := by omega
  have h3 : ¬ b < 0xE0 := by omega
  simp only [lead, h1, h2, h3, h.2, if_true, if_false]

theorem lead_four {b : ℕ} (h : 0xF0 ≤ b ∧ b < 0xF5) : lead b =
    ([], .tail 2 (if b = 0xF0 then 0x90 else 0x80) (if b = 0xF4 then 0x8F else 0xBF) (b % 0x08)) := by
  have h1 : ¬ b < 0x80 := by omega
  have h2 : ¬ b < 0xC2 := by omega
  have h3 : ¬ b < 0xE0 := by omega
  have h4 : ¬ b < 0xF0 := by omega
  simp only [lead, h1, h2, h3, h4, h.2, if_true, if_false]

theorem decodeFrom_tail_last {lo hi bits : ℕ} {b : UInt8} (h : lo ≤ b.toNat ∧ b.toNat ≤ hi)
    (bs : List UInt8) : decodeFrom (.tail 0 lo hi bits) (b :: bs) =
      Char.ofNat (bits * 0x40 + b.toNat % 0x40) :: decode bs := by
  simp only [decodeFrom, feed, h, and_self, if_true, List.singleton_append, decode]

theorem decodeFrom_tail_more {n lo hi bits : ℕ} {b : UInt8} (h : lo ≤ b.toNat ∧ b.toNat ≤ hi)
    (bs : List UInt8) : decodeFrom (.tail (n + 1) lo hi bits) (b :: bs) =
      decodeFrom (.tail n 0x80 0xBF (bits * 0x40 + b.toNat % 0x40)) bs := by
  simp only [decodeFrom, feed, h, and_self, if_true, List.nil_append]

theorem Cont.range {b : UInt8} (h : Cont b) : 0x80 ≤ b.toNat ∧ b.toNat ≤ 0xBF :=
  ⟨h.1, Nat.le_of_lt_succ h.2⟩

theorem decode_char (c : Char) (bs : List UInt8) :
    decode (String.utf8EncodeChar c ++ bs) = c :: decode bs := by
  have hc : Char.ofNat c.val.toNat = c := ofNat_scalar c
  cases shape c with
  | one a he ha hv =>
    rw [he, List.singleton_append, decode_cons, lead_ascii ha, ← hv, hc]
    rfl
  | two a b he ha hb hv =>
    rw [he, List.cons_append, decode_cons, lead_two ha, List.nil_append, List.singleton_append,
      decodeFrom_tail_last hb.range, ← hv, hc]
  | three a b d he ha hb hd hv =>
    rw [he, List.cons_append, decode_cons, lead_three ha, List.nil_append, List.cons_append,
      decodeFrom_tail_more hb, List.singleton_append, decodeFrom_tail_last hd.range, ← hv, hc]
  | four a b d e he ha hb hd hx hv =>
    rw [he, List.cons_append, decode_cons, lead_four ha, List.nil_append, List.cons_append,
      decodeFrom_tail_more hb, List.cons_append, decodeFrom_tail_more hd.range, List.singleton_append,
      decodeFrom_tail_last hx.range, ← hv, hc]

/-- **Round trip.** -/
@[simp] theorem decode_encode_append (t : List Char) (bs : List UInt8) :
    decode (encode t ++ bs) = t ++ decode bs := by
  induction t with
  | nil => rfl
  | cons c t ih => rw [encode_cons, List.append_assoc, decode_char, ih, List.cons_append]

@[simp] theorem decode_encode (t : List Char) : decode (encode t) = t := by
  simpa using decode_encode_append t []

theorem cut_take {α : Type} {l w v : List α} (h : l = w ++ v) (hw : w ≠ []) (hv : v ≠ []) :
    ∃ n, 0 < n ∧ n < l.length ∧ w = l.take n ∧ v = l.drop n := by
  subst h
  refine ⟨w.length, List.length_pos_of_ne_nil hw, ?_, by simp, by simp⟩
  have := List.length_pos_of_ne_nil hv
  simp only [List.length_append]
  omega

/-- A character cut off by the end of the input is one U+FFFD. -/
theorem decode_cut {c : Char} {w v : List UInt8} (h : String.utf8EncodeChar c = w ++ v)
    (hw : w ≠ []) (hv : v ≠ []) : decode w = [replacement] := by
  obtain ⟨n, h0, hn, rfl, -⟩ := cut_take h hw hv
  cases shape c with
  | one a he ha _ =>
    simp only [he, List.length_singleton] at hn
    omega
  | two a b he ha hb _ =>
    simp only [he, List.length_cons, List.length_nil] at hn ⊢
    obtain rfl : n = 1 := by omega
    rw [List.take_succ_cons, List.take_zero, decode_cons, lead_two ha]
    rfl
  | three a b d he ha hb hd _ =>
    simp only [he, List.length_cons, List.length_nil] at hn ⊢
    obtain rfl | rfl : n = 1 ∨ n = 2 := by omega
    · rw [List.take_succ_cons, List.take_zero, decode_cons, lead_three ha]
      rfl
    · simp only [List.take_succ_cons, List.take_zero]
      rw [decode_cons, lead_three ha, List.nil_append, decodeFrom_tail_more hb]
      rfl
  | four a b d e he ha hb hd _ _ =>
    simp only [he, List.length_cons, List.length_nil] at hn ⊢
    obtain rfl | rfl | rfl : n = 1 ∨ n = 2 ∨ n = 3 := by omega
    · rw [List.take_succ_cons, List.take_zero, decode_cons, lead_four ha]
      rfl
    · simp only [List.take_succ_cons, List.take_zero]
      rw [decode_cons, lead_four ha, List.nil_append, decodeFrom_tail_more hb]
      rfl
    · simp only [List.take_succ_cons, List.take_zero]
      rw [decode_cons, lead_four ha, List.nil_append, decodeFrom_tail_more hb,
        decodeFrom_tail_more hd.range]
      rfl

theorem cont_tail (c : Char) : ∀ b ∈ (String.utf8EncodeChar c).tail, Cont b := by
  cases shape c with
  | one a he _ _ => simp [he]
  | two a b he _ hb _ => simpa [he] using hb
  | three a b d he _ hb hd _ =>
    have hb' : Cont b := by
      obtain ⟨h1, h2⟩ := hb
      constructor <;> split_ifs at h1 h2 <;> omega
    simp [he, hb', hd]
  | four a b d e he _ hb hd hx _ =>
    have hb' : Cont b := by
      obtain ⟨h1, h2⟩ := hb
      constructor <;> split_ifs at h1 h2 <;> omega
    simp [he, hb', hd, hx]

theorem decode_conts (w : List UInt8) (hw : ∀ b ∈ w, Cont b) (bs : List UInt8) :
    decode (w ++ bs) = List.replicate w.length replacement ++ decode bs := by
  induction w with
  | nil => rfl
  | cons b w ih =>
    have hb := hw b (by simp)
    have hr : 0x80 ≤ b.toNat ∧ b.toNat < 0xC2 := ⟨hb.1, by have := hb.2; omega⟩
    rw [List.cons_append, decode_cons, lead_cont hr, decodeFrom_start,
      ih fun d hd => hw d (by simp [hd])]
    rfl

theorem conts_of_cut {c : Char} {w v : List UInt8} (h : String.utf8EncodeChar c = w ++ v)
    (hw : w ≠ []) : ∀ b ∈ v, Cont b := by
  intro b hb
  apply cont_tail c
  rw [h, List.tail_append_of_ne_nil hw]
  simp [hb]

theorem encodeChar_ne_nil (c : Char) : String.utf8EncodeChar c ≠ [] := by
  cases shape c <;> simp_all

/-! ## ASCII -/

/-- The bytes that are due are none of ASCII, and whatever they are the character will be none of it either. -/
def State.Sound : State → Prop
  | .start => True
  | .tail owed lo hi bits => 0x80 ≤ lo ∧ hi ≤ 0xBF ∧
      ∀ n, (bits * 0x40 + (lo - 0x80)) * 0x40 ^ owed ≤ n → n < (bits * 0x40 + (hi - 0x80) + 1) * 0x40 ^ owed →
        0x80 ≤ n ∧ n.isValidChar

theorem sound_lead (b : ℕ) : (lead b).2.Sound := by
  unfold lead
  split_ifs
  all_goals simp only [State.Sound, Nat.isValidChar]
  all_goals refine ⟨by decide, by decide, fun n h₁ h₂ => ?_⟩
  all_goals omega

theorem not_ascii_lead {b : ℕ} (hb : 0x80 ≤ b) : ∀ c ∈ (lead b).1, 0x80 ≤ c.toNat := by
  have hnot : ¬ b < 0x80 := by omega
  unfold lead
  rw [if_neg hnot]
  split_ifs <;> simp [replacement]

theorem sound_feed {s : State} (h : s.Sound) (b : ℕ) : (feed s b).2.Sound := by
  cases s with
  | start => exact sound_lead b
  | tail owed lo hi bits =>
    by_cases hb : lo ≤ b ∧ b ≤ hi
    · cases owed with
      | zero =>
        simp only [feed, hb, and_self, if_true]
        trivial
      | succ n =>
        obtain ⟨hlo, hhi, hall⟩ := h
        simp only [feed, hb, and_self, if_true]
        refine ⟨Nat.le_refl _, Nat.le_refl _, fun k h₁ h₂ => hall k (Nat.le_trans ?_ h₁) (Nat.lt_of_lt_of_le h₂ ?_)⟩
        · rw [Nat.pow_succ, ← Nat.mul_assoc, Nat.mul_right_comm]
          exact Nat.mul_le_mul_right _ (by omega)
        · rw [Nat.pow_succ, ← Nat.mul_assoc, Nat.mul_right_comm _ (0x40 ^ n)]
          exact Nat.mul_le_mul_right _ (by omega)
    · simp only [feed, hb, if_false]
      exact sound_lead b

theorem toNat_ofNat {n : ℕ} (h : n.isValidChar) : (Char.ofNat n).toNat = n := by
  rw [Char.ofNat, dif_pos h]
  rfl

theorem not_ascii_feed {s : State} (h : s.Sound) {b : ℕ} (hb : 0x80 ≤ b) : ∀ c ∈ (feed s b).1, 0x80 ≤ c.toNat := by
  cases s with
  | start => exact not_ascii_lead hb
  | tail owed lo hi bits =>
    by_cases hin : lo ≤ b ∧ b ≤ hi
    · cases owed with
      | zero =>
        obtain ⟨hlo, hhi, hall⟩ := h
        obtain ⟨hlow, hvalid⟩ := hall (bits * 0x40 + b % 0x40) (by omega) (by omega)
        simp only [feed, hin, and_self, if_true, List.mem_singleton, forall_eq]
        rwa [toNat_ofNat hvalid]
      | succ n =>
        simp only [feed, hin, and_self, if_true]
        exact fun c hc => absurd hc List.not_mem_nil
    · simp only [feed, hin, if_false]
      intro c hc
      rcases List.mem_cons.mp hc with rfl | hc
      · decide
      · exact not_ascii_lead hb c hc

theorem decodeFrom_cons (s : State) (b : UInt8) (bs : List UInt8) :
    decodeFrom s (b :: bs) = (feed s b.toNat).1 ++ decodeFrom (feed s b.toNat).2 bs := by
  cases s <;> rfl

theorem decodeFrom_ascii {s : State} (h : s.Sound) {c : UInt8} (hc : c.toNat < 0x80) (a bs : List UInt8) :
    decodeFrom s (a ++ c :: bs) = decodeFrom s a ++ Char.ofNat c.toNat :: decode bs := by
  induction a generalizing s with
  | nil =>
    rw [List.nil_append, decodeFrom_cons]
    cases s with
    | start =>
      rw [feed, lead_ascii hc]
      rfl
    | tail owed lo hi bits =>
      have hlo : ¬ (lo ≤ c.toNat ∧ c.toNat ≤ hi) := fun hin => by
        have hle : 0x80 ≤ lo := h.1
        omega
      simp only [feed, hlo, if_false, lead_ascii hc]
      rfl
  | cons b a ih =>
    rw [List.cons_append, decodeFrom_cons, decodeFrom_cons, ih (sound_feed h b.toNat), List.append_assoc]

/-- A byte of ASCII stands for itself, whatever stands before it. -/
theorem decode_ascii {c : UInt8} (hc : c.toNat < 0x80) (a bs : List UInt8) :
    decode (a ++ c :: bs) = decode a ++ Char.ofNat c.toNat :: decode bs :=
  decodeFrom_ascii (s := .start) trivial hc a bs

/-! ## Cutting an encoded text -/

theorem encode_prefix {s t : List Char} {r : List UInt8} (h : encode s ++ r = encode t) :
    ∃ u, t = s ++ u ∧ r = encode u := by
  have ht : t = s ++ decode r := by rw [← decode_encode_append, h, decode_encode]
  refine ⟨decode r, ht, ?_⟩
  rw [ht, encode_append] at h
  exact List.append_cancel_left h

theorem encode_split {t : List Char} {u v : List UInt8} (h : encode t = u ++ v) :
    (∃ t₁ t₂, t = t₁ ++ t₂ ∧ u = encode t₁ ∧ v = encode t₂) ∨
    (∃ t₁ c t₂ w x, t = t₁ ++ c :: t₂ ∧ String.utf8EncodeChar c = w ++ x ∧ w ≠ [] ∧ x ≠ [] ∧
      u = encode t₁ ++ w ∧ v = x ++ encode t₂) := by
  induction t generalizing u with
  | nil =>
    obtain ⟨rfl, rfl⟩ := List.append_eq_nil_iff.mp h.symm
    exact .inl ⟨[], [], rfl, rfl, rfl⟩
  | cons c t ih =>
    rw [encode_cons] at h
    rcases List.append_eq_append_iff.mp h with ⟨u', rfl, h'⟩ | ⟨x, hx, rfl⟩
    · -- the first character lies before the cut
      rcases ih h' with ⟨t₁, t₂, rfl, rfl, rfl⟩ | ⟨t₁, d, t₂, w, x, rfl, hd, hw, hx, rfl, rfl⟩
      · exact .inl ⟨c :: t₁, t₂, rfl, rfl, rfl⟩
      · exact .inr ⟨c :: t₁, d, t₂, w, x, rfl, hd, hw, hx, by simp, rfl⟩
    · by_cases hu : u = []
      · subst hu
        exact .inl ⟨[], c :: t, rfl, rfl, by rw [encode_cons, hx, List.nil_append]⟩
      by_cases hx' : x = []
      · subst hx'
        exact .inl ⟨[c], t, rfl, by simp [hx], rfl⟩
      · exact .inr ⟨[], c, t, u, x, rfl, hx, hu, hx', rfl, rfl⟩

theorem encode_injective : Function.Injective encode := fun t u h => by
  rw [← decode_encode t, h, decode_encode]

end Utf8
