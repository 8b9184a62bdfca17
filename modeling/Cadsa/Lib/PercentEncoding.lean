import Cadsa.Lib.Utf8

/-! Percent-encoding: what a text decodes to, and the ways it can be spelled. -/
namespace PercentEncoding
set_option autoImplicit false

def hexValue (c : Char) : Option ℕ :=
  if '0' ≤ c ∧ c ≤ '9' then some (c.toNat - 48)
  else if 'a' ≤ c.toLower ∧ c.toLower ≤ 'f' then some (c.toLower.toNat - 87)
  else none

/-- `%` stands for itself unless two digits follow. -/
def octets : List Char → List UInt8
  | '%' :: h :: l :: s =>
    match hexValue h, hexValue l with
    | some a, some b => UInt8.ofNat (16 * a + b) :: octets s
    | _, _ => String.utf8EncodeChar '%' ++ octets (h :: l :: s)
  | c :: s => String.utf8EncodeChar c ++ octets s
  | [] => []

/-- The text decoded once. -/
def percentDecode (s : String) : List Char := Utf8.decode (octets s.toList)

/-- Each byte as `%XX`, in either case of the digits. -/
inductive Escapes : List UInt8 → List Char → Prop
  | nil : Escapes [] []
  | cons {b : UInt8} {bs : List UInt8} {h l : Char} {s : List Char} : hexValue h = some (b.toNat / 16) →
      hexValue l = some (b.toNat % 16) → Escapes bs s → Escapes (b :: bs) ('%' :: h :: l :: s)

/-- Any of the characters are replaced by their bytes' escapes. -/
inductive Encodes : List Char → List Char → Prop
  | nil : Encodes [] []
  | kept (c : Char) {s t : List Char} : Encodes s t → Encodes (c :: s) (c :: t)
  | replaced {c : Char} {e s t : List Char} : Escapes (String.utf8EncodeChar c) e → Encodes s t → Encodes (c :: s) (e ++ t)

/-! ## Everything replaced -/

def escapeLetters : List Char := "%0123456789abcdef".toList

def escape (b : UInt8) : List Char := ['%', (b.toNat / 16).digitChar, (b.toNat % 16).digitChar]

def encodeAll (s : List Char) : List Char := s.flatMap fun c => (String.utf8EncodeChar c).flatMap escape

theorem digit_facts : ∀ n < 16, hexValue n.digitChar = some n ∧ n.digitChar ∈ escapeLetters := by
  decide

theorem escapes_escape (bs : List UInt8) : Escapes bs (bs.flatMap escape) := by
  induction bs with
  | nil => exact .nil
  | cons b bs ih =>
    have hb := b.toNat_lt
    exact .cons (digit_facts _ (by omega)).1 (digit_facts _ (Nat.mod_lt _ (by decide))).1 ih

theorem encodes_encodeAll (s : List Char) : Encodes s (encodeAll s) := by
  induction s with
  | nil => exact .nil
  | cons c s ih => exact .replaced (escapes_escape _) ih

theorem encodeAll_letters (s : List Char) : encodeAll s ⊆ escapeLetters := by
  intro x hx
  obtain ⟨c, -, hc⟩ := List.mem_flatMap.mp hx
  obtain ⟨b, -, hb⟩ := List.mem_flatMap.mp hc
  have hlt := b.toNat_lt
  simp only [escape, List.mem_cons, List.not_mem_nil, or_false] at hb
  obtain rfl | rfl | rfl := hb
  · decide
  · exact (digit_facts _ (by omega)).2
  · exact (digit_facts _ (Nat.mod_lt _ (by decide))).2

end PercentEncoding
