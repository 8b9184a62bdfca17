import Mathlib.Algebra.Group.Nat.Defs
import Mathlib.Data.Nat.Bitwise

/-! Addresses and networks of the two versions of IP. A network is a range of addresses, given by its first
one, in which the bits after the prefix are zero. -/
namespace IpNetworks
set_option autoImplicit false

inductive Version
  | v4
  | v6
  deriving DecidableEq

def Version.width : Version → ℕ
  | .v4 => 32
  | .v6 => 128

/-- How many addresses share a prefix of such a length. -/
def Version.block (v : Version) (prefixLength : ℕ) : ℕ := 2 ^ (v.width - prefixLength)

structure Address where
  version : Version
  number : ℕ
  lt : number < 2 ^ version.width
  deriving DecidableEq

structure Network where
  version : Version
  prefixLength : ℕ
  base : ℕ
  aligned : version.block prefixLength ∣ base
  deriving DecidableEq

/-- The network that an address is in, whatever its other bits. -/
def Address.network (a : Address) (prefixLength : ℕ) : Network where
  version := a.version
  prefixLength := prefixLength
  base := a.number / a.version.block prefixLength * a.version.block prefixLength
  aligned := Nat.dvd_mul_left ..

/-- The bits of the prefix are those of the network. -/
def Network.contains (n : Network) (a : Address) : Bool :=
  a.version = n.version && a.number / n.version.block n.prefixLength * n.version.block n.prefixLength = n.base

theorem block_pos (v : Version) (prefixLength : ℕ) : 0 < v.block prefixLength := Nat.two_pow_pos _

theorem contains_iff {n : Network} {a : Address} : n.contains a = true ↔
    a.version = n.version ∧ n.base ≤ a.number ∧ a.number < n.base + n.version.block n.prefixLength := by
  have hpos := block_pos n.version n.prefixLength
  rw [Network.contains, Bool.and_eq_true, decide_eq_true_iff, decide_eq_true_iff]
  refine and_congr_right fun _ => ?_
  obtain ⟨k, hk⟩ := n.aligned
  generalize n.version.block n.prefixLength = block at hpos hk ⊢
  have hdiv := Nat.div_add_mod a.number block
  have hmod := Nat.mod_lt a.number hpos
  rw [Nat.mul_comm] at hdiv
  constructor
  · intro h
    rw [h] at hdiv
    omega
  · rintro ⟨hle, hlt⟩
    have hquot : a.number / block = k := by
      refine Nat.div_eq_of_lt_le ?_ ?_
      · rw [Nat.mul_comm]
        omega
      · rw [Nat.add_mul, Nat.mul_comm, Nat.one_mul]
        omega
    rw [hquot, hk, Nat.mul_comm]

theorem contains_network (a : Address) (prefixLength : ℕ) : (a.network prefixLength).contains a = true := by
  simp [Network.contains, Address.network]

/-- A network whose prefix is the whole address has no two addresses. -/
theorem eq_of_contains {n : Network} (hwhole : n.prefixLength = n.version.width) {a b : Address}
    (ha : n.contains a = true) (hb : n.contains b = true) : a = b := by
  have hblock : n.version.block n.prefixLength = 1 := by rw [hwhole, Version.block, Nat.sub_self, Nat.pow_zero]
  rw [contains_iff, hblock] at ha hb
  obtain ⟨va, na, hlta⟩ := a
  obtain ⟨vb, nb, hltb⟩ := b
  obtain ⟨hva, hla, hua⟩ := ha
  obtain ⟨hvb, hlb, hub⟩ := hb
  obtain rfl : va = vb := hva.trans hvb.symm
  obtain rfl : na = nb := by
    dsimp only at hla hua hlb hub
    omega
  rfl

/-- The bits of the prefix, counted from the last bit of an address, agree. -/
def Network.SharesPrefix (n : Network) (a : Address) : Prop :=
  ∀ i, n.version.width - n.prefixLength ≤ i → a.number.testBit i = n.base.testBit i

theorem div_two_pow_eq_iff {x y k : ℕ} : x / 2 ^ k = y / 2 ^ k ↔ ∀ i, k ≤ i → x.testBit i = y.testBit i := by
  constructor
  · intro h i hi
    have hbit := congrArg (Nat.testBit · (i - k)) h
    simpa only [Nat.testBit_div_two_pow, Nat.sub_add_cancel hi] using hbit
  · intro h
    apply Nat.eq_of_testBit_eq
    intro i
    rw [Nat.testBit_div_two_pow, Nat.testBit_div_two_pow]
    exact h (i + k) (Nat.le_add_left ..)

theorem contains_iff_sharesPrefix {n : Network} {a : Address} :
    n.contains a = true ↔ a.version = n.version ∧ n.SharesPrefix a := by
  have hbase : n.base / n.version.block n.prefixLength * n.version.block n.prefixLength = n.base :=
    Nat.div_mul_cancel n.aligned
  rw [Network.contains, Bool.and_eq_true, decide_eq_true_iff, decide_eq_true_iff, Network.SharesPrefix,
    ← div_two_pow_eq_iff]
  refine and_congr_right fun _ => ⟨fun h => ?_, fun h => ?_⟩
  · rw [← hbase] at h
    exact Nat.eq_of_mul_eq_mul_right (block_pos n.version n.prefixLength) h
  · rw [Version.block, h]
    exact hbase

end IpNetworks
