import Mathlib.Data.List.Basic
import Mathlib.Data.List.Nodup

/-! Lists as numbered slots: what changing one slot or adding one does to a test of the
others, and lists in which at most one slot passes a test. -/
namespace Slots
set_option autoImplicit false

variable {α : Type}

/-- Slot `i` exists and passes the test. -/
def holds (p : α → Bool) (l : List α) (i : ℕ) : Bool := ((l[i]?).map p).getD false

variable {p : α → Bool} {l : List α} {i j : ℕ}

theorem holds_eq_true : holds p l i = true ↔ ∃ a, l[i]? = some a ∧ p a = true := by
  cases h : l[i]? <;> simp [holds, h]

theorem holds_modify_self {f : α → α} (hf : ∀ a, p (f a) = false) (l : List α) (i : ℕ) :
    holds p (l.modify i f) i = false := by
  cases h : l[i]? <;> simp [holds, h, hf]

theorem holds_modify_ne (f : α → α) (h : i ≠ j) : holds p (l.modify i f) j = holds p l j := by
  simp [holds, h]

theorem holds_append_self (l : List α) (a : α) : holds p (l ++ [a]) l.length = p a := by simp [holds]

theorem holds_append_ne (a : α) (h : i ≠ l.length) : holds p (l ++ [a]) i = holds p l i := by
  simp only [holds, List.getElem?_append]
  split
  · rfl
  · have hi : i - l.length ≠ 0 := by omega
    rw [List.getElem?_eq_none (by omega : l.length ≤ i)]
    simp [hi]

theorem getElem?_append_some {a : α} (h : l[i]? = some a) (m : List α) : (l ++ m)[i]? = some a := by
  rw [List.getElem?_append_left (List.getElem?_eq_some_iff.mp h).1, h]

theorem getElem?_concat_eq_some {a b : α} :
    (l ++ [a])[i]? = some b ↔ l[i]? = some b ∨ i = l.length ∧ a = b := by
  rw [List.getElem?_append]
  split
  · rename_i hi
    simp [show i ≠ l.length by omega]
  · rename_i hi
    rw [List.getElem?_eq_none (by omega : l.length ≤ i), List.getElem?_singleton]
    by_cases he : i = l.length
    · simp [he]
    · simp [he, show i - l.length ≠ 0 by omega]

theorem nodup_concat {a : α} (h : l.Nodup) (ha : a ∉ l) : (l ++ [a]).Nodup :=
  List.nodup_append.mpr ⟨h, List.nodup_singleton a, fun _ hb _ hc he => ha (List.mem_singleton.mp hc ▸ he ▸ hb)⟩

/-- All but one slot fail the test. -/
theorem countP_le_one (i : ℕ) (h : ∀ j, i ≠ j → holds p l j = false) : l.countP p ≤ 1 := by
  induction l generalizing i with
  | nil => simp
  | cons a l ih =>
    cases i with
    | zero =>
      have hl : l.countP p = 0 := by
        refine List.countP_eq_zero.mpr fun b hb => ?_
        obtain ⟨j, hj⟩ := List.mem_iff_getElem?.mp hb
        have := h (j + 1) (by omega)
        simpa [holds, hj] using this
      rw [List.countP_cons, hl]
      split <;> omega
    | succ i =>
      have ha : p a = false := by simpa [holds] using h 0 (by omega)
      have := ih i fun j hj => by simpa [holds] using h (j + 1) (by omega)
      simpa [List.countP_cons, ha] using this

end Slots
