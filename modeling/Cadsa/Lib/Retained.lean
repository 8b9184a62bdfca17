import Mathlib.Data.List.Infix
import Mathlib.Order.Lattice

/-! Rows that are deleted by age, beside all the rows that there have been. The rows are numbered in the order
in which they come in, and a deletion looks at those with a number up to the last one at that time. What is
left is a filter of all the rows, and a query for rows that are young enough does not see the difference. -/
namespace Retained
set_option autoImplicit false

variable {ρ τ : Type} [LinearOrder τ] (id : ρ → ℕ) (time : ρ → τ)

/-- Of the rows numbered up to `last`, those before the cutoff go. -/
structure Deletion (τ : Type) where
  cutoff : τ
  last : ℕ

def Deletion.spares (d : Deletion τ) (r : ρ) : Bool := d.last < id r || d.cutoff ≤ time r

/-- What the deletions leave of all the rows. -/
def left (deletions : List (Deletion τ)) (rows : List ρ) : List ρ :=
  rows.filter fun r => deletions.all fun d => d.spares id time r

section
variable {id time} {deletions : List (Deletion τ)} {rows : List ρ}

@[simp] theorem left_nil (rows : List ρ) : left id time [] rows = rows := by simp [left]

theorem left_sublist : (left id time deletions rows).Sublist rows := List.filter_sublist

/-- Rows that come in after the deletions. -/
theorem left_append {more : List ρ} (h : ∀ d ∈ deletions, ∀ r ∈ more, d.last < id r) :
    left id time deletions (rows ++ more) = left id time deletions rows ++ more := by
  have hspared : more.filter (fun r => deletions.all fun d => d.spares id time r) = more := by
    refine List.filter_eq_self.mpr fun r hr => List.all_eq_true.mpr fun d hd => ?_
    simp [Deletion.spares, h d hd r hr]
  rw [left, List.filter_append, hspared]
  rfl

theorem left_delete {cutoff : τ} {last : ℕ} (h : ∀ r ∈ rows, id r ≤ last) :
    left id time (deletions ++ [⟨cutoff, last⟩]) rows = (left id time deletions rows).filter (cutoff ≤ time ·) := by
  rw [left, left, List.filter_filter]
  refine List.filter_congr fun r hr => ?_
  have hold : ¬ last < id r := Nat.not_lt.mpr (h r hr)
  simp [Deletion.spares, hold, Bool.and_comm]

/-- A selection that takes no row from before a cutoff. -/
theorem filter_left {p : ρ → Bool} (h : ∀ r, p r = true → ∀ d ∈ deletions, d.cutoff ≤ time r) :
    (left id time deletions rows).filter p = rows.filter p := by
  rw [left, List.filter_filter]
  refine List.filter_congr fun r _ => ?_
  cases hp : p r with
  | false => rfl
  | true =>
    have hspared : (deletions.all fun d => d.spares id time r) = true := by
      refine List.all_eq_true.mpr fun d hd => ?_
      simp [Deletion.spares, h r hp d hd]
    rw [hspared]
    rfl

end

end Retained
