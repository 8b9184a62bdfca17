import Mathlib.Algebra.BigOperators.Group.List.Basic
import Mathlib.Algebra.BigOperators.Group.Finset.Piecewise
import Mathlib.Data.List.Dedup
import Mathlib.Data.List.Sort

/-! Rows grouped by a key, in ascending order of the keys. Every row is in one group, so that a total over
the rows is the sum of the totals over the groups. -/
namespace Grouping
set_option autoImplicit false

variable {α κ : Type}

def keys [LinearOrder κ] (key : α → κ) (rows : List α) : List κ := (rows.map key).dedup.mergeSort

def group [DecidableEq κ] (key : α → κ) (rows : List α) (k : κ) : List α := rows.filter fun r => key r = k

section
variable [DecidableEq κ] {key : α → κ}

/-- Whatever keys there are besides those of the rows. -/
theorem sum_groups_of_subset {M : Type} [AddCommMonoid M] (f : α → M) {rows : List α} {ks : List κ} (hn : ks.Nodup)
    (hks : ∀ r ∈ rows, key r ∈ ks) : (ks.map fun k => ((group key rows k).map f).sum).sum = (rows.map f).sum := by
  rw [← List.sum_toFinset _ hn]
  induction rows with
  | nil => simp [group]
  | cons r rows ih =>
    have hone : ∀ k, ((group key (r :: rows) k).map f).sum =
        (if key r = k then f r else 0) + ((group key rows k).map f).sum := fun k => by
      rw [group, List.filter_cons, group]
      by_cases hk : key r = k <;> simp [hk]
    have hmem : key r ∈ ks.toFinset := List.mem_toFinset.mpr (hks r List.mem_cons_self)
    simp only [hone]
    rw [Finset.sum_add_distrib, ih fun r hr => hks r (List.mem_cons_of_mem _ hr), Finset.sum_ite_eq, if_pos hmem,
      List.map_cons, List.sum_cons]

theorem group_ne_nil {rows : List α} {k : κ} (h : k ∈ rows.map key) : group key rows k ≠ [] := by
  obtain ⟨r, hr, rfl⟩ := List.mem_map.mp h
  exact List.ne_nil_of_mem (List.mem_filter.mpr ⟨hr, decide_eq_true rfl⟩)

end

section
variable [LinearOrder κ] {key : α → κ}

theorem mem_keys {rows : List α} {k : κ} : k ∈ keys key rows ↔ k ∈ rows.map key := by
  rw [keys, List.mem_mergeSort, List.mem_dedup]

theorem keys_nodup (rows : List α) : (keys key rows).Nodup :=
  (List.mergeSort_perm ..).nodup_iff.mpr (List.nodup_dedup _)

theorem keys_ascending (rows : List α) : (keys key rows).Pairwise (· < ·) := by
  have hle : (keys key rows).Pairwise (· ≤ ·) := by
    have h := List.pairwise_mergeSort' (· ≤ ·) (rows.map key).dedup
    exact h
  exact (hle.and (keys_nodup rows)).imp fun h => lt_of_le_of_ne h.1 h.2

theorem sum_groups {M : Type} [AddCommMonoid M] (f : α → M) (rows : List α) :
    ((keys key rows).map fun k => ((group key rows k).map f).sum).sum = (rows.map f).sum :=
  sum_groups_of_subset f (keys_nodup rows) fun _ hr => mem_keys.mpr (List.mem_map_of_mem hr)

end

end Grouping
