import Mathlib.Data.List.Nodup
import Mathlib.Order.OrderDual
import Cadsa.Lib.Grouping
import Cadsa.Lib.Paging

/-! The groups of a column that may be NULL, and the first of them in an order of what each adds up to. Groups that
tie come in any order, so that a list of the first ones is characterised by what it may not leave out. -/
namespace Ranking
open Grouping Paging
set_option autoImplicit false

variable {ρ κ γ ω : Type}

section
variable [DecidableEq κ] (col : ρ → Option κ)

def members (rows : List ρ) (k : κ) : List ρ := rows.filter fun r => col r = some k

def groupKeys (rows : List ρ) : List κ := (rows.filterMap col).dedup

/-- `WHERE col IS NOT NULL … GROUP BY col HAVING keep`, with what is selected of each group. -/
def groups (keep : List ρ → Bool) (aggregate : κ → List ρ → γ) (rows : List ρ) : List γ :=
  ((groupKeys col rows).filter fun k => keep (members col rows k)).map fun k => aggregate k (members col rows k)

end

/-- A list of the first groups: none is there twice, each is that of all its rows, they come in order, and what is left
out comes after all that is there. -/
structure First [DecidableEq κ] [LE ω] (col : ρ → Option κ) (keep : List ρ → Bool) (aggregate : κ → List ρ → γ)
    (name : γ → κ)
    (weight : γ → ω) (limit : Option ℕ) (rows : List ρ) (listed : List γ) : Prop where
  distinct : (listed.map name).Nodup
  each : ∀ e ∈ listed, members col rows (name e) ≠ [] ∧ e = aggregate (name e) (members col rows (name e))
  kept : ∀ e ∈ listed, keep (members col rows (name e)) = true
  ordered : listed.Pairwise fun a b => weight a ≤ weight b
  bounded : ∀ n ∈ limit, listed.length ≤ n
  complete : ∀ k, members col rows k ≠ [] → keep (members col rows k) = true → k ∈ listed.map name ∨
    limit = some listed.length ∧ ∀ e ∈ listed, weight e ≤ weight (aggregate k (members col rows k))

section
variable [DecidableEq κ] {col : ρ → Option κ} {keep : List ρ → Bool} {aggregate : κ → List ρ → γ} {rows : List ρ}

theorem mem_groupKeys {k : κ} : k ∈ groupKeys col rows ↔ members col rows k ≠ [] := by
  rw [groupKeys, List.mem_dedup, List.mem_filterMap, Ne, members, List.filter_eq_nil_iff]
  simp

theorem mem_members {k : κ} {r : ρ} : r ∈ members col rows k ↔ r ∈ rows ∧ col r = some k := by
  rw [members, List.mem_filter, decide_eq_true_iff]

/-- What is summed over the groups is summed over the rows whose column is not NULL. -/
theorem sum_members {M : Type} [AddCommMonoid M] (f : ρ → M) :
    ((groupKeys col rows).map fun k => ((members col rows k).map f).sum).sum =
      ((rows.filter fun r => (col r).isSome).map f).sum := by
  have hnodup : ((groupKeys col rows).map some).Nodup := (List.nodup_dedup _).map (Option.some_injective κ)
  have hkeys : ∀ r ∈ rows.filter fun r => (col r).isSome, col r ∈ (groupKeys col rows).map some := fun r hr => by
    obtain ⟨hmem, hsome⟩ := List.mem_filter.mp hr
    obtain ⟨k, hk⟩ := Option.isSome_iff_exists.mp hsome
    rw [hk]
    exact List.mem_map_of_mem (List.mem_dedup.mpr (List.mem_filterMap.mpr ⟨r, hmem, hk⟩))
  rw [← sum_groups_of_subset f hnodup hkeys, List.map_map]
  refine congrArg List.sum (List.map_congr_left fun k _ => ?_)
  have hgroup : group col (rows.filter fun r => (col r).isSome) (some k) = members col rows k := by
    rw [group, members, List.filter_filter]
    refine List.filter_congr fun r _ => ?_
    by_cases hk : col r = some k
    · simp [hk]
    · simp [hk]
  rw [Function.comp_apply, hgroup]

variable [LinearOrder ω] {weight : γ → ω} {name : γ → κ}

theorem first_spec (hname : ∀ k rs, name (aggregate k rs) = k) (db : OrderBy weight) (limit : Option ℕ) :
    First col keep aggregate name weight limit rows (db.first limit (groups col keep aggregate rows)) := by
  have hfound : ∀ e ∈ db.first limit (groups col keep aggregate rows),
      name e ∈ (groupKeys col rows).filter (fun k => keep (members col rows k)) ∧
        e = aggregate (name e) (members col rows (name e)) := fun e he => by
    obtain ⟨k, hk, rfl⟩ := List.mem_map.mp (db.mem_of_first he)
    rw [hname]
    exact ⟨hk, rfl⟩
  have hnames : (groups col keep aggregate rows).map name = (groupKeys col rows).filter fun k =>
      keep (members col rows k) := by
    rw [groups, List.map_map]
    exact (List.map_congr_left fun k _ => hname k _).trans (List.map_id _)
  have hsub := db.first_sublist limit (groups col keep aggregate rows)
  refine ⟨?_, fun e he => ?_, fun e he => ?_, ?_, ?_, fun k hk hkeep => ?_⟩
  · refine (hsub.map name).nodup (((db.ordered _).perm.map name).nodup_iff.mpr ?_)
    rw [hnames]
    exact (List.nodup_dedup _).filter _
  · exact ⟨mem_groupKeys.mp (List.mem_of_mem_filter (hfound e he).1), (hfound e he).2⟩
  · exact (List.mem_filter.mp (hfound e he).1).2
  · exact (db.ordered _).sorted.sublist hsub
  · intro n hn
    cases hn
    exact List.length_take_le n _
  · have hmem : aggregate k (members col rows k) ∈ groups col keep aggregate rows :=
      List.mem_map_of_mem (List.mem_filter.mpr ⟨mem_groupKeys.mpr hk, hkeep⟩)
    refine (db.after_first hmem).imp_left fun hlisted => ?_
    exact List.mem_map.mpr ⟨_, hlisted, hname k _⟩

/-- What is summed over a whole list is summed over the rows whose column is not NULL. -/
theorem sum_first_none {M : Type} [AddCommMonoid M] (db : OrderBy weight) (number : γ → M) (value : ρ → M)
    (hkeep : ∀ rs, keep rs = true)
    (hnumber : ∀ k, number (aggregate k (members col rows k)) = ((members col rows k).map value).sum) :
    ((db.first none (groups col keep aggregate rows)).map number).sum =
      ((rows.filter fun r => (col r).isSome).map value).sum := by
  have hall : (groupKeys col rows).filter (fun k => keep (members col rows k)) = groupKeys col rows :=
    List.filter_eq_self.mpr fun k _ => hkeep _
  calc ((db.run (groups col keep aggregate rows)).map number).sum
      = ((groups col keep aggregate rows).map number).sum := ((db.ordered _).perm.map number).sum_eq
    _ = ((groupKeys col rows).map fun k => ((members col rows k).map value).sum).sum := by
        rw [groups, hall, List.map_map]
        exact congrArg List.sum (List.map_congr_left fun k _ => hnumber k)
    _ = _ := sum_members value

/-! ## The largest group -/

/-- The value that most rows have, or none where none has one. -/
def Prevails (col : ρ → Option κ) (rows : List ρ) : Option κ → Prop
  | none => ∀ r ∈ rows, col r = none
  | some k => members col rows k ≠ [] ∧ ∀ k', (members col rows k').length ≤ (members col rows k).length

theorem prevails_first {count : γ → ℕ} (db : OrderBy fun e => OrderDual.toDual (count e))
    (hname : ∀ k rs, name (aggregate k rs) = k) (hcount : ∀ k rs, count (aggregate k rs) = rs.length)
    (hkeep : ∀ rs, keep rs = true) :
    Prevails col rows ((db.first (some 1) (groups col keep aggregate rows)).head?.map name) := by
  have hfirst : First col keep aggregate name (fun e => OrderDual.toDual (count e)) (some 1) rows
      (db.first (some 1) (groups col keep aggregate rows)) := first_spec hname db (some 1)
  generalize db.first (some 1) (groups col keep aggregate rows) = listed at hfirst
  cases listed with
  | nil =>
    intro r hr
    cases hk : col r with
    | none => rfl
    | some k =>
      have hmem : members col rows k ≠ [] := List.ne_nil_of_mem (mem_members.mpr ⟨hr, hk⟩)
      rcases hfirst.complete k hmem (hkeep _) with hin | ⟨hfull, -⟩
      · cases hin
      · cases hfull
  | cons e rest =>
    have hrest : rest = [] := by
      have hlength := hfirst.bounded 1 rfl
      exact List.eq_nil_of_length_eq_zero (Nat.le_zero.mp (Nat.le_of_succ_le_succ hlength))
    subst hrest
    obtain ⟨hne, heq⟩ := hfirst.each e List.mem_cons_self
    refine ⟨hne, fun k' => ?_⟩
    by_cases hk' : members col rows k' = []
    · rw [hk']
      exact Nat.zero_le _
    · rcases hfirst.complete k' hk' (hkeep _) with hin | ⟨-, hless⟩
      · rw [List.mem_singleton.mp hin]
      · have hle := OrderDual.toDual_le_toDual.mp (hless e List.mem_cons_self)
        rwa [hcount, heq, hcount] at hle

end

end Ranking
