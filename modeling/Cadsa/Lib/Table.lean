import Mathlib.Data.List.MinMax
import Mathlib.Data.List.Nodup
import Mathlib.Tactic.SplitIfs
import Cadsa.Lib.Slots

/-! Tables with a primary key: rows no two of which have the same key, the lookup by key or by
another column, and the update of the row with a given key. -/
namespace Tables
set_option autoImplicit false

structure Table (κ ρ : Type) (key : ρ → κ) where
  rows : List ρ
  nodup : (rows.map key).Nodup

section
variable {κ ρ : Type} {key : ρ → κ}

def Table.findBy {β : Type} [DecidableEq β] (t : Table κ ρ key) (col : ρ → β) (b : β) : Option ρ :=
  t.rows.find? fun r => col r = b

theorem mem_of_findBy {β : Type} [DecidableEq β] (t : Table κ ρ key) {col : ρ → β} {b : β} {r : ρ}
    (h : t.findBy col b = some r) : r ∈ t.rows := List.mem_of_find?_eq_some h

/-- A new row keeps a column without repetitions where its own value is free. -/
theorem nodup_map_concat {β : Type} {rows : List ρ} {col : ρ → β} {r : ρ} (h : (rows.map col).Nodup)
    (hr : col r ∉ rows.map col) : ((rows ++ [r]).map col).Nodup := by
  rw [List.map_append]
  exact Slots.nodup_concat h hr

variable [DecidableEq κ]

def Table.find (t : Table κ ρ key) (k : κ) : Option ρ := t.findBy key k

def setRow (key : ρ → κ) (k : κ) (f : ρ → ρ) (r : ρ) : ρ := if key r = k then f r else r

theorem map_setRow {γ : Type} {k : κ} {f : ρ → ρ} (col : ρ → γ) (hf : ∀ r, col (f r) = col r) (rows : List ρ) :
    (rows.map (setRow key k f)).map col = rows.map col := by
  rw [List.map_map]
  refine List.map_congr_left fun r _ => ?_
  rw [Function.comp_apply, setRow]
  split_ifs
  · exact hf r
  · rfl

def Table.modify (t : Table κ ρ key) (k : κ) (f : ρ → ρ) (hf : ∀ r, key (f r) = key r) : Table κ ρ key :=
  ⟨t.rows.map (setRow key k f), by rw [map_setRow key hf]; exact t.nodup⟩

/-- A new row whose key is known to be free. -/
def Table.push (t : Table κ ρ key) (r : ρ) (h : key r ∉ t.rows.map key) : Table κ ρ key :=
  ⟨t.rows ++ [r], nodup_map_concat t.nodup h⟩

/-- A new row; nothing where its key is taken. -/
def Table.insert (t : Table κ ρ key) (r : ρ) : Option (Table κ ρ key) :=
  if h : key r ∈ t.rows.map key then none else some (t.push r h)

def Table.delete (t : Table κ ρ key) (k : κ) : Table κ ρ key :=
  ⟨t.rows.filter fun r => key r ≠ k, t.nodup.sublist (List.filter_sublist.map key)⟩

/-- Every row changed, and no key. -/
def Table.update (t : Table κ ρ key) (f : ρ → ρ) (hf : ∀ r, key (f r) = key r) : Table κ ρ key :=
  ⟨t.rows.map f, by
    rw [List.map_map, show key ∘ f = key from funext hf]
    exact t.nodup⟩

variable (t : Table κ ρ key) {k : κ} {f : ρ → ρ} (hf : ∀ r, key (f r) = key r)

theorem rows_modify : (t.modify k f hf).rows = t.rows.map (setRow key k f) := rfl

theorem findBy_modify {β : Type} [DecidableEq β] {col : ρ → β} (hcol : ∀ r, col (f r) = col r) (b : β) :
    (t.modify k f hf).findBy col b = (t.findBy col b).map (setRow key k f) := by
  have hsame : ∀ r, col (setRow key k f r) = col r := by
    intro r
    unfold setRow
    split_ifs
    · exact hcol r
    · rfl
  rw [Table.findBy, Table.findBy, rows_modify, List.find?_map]
  congr 2
  funext r
  simp only [Function.comp_apply, hsame]

theorem find_key {j : κ} {r : ρ} (h : t.find j = some r) : key r = j := by
  have := List.find?_some h
  simpa using this

theorem find_modify (j : κ) : (t.modify k f hf).find j = if j = k then (t.find j).map f else t.find j := by
  rw [Table.find, findBy_modify t hf hf]
  change (t.find j).map (setRow key k f) = _
  cases hr : t.find j with
  | none => simp
  | some r =>
    have hk := find_key t hr
    simp only [Option.map_some, setRow, hk]
    split_ifs <;> rfl

/-- A column that the change leaves alone. -/
theorem map_find_modify {γ : Type} (col : ρ → γ) (hcol : ∀ r, col (f r) = col r) (j : κ) :
    ((t.modify k f hf).find j).map col = (t.find j).map col := by
  rw [find_modify]
  split_ifs
  · rw [Option.map_map]
    exact congrArg (Option.map · (t.find j)) (funext hcol)
  · rfl

theorem find_of_mem {r : ρ} (h : r ∈ t.rows) : t.find (key r) = some r := by
  have hsome : (t.find (key r)).isSome = true := List.find?_isSome.mpr ⟨r, h, by simp⟩
  obtain ⟨q, hq⟩ := Option.isSome_iff_exists.mp hsome
  rw [hq, List.inj_on_of_nodup_map t.nodup (mem_of_findBy t hq) h (find_key t hq)]

theorem find_update (j : κ) : (t.update f hf).find j = (t.find j).map f := by
  rw [Table.find, Table.find, Table.findBy, Table.findBy, Table.update, List.find?_map]
  congr 2
  funext r
  simp only [Function.comp_apply, hf]

theorem find_eq_none {j : κ} (h : j ∉ t.rows.map key) : t.find j = none :=
  List.find?_eq_none.mpr fun r hr => by
    simpa using fun he : key r = j => h (he ▸ List.mem_map_of_mem hr)

theorem insert_eq_none {r : ρ} (h : t.insert r = none) : ∃ q, t.find (key r) = some q := by
  rw [Table.insert] at h
  split_ifs at h with hmem
  obtain ⟨q, hq, hkey⟩ := List.mem_map.mp hmem
  exact ⟨q, hkey ▸ find_of_mem t hq⟩

theorem find_none_of_insert {r : ρ} {t' : Table κ ρ key} (h : t.insert r = some t') : t.find (key r) = none := by
  rw [Table.insert] at h
  split_ifs at h with hmem
  exact find_eq_none t hmem

theorem insert_isSome_iff {r : ρ} : (t.insert r).isSome = true ↔ t.find (key r) = none := by
  constructor
  · intro h
    obtain ⟨t', ht'⟩ := Option.isSome_iff_exists.mp h
    exact find_none_of_insert t ht'
  · intro h
    cases hinsert : t.insert r with
    | none =>
      obtain ⟨q, hq⟩ := insert_eq_none t hinsert
      rw [h] at hq
      cases hq
    | some t' => rfl

theorem find_push {r : ρ} (h : key r ∉ t.rows.map key) (j : κ) :
    (t.push r h).find j = if key r = j then some r else t.find j := by
  rw [Table.find, Table.findBy, Table.push, List.find?_append]
  change (t.find j).or _ = _
  split_ifs with hj
  · subst hj
    rw [find_eq_none t h]
    simp
  · simp [hj]

theorem find_insert {r : ρ} {t' : Table κ ρ key} (h : t.insert r = some t') (j : κ) :
    t'.find j = if key r = j then some r else t.find j := by
  rw [Table.insert] at h
  split_ifs at h with hmem
  cases h
  exact find_push t hmem j

theorem find_delete (j : κ) : (t.delete k).find j = if j = k then none else t.find j := by
  rw [Table.find, Table.findBy, Table.delete, List.find?_filter]
  split_ifs with hj
  · subst hj
    refine List.find?_eq_none.mpr fun r _ => ?_
    simp
  · refine congrArg (List.find? · t.rows) (funext fun r => ?_)
    by_cases hr : key r = j
    · simp [hr, hj]
    · simp [hr]

/-- The rows whose keys meet a condition deleted. -/
def Table.deleteWhere (t : Table κ ρ key) (p : κ → Bool) : Table κ ρ key :=
  ⟨t.rows.filter fun r => !p (key r), t.nodup.sublist (List.filter_sublist.map key)⟩

theorem find_deleteWhere (p : κ → Bool) (j : κ) : (t.deleteWhere p).find j = if p j then none else t.find j := by
  rw [Table.find, Table.findBy, Table.deleteWhere, List.find?_filter]
  split_ifs with hj
  · refine List.find?_eq_none.mpr fun r _ hr => ?_
    simp only [Bool.not_eq_true', decide_eq_true_eq] at hr
    rw [hr.2, hj] at hr
    exact Bool.noConfusion hr.1
  · refine congrArg (List.find? · t.rows) (funext fun r => ?_)
    by_cases hr : key r = j
    · simp [hr, hj]
    · simp [hr]

/-- A row in the place of the one with its key, if there is one. -/
def Table.upsert (t : Table κ ρ key) (r : ρ) : Table κ ρ key :=
  (t.delete (key r)).push r fun h => by
    obtain ⟨q, hq, hkey⟩ := List.mem_map.mp h
    have hne : key q ≠ key r := of_decide_eq_true (List.mem_filter.mp hq).2
    exact hne hkey

theorem find_upsert (r : ρ) (j : κ) : (t.upsert r).find j = if key r = j then some r else t.find j := by
  rw [Table.upsert, find_push, find_delete]
  split_ifs with hr hj
  · rfl
  · exact absurd hj.symm hr
  · rfl

/-- Rows for keys, one after the other. -/
theorem find_foldl_upsert (row : κ → ρ) (hrow : ∀ k, key (row k) = k) (ks : List κ) (j : κ) :
    (ks.foldl (fun t k => t.upsert (row k)) t).find j = if j ∈ ks then some (row j) else t.find j := by
  induction ks generalizing t with
  | nil => rfl
  | cons k ks ih =>
    rw [List.foldl_cons, ih, find_upsert, hrow]
    by_cases hks : j ∈ ks
    · rw [if_pos hks, if_pos (List.mem_cons_of_mem _ hks)]
    · rw [if_neg hks]
      by_cases hk : k = j
      · subst hk
        rw [if_pos rfl, if_pos List.mem_cons_self]
      · rw [if_neg hk, if_neg]
        intro hmem
        rcases List.mem_cons.mp hmem with h | h
        · exact hk h.symm
        · exact hks h

end

/-! ## Keys that count up -/

/-- One more than the greatest key in use. -/
def nextKey (keys : List ℕ) : ℕ := keys.foldr max 0 + 1

theorem nextKey_fresh (keys : List ℕ) : nextKey keys ∉ keys := by
  intro hmem
  have hle : nextKey keys ≤ keys.foldr max 0 := List.le_max_of_le' 0 hmem le_rfl
  exact Nat.not_succ_le_self _ hle

theorem nextKey_le {keys : List ℕ} {n : ℕ} (h : ∀ k ∈ keys, k ≤ n) : nextKey keys ≤ n + 1 := by
  apply Nat.succ_le_succ
  induction keys with
  | nil => exact Nat.zero_le n
  | cons head keys ih =>
    rw [List.forall_mem_cons] at h
    exact Nat.max_le.mpr ⟨h.1, ih h.2⟩

end Tables
