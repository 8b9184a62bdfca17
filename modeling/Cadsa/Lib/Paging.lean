import Mathlib.Data.List.Basic
import Mathlib.Data.List.Forall2
import Mathlib.Data.List.Nodup
import Mathlib.Data.List.Perm.Basic
import Mathlib.Data.List.Sort
import Mathlib.Order.Lattice

/-! Pages of an ordered result. A query that orders its rows by a key may put rows of one key in any order,
and may do so anew at each query. Pages that are cut from the results of several queries make up the whole
just where no two rows of one key stand on the two sides of a page boundary. -/
namespace Paging
set_option autoImplicit false

variable {ρ κ : Type} [LinearOrder κ] (key : ρ → κ)

/-- A result of the rows, ordered by the key. -/
structure Ordered (rows order : List ρ) : Prop where
  perm : order.Perm rows
  sorted : order.Pairwise fun a b => key a ≤ key b

/-- `LIMIT limit OFFSET k * limit`. -/
def page (limit k : ℕ) (order : List ρ) : List ρ := (order.drop (k * limit)).take limit

/-- The first pages, each of them of a result of its own. -/
def pages (limit n : ℕ) (choice : ℕ → List ρ) : List ρ := (List.range n).flatMap fun k => page limit k (choice k)

def sortedKeys (rows : List ρ) : List κ := (rows.map key).mergeSort

/-- On the two sides of a page boundary stand different keys. -/
def Separated (limit : ℕ) (rows : List ρ) : Prop :=
  ∀ k, 0 < k → k * limit < rows.length → (sortedKeys key rows)[k * limit - 1]? ≠ (sortedKeys key rows)[k * limit]?

section
variable {key} {rows order other : List ρ} {limit n : ℕ}

theorem ordered_mergeSort (rows : List ρ) : Ordered key rows (rows.mergeSort fun a b => key a ≤ key b) where
  perm := List.mergeSort_perm ..
  sorted := by
    have h := @List.pairwise_mergeSort ρ (fun a b => decide (key a ≤ key b)) (by simpa using fun a b c => le_trans)
      (by simpa using fun a b => le_total (key a) (key b)) rows
    simpa using h

theorem Ordered.keys (h : Ordered key rows order) : order.map key = sortedKeys key rows := by
  have hperm : (order.map key).Perm (sortedKeys key rows) := (h.perm.map key).trans (List.mergeSort_perm ..).symm
  refine hperm.eq_of_pairwise' (List.pairwise_map.mpr h.sorted) ?_
  exact List.pairwise_mergeSort' (· ≤ ·) (rows.map key)

theorem Ordered.length (h : Ordered key rows order) : order.length = rows.length := h.perm.length_eq

/-- What comes before a change of the key are the rows of smaller keys. -/
theorem take_eq_filter {p : ℕ} {b : ρ} (h : Ordered key rows order) (hb : order[p]? = some b)
    (hlt : ∀ a ∈ order.take p, key a < key b) : order.take p = order.filter fun a => key a < key b := by
  have hsplit := List.take_append_drop p order
  have hdrop : ∀ a ∈ order.drop p, ¬ key a < key b := by
    intro a ha
    obtain ⟨i, hi⟩ := List.mem_iff_getElem?.mp ha
    rw [List.getElem?_drop] at hi
    cases i with
    | zero =>
      rw [Nat.add_zero, hb] at hi
      cases hi
      exact lt_irrefl _
    | succ i =>
      obtain ⟨hplt, hpeq⟩ := List.getElem?_eq_some_iff.mp hb
      obtain ⟨hilt, hieq⟩ := List.getElem?_eq_some_iff.mp hi
      have hle := List.pairwise_iff_getElem.mp h.sorted p (p + (i + 1)) hplt hilt (by omega)
      rw [hpeq, hieq] at hle
      exact not_lt.mpr hle
  have htake : (order.take p).filter (fun a => key a < key b) = order.take p :=
    List.filter_eq_self.mpr fun a ha => decide_eq_true (hlt a ha)
  have hnone : (order.drop p).filter (fun a => key a < key b) = [] :=
    List.filter_eq_nil_iff.mpr fun a ha => by simpa using hdrop a ha
  calc order.take p = (order.take p).filter (fun a => key a < key b) ++ (order.drop p).filter (fun a => key a < key b) := by
        rw [htake, hnone, List.append_nil]
    _ = order.filter fun a => key a < key b := by rw [← List.filter_append, hsplit]

theorem lt_of_changed {p : ℕ} {b : ρ} (h : Ordered key rows order) (hp : 0 < p) (hb : order[p]? = some b)
    (hne : (sortedKeys key rows)[p - 1]? ≠ (sortedKeys key rows)[p]?) : ∀ a ∈ order.take p, key a < key b := by
  obtain ⟨hplt, hpeq⟩ := List.getElem?_eq_some_iff.mp hb
  have hlast : p - 1 < order.length := by omega
  have hchanged : key order[p - 1] ≠ key b := by
    intro he
    rw [← h.keys, List.getElem?_map, List.getElem?_map, hb, List.getElem?_eq_getElem hlast] at hne
    exact hne (congrArg some he)
  have hstep : key order[p - 1] < key b := by
    refine lt_of_le_of_ne ?_ hchanged
    rw [← hpeq]
    exact List.pairwise_iff_getElem.mp h.sorted (p - 1) p hlast hplt (by omega)
  intro a ha
  obtain ⟨i, hi⟩ := List.mem_iff_getElem?.mp ha
  obtain ⟨hilt, hieq⟩ := List.getElem?_eq_some_iff.mp hi
  rw [List.getElem_take] at hieq
  rw [List.length_take] at hilt
  have hle : key a ≤ key order[p - 1] := by
    rcases Nat.lt_or_ge i (p - 1) with hlt | hge
    · rw [← hieq]
      exact List.pairwise_iff_getElem.mp h.sorted i (p - 1) (by omega) hlast hlt
    · have heq : i = p - 1 := by omega
      subst heq
      exact (congrArg key hieq).ge
  exact hle.trans_lt hstep

/-- Up to a boundary at which the key changes every result has the same rows. -/
theorem take_perm {p : ℕ} (ho : Ordered key rows order) (ho' : Ordered key rows other)
    (hne : 0 < p → p < rows.length → (sortedKeys key rows)[p - 1]? ≠ (sortedKeys key rows)[p]?) :
    (order.take p).Perm (other.take p) := by
  rcases Nat.eq_zero_or_pos p with rfl | hp
  · exact List.Perm.refl _
  rcases Nat.lt_or_ge p rows.length with hlt | hge
  · obtain ⟨b, hb⟩ : ∃ b, order[p]? = some b := ⟨_, List.getElem?_eq_getElem (ho.length.symm ▸ hlt)⟩
    obtain ⟨b', hb'⟩ : ∃ b', other[p]? = some b' := ⟨_, List.getElem?_eq_getElem (ho'.length.symm ▸ hlt)⟩
    have hkey : key b = key b' := by
      have hkeys := congrArg (·[p]?) (ho.keys.trans ho'.keys.symm)
      simp only [List.getElem?_map, hb, hb'] at hkeys
      exact Option.some.inj hkeys
    rw [take_eq_filter ho hb (lt_of_changed ho hp hb (hne hp hlt)),
      take_eq_filter ho' hb' (lt_of_changed ho' hp hb' (hne hp hlt)), hkey]
    exact (ho.perm.trans ho'.perm.symm).filter _
  · rw [List.take_of_length_le (ho.length.symm ▸ hge), List.take_of_length_le (ho'.length.symm ▸ hge)]
    exact ho.perm.trans ho'.perm.symm

theorem take_succ_page (k : ℕ) (order : List ρ) :
    order.take ((k + 1) * limit) = order.take (k * limit) ++ page limit k order := by
  rw [Nat.succ_mul, List.take_add, page]

theorem page_perm {k : ℕ} (hs : Separated key limit rows) (ho : Ordered key rows order) (ho' : Ordered key rows other) :
    (page limit k order).Perm (page limit k other) := by
  have hbefore : (order.take (k * limit)).Perm (other.take (k * limit)) :=
    take_perm ho ho' fun hp hlt => hs k (Nat.pos_of_mul_pos_right hp) hlt
  have hafter : (order.take ((k + 1) * limit)).Perm (other.take ((k + 1) * limit)) :=
    take_perm ho ho' fun _ hlt => hs (k + 1) (Nat.succ_pos k) hlt
  rw [take_succ_page, take_succ_page] at hafter
  exact (List.perm_append_left_iff _).mp (hafter.trans (hbefore.symm.append_right _))

theorem pages_const (order : List ρ) (n : ℕ) : pages limit n (fun _ => order) = order.take (n * limit) := by
  induction n with
  | zero =>
    rw [Nat.zero_mul]
    rfl
  | succ n ih =>
    rw [take_succ_page, ← ih, pages, List.range_succ, List.flatMap_append, List.flatMap_singleton]
    rfl

/-- Separated pages make up the rows, whatever the results they are cut from. -/
theorem pages_perm (hs : Separated key limit rows) (hn : rows.length ≤ n * limit) {choice : ℕ → List ρ}
    (hc : ∀ k, Ordered key rows (choice k)) : (pages limit n choice).Perm rows := by
  have ho := @ordered_mergeSort ρ κ _ key rows
  have hsame : (pages limit n choice).Perm (pages limit n fun _ => rows.mergeSort fun a b => key a ≤ key b) :=
    List.Perm.flatMap_left _ fun k _ => page_perm hs (hc k) ho
  rw [pages_const, List.take_of_length_le (ho.length.symm ▸ hn)] at hsame
  exact hsame.trans ho.perm

/-- A key that no two rows share separates the pages. -/
theorem separated_of_injective (hl : 0 < limit) (h : (rows.map key).Nodup) : Separated key limit rows := by
  intro k hk hlt hsame
  have hkeys : (sortedKeys key rows).Nodup := (List.mergeSort_perm ..).nodup_iff.mpr h
  have hlen : (sortedKeys key rows).length = rows.length := by rw [sortedKeys, List.length_mergeSort, List.length_map]
  have hpos := Nat.mul_pos hk hl
  have hindex := (List.getElem?_inj (by omega) hkeys).mp hsame
  omega

theorem sortedKeys_replicate {k : κ} (h : ∀ r ∈ rows, key r = k) : sortedKeys key rows = List.replicate rows.length k := by
  have hkeys : rows.map key = List.replicate rows.length k := List.map_eq_replicate_iff.mpr h
  rw [sortedKeys, hkeys]
  exact List.perm_replicate.mp (List.mergeSort_perm ..)

/-! ## Pages that are not separated -/

/-- A result with two neighbours of one key the other way round. -/
theorem Ordered.swap {before after : List ρ} {a b : ρ} (h : Ordered key rows (before ++ a :: b :: after))
    (hkey : key a = key b) : Ordered key rows (before ++ b :: a :: after) where
  perm := ((List.Perm.swap a b after).append_left before).trans h.perm
  sorted := by
    obtain ⟨hbefore, hrest, hacross⟩ := List.pairwise_append.mp h.sorted
    obtain ⟨ha, hb⟩ := List.pairwise_cons.mp hrest
    obtain ⟨hb, hafter⟩ := List.pairwise_cons.mp hb
    refine List.pairwise_append.mpr ⟨hbefore, List.pairwise_cons.mpr ⟨?_, List.pairwise_cons.mpr ⟨?_, hafter⟩⟩, ?_⟩
    · intro c hc
      rcases List.mem_cons.mp hc with rfl | hc
      · exact hkey.ge
      · exact hb c hc
    · intro c hc
      exact ha c (List.mem_cons_of_mem _ hc)
    · intro c hc d hd
      refine hacross c hc d ?_
      simp only [List.mem_cons] at hd ⊢
      tauto

/-- The last row of one page and the first of the next, where both are one row. -/
theorem mem_pages_twice {k p : ℕ} {a : ρ} (hp : p + 1 = (k + 1) * limit) (hl : 0 < limit) (hlast : order[p]? = some a)
    (hfirst : other[p + 1]? = some a) : a ∈ page limit k order ∧ a ∈ page limit (k + 1) other := by
  have hk := Nat.add_one_mul k limit
  constructor
  · refine List.mem_of_getElem? (i := p - k * limit) ?_
    rw [page, List.getElem?_take_of_lt (by omega), List.getElem?_drop, Nat.add_sub_cancel' (by omega), hlast]
  · refine List.mem_of_getElem? (i := 0) ?_
    rw [page, List.getElem?_take_of_lt hl, List.getElem?_drop, ← hp, Nat.add_zero, hfirst]

/-- Two neighbours of one key change places in another result. -/
theorem exists_swapped {p : ℕ} {a b : ρ} (ho : Ordered key rows order) (ha : order[p]? = some a)
    (hb : order[p + 1]? = some b) (hkey : key a = key b) : ∃ other, Ordered key rows other ∧ other[p + 1]? = some a := by
  obtain ⟨hp, rfl⟩ := List.getElem?_eq_some_iff.mp ha
  obtain ⟨hp1, rfl⟩ := List.getElem?_eq_some_iff.mp hb
  have hcut : order = order.take p ++ order[p] :: order[p + 1] :: order.drop (p + 2) := by
    rw [List.getElem_cons_drop, List.getElem_cons_drop, List.take_append_drop]
  refine ⟨order.take p ++ order[p + 1] :: order[p] :: order.drop (p + 2), Ordered.swap (hcut ▸ ho) hkey, ?_⟩
  have htake : (order.take p).length = p := List.length_take_of_le (by omega)
  rw [List.getElem?_append_right (by omega), htake]
  simp

theorem page_disjoint {choice : ℕ → List ρ} {k : ℕ} (h : (pages limit n choice).Nodup) (hk : k + 1 < n) :
    (page limit k (choice k)).Disjoint (page limit (k + 1) (choice (k + 1))) := by
  have hdisjoint := List.pairwise_iff_getElem.mp (List.nodup_flatMap.mp h).2 k (k + 1)
    (by rw [List.length_range]; omega) (by rw [List.length_range]; omega) (Nat.lt_succ_self k)
  rwa [List.getElem_range, List.getElem_range] at hdisjoint

/-- If no choice of results shows a row twice, the pages are separated. -/
theorem separated_of_nodup (hl : 0 < limit) (hn : rows.length ≤ n * limit)
    (h : ∀ choice : ℕ → List ρ, (∀ k, Ordered key rows (choice k)) → (pages limit n choice).Nodup) :
    Separated key limit rows := by
  intro j hj hlt hsame
  obtain ⟨k, rfl⟩ : ∃ k, j = k + 1 := ⟨j - 1, by omega⟩
  obtain ⟨p, hp⟩ : ∃ p, (k + 1) * limit = p + 1 := ⟨_, (Nat.sub_add_cancel (Nat.mul_pos hj hl)).symm⟩
  rw [hp] at hlt
  rw [hp, Nat.add_sub_cancel] at hsame
  have ho := @ordered_mergeSort ρ κ _ key rows
  generalize (rows.mergeSort fun a b => key a ≤ key b) = order at ho
  have hlen := ho.length
  -- the two rows next to the boundary, and the result in which they change places
  have ha : order[p]? = some order[p] := List.getElem?_eq_getElem (by omega)
  have hb : order[p + 1]? = some order[p + 1] := List.getElem?_eq_getElem (by omega)
  have hkey : key order[p] = key order[p + 1] := by
    rw [← ho.keys, List.getElem?_map, List.getElem?_map, ha, hb] at hsame
    exact Option.some.inj hsame
  obtain ⟨other, hswapped, hfirst⟩ := exists_swapped ho ha hb hkey
  have hnodup := h (fun i => if i ≤ k then order else other) fun i => by
    split_ifs
    · exact ho
    · exact hswapped
  have hmem := mem_pages_twice hp.symm hl ha hfirst
  have hkn : k + 1 < n := by
    by_contra hge
    have hle := Nat.mul_le_mul_right limit (Nat.not_lt.mp hge)
    omega
  have hdisjoint := page_disjoint hnodup hkn
  rw [if_pos le_rfl, if_neg (Nat.not_succ_le_self k)] at hdisjoint
  exact hdisjoint hmem.1 hmem.2

end

/-! ## Two lists sorted alike -/

section
variable {α β : Type} {R : α → β → Prop} {r : α → α → Prop} {s : β → β → Prop} [DecidableRel r] [DecidableRel s]

/-- Lists of related entries, sorted by orders that agree on these, are lists of related entries. -/
theorem forall₂_insertionSort (hrs : ∀ {a b c d}, R a c → R b d → (r a b ↔ s c d)) {as : List α} {bs : List β}
    (h : List.Forall₂ R as bs) : List.Forall₂ R (as.insertionSort r) (bs.insertionSort s) := by
  obtain ⟨hlength, hzip⟩ := List.forall₂_iff_zip.mp h
  let pairs := (as.zip bs).insertionSort fun x y => r x.1 y.1
  have hfst : pairs.map Prod.fst = as.insertionSort r := by
    rw [List.map_insertionSort _ r Prod.fst _ fun _ _ _ _ => Iff.rfl, List.map_fst_zip hlength.le]
  have hsnd : pairs.map Prod.snd = bs.insertionSort s := by
    rw [List.map_insertionSort _ s Prod.snd _ fun x hx y hy => hrs (hzip hx) (hzip hy), List.map_snd_zip hlength.ge]
  rw [← hfst, ← hsnd, List.forall₂_map_left_iff, List.forall₂_map_right_iff, List.forall₂_same]
  intro x hx
  exact hzip ((List.mem_insertionSort _).mp hx)

end

/-! ## The orders of a database -/

/-- How a database orders the rows for one query. -/
structure OrderBy where
  run : List ρ → List ρ
  ordered : ∀ rows, Ordered key rows (run rows)

def OrderBy.stable : OrderBy key := ⟨_, fun rows => ordered_mergeSort rows⟩

section
variable {key} {rows order : List ρ}

/-- A result of the database for the rows at hand. -/
def OrderBy.giving [DecidableEq ρ] (h : Ordered key rows order) : OrderBy key where
  run found := if found = rows then order else (OrderBy.stable key).run found
  ordered found := by
    split_ifs with hrows
    · rw [hrows]
      exact h
    · exact (OrderBy.stable key).ordered found

theorem OrderBy.run_giving [DecidableEq ρ] (h : Ordered key rows order) : (OrderBy.giving h).run rows = order :=
  if_pos rfl

/-- `ORDER BY key LIMIT limit`. -/
def OrderBy.first (db : OrderBy key) (limit : Option ℕ) (found : List ρ) : List ρ :=
  match limit with
  | some n => (db.run found).take n
  | none => db.run found

theorem OrderBy.first_sublist (db : OrderBy key) (limit : Option ℕ) (found : List ρ) :
    (db.first limit found).Sublist (db.run found) := by
  cases limit with
  | none => exact List.Sublist.refl _
  | some n => exact List.take_sublist n _

theorem OrderBy.mem_of_first {db : OrderBy key} {limit : Option ℕ} {found : List ρ} {e : ρ}
    (h : e ∈ db.first limit found) :
    e ∈ found := (db.ordered found).perm.mem_iff.mp ((db.first_sublist limit found).subset h)

/-- What is left out comes after what is listed, and there is no room for it. -/
theorem OrderBy.after_first (db : OrderBy key) {limit : Option ℕ} {found : List ρ} {e : ρ} (h : e ∈ found) :
    e ∈ db.first limit found ∨
      limit = some (db.first limit found).length ∧ ∀ a ∈ db.first limit found, key a ≤ key e := by
  have hrun : e ∈ db.run found := (db.ordered found).perm.mem_iff.mpr h
  cases limit with
  | none => exact .inl hrun
  | some n =>
    rw [← List.take_append_drop n (db.run found), List.mem_append] at hrun
    rcases hrun with htaken | hdropped
    · exact .inl htaken
    · have hsorted := (db.ordered found).sorted
      rw [← List.take_append_drop n (db.run found), List.pairwise_append] at hsorted
      have hlong : n ≤ (db.run found).length := by
        have hpos := List.length_pos_of_mem hdropped
        rw [List.length_drop] at hpos
        omega
      exact .inr ⟨congrArg some (List.length_take_of_le hlong).symm, fun a ha => hsorted.2.2 a ha e hdropped⟩

end

end Paging
