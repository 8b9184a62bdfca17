import Mathlib.Data.List.DropRight
import Mathlib.Order.Lattice
import Mathlib.Data.List.Infix

/-! Sliding windows over times that do not decrease: a queue of bounded capacity that loses its
oldest entry when it is full, and that is expired from the front. What it holds after a history
of times is a suffix of that history, and its length a count over it. -/
namespace Window
set_option autoImplicit false

variable {τ : Type} [LinearOrder τ]

def push (capacity : ℕ) (window : List τ) (t : τ) : List τ := (window ++ [t]).rtake capacity

def expire (cutoff : τ) (window : List τ) : List τ := window.dropWhile (· < cutoff)

/-- The times of a history from `cutoff` on, as many of the last ones as the queue can hold. -/
def held (capacity : ℕ) (cutoff : τ) (history : List τ) : List τ :=
  (history.filter (cutoff ≤ ·)).rtake capacity

section
variable {α : Type} (n : ℕ) (l m : List α)

theorem rtake_suffix : l.rtake n <:+ l := List.drop_suffix ..

theorem length_rtake : (l.rtake n).length = min n l.length := by
  rw [List.rtake, List.length_drop]
  omega

/-- What is dropped before an append would be dropped after it. -/
theorem rtake_append_rtake : (l.rtake n ++ m).rtake n = (l ++ m).rtake n := by
  obtain ⟨front, hf⟩ := rtake_suffix n l
  have hlen := length_rtake n l
  by_cases hn : n ≤ l.length
  · have hsplit : l ++ m = front ++ (l.rtake n ++ m) := by rw [← List.append_assoc, hf]
    have hdrop : (l ++ m).length - n = front.length + ((l.rtake n ++ m).length - n) := by
      rw [hsplit]
      simp only [List.length_append]
      omega
    have hdropped : (l ++ m).rtake n = (l ++ m).drop (front.length + ((l.rtake n ++ m).length - n)) := by
      rw [← hdrop]
      rfl
    rw [hdropped, hsplit, ← List.drop_drop, List.drop_left]
    rfl
  · have hall : l.rtake n = l := by
      rw [List.rtake, Nat.sub_eq_zero_of_le (by omega), List.drop_zero]
    rw [hall]

end

/-! ## Histories in order -/

theorem filter_of_forall_le {cutoff : τ} {l : List τ} (h : ∀ t ∈ l, cutoff ≤ t) : l.filter (cutoff ≤ ·) = l :=
  List.filter_eq_self.mpr fun t ht => decide_eq_true (h t ht)

/-- What lies before the cutoff is at the front. -/
theorem dropWhile_eq_filter {α : Type} {time : α → τ} {cutoff : τ} {l : List α}
    (h : l.Pairwise fun x y => time x ≤ time y) :
    l.dropWhile (fun x => time x < cutoff) = l.filter fun x => cutoff ≤ time x := by
  induction l with
  | nil => rfl
  | cons x l ih =>
    obtain ⟨hx, hl⟩ := List.pairwise_cons.mp h
    by_cases hlt : time x < cutoff
    · rw [List.dropWhile_cons_of_pos (by simpa using hlt), List.filter_cons_of_neg (by simpa using hlt)]
      exact ih hl
    · have hle : cutoff ≤ time x := le_of_not_gt hlt
      rw [List.dropWhile_cons_of_neg (by simpa using hle)]
      refine (List.filter_eq_self.mpr fun y hy => decide_eq_true ?_).symm
      rcases List.mem_cons.mp hy with rfl | hy
      · exact hle
      · exact hle.trans (hx y hy)

/-- What an earlier cutoff has left is cut to a later one. -/
theorem dropWhile_filter {α : Type} {time : α → τ} {cutoff cutoff' : τ} {l : List α}
    (h : l.Pairwise fun x y => time x ≤ time y) (hle : cutoff ≤ cutoff') :
    (l.filter fun x => cutoff ≤ time x).dropWhile (fun x => time x < cutoff') = l.filter fun x => cutoff' ≤ time x := by
  rw [dropWhile_eq_filter (h.sublist List.filter_sublist), List.filter_filter]
  refine List.filter_congr fun x _ => ?_
  by_cases hx : cutoff' ≤ time x
  · rw [decide_eq_true hx, decide_eq_true (hle.trans hx)]
    rfl
  · rw [decide_eq_false hx, Bool.false_and]

theorem filter_push {α : Type} {time : α → τ} {cutoff : τ} {x : α} (h : cutoff ≤ time x) (l : List α) :
    ((l ++ [x]).filter fun y => cutoff ≤ time y) = (l.filter fun y => cutoff ≤ time y) ++ [x] := by
  have hx : ([x].filter fun y => cutoff ≤ time y) = [x] := List.filter_cons_of_pos (decide_eq_true h)
  rw [List.filter_append, hx]

theorem expire_eq_filter {cutoff : τ} {l : List τ} (h : l.Pairwise (· ≤ ·)) :
    expire cutoff l = l.filter (cutoff ≤ ·) := dropWhile_eq_filter h

/-- A history in order is what lies before the cutoff, and then the rest. -/
theorem filter_lt_append_filter_le {cutoff : τ} {l : List τ} (h : l.Pairwise (· ≤ ·)) :
    l.filter (· < cutoff) ++ l.filter (cutoff ≤ ·) = l := by
  induction l with
  | nil => rfl
  | cons t l ih =>
    obtain ⟨ht, hl⟩ := List.pairwise_cons.mp h
    by_cases hlt : t < cutoff
    · rw [List.filter_cons_of_pos (by simpa using hlt), List.filter_cons_of_neg (by simpa using hlt), List.cons_append,
        ih hl]
    · have hle : cutoff ≤ t := le_of_not_gt hlt
      have hfront : (t :: l).filter (· < cutoff) = [] := by
        refine List.filter_eq_nil_iff.mpr fun u hu => ?_
        rcases List.mem_cons.mp hu with rfl | hu
        · simpa using hle
        · simpa using hle.trans (ht u hu)
      rw [hfront, List.nil_append]
      refine filter_of_forall_le fun u hu => ?_
      rcases List.mem_cons.mp hu with rfl | hu
      · exact hle
      · exact hle.trans (ht u hu)

theorem filter_rtake {cutoff : τ} {l : List τ} (h : l.Pairwise (· ≤ ·)) (n : ℕ) :
    (l.rtake n).filter (cutoff ≤ ·) = (l.filter (cutoff ≤ ·)).rtake n := by
  have hsplit : l.filter (· < cutoff) ++ l.filter (cutoff ≤ ·) = l := filter_lt_append_filter_le h
  generalize hold : l.filter (· < cutoff) = old at hsplit
  generalize hnew : l.filter (cutoff ≤ ·) = new at hsplit
  have hnews : ∀ t ∈ new, cutoff ≤ t := fun t ht => by
    rw [← hnew] at ht
    simpa using (List.mem_filter.mp ht).2
  have holds : ∀ t ∈ old, t < cutoff := fun t ht => by
    rw [← hold] at ht
    simpa using (List.mem_filter.mp ht).2
  rw [← hsplit]
  by_cases hn : n ≤ new.length
  · have hdrop : (old ++ new).rtake n = new.rtake n := by
      rw [List.rtake, List.rtake, List.length_append, Nat.add_sub_assoc hn, List.drop_append]
      simp
    rw [hdrop]
    exact filter_of_forall_le fun t ht => hnews t ((rtake_suffix n new).subset ht)
  · have hdrop : (old ++ new).rtake n = old.drop (old.length + new.length - n) ++ new := by
      rw [List.rtake, List.length_append, List.drop_append]
      congr 1
      rw [Nat.sub_eq_zero_of_le (by omega), List.drop_zero]
    have hall : new.rtake n = new := by
      rw [List.rtake, Nat.sub_eq_zero_of_le (by omega), List.drop_zero]
    rw [hdrop, List.filter_append, filter_of_forall_le hnews, hall]
    have hnone : (old.drop (old.length + new.length - n)).filter (cutoff ≤ ·) = [] :=
      List.filter_eq_nil_iff.mpr fun t ht => by simpa using holds t (List.mem_of_mem_drop ht)
    rw [hnone, List.nil_append]

/-! ## The window against the history -/

section
variable {capacity : ℕ} {cutoff cutoff' : τ} {history : List τ}

theorem held_nil : held capacity cutoff [] = [] := List.rtake_nil capacity

theorem held_of_forall_lt (h : ∀ t ∈ history, t < cutoff) : held capacity cutoff history = [] := by
  have hnone : history.filter (cutoff ≤ ·) = [] := List.filter_eq_nil_iff.mpr fun t ht => by simpa using h t ht
  rw [held, hnone, List.rtake_nil]

theorem length_held : (held capacity cutoff history).length = min capacity (history.countP (cutoff ≤ ·)) := by
  rw [held, length_rtake, List.countP_eq_length_filter]

theorem held_suffix (hs : history.Pairwise (· ≤ ·)) : held capacity cutoff history <:+ history := by
  have hfilter : history.filter (cutoff ≤ ·) <:+ history := ⟨_, filter_lt_append_filter_le hs⟩
  exact (rtake_suffix ..).trans hfilter

theorem le_of_getLast?_held {t u : τ} (hs : history.Pairwise (· ≤ ·))
    (hl : (held capacity cutoff history).getLast? = some t) (hu : u ∈ history) : u ≤ t := by
  obtain ⟨front, hf⟩ : held capacity cutoff history <:+ history := held_suffix hs
  obtain ⟨init, hi⟩ := List.getLast?_eq_some_iff.mp hl
  rw [← hf, hi, ← List.append_assoc] at hs hu
  rcases List.mem_append.mp hu with hu | hu
  · exact (List.pairwise_append.mp hs).2.2 u hu t (List.mem_singleton_self t)
  · exact (List.mem_singleton.mp hu).le

/-- **One step of the window.** The next time is pushed, and the queue is expired to a later cutoff. -/
theorem expire_push_held {t : τ} (hs : (history ++ [t]).Pairwise (· ≤ ·)) (hc : cutoff ≤ cutoff') :
    expire cutoff' (push capacity (held capacity cutoff history) t) = held capacity cutoff' (history ++ [t]) := by
  have hsub : (history.filter (cutoff ≤ ·) ++ [t]).Sublist (history ++ [t]) :=
    List.Sublist.append List.filter_sublist (List.Sublist.refl [t])
  have hfilter : (history.filter (cutoff ≤ ·) ++ [t]).filter (cutoff' ≤ ·) = (history ++ [t]).filter (cutoff' ≤ ·) := by
    rw [List.filter_append, List.filter_append, List.filter_filter]
    congr 1
    refine List.filter_congr fun u _ => ?_
    by_cases hu : cutoff' ≤ u
    · simp [hu, hc.trans hu]
    · simp [hu]
  have hpush : push capacity (held capacity cutoff history) t = (history.filter (cutoff ≤ ·) ++ [t]).rtake capacity :=
    rtake_append_rtake ..
  rw [hpush, expire_eq_filter ((hs.sublist hsub).sublist (rtake_suffix ..).sublist),
    filter_rtake (hs.sublist hsub), hfilter, held]

end

end Window
