import Mathlib.Data.List.Basic

/-! Runs of a transition system whose steps may be disabled: executing a list of actions,
properties of every step taken and of every state visited, and the two induction rules the
safety arguments use. A rule's guard is a condition on the state before a step; an
invariant has to survive the guarded steps only. -/
namespace Runs
set_option autoImplicit false

variable {σ α : Type}

def exec (step : σ → α → Option σ) : σ → List α → Option σ
  | s, [] => some s
  | s, a :: as => (step s a).bind fun s' => exec step s' as

/-- Every step taken satisfies `P`. -/
def Along (step : σ → α → Option σ) (P : σ → α → σ → Prop) : σ → List α → Prop
  | _, [] => True
  | s, a :: as => ∀ s', step s a = some s' → P s a s' ∧ Along step P s' as

/-- Every state visited, the first one included, satisfies `P`. -/
def Visited (step : σ → α → Option σ) (P : σ → Prop) : σ → List α → Prop
  | s, [] => P s
  | s, a :: as => P s ∧ ∀ s', step s a = some s' → Visited step P s' as

variable {step : σ → α → Option σ}

instance decidableAlong (P : σ → α → σ → Prop) [∀ s a s', Decidable (P s a s')] (s : σ) (as : List α) :
    Decidable (Along step P s as) :=
  match as with
  | [] => isTrue trivial
  | a :: as =>
    match h : step s a with
    | none => isTrue fun _ hs => nomatch h.symm.trans hs
    | some m =>
      have := decidableAlong P m as
      decidable_of_iff (P s a m ∧ Along step P m as)
        ⟨fun hm _ hs => Option.some.inj (h.symm.trans hs) ▸ hm, fun hm => hm m h⟩

theorem exec_cons_some {s s' : σ} {a : α} {as : List α} (h : exec step s (a :: as) = some s') :
    ∃ m, step s a = some m ∧ exec step m as = some s' := Option.bind_eq_some_iff.mp h

theorem exec_append (s : σ) (as bs : List α) :
    exec step s (as ++ bs) = (exec step s as).bind fun m => exec step m bs := by
  induction as generalizing s with
  | nil => rfl
  | cons a as ih =>
    simp only [List.cons_append, exec]
    cases step s a with
    | none => rfl
    | some m => exact ih m

theorem exec_append_some {s s' : σ} {as bs : List α} (h : exec step s (as ++ bs) = some s') :
    ∃ m, exec step s as = some m ∧ exec step m bs = some s' := by
  rw [exec_append] at h
  exact Option.bind_eq_some_iff.mp h

theorem Along.mono {P Q : σ → α → σ → Prop} (hPQ : ∀ s a s', step s a = some s' → P s a s' → Q s a s')
    {s : σ} {as : List α} (h : Along step P s as) : Along step Q s as := by
  induction as generalizing s with
  | nil => trivial
  | cons a as ih => exact fun s' hs => ⟨hPQ s a s' hs (h s' hs).1, ih (h s' hs).2⟩

theorem along_of_mem {P : σ → α → σ → Prop} {as : List α} (h : ∀ a ∈ as, ∀ s s', P s a s') (s : σ) :
    Along step P s as := by
  induction as generalizing s with
  | nil => trivial
  | cons a as ih => exact fun s' _ => ⟨h a (by simp) s s', ih (fun b hb => h b (by simp [hb])) s'⟩

theorem along_congr {P Q : σ → α → σ → Prop} (h : ∀ s a s', P s a s' ↔ Q s a s') {s : σ} {as : List α} :
    Along step P s as ↔ Along step Q s as :=
  ⟨Along.mono fun s a s' _ => (h s a s').mp, Along.mono fun s a s' _ => (h s a s').mpr⟩

theorem Along.append {P : σ → α → σ → Prop} {s m : σ} {as bs : List α} (hm : exec step s as = some m)
    (h : Along step P s (as ++ bs)) : Along step P s as ∧ Along step P m bs := by
  induction as generalizing s with
  | nil =>
    cases hm
    exact ⟨trivial, h⟩
  | cons a as ih =>
    obtain ⟨r, hr, hm⟩ := exec_cons_some hm
    refine ⟨fun s' hs => ?_, (ih hm (h r hr).2).2⟩
    obtain rfl : r = s' := Option.some.inj (hr.symm.trans hs)
    exact ⟨(h r hr).1, (ih hm (h r hr).2).1⟩

theorem not_along_concat {P : σ → α → σ → Prop} {s m m' : σ} {as : List α} {a : α}
    (hm : exec step s as = some m) (hs : step m a = some m') (hn : ¬ P m a m') : ¬ Along step P s (as ++ [a]) :=
  fun h => hn ((h.append hm).2 m' hs).1

theorem Along.and {P Q : σ → α → σ → Prop} {s : σ} {as : List α} (h : Along step P s as)
    (h' : Along step Q s as) : Along step (fun s a s' => P s a s' ∧ Q s a s') s as := by
  induction as generalizing s with
  | nil => trivial
  | cons a as ih => exact fun s' hs => ⟨⟨(h s' hs).1, (h' s' hs).1⟩, ih (h s' hs).2 (h' s' hs).2⟩

/-- **Invariant rule.** -/
theorem exec_invariant {Inv : σ → Prop} {Guard : σ → α → Prop}
    (hstep : ∀ s a s', Inv s → Guard s a → step s a = some s' → Inv s') {s s' : σ} {as : List α}
    (h0 : Inv s) (hg : Along step (fun s a _ => Guard s a) s as) (he : exec step s as = some s') : Inv s' := by
  induction as generalizing s with
  | nil =>
    cases he
    exact h0
  | cons a as ih =>
    obtain ⟨m, hm, he⟩ := exec_cons_some he
    obtain ⟨hga, hg⟩ := hg m hm
    exact ih (hstep s a m h0 hga hm) hg he

/-- **Step rule.** What an invariant gives for one step holds of every step of a guarded run. -/
theorem along_of_invariant {Inv : σ → Prop} {Guard : σ → α → Prop} {P : σ → α → σ → Prop}
    (hstep : ∀ s a s', Inv s → Guard s a → step s a = some s' → Inv s' ∧ P s a s') {s : σ} {as : List α}
    (h0 : Inv s) (hg : Along step (fun s a _ => Guard s a) s as) : Along step P s as := by
  induction as generalizing s with
  | nil => trivial
  | cons a as ih =>
    intro s' hs
    obtain ⟨hga, hg⟩ := hg s' hs
    obtain ⟨hi, hp⟩ := hstep s a s' h0 hga hs
    exact ⟨hp, ih hi hg⟩

theorem visited_of_invariant {Inv : σ → Prop} {Guard : σ → α → Prop} {P : σ → Prop}
    (hP : ∀ s, Inv s → P s) (hstep : ∀ s a s', Inv s → Guard s a → step s a = some s' → Inv s')
    {s : σ} {as : List α} (h0 : Inv s) (hg : Along step (fun s a _ => Guard s a) s as) :
    Visited step P s as := by
  induction as generalizing s with
  | nil => exact hP s h0
  | cons a as ih => exact ⟨hP s h0, fun s' hs => ih (hstep s a s' h0 (hg s' hs).1 hs) (hg s' hs).2⟩

theorem Visited.head {P : σ → Prop} {s : σ} {as : List α} (h : Visited step P s as) : P s := by
  cases as with
  | nil => exact h
  | cons a as => exact h.1

/-- **Exact guards.** Among the runs that meet an assumption at every step, a property is kept
by the guarded steps, and by no others. -/
theorem visited_iff_along_of {Inv P : σ → Prop} {Assume Guard : σ → α → Prop}
    (hkeep : ∀ s a s', Inv s → P s → Assume s a → step s a = some s' → Guard s a → Inv s' ∧ P s')
    (hneed : ∀ s a s', Inv s → P s → Assume s a → step s a = some s' → P s' → Guard s a) {s : σ} {as : List α}
    (h0 : Inv s) (hp : P s) (ha : Along step (fun s a _ => Assume s a) s as) :
    Visited step P s as ↔ Along step (fun s a _ => Guard s a) s as := by
  induction as generalizing s with
  | nil => exact ⟨fun _ => trivial, fun _ => hp⟩
  | cons a as ih =>
    constructor
    · rintro ⟨-, hv⟩ s' hs
      obtain ⟨hass, ha⟩ := ha s' hs
      have hg := hneed s a s' h0 hp hass hs (hv s' hs).head
      obtain ⟨hi, hp'⟩ := hkeep s a s' h0 hp hass hs hg
      exact ⟨hg, (ih hi hp' ha).mp (hv s' hs)⟩
    · refine fun hg => ⟨hp, fun s' hs => ?_⟩
      obtain ⟨hass, ha⟩ := ha s' hs
      obtain ⟨hi, hp'⟩ := hkeep s a s' h0 hp hass hs (hg s' hs).1
      exact (ih hi hp' ha).mpr (hg s' hs).2

theorem visited_iff_along {Inv P : σ → Prop} {Guard : σ → α → Prop}
    (hkeep : ∀ s a s', Inv s → P s → step s a = some s' → Guard s a → Inv s' ∧ P s')
    (hneed : ∀ s a s', Inv s → P s → step s a = some s' → P s' → Guard s a) {s : σ} {as : List α}
    (h0 : Inv s) (hp : P s) : Visited step P s as ↔ Along step (fun s a _ => Guard s a) s as :=
  visited_iff_along_of (fun s a s' hi hp (_ : True) hs => hkeep s a s' hi hp hs)
    (fun s a s' hi hp _ hs => hneed s a s' hi hp hs) h0 hp (along_of_mem (fun _ _ _ _ => trivial) s)

theorem Visited.of_exec {P : σ → Prop} {s s' : σ} {as : List α} (h : Visited step P s as)
    (he : exec step s as = some s') : P s' := by
  induction as generalizing s with
  | nil =>
    cases he
    exact h
  | cons a as ih =>
    obtain ⟨m, hm, he⟩ := exec_cons_some he
    exact ih (h.2 m hm) he

end Runs
