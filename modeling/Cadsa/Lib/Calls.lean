import Mathlib.Data.Nat.Notation
import Cadsa.Lib.Runs

/-! Calls that overlap. Each reads the store, decides on what it has read, and then writes; between
its three steps any other call may take its own, and events may change the store. -/
namespace Calls
open Runs
set_option autoImplicit false

/-- What a call does. `α`: its argument, `ρ`: what it reads, `δ`: what it decides, `ο`: what it returns,
`ι`: what a step learns from outside, such as the time. -/
structure Protocol (σ ε ι α ρ δ ο : Type) where
  load : σ → α → ρ
  decide : ι → α → ρ → δ
  commit : ι → α → δ → σ → σ × ο
  event : ε → σ → σ

inductive Phase (ρ δ ο : Type) where
  | ready
  | loaded (row : ρ)
  | decided (row : ρ) (decision : δ)
  | finished (decision : δ) (result : ο)
  deriving DecidableEq

structure Call (α ρ δ ο : Type) where
  arg : α
  phase : Phase ρ δ ο
  deriving DecidableEq

structure System (σ α ρ δ ο : Type) where
  store : σ
  calls : List (Call α ρ δ ο)

inductive Action (ι ε : Type) where
  | call (index : ℕ) (input : ι)
  | event (e : ε)

section
variable {σ ε ι α ρ δ ο : Type} (p : Protocol σ ε ι α ρ δ ο)

def advance (input : ι) (store : σ) (c : Call α ρ δ ο) : Option (σ × Call α ρ δ ο) :=
  match c.phase with
  | .ready => some (store, ⟨c.arg, .loaded (p.load store c.arg)⟩)
  | .loaded row => some (store, ⟨c.arg, .decided row (p.decide input c.arg row)⟩)
  | .decided _ d => some ((p.commit input c.arg d store).1, ⟨c.arg, .finished d (p.commit input c.arg d store).2⟩)
  | .finished _ _ => none

def step (s : System σ α ρ δ ο) : Action ι ε → Option (System σ α ρ δ ο)
  | .call i input =>
    match s.calls[i]? with
    | none => none
    | some c => (advance p input s.store c).map fun r => ⟨r.1, s.calls.set i r.2⟩
  | .event e => some { s with store := p.event e s.store }

def start (store : σ) (args : List α) : System σ α ρ δ ο := ⟨store, args.map fun arg => ⟨arg, .ready⟩⟩

def turn (s : System σ α ρ δ ο) : Action ι ε → Option (Call α ρ δ ο)
  | .call i _ => s.calls[i]?
  | .event _ => none

def alone (input : ι) (store : σ) (arg : α) : σ × ο := p.commit input arg (p.decide input arg (p.load store arg)) store

/-- The four kinds of step, with the calls before and after the one that takes it. -/
inductive Moves (s : System σ α ρ δ ο) : Action ι ε → System σ α ρ δ ο → Prop where
  | event (e : ε) : Moves s (.event e) ⟨p.event e s.store, s.calls⟩
  | load {i : ℕ} {input : ι} {before after : List (Call α ρ δ ο)} {arg : α}
      (hc : s.calls = before ++ ⟨arg, .ready⟩ :: after)
      (ht : turn s (.call i input : Action ι ε) = some ⟨arg, .ready⟩) :
      Moves s (.call i input) ⟨s.store, before ++ ⟨arg, .loaded (p.load s.store arg)⟩ :: after⟩
  | decide {i : ℕ} {input : ι} {before after : List (Call α ρ δ ο)} {arg : α} {row : ρ}
      (hc : s.calls = before ++ ⟨arg, .loaded row⟩ :: after)
      (ht : turn s (.call i input : Action ι ε) = some ⟨arg, .loaded row⟩) :
      Moves s (.call i input) ⟨s.store, before ++ ⟨arg, .decided row (p.decide input arg row)⟩ :: after⟩
  | commit {i : ℕ} {input : ι} {before after : List (Call α ρ δ ο)} {arg : α} {row : ρ} {d : δ}
      (hc : s.calls = before ++ ⟨arg, .decided row d⟩ :: after)
      (ht : turn s (.call i input : Action ι ε) = some ⟨arg, .decided row d⟩) :
      Moves s (.call i input)
        ⟨(p.commit input arg d s.store).1, before ++ ⟨arg, .finished d (p.commit input arg d s.store).2⟩ :: after⟩

theorem moves {s s' : System σ α ρ δ ο} {a : Action ι ε} (h : step p s a = some s') : Moves p s a s' := by
  cases a with
  | event e =>
    cases h
    exact .event e
  | call i input =>
    rw [step] at h
    cases hi : s.calls[i]? with
    | none => simp [hi] at h
    | some c =>
      rw [hi] at h
      obtain ⟨hlt, hget⟩ := List.getElem?_eq_some_iff.mp hi
      have hsplit : ∀ c', s.calls.set i c' = s.calls.take i ++ c' :: s.calls.drop (i + 1) := fun c' =>
        List.set_eq_take_append_cons_drop ▸ if_pos hlt
      have hcalls : s.calls = s.calls.take i ++ c :: s.calls.drop (i + 1) := by
        rw [← hsplit, ← hget, List.set_getElem_self]
      obtain ⟨arg, phase⟩ := c
      obtain ⟨⟨store', c'⟩, hadv, rfl⟩ := Option.map_eq_some_iff.mp h
      simp only [hsplit]
      cases phase with
      | ready =>
        cases hadv
        exact .load hcalls hi
      | loaded row =>
        cases hadv
        exact .decide hcalls hi
      | decided row d =>
        cases hadv
        exact .commit hcalls hi
      | finished d result => cases hadv

theorem mem_replace {before after : List (Call α ρ δ ο)} {c d d' : Call α ρ δ ο} (h : c ∈ before ++ d :: after)
    (hn : c ≠ d) : c ∈ before ++ d' :: after := by
  simp only [List.mem_append, List.mem_cons, hn, false_or] at h ⊢
  exact h.imp_right .inr

theorem mem_insert {before after : List (Call α ρ δ ο)} {c d : Call α ρ δ ο} (h : c ∈ before ++ after) :
    c ∈ before ++ d :: after := by
  simp only [List.mem_append, List.mem_cons] at h ⊢
  exact h.imp_right .inr

theorem mem_of_mem_replace {before after : List (Call α ρ δ ο)} {c d d' : Call α ρ δ ο}
    (h : c ∈ before ++ d' :: after) : c = d' ∨ c ∈ before ++ d :: after := by
  simp only [List.mem_append, List.mem_cons] at h ⊢
  rcases h with h | h | h
  · exact .inr (.inl h)
  · exact .inl h
  · exact .inr (.inr (.inr h))

theorem countP_replace (q : Call α ρ δ ο → Bool) (before after : List (Call α ρ δ ο)) (d d' : Call α ρ δ ο) :
    (before ++ d' :: after).countP q + (q d).toNat = (before ++ d :: after).countP q + (q d').toNat := by
  simp only [List.countP_append, List.countP_cons]
  cases q d <;> cases q d' <;> simp <;> omega

theorem ready_of_mem_start {store : σ} {args : List α} {c : Call α ρ δ ο} (h : c ∈ (start store args).calls) :
    c.phase = .ready := by
  obtain ⟨arg, -, rfl⟩ := List.mem_map.mp h
  rfl

end

end Calls
