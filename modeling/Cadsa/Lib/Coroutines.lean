import Mathlib.Data.List.Pairwise
import Mathlib.Data.List.Perm.Basic
import Mathlib.Tactic.SplitIfs
import Cadsa.Lib.Runs
import Cadsa.Lib.Slots

/-! Requests that run as coroutines over one store. Each goes from one await to the next, and any other may go on
in between; a step may enter an event in a log that all of them share. The rule for invariants
has a part for the store and the log, and a part for each task that the steps of the others leave alone. -/
namespace Coroutines
open Runs
set_option autoImplicit false

structure Entry (ε : Type) where
  request : ℕ
  time : ℕ
  event : ε
  deriving DecidableEq

structure Yield (σ τ ε : Type) where
  store : σ
  task : τ
  event : Option ε

/-- `α`: what a request is sent with, `ι`: what a step learns from outside, `ω`: what others do to the store. -/
structure Program (σ τ ε α ι ω : Type) where
  start : α → τ
  resume : ι → ℕ → σ → τ → Option (Yield σ τ ε)
  other : ω → σ → σ

structure System (σ τ ε : Type) where
  clock : ℕ
  store : σ
  tasks : List τ
  log : List (Entry ε)

inductive Act (α ι ω : Type) where
  | arrive (arg : α)
  | resume (request now : ℕ) (input : ι)
  | other (w : ω)

section
variable {σ τ ε α ι ω : Type}

def entries (request now : ℕ) (event : Option ε) : List (Entry ε) := (event.map fun e => ⟨request, now, e⟩).toList

theorem mem_append_entries {log : List (Entry ε)} {request now : ℕ} {event : Option ε} {e : Entry ε} :
    e ∈ log ++ entries request now event ↔ e ∈ log ∨ e.request = request ∧ e.time = now ∧ event = some e.event := by
  rw [List.mem_append, entries, Option.mem_toList, Option.map_eq_some_iff]
  refine or_congr Iff.rfl ⟨?_, ?_⟩
  · rintro ⟨event, rfl, rfl⟩
    exact ⟨rfl, rfl, rfl⟩
  · rintro ⟨rfl, rfl, hevent⟩
    exact ⟨e.event, hevent, rfl⟩

@[simp] theorem append_entries_none (log : List (Entry ε)) (request now : ℕ) :
    log ++ entries request now none = log := List.append_nil log

/-- The requests that have entered an event of a kind, one for each time. -/
def requests (kind : ε → Bool) (log : List (Entry ε)) : List ℕ := (log.filter fun e => kind e.event).map Entry.request

theorem mem_requests {kind : ε → Bool} {log : List (Entry ε)} {i : ℕ} :
    i ∈ requests kind log ↔ ∃ e ∈ log, kind e.event = true ∧ e.request = i := by
  simp only [requests, List.mem_map, List.mem_filter, and_assoc]

theorem not_mem_requests_of_silent {log : List (Entry ε)} {i : ℕ} (h : ∀ e ∈ log, e.request ≠ i) (kind : ε → Bool) :
    i ∉ requests kind log := by
  intro hmem
  obtain ⟨e, he, -, hrequest⟩ := mem_requests.mp hmem
  exact h e he hrequest

theorem requests_append (kind : ε → Bool) (log more : List (Entry ε)) :
    requests kind (log ++ more) = requests kind log ++ requests kind more := by
  rw [requests, List.filter_append, List.map_append]
  rfl

theorem not_mem_requests_entries {kind : ε → Bool} {log : List (Entry ε)} {i j now : ℕ} {event : Option ε}
    (hj : j ∉ requests kind log) (hquiet : j = i → ∀ e ∈ event, kind e = false) :
    j ∉ requests kind (log ++ entries i now event) := by
  rw [mem_requests]
  rintro ⟨e, he, hkind, hrequest⟩
  rcases mem_append_entries.mp he with hold | ⟨hi, -, hevent⟩
  · exact hj (mem_requests.mpr ⟨e, hold, hkind, hrequest⟩)
  · rw [hquiet (hrequest.symm.trans hi) e.event hevent] at hkind
    exact Bool.false_ne_true hkind

theorem nodup_requests_concat {kind : ε → Bool} {log : List (Entry ε)} {e : Entry ε} (h : (requests kind log).Nodup)
    (he : kind e.event = true → e.request ∉ requests kind log) : (requests kind (log ++ [e])).Nodup := by
  rw [requests_append]
  cases hk : kind e.event with
  | false =>
    have hnone : requests kind [e] = [] := by simp [requests, hk]
    rw [hnone, List.append_nil]
    exact h
  | true =>
    have hone : requests kind [e] = [e.request] := by simp [requests, hk]
    rw [hone]
    exact Slots.nodup_concat h (he hk)

theorem eq_of_nodup_filterMap {α β : Type} {f : α → Option β} {l : List α} (h : (l.filterMap f).Nodup) {a a' : α}
    {b : β} (ha : a ∈ l) (ha' : a' ∈ l) (hb : f a = some b) (hb' : f a' = some b) : a = a' := by
  by_contra hne
  have hpairs := List.pairwise_filterMap.mp h
  have : Std.Symm fun x y => ∀ b, f x = some b → ∀ b', f y = some b' → b ≠ b' :=
    ⟨fun x y hxy b hb b' hb' => (hxy b' hb' b hb).symm⟩
  exact hpairs.forall ha ha' hne b hb b hb' rfl

theorem length_requests (kind : ε → Bool) (log : List (Entry ε)) :
    (requests kind log).length = log.countP fun e => kind e.event := by
  rw [requests, List.length_map, List.countP_eq_length_filter]

variable (p : Program σ τ ε α ι ω)

/-- The clock never goes back. -/
def step (s : System σ τ ε) : Act α ι ω → Option (System σ τ ε)
  | .arrive arg => some { s with tasks := s.tasks ++ [p.start arg] }
  | .resume i now input =>
    if s.clock ≤ now then
      (s.tasks[i]?.bind fun task => p.resume input now s.store task).map fun y =>
        ⟨now, y.store, s.tasks.set i y.task, s.log ++ entries i now y.event⟩
    else none
  | .other w => some { s with store := p.other w s.store }

theorem resume_spec {s s' : System σ τ ε} {i now : ℕ} {input : ι} (h : step p s (.resume i now input) = some s') :
    s.clock ≤ now ∧ ∃ task y, s.tasks[i]? = some task ∧ p.resume input now s.store task = some y ∧
      s' = ⟨now, y.store, s.tasks.set i y.task, s.log ++ entries i now y.event⟩ := by
  rw [step] at h
  split_ifs at h with hclock
  obtain ⟨y, hy, rfl⟩ := Option.map_eq_some_iff.mp h
  obtain ⟨task, htask, hresume⟩ := Option.bind_eq_some_iff.mp hy
  exact ⟨hclock, task, y, htask, hresume, rfl⟩

/-- What has to be shown of a program: `Global` of the store and the log, `Local` of each task. `Assume` is
what may be assumed of the log of a run. -/
structure Keeps (Assume : List (Entry ε) → Prop) (Global : ℕ → σ → List (Entry ε) → Prop)
    (Local : List (Entry ε) → ℕ → τ → Prop) : Prop where
  earlier : ∀ log more, Assume (log ++ more) → Assume log
  start : ∀ log i arg, (∀ e ∈ log, e.request ≠ i) → Local log i (p.start arg)
  resume : ∀ clock store log i now input task y, Global clock store log → Local log i task → clock ≤ now →
    p.resume input now store task = some y → Assume (log ++ entries i now y.event) →
    Global now y.store (log ++ entries i now y.event) ∧ Local (log ++ entries i now y.event) i y.task
  frame : ∀ log i now event j task, j ≠ i → Local log j task → Local (log ++ entries i now event) j task
  other : ∀ w clock store log, Global clock store log → Global clock (p.other w store) log

structure Holds (Global : ℕ → σ → List (Entry ε) → Prop) (Local : List (Entry ε) → ℕ → τ → Prop)
    (s : System σ τ ε) : Prop where
  global : Global s.clock s.store s.log
  tasks : ∀ i task, s.tasks[i]? = some task → Local s.log i task
  known : ∀ e ∈ s.log, e.request < s.tasks.length

variable {p} {Assume : List (Entry ε) → Prop} {Global : ℕ → σ → List (Entry ε) → Prop}
  {Local : List (Entry ε) → ℕ → τ → Prop}

theorem Keeps.step (hk : Keeps p Assume Global Local) (s : System σ τ ε) (a : Act α ι ω) (s' : System σ τ ε)
    (hs : Assume s.log → Holds Global Local s) (h : Coroutines.step p s a = some s') (ha : Assume s'.log) :
    Holds Global Local s' := by
  cases a with
  | arrive arg =>
    cases h
    have hs := hs ha
    refine ⟨hs.global, fun i task htask => ?_, fun e he => ?_⟩
    · rcases Slots.getElem?_concat_eq_some.mp htask with hold | ⟨rfl, rfl⟩
      · exact hs.tasks i task hold
      · exact hk.start _ _ arg fun e he => Nat.ne_of_lt (hs.known e he)
    · rw [List.length_append]
      exact Nat.lt_of_lt_of_le (hs.known e he) (Nat.le_add_right ..)
  | resume i now input =>
    obtain ⟨hclock, task, y, htask, hresume, rfl⟩ := resume_spec p h
    have hs := hs (hk.earlier _ _ ha)
    obtain ⟨hglobal, hlocal⟩ := hk.resume _ _ _ i now input task y hs.global (hs.tasks i task htask) hclock hresume ha
    refine ⟨hglobal, fun j other hother => ?_, fun e he => ?_⟩
    · rw [List.getElem?_set] at hother
      split_ifs at hother with hij hlt
      · cases hother
        exact hij ▸ hlocal
      · exact hk.frame _ i now y.event j other (Ne.symm hij) (hs.tasks j other hother)
    · rw [List.length_set]
      rcases mem_append_entries.mp he with hold | ⟨hreq, -, -⟩
      · exact hs.known e hold
      · rw [hreq]
        exact (List.getElem?_eq_some_iff.mp htask).1
  | other w =>
    cases h
    have hs := hs ha
    exact ⟨hk.other w _ _ _ hs.global, hs.tasks, hs.known⟩

/-- **Invariant rule.** -/
theorem Keeps.exec (hk : Keeps p Assume Global Local) {s s' : System σ τ ε} {acts : List (Act α ι ω)}
    (hs : Holds Global Local s) (h : Runs.exec (Coroutines.step p) s acts = some s') (ha : Assume s'.log) :
    Holds Global Local s' :=
  exec_invariant (fun s a s' (hs : Assume s.log → Holds Global Local s) (_ : True) h => hk.step s a s' hs h)
    (fun _ => hs) (along_of_mem (fun _ _ _ _ => trivial) s) h ha

end

end Coroutines
