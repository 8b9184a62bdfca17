import Cadsa.Lib.Calls
import Cadsa.Api.Effects

/-! `login` in many requests at once. A request looks for a lock in the row it has read, and counts its
failure after the password has been verified; how many passwords are tried before the counter
reaches ten depends on how many requests are between the two. -/
namespace Cadsa.LoginRace
open Db Auth Calls Runs
set_option autoImplicit false

structure Credentials where
  username : String
  password : String
  deriving DecidableEq

inductive Outcome where
  | refused (response : Response)
  | failed (userId attempts : ℕ)
  | passed (userId : ℕ)
  deriving DecidableEq

/-- The row is read, the lock and the password are looked at, and the outcome is recorded. -/
def passwordLogin (env : Env) : Protocol Users Empty Time Credentials (Option UserRow) LoginVerdict Outcome where
  load users arg := getUserByUsername users arg.username
  decide now arg row := judgeLogin env now arg.password row
  commit now _ d users :=
    match d with
    | .refused response => (users, .refused response)
    | .wrong user =>
      let users := recordLoginFailure users now user.id
      (users, .failed user.id ((users.account user.id).elim 0 Account.failedAttempts))
    | .right user =>
      (if user.account.totpConfirmed then users else recordLoginSuccess users now user.id, .passed user.id)
  event e _ := e.elim

theorem login_alone (env : Env) (draws : Draws) (now : Time) (s : Server) (username password : String) :
    (login env draws now s username password).1.users =
      (alone (passwordLogin env) now s.users ⟨username, password⟩).1 := by
  simp only [login, alone, passwordLogin]
  cases judgeLogin env now password (getUserByUsername s.users username) with
  | refused response => rfl
  | wrong user => rfl
  | right user =>
    dsimp only
    split_ifs
    · rfl
    · exact issueTokens_users ..

theorem locked_of_failed {env : Env} {now : Time} {arg : Credentials} {user : UserRow} {users users' : Users}
    {attempts : ℕ} (h : (passwordLogin env).commit now arg (.wrong user) users = (users', .failed user.id attempts))
    (hten : 10 ≤ attempts) : (users'.account user.id).bind Account.lockedUntil = some (now + minutes 15) := by
  simp only [passwordLogin, Prod.mk.injEq, Outcome.failed.injEq, true_and] at h
  obtain ⟨rfl, rfl⟩ := h
  rw [recordLoginFailure, account_update, if_pos rfl] at hten ⊢
  cases ha : users.account user.id with
  | none => simp [ha] at hten
  | some a =>
    rw [ha, Option.map_some, Option.elim_some] at hten
    exact if_pos hten

abbrev Sys := System Users Credentials (Option UserRow) LoginVerdict Outcome

abbrev Login := Call Credentials (Option UserRow) LoginVerdict Outcome

section
variable (userId : ℕ)

def pendingOn (c : Login) : Bool :=
  match c.phase with
  | .decided _ (.wrong user) => user.id = userId
  | _ => false

def recordedOn (c : Login) : Bool :=
  match c.phase with
  | .finished _ (.failed v _) => v = userId
  | _ => false

def lockedBy (c : Login) : Bool :=
  match c.phase with
  | .finished _ (.failed v attempts) => v = userId && decide (10 ≤ attempts)
  | _ => false

def resets (c : Login) : Bool :=
  match c.phase with
  | .decided _ (.right user) => user.id = userId && !user.account.totpConfirmed
  | _ => false

def pending (s : Sys) : ℕ := s.calls.countP (pendingOn userId)

def recorded (s : Sys) : ℕ := s.calls.countP (recordedOn userId)

def NoLock (s : Sys) : Prop := ∀ c ∈ s.calls, lockedBy userId c = false

instance (s : Sys) : Decidable (NoLock userId s) := inferInstanceAs (Decidable (∀ c ∈ s.calls, _ = _))

/-- Until the account is locked, ten wrong passwords are verified. -/
def AtMostTen (s : Sys) : Prop := NoLock userId s → pending userId s + recorded userId s ≤ 10

def NoSuccess (s : Sys) (a : Action Time Empty) : Prop := ∀ c ∈ turn s a, resets userId c = false

instance (s : Sys) (a : Action Time Empty) : Decidable (NoSuccess userId s a) :=
  inferInstanceAs (Decidable (∀ c ∈ turn s a, _ = _))

def findsWrong (env : Env) (s : Sys) : Action Time Empty → Option ℕ
  | .call i now =>
    match s.calls[i]? with
    | some ⟨arg, .loaded row⟩ =>
      match judgeLogin env now arg.password row with
      | .wrong user => some user.id
      | _ => none
    | _ => none
  | .event e => e.elim

/-- A password is found wrong when no failure waits to be recorded, or when the recorded ones and those that
wait are less than ten. -/
def InTime (env : Env) (s : Sys) (a : Action Time Empty) : Prop :=
  findsWrong env s a = some userId → NoLock userId s →
    pending userId s = 0 ∨ (s.store.account userId).elim 0 Account.failedAttempts + pending userId s < 10

instance (env : Env) (s : Sys) (a : Action Time Empty) : Decidable (InTime userId env s a) :=
  inferInstanceAs (Decidable (_ = _ → NoLock userId s → _ ∨ _))

/-- As long as there is no lock, the recorded failures are in the counter. -/
def Inv (s : Sys) : Prop :=
  ∃ a, s.store.account userId = some a ∧ (NoLock userId s →
    recorded userId s ≤ a.failedAttempts ∧ (recorded userId s = 0 ∨ a.failedAttempts < 10) ∧
      pending userId s + recorded userId s ≤ 10)

end

/-! ## One step -/

section
variable {env : Env} {userId : ℕ} {s : Sys} {before after : List Login} {c c' : Login}

theorem noLock_of_replace (hc : s.calls = before ++ c :: after) (hn : lockedBy userId c = false) {store : Users}
    (h : NoLock userId ⟨store, before ++ c' :: after⟩) : NoLock userId s := by
  intro x hx
  by_cases hxc : x = c
  · rw [hxc]
    exact hn
  · exact h x (mem_replace (hc ▸ hx) hxc)

theorem counts_replace (userId : ℕ) (hc : s.calls = before ++ c :: after) (store : Users) (c' : Login) :
    pending userId ⟨store, before ++ c' :: after⟩ + (pendingOn userId c).toNat =
      pending userId s + (pendingOn userId c').toNat ∧
    recorded userId ⟨store, before ++ c' :: after⟩ + (recordedOn userId c).toNat =
      recorded userId s + (recordedOn userId c').toNat := by
  rw [pending, pending, recorded, recorded, hc]
  exact ⟨countP_replace .., countP_replace ..⟩

theorem inv_of_same {store : Users} (hi : Inv userId s) (hc : s.calls = before ++ c :: after)
    (hst : store.account userId = s.store.account userId) (hp : pendingOn userId c' = pendingOn userId c)
    (hr : recordedOn userId c' = recordedOn userId c) (hl : lockedBy userId c = false) :
    Inv userId ⟨store, before ++ c' :: after⟩ := by
  obtain ⟨a, ha, hinv⟩ := hi
  obtain ⟨hcp, hcr⟩ := counts_replace userId hc store c'
  rw [hp] at hcp
  rw [hr] at hcr
  refine ⟨a, hst.trans ha, fun hno => ?_⟩
  obtain ⟨h1, h2, h3⟩ := hinv (noLock_of_replace hc hl hno)
  omega

theorem inv_found (hi : Inv userId s) (hc : s.calls = before ++ c :: after) (hl : lockedBy userId c = false)
    (hp : pendingOn userId c = false ∧ pendingOn userId c' = true)
    (hr : recordedOn userId c = false ∧ recordedOn userId c' = false)
    (hintime : NoLock userId s → pending userId s = 0 ∨
      (s.store.account userId).elim 0 Account.failedAttempts + pending userId s < 10) :
    Inv userId ⟨s.store, before ++ c' :: after⟩ := by
  obtain ⟨a, ha, hinv⟩ := hi
  obtain ⟨hcp, hcr⟩ := counts_replace userId hc s.store c'
  rw [hp.1, hp.2, Bool.toNat_true, Bool.toNat_false] at hcp
  rw [hr.1, hr.2, Bool.toNat_false] at hcr
  rw [ha, Option.elim_some] at hintime
  refine ⟨a, ha, fun hno => ?_⟩
  have hnolock := noLock_of_replace hc hl hno
  obtain ⟨h1, h2, h3⟩ := hinv hnolock
  have hten := hintime hnolock
  omega

theorem inv_recorded (hi : Inv userId s) (hc : s.calls = before ++ c :: after) (hl : lockedBy userId c = false)
    (hp : pendingOn userId c = true ∧ pendingOn userId c' = false)
    (hr : recordedOn userId c = false ∧ recordedOn userId c' = true) {store : Users} {now : Time}
    (hst : store.account userId = (s.store.account userId).map (Account.fail now))
    (hl' : lockedBy userId c' = decide (10 ≤ (store.account userId).elim 0 Account.failedAttempts)) :
    Inv userId ⟨store, before ++ c' :: after⟩ := by
  obtain ⟨a, ha, hinv⟩ := hi
  obtain ⟨hcp, hcr⟩ := counts_replace userId hc store c'
  rw [hp.1, hp.2, Bool.toNat_true, Bool.toNat_false] at hcp
  rw [hr.1, hr.2, Bool.toNat_true, Bool.toNat_false] at hcr
  rw [ha, Option.map_some] at hst
  rw [hst, Option.elim_some] at hl'
  refine ⟨a.fail now, hst, fun hno => ?_⟩
  have hlast := hno c' (List.mem_append_right _ List.mem_cons_self)
  rw [hl', decide_eq_false_iff_not] at hlast
  obtain ⟨h1, h2, h3⟩ := hinv (noLock_of_replace hc hl hno)
  have hfail : (a.fail now).failedAttempts = a.failedAttempts + 1 := rfl
  omega

theorem pendingOn_decide (env : Env) (userId : ℕ) (now : Time) {i : ℕ} {arg : Credentials} {row : Option UserRow}
    (ht : s.calls[i]? = some ⟨arg, .loaded row⟩) :
    pendingOn userId ⟨arg, .decided row (judgeLogin env now arg.password row)⟩ =
      decide (findsWrong env s (.call i now) = some userId) := by
  simp only [findsWrong, ht, pendingOn]
  cases judgeLogin env now arg.password row <;> simp

theorem inv_step (s : Sys) (a : Action Time Empty) (s' : Sys) (hi : Inv userId s)
    (hg : NoSuccess userId s a ∧ InTime userId env s a) (h : step (passwordLogin env) s a = some s') :
    Inv userId s' := by
  cases moves _ h with
  | event e => exact e.elim
  | load hc ht => exact inv_of_same hi hc rfl rfl rfl rfl
  | @decide i now before after arg row hc ht =>
    have hpending := pendingOn_decide env userId now ht
    by_cases hw : findsWrong env s (.call i now) = some userId
    · rw [decide_eq_true hw] at hpending
      exact inv_found hi hc rfl ⟨rfl, hpending⟩ ⟨rfl, rfl⟩ (hg.2 hw)
    · rw [decide_eq_false hw] at hpending
      exact inv_of_same hi hc rfl hpending rfl rfl
  | @commit i now before after arg row d hc ht =>
    cases d with
    | refused response => exact inv_of_same hi hc rfl rfl rfl rfl
    | right user =>
      refine inv_of_same hi hc ?_ rfl rfl rfl
      have hreset := hg.1 _ ht
      simp only [passwordLogin]
      split_ifs with h2
      · rfl
      · have hu : userId ≠ user.id := by
          rintro rfl
          simp [resets, h2] at hreset
        rw [recordLoginSuccess, account_update, if_neg hu]
    | wrong user =>
      by_cases hu : user.id = userId
      · subst hu
        have hst : (recordLoginFailure s.store now user.id).account user.id =
            (s.store.account user.id).map (Account.fail now) := by
          rw [recordLoginFailure, account_update, if_pos rfl]
        refine inv_recorded hi hc rfl ⟨decide_eq_true rfl, rfl⟩ ⟨rfl, by simp [recordedOn, passwordLogin]⟩ hst ?_
        rw [lockedBy]
        exact (congrArg (· && _) (decide_eq_true rfl)).trans (Bool.true_and _)
      · have hst : (recordLoginFailure s.store now user.id).account userId = s.store.account userId := by
          rw [recordLoginFailure, account_update, if_neg (Ne.symm hu)]
        exact inv_of_same hi hc hst (by simp [pendingOn, hu]) (by simp [recordedOn, passwordLogin, hu]) rfl

end

/-- **Ten passwords.** In every interleaving of logins without a success, in which passwords are found wrong
in time, ten wrong passwords are verified before the account is locked. -/
theorem ten_before_lock (env : Env) (userId : ℕ) (users : Users) (args : List Credentials)
    (as : List (Action Time Empty)) {a : Account} (ha : users.account userId = some a)
    (hn : Along (step (passwordLogin env)) (fun s a _ => NoSuccess userId s a) (start users args) as)
    (hg : Along (step (passwordLogin env)) (fun s a _ => InTime userId env s a) (start users args) as) :
    Visited (step (passwordLogin env)) (AtMostTen userId) (start users args) as := by
  refine visited_of_invariant ?_ inv_step ⟨a, ha, fun _ => ?_⟩ (hn.and hg)
  · rintro s ⟨a, -, hinv⟩ hno
    exact (hinv hno).2.2
  · have hp : pending userId (start users args) = 0 :=
      List.countP_eq_zero.mpr fun c hc => by simp [pendingOn, ready_of_mem_start hc]
    have hr : recorded userId (start users args) = 0 :=
      List.countP_eq_zero.mpr fun c hc => by simp [recordedOn, ready_of_mem_start hc]
    rw [hp, hr]
    omega

def guesses (n : ℕ) : List Credentials := List.replicate n ⟨"admin", "guess"⟩

theorem ten_before_lock_in_turn : Visited (step (passwordLogin plainEnv)) (AtMostTen 1) (start adminOnly.users (guesses 12))
    ((List.range 12).flatMap fun i => List.replicate 3 (.call i 0)) :=
  ten_before_lock plainEnv 1 adminOnly.users _ _ rfl (by decide +kernel) (by decide +kernel)

theorem eleven_before_lock :
    Along (step (passwordLogin plainEnv)) (fun s a _ => NoSuccess 1 s a) (start adminOnly.users (guesses 11))
      ((List.range 11 ++ List.range 11).map fun i => .call i 0) ∧
    ¬ Visited (step (passwordLogin plainEnv)) (AtMostTen 1) (start adminOnly.users (guesses 11))
      ((List.range 11 ++ List.range 11).map fun i => .call i 0) := by
  refine ⟨by decide +kernel, fun h => ?_⟩
  have hrun : (exec (step (passwordLogin plainEnv)) (start adminOnly.users (guesses 11))
      ((List.range 11 ++ List.range 11).map fun i => .call i 0)).map
        (fun s => (decide (NoLock 1 s), pending 1 s)) = some (true, 11) := by
    decide +kernel
  obtain ⟨s, hs, hfacts⟩ := Option.map_eq_some_iff.mp hrun
  simp only [Prod.mk.injEq, decide_eq_true_eq] at hfacts
  have hten := h.of_exec hs hfacts.1
  omega

end Cadsa.LoginRace
