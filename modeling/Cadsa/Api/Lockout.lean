import Cadsa.Api.Effects

/-! Locked and inactive accounts. `login` looks at `locked_until` and `is_active`; the endpoints for
the second factor look at neither, and end in `record_login_success`, which clears the lock. -/
namespace Cadsa.Lockout
open Db Auth Runs
set_option autoImplicit false

def isLogin : Request → Bool
  | .login _ _ => true
  | .login2fa _ _ => true
  | .loginBackupCode _ _ => true
  | _ => false

section
variable {env : Env} {s : Server} {c : Call} {userId : ℕ}

theorem isLogin_of_secondFactor {codes : Option (List String)} (h : secondFactor env s c = some (userId, codes)) :
    isLogin c.request = true := by
  unfold secondFactor at h
  split at h
  · next hc => rw [hc]; rfl
  · next hc => rw [hc]; rfl
  · cases h

end

/-! ## No tokens for a locked or inactive account -/

/-- A login request hands no tokens to a locked or inactive user, and a lock stays as it is. -/
def RespectsLock (env : Env) (s : Server) (c : Call) : Prop :=
  isLogin c.request = true → ∀ userId a, s.users.account userId = some a →
    (lockedAt c.now a = true ∨ a.isActive = false) →
      (handle env s c).2.tokensFor ≠ some userId ∧
        (lockedAt c.now a = true →
          ((handle env s c).1.users.account userId).map Account.lockedUntil = some a.lockedUntil)

/-- A satisfied second factor is one of an account that may log in; an inactive one is saved by
nothing but a refresh token drawn twice. -/
def FactorInTime (env : Env) (s : Server) (c : Call) : Prop :=
  ∀ userId codes a, secondFactor env s c = some (userId, codes) → s.users.account userId = some a →
    lockedAt c.now a = false ∧ (a.isActive = true ∨ Collides env s c)

theorem respects_other {env : Env} {s : Server} {c : Call} {userId : ℕ} {a : Account} {e : Effect}
    (ha : s.users.account userId = some a) (he : effect env s c = e) (hf : e ≠ .failed userId)
    (hs : ∀ codes, e ≠ .accepted userId codes) :
    (handle env s c).2.tokensFor ≠ some userId ∧ (lockedAt c.now a = true →
      ((handle env s c).1.users.account userId).map Account.lockedUntil = some a.lockedUntil) := by
  refine ⟨no_tokens_of_effect he hs, fun _ => ?_⟩
  rw [account_handle env c ha, he, Option.map_some, (onAccount_lock hf hs c.now a).2]

theorem respectsLock_of_factorInTime {env : Env} {s : Server} {c : Call} (hg : FactorInTime env s c) :
    RespectsLock env s c := by
  intro hlogin userId a ha hbad
  obtain ⟨e, he⟩ : ∃ e, effect env s c = e := ⟨_, rfl⟩
  have hcause : Cause env s c e := he ▸ cause env s c
  have hne : ∀ user username, loginGate c.now (getUserByUsername s.users username) = .ok user → user.id ≠ userId := by
    rintro user username hgate rfl
    obtain ⟨hacc, hl, hact⟩ := account_of_gate hgate
    obtain rfl : a = user.account := Option.some.inj (ha.symm.trans hacc)
    simp [hl, hact] at hbad
  cases hcause with
  | nothing => exact respects_other ha he nofun nofun
  | wrongPassword hc hj =>
    refine respects_other ha he (fun h => ?_) nofun
    injection h with h
    exact hne _ _ (loginGate_of_judge (.inl hj)) h
  | rightPassword hc hj h2 =>
    refine respects_other ha he nofun fun codes h => ?_
    injection h with h
    exact hne _ _ (loginGate_of_judge (.inr hj)) h
  | @secondFactor v codes hf =>
    by_cases hv : v = userId
    · subst hv
      obtain ⟨hl, hact⟩ := hg v codes a hf ha
      rw [hl] at hbad ⊢
      have hcol : Collides env s c := hact.resolve_left (by simpa using hbad)
      exact ⟨fun ht => ((handle_tokens env s c v).mp ht).2 hcol, nofun⟩
    · refine respects_other ha he nofun fun codes' h => ?_
      injection h with h
      exact hv h
  | newPassword hash hc => simp [hc, isLogin] at hlogin
  | newSecret secret hc => simp [hc, isLogin] at hlogin
  | confirmed codes hc => simp [hc, isLogin] at hlogin

theorem factorInTime_of_respectsLock {env : Env} {s : Server} {c : Call} (h : RespectsLock env s c) :
    FactorInTime env s c := by
  intro userId codes a hf ha
  have hlogin := isLogin_of_secondFactor hf
  have he := effect_of_secondFactor hf
  have hafter := account_handle env c ha
  rw [he] at hafter
  constructor
  · cases hl : lockedAt c.now a with
    | false => rfl
    | true =>
      -- the login would have cleared the lock
      have hkept := (h hlogin userId a ha (.inl hl)).2 hl
      rw [hafter, Option.map_some, Option.some.injEq] at hkept
      rw [lockedAt, ← hkept] at hl
      simp [Effect.onAccount] at hl
  · by_contra hn
    rw [not_or] at hn
    have hinactive : a.isActive = false := by simpa using hn.1
    exact (h hlogin userId a ha (.inr hinactive)).1 ((handle_tokens env s c userId).mpr ⟨⟨codes, he⟩, hn.2⟩)

/-- **Locked accounts.** Along a run no login request hands tokens to a locked or inactive user or
touches a lock, if and only if every second factor that is satisfied is one of an account that
may log in at that time. -/
theorem locked_no_tokens_iff (env : Env) (s : Server) (cs : List Call) :
    Along (step env) (fun s c _ => RespectsLock env s c) s cs ↔
      Along (step env) (fun s c _ => FactorInTime env s c) s cs :=
  along_congr fun _ _ _ => ⟨factorInTime_of_respectsLock, respectsLock_of_factorInTime⟩

def lockedAfterLogin : List Call :=
  ⟨0, plainDraws, .login "admin" "pw"⟩ :: List.replicate 10 ⟨1, plainDraws, .login "admin" "guess"⟩

theorem tokens_despite_lock : ¬ Along (step plainEnv) (fun s c _ => RespectsLock plainEnv s c) adminOnly
    (lockedAfterLogin ++ [⟨2, plainDraws, .login2fa "p" "totp K"⟩]) := by
  have hrun : (exec (step plainEnv) adminOnly lockedAfterLogin).map (fun m => (m.clock, (m.users.account 1).map (lockedAt 2),
      (handle plainEnv m ⟨2, plainDraws, .login2fa "p" "totp K"⟩).2.tokensFor)) = some (1, some true, some 1) := by
    decide +kernel
  obtain ⟨m, hm, hfacts⟩ := Option.map_eq_some_iff.mp hrun
  simp only [Prod.mk.injEq] at hfacts
  obtain ⟨hclock, hlocked, htokens⟩ := hfacts
  obtain ⟨a, ha, hl⟩ := Option.map_eq_some_iff.mp hlocked
  refine not_along_concat hm (step_of_le (by rw [hclock]; decide)) fun h => ?_
  exact (h rfl 1 a ha (.inl hl)).1 htokens

/-! ## Ten failed attempts -/

def presented (s : Server) (c : Call) : Option ℕ :=
  match c.request with
  | .login2fa partialToken _ => livePartialToken c.now s partialToken
  | .loginBackupCode partialToken _ => livePartialToken c.now s partialToken
  | _ => none

/-- The request comes to a check of the user's password, TOTP code or backup code. -/
def checks (s : Server) (c : Call) (userId : ℕ) : Bool :=
  match c.request with
  | .login username _ =>
    match loginGate c.now (getUserByUsername s.users username) with
    | .ok user => user.id = userId
    | .error _ => false
  | .login2fa _ _ => presented s c = some userId && ((s.users.account userId).bind activeSecret).isSome
  | .loginBackupCode _ _ =>
    presented s c = some userId && ((s.users.account userId).bind Account.backupCodes).any (· ≠ [])
  | _ => false

/-- The request is an attempt on the account, with a wrong password or a wrong code. -/
def fails (env : Env) (s : Server) (c : Call) (userId : ℕ) : Bool :=
  match c.request with
  | .login username password =>
    match judgeLogin env c.now password (getUserByUsername s.users username) with
    | .wrong user => user.id = userId
    | _ => false
  | _ => presented s c = some userId && (secondFactor env s c).isNone

/-- A server, with the number of failed attempts on one account since its last successful login,
and the time of the last of them if there were ten. -/
structure Counted where
  server : Server
  failed : ℕ
  tenSince : Option Time

def succeeds (env : Env) (s : Server) (c : Call) (userId : ℕ) : Bool :=
  match effect env s c with
  | .accepted v _ => v = userId
  | _ => false

def Counted.step (env : Env) (userId : ℕ) (w : Counted) (c : Call) : Option Counted :=
  (Auth.step env w.server c).map fun s =>
    if succeeds env w.server c userId then ⟨s, 0, none⟩
    else if fails env w.server c userId then
      ⟨s, w.failed + 1, if 10 ≤ w.failed + 1 then some c.now else w.tenSince⟩
    else { w with server := s }

/-- For 15 minutes after the tenth failure and each later one nothing of the account is checked, and no
login succeeds. -/
def Refuses (env : Env) (userId : ℕ) (w : Counted) (c : Call) : Prop :=
  ∀ t, w.tenSince = some t → c.now < t + minutes 15 →
    checks w.server c userId = false ∧ succeeds env w.server c userId = false

/-- A live partial token of the account is used with the right code only, and while there is no lock. -/
def FactorsPass (env : Env) (userId : ℕ) (s : Server) (c : Call) : Prop :=
  presented s c = some userId → (secondFactor env s c).isSome = true ∧
    ∀ a, s.users.account userId = some a → lockedAt c.now a = false

/-- The counter in the row keeps up with the failures, and the lock with their time. -/
def Tallies (userId : ℕ) (w : Counted) : Prop :=
  ∀ a, w.server.users.account userId = some a → w.failed ≤ a.failedAttempts ∧
    ∀ t, w.tenSince = some t → 10 ≤ w.failed ∧ a.lockedUntil = some (t + minutes 15)

section
variable {env : Env} {s : Server} {c : Call} {userId : ℕ}

theorem succeeds_iff : succeeds env s c userId = true ↔ ∃ codes, effect env s c = .accepted userId codes := by
  unfold succeeds
  split
  · next h => simp [h]
  · next h => simpa using fun codes => h userId codes

theorem effect_of_fails (hg : FactorsPass env userId s c) (h : fails env s c userId = true) :
    effect env s c = .failed userId := by
  unfold fails at h
  split at h
  · next hc =>
    split at h
    · next hj =>
      obtain rfl : _ = userId := by simpa using h
      simp only [effect, hc, hj]
    · cases h
  · rw [Bool.and_eq_true, decide_eq_true_eq, Option.isNone_iff_eq_none] at h
    have := (hg h.1).1
    rw [h.2] at this
    cases this

theorem fails_of_effect (h : effect env s c = .failed userId) : fails env s c userId = true := by
  have hcause := cause env s c
  rw [h] at hcause
  cases hcause with
  | wrongPassword hc hj => simp [fails, hc, hj]

theorem account_of_checks (h : checks s c userId = true) : ∃ a, s.users.account userId = some a := by
  unfold checks at h
  split at h
  · split at h
    · next hgate =>
      obtain rfl : _ = userId := by simpa using h
      exact ⟨_, (account_of_gate hgate).1⟩
    · cases h
  · cases ha : s.users.account userId with
    | none => simp [ha] at h
    | some a => exact ⟨a, rfl⟩
  · cases ha : s.users.account userId with
    | none => simp [ha] at h
    | some a => exact ⟨a, rfl⟩
  · cases h

theorem presented_of_secondFactor {codes : Option (List String)} (h : secondFactor env s c = some (userId, codes)) :
    presented s c = some userId ∧ ∃ a, s.users.account userId = some a := by
  cases codes with
  | none =>
    obtain ⟨partialToken, code, user, hc, hp, hu, -⟩ := secondFactor_totp h
    rw [presented, hc]
    exact ⟨hp, user.account, account_of_getUserById hu⟩
  | some left =>
    obtain ⟨partialToken, code, a, -, -, -, hc, hp, ha, -⟩ := secondFactor_backup h
    rw [presented, hc]
    exact ⟨hp, a, ha⟩

def Locked (userId : ℕ) (s : Server) (now : Time) : Prop :=
  ∀ a, s.users.account userId = some a → lockedAt now a = true

theorem ne_of_gate {username : String} {user : UserRow} (hl : Locked userId s c.now)
    (h : loginGate c.now (getUserByUsername s.users username) = .ok user) : user.id ≠ userId := by
  rintro rfl
  obtain ⟨hacc, hn, -⟩ := account_of_gate h
  rw [hl _ hacc] at hn
  cases hn

theorem presented_ne {a : Account} (ha : s.users.account userId = some a) (hl : Locked userId s c.now)
    (hg : FactorsPass env userId s c) : presented s c ≠ some userId := by
  intro hp
  have hn := (hg hp).2 a ha
  rw [hl a ha] at hn
  cases hn

theorem not_checks_of_locked (hl : Locked userId s c.now) (hg : FactorsPass env userId s c) :
    checks s c userId = false := by
  by_contra hc
  rw [Bool.not_eq_false] at hc
  obtain ⟨a, ha⟩ := account_of_checks hc
  have hp := presented_ne ha hl hg
  unfold checks at hc
  split at hc
  · split at hc
    · next hgate => exact ne_of_gate hl hgate (of_decide_eq_true hc)
    · cases hc
  · simp [hp] at hc
  · simp [hp] at hc
  · cases hc

theorem not_succeeds_of_locked (hl : Locked userId s c.now) (hg : FactorsPass env userId s c) :
    succeeds env s c userId = false := by
  by_contra hs
  rw [Bool.not_eq_false, succeeds_iff] at hs
  obtain ⟨codes, he⟩ := hs
  have hcause := cause env s c
  rw [he] at hcause
  cases hcause with
  | rightPassword hc hj h2 => exact ne_of_gate hl (loginGate_of_judge (.inr hj)) rfl
  | secondFactor hf =>
    obtain ⟨hp, a, ha⟩ := presented_of_secondFactor hf
    exact presented_ne ha hl hg hp

end

theorem counted_step_cases {env : Env} {userId : ℕ} {w w' : Counted} {c : Call}
    (h : Counted.step env userId w c = some w') : step env w.server c = some w'.server ∧
      ((succeeds env w.server c userId = true ∧ w'.failed = 0 ∧ w'.tenSince = none) ∨
        (succeeds env w.server c userId = false ∧ fails env w.server c userId = true ∧
          w'.failed = w.failed + 1 ∧ w'.tenSince = if 10 ≤ w.failed + 1 then some c.now else w.tenSince) ∨
        (succeeds env w.server c userId = false ∧ fails env w.server c userId = false ∧
          w'.failed = w.failed ∧ w'.tenSince = w.tenSince)) := by
  obtain ⟨s', hstep, rfl⟩ := Option.map_eq_some_iff.mp h
  cases hsucc : succeeds env w.server c userId with
  | true => exact ⟨hstep, .inl ⟨rfl, rfl, rfl⟩⟩
  | false =>
    cases hfail : fails env w.server c userId with
    | true => exact ⟨hstep, .inr (.inl ⟨rfl, rfl, rfl, rfl⟩)⟩
    | false => exact ⟨hstep, .inr (.inr ⟨rfl, rfl, rfl, rfl⟩)⟩

theorem tallies_step {env : Env} {userId : ℕ} (w : Counted) (c : Call) (w' : Counted) (h : Tallies userId w)
    (hg : FactorsPass env userId w.server c) (hs : Counted.step env userId w c = some w') : Tallies userId w' := by
  obtain ⟨hstep, hcases⟩ := counted_step_cases hs
  intro a' ha'
  rw [step_account hstep] at ha'
  obtain ⟨a, ha, rfl⟩ := Option.map_eq_some_iff.mp ha'
  obtain ⟨hle, hlock⟩ := h a ha
  rcases hcases with ⟨hsucc, hf, ht⟩ | ⟨-, hfail, hf, ht⟩ | ⟨hsucc, hfail, hf, ht⟩
  · rw [hf, ht]
    exact ⟨Nat.zero_le _, nofun⟩
  · -- a wrong password: the row counts it too, and locks from the tenth on
    rw [effect_of_fails hg hfail, hf, ht]
    have honto : (Effect.failed userId).onAccount userId c.now a = a.fail c.now := if_pos rfl
    rw [honto]
    refine ⟨Nat.succ_le_succ hle, fun t htime => ?_⟩
    by_cases hten : 10 ≤ w.failed + 1
    · rw [if_pos hten] at htime
      cases htime
      exact ⟨hten, if_pos (Nat.le_trans hten (Nat.succ_le_succ hle))⟩
    · rw [if_neg hten] at htime
      exact absurd (hlock t htime).1 (by omega)
  · have hne : effect env w.server c ≠ .failed userId := fun he => by
      rw [fails_of_effect he] at hfail
      cases hfail
    have hna : ∀ codes, effect env w.server c ≠ .accepted userId codes := fun codes he => by
      rw [succeeds_iff.mpr ⟨codes, he⟩] at hsucc
      cases hsucc
    obtain ⟨h1, h2⟩ := onAccount_lock hne hna c.now a
    rw [h1, h2, hf, ht]
    exact ⟨hle, hlock⟩

theorem refuses_of_tallies {env : Env} {userId : ℕ} {w : Counted} {c : Call} (h : Tallies userId w)
    (hg : FactorsPass env userId w.server c) : Refuses env userId w c := by
  intro t ht hlt
  have hl : Locked userId w.server c.now := fun a ha => by
    rw [lockedAt, ((h a ha).2 t ht).2]
    exact decide_eq_true hlt
  exact ⟨not_checks_of_locked hl hg, not_succeeds_of_locked hl hg⟩

/-- **Ten failed attempts.** In a run in which every live partial token of the account is used with
the right code and while there is no lock, ten failed attempts without a successful login between
them keep the account from being tried for 15 minutes. -/
theorem ten_failures_lock (env : Env) (userId : ℕ) (s : Server) (cs : List Call)
    (hg : Along (Counted.step env userId) (fun w c _ => FactorsPass env userId w.server c) ⟨s, 0, none⟩ cs) :
    Along (Counted.step env userId) (fun w c _ => Refuses env userId w c) ⟨s, 0, none⟩ cs :=
  along_of_invariant (fun w c w' h hg hs => ⟨tallies_step w c w' h hg hs, refuses_of_tallies h hg⟩)
    (fun _ _ => ⟨Nat.zero_le _, nofun⟩) hg

theorem ten_failures_lock_passwords :
    Along (Counted.step plainEnv 1) (fun w c _ => Refuses plainEnv 1 w c) ⟨adminOnly, 0, none⟩
      (List.replicate 11 ⟨0, plainDraws, .login "admin" "guess"⟩) :=
  ten_failures_lock plainEnv 1 adminOnly _ (along_of_mem (fun c hc w _ => by
    rw [List.eq_of_mem_replicate hc]
    exact nofun) _)

def guessFactor : List Call :=
  (List.replicate 10 [⟨0, plainDraws, .login "admin" "pw"⟩, ⟨0, plainDraws, .login2fa "p" "guess"⟩]).flatten

theorem wrong_codes_do_not_lock : ¬ Along (Counted.step plainEnv 1) (fun w c _ => Refuses plainEnv 1 w c) ⟨adminOnly, 0, none⟩
    (guessFactor ++ [⟨1, plainDraws, .login "admin" "pw"⟩]) := by
  have hrun : (exec (Counted.step plainEnv 1) ⟨adminOnly, 0, none⟩ guessFactor).map (fun w => (w.server.clock, w.tenSince,
      checks w.server ⟨1, plainDraws, .login "admin" "pw"⟩ 1)) = some (0, some 0, true) := by
    decide +kernel
  obtain ⟨w, hw, hfacts⟩ := Option.map_eq_some_iff.mp hrun
  simp only [Prod.mk.injEq] at hfacts
  obtain ⟨hclock, hten, hchecks⟩ := hfacts
  obtain ⟨w', hstep⟩ : ∃ w', Counted.step plainEnv 1 w ⟨1, plainDraws, .login "admin" "pw"⟩ = some w' := by
    rw [Counted.step, step_of_le (by rw [hclock]; decide)]
    exact ⟨_, rfl⟩
  refine not_along_concat hw hstep fun h => ?_
  rw [(h 0 hten (by decide)).1] at hchecks
  cases hchecks

end Cadsa.Lockout
