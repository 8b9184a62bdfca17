import Mathlib.Data.List.Perm.Basic
import Cadsa.Api.Effects

/-! The second factor after it has been confirmed. Nothing but `setup_2fa` resets
`totp_confirmed`, and that endpoint asks for no more than an access token. -/
namespace Cadsa.SecondFactor
open Db Auth Runs
set_option autoImplicit false

/-- A confirmed second factor: the secret, the hashes of the backup codes that were issued with
it, and those of them that have been used. -/
structure Enrolled where
  secret : String
  issued : List String
  used : List String

structure Watched where
  server : Server
  enrolled : Option Enrolled

section
variable (env : Env) (userId : ℕ)

def hashOf (s : Server) (c : Call) : Option String :=
  match c.request with
  | .loginBackupCode _ code =>
    ((s.users.account userId).bind Account.backupCodes).bind (List.find? fun hashed => env.verifyHash hashed code = .ok)
  | _ => none

def Enrolled.use (e : Enrolled) (hashed : Option String) : Enrolled := { e with used := hashed.toList ++ e.used }

def enrolledAfter (s : Server) (c : Call) (enrolled : Option Enrolled) : Option Enrolled :=
  match effect env s c with
  | .confirmed v codes =>
    if v = userId then ((s.users.account userId).bind Account.totpSecret).map fun secret => ⟨secret, codes, []⟩
    else enrolled
  | .accepted v (some _) => if v = userId then enrolled.map (Enrolled.use · (hashOf env userId s c)) else enrolled
  | _ => enrolled

def Watched.step (w : Watched) (c : Call) : Option Watched :=
  (Auth.step env w.server c).map fun s => ⟨s, enrolledAfter env userId w.server c w.enrolled⟩

def StaysConfirmed (w : Watched) : Prop :=
  w.enrolled.isSome = true → (w.server.users.account userId).map Account.totpConfirmed = some true

/-- Tokens are for a code of the confirmed secret, or for a backup code that is not used up. -/
def FactorAsked (w : Watched) (c : Call) : Prop :=
  ∀ e, w.enrolled = some e → (handle env w.server c).2.tokensFor = some userId →
    (∃ partialToken code, c.request = .login2fa partialToken code ∧ env.verifyTotp e.secret code c.now = true) ∨
      ∃ partialToken code hashed, c.request = .loginBackupCode partialToken code ∧
        env.verifyHash hashed code = .ok ∧ e.used.count hashed < e.issued.count hashed

/-- After the confirmation the user does not call `setup_2fa`. -/
def NoSetup (w : Watched) (c : Call) : Prop :=
  w.enrolled.isSome = true → ∀ credentials user, c.request = .setup2fa credentials →
    requireAuth env c.now w.server credentials = .ok user → user.id ≠ userId

structure Holds (e : Enrolled) (a : Account) : Prop where
  confirmed : a.totpConfirmed = true
  secret : a.totpSecret = some e.secret
  nonempty : e.secret ≠ ""
  codes : ∃ stored, a.backupCodes = some stored ∧ (e.used ++ stored).Perm e.issued

def Keeps (w : Watched) : Prop :=
  ∀ e, w.enrolled = some e → ∃ a, w.server.users.account userId = some a ∧ Holds e a

end

section
variable {env : Env} {s : Server} {c : Call} {userId : ℕ}

theorem hashOf_backup {partialToken code hashed : String} {a : Account} {before after : List String}
    (hc : c.request = .loginBackupCode partialToken code) (ha : s.users.account userId = some a)
    (hcodes : a.backupCodes = some (before ++ hashed :: after)) (hv : env.verifyHash hashed code = .ok)
    (hb : ∀ g ∈ before, env.verifyHash g code = .mismatch) : hashOf env userId s c = some hashed := by
  have hnone : before.find? (fun g => env.verifyHash g code = .ok) = none :=
    List.find?_eq_none.mpr fun g hg => by simp [hb g hg]
  simp only [hashOf, hc, ha, Option.bind_some, hcodes, List.find?_append, hnone, Option.none_or]
  exact List.find?_cons_of_pos (decide_eq_true hv)

/-! ## One request -/

theorem watched_step_cases {w w' : Watched} (h : Watched.step env userId w c = some w') :
    step env w.server c = some w'.server ∧ w'.enrolled = enrolledAfter env userId w.server c w.enrolled := by
  obtain ⟨s', hstep, rfl⟩ := Option.map_eq_some_iff.mp h
  exact ⟨hstep, rfl⟩

theorem activeSecret_of_holds {e : Enrolled} {a : Account} (h : Holds e a) : activeSecret a = some e.secret := by
  rw [activeSecret, if_pos h.confirmed, h.secret]
  simp [h.nonempty]

theorem Holds.use {e : Enrolled} {a : Account} {before after : List String} {hashed : String} (h : Holds e a)
    (hc : a.backupCodes = some (before ++ hashed :: after)) (now : Time) :
    Holds (e.use (some hashed)) ((Effect.accepted userId (some (before ++ after))).onAccount userId now a) := by
  obtain ⟨stored, hs, hp⟩ := h.codes
  obtain rfl := Option.some.inj (hc.symm.trans hs)
  rw [Effect.onAccount, if_pos rfl]
  refine ⟨h.confirmed, h.secret, h.nonempty, _, rfl, List.Perm.trans ?_ hp⟩
  have hmid : (hashed :: (e.used ++ before ++ after)).Perm (e.used ++ before ++ hashed :: after) :=
    List.perm_middle.symm
  simpa [Enrolled.use] using hmid

theorem holds_confirmed {now : Time} {code secret : String} (codes : List String)
    (hv : verifiedSecret env now code (getUserById s.users userId) = .ok secret) :
    ∃ a, s.users.account userId = some a ∧ a.totpSecret = some secret ∧
      Holds ⟨secret, codes, []⟩ ((Effect.confirmed userId codes).onAccount userId now a) := by
  obtain ⟨hrow, hne, -⟩ := verifiedSecret_ok hv
  obtain ⟨row, hrow, hsecret⟩ := Option.bind_eq_some_iff.mp hrow
  refine ⟨row.account, account_of_getUserById hrow, hsecret, ?_⟩
  rw [Effect.onAccount, if_pos rfl]
  exact ⟨rfl, hsecret, hne, codes, rfl, .refl _⟩

theorem Holds.onAccount {e : Enrolled} {a : Account} (h : Holds e a) {eff : Effect} (now : Time)
    (hs : ∀ secret, eff ≠ .newSecret userId secret) (hc : ∀ codes, eff ≠ .confirmed userId codes)
    (hb : ∀ left, eff ≠ .accepted userId (some left)) : Holds e (eff.onAccount userId now a) := by
  cases eff with
  | none => exact h
  | failed v =>
    rw [Effect.onAccount]
    split_ifs <;> exact ⟨h.confirmed, h.secret, h.nonempty, h.codes⟩
  | accepted v codes =>
    cases codes with
    | none =>
      rw [Effect.onAccount]
      split_ifs <;> exact ⟨h.confirmed, h.secret, h.nonempty, h.codes⟩
    | some left =>
      have hv : userId ≠ v := fun hv => hb left (hv ▸ rfl)
      rw [Effect.onAccount, if_neg hv]
      exact h
  | newPassword v hash =>
    rw [Effect.onAccount]
    split_ifs <;> exact ⟨h.confirmed, h.secret, h.nonempty, h.codes⟩
  | newSecret v secret =>
    have hv : userId ≠ v := fun hv => hs secret (hv ▸ rfl)
    rw [Effect.onAccount, if_neg hv]
    exact h
  | confirmed v codes =>
    have hv : userId ≠ v := fun hv => hc codes (hv ▸ rfl)
    rw [Effect.onAccount, if_neg hv]
    exact h

end

theorem keeps_step {env : Env} {userId : ℕ} (w : Watched) (c : Call) (w' : Watched) (h : Keeps userId w)
    (hg : NoSetup env userId w c) (hs : Watched.step env userId w c = some w') : Keeps userId w' := by
  obtain ⟨hstep, hen⟩ := watched_step_cases hs
  intro e' he'
  rw [hen, enrolledAfter] at he'
  have hacc := step_account hstep userId
  have hcause := cause env w.server c
  generalize effect env w.server c = eff at he' hacc hcause
  -- an effect that leaves the second factor alone
  have hsame : w.enrolled = some e' → (∀ secret, eff ≠ .newSecret userId secret) →
      (∀ codes, eff ≠ .confirmed userId codes) → (∀ left, eff ≠ .accepted userId (some left)) →
      ∃ a, w'.server.users.account userId = some a ∧ Holds e' a := fun he h1 h2 h3 => by
    obtain ⟨a, ha, hm⟩ := h e' he
    exact ⟨_, by rw [hacc, ha]; rfl, hm.onAccount c.now h1 h2 h3⟩
  cases hcause with
  | nothing => exact hsame he' nofun nofun nofun
  | wrongPassword hc hj => exact hsame he' nofun nofun nofun
  | rightPassword hc hj h2 => exact hsame he' nofun nofun nofun
  | newPassword hash hc ha => exact hsame he' nofun nofun nofun
  | newSecret secret hc ha =>
    have hw : w.enrolled = some e' := he'
    refine hsame hw (fun secret' heq => ?_) nofun nofun
    injection heq with heq
    exact hg (by rw [hw]; rfl) _ _ hc ha heq
  | @secondFactor v codes hf =>
    cases codes with
    | none => exact hsame he' nofun nofun nofun
    | some left =>
      by_cases hv : v = userId
      · subst hv
        simp only [if_true] at he'
        obtain ⟨e, he, rfl⟩ := Option.map_eq_some_iff.mp he'
        obtain ⟨partialToken, code, a, before, hashed, after, hc, -, ha, hcodes, rfl, hok, hb⟩ := secondFactor_backup hf
        obtain ⟨a', ha', hm⟩ := h e he
        obtain rfl := Option.some.inj (ha.symm.trans ha')
        rw [hashOf_backup hc ha hcodes hok hb]
        exact ⟨_, by rw [hacc, ha]; rfl, hm.use hcodes c.now⟩
      · simp only [if_neg hv] at he'
        refine hsame he' nofun nofun fun left' heq => ?_
        injection heq with heq
        exact hv heq
  | @confirmed credentials code secret user codes hc ha hv =>
    by_cases hu : user.id = userId
    · subst hu
      simp only [if_true] at he'
      obtain ⟨a, ha, hsecret, hholds⟩ := holds_confirmed codes hv
      rw [ha, Option.bind_some, hsecret, Option.map_some, Option.some.injEq] at he'
      subst he'
      exact ⟨_, by rw [hacc, ha]; rfl, hholds⟩
    · simp only [if_neg hu] at he'
      refine hsame he' nofun (fun codes' heq => ?_) nofun
      injection heq with heq
      exact hu heq

theorem staysConfirmed_of_keeps {userId : ℕ} {w : Watched} (h : Keeps userId w) : StaysConfirmed userId w := by
  intro hsome
  obtain ⟨e, he⟩ := Option.isSome_iff_exists.mp hsome
  obtain ⟨a, ha, hm⟩ := h e he
  rw [ha, Option.map_some, hm.confirmed]

theorem factorAsked_of_keeps {env : Env} {userId : ℕ} {w : Watched} {c : Call} (h : Keeps userId w) :
    FactorAsked env userId w c := by
  intro e he ht
  obtain ⟨a, ha, hm⟩ := h e he
  obtain ⟨⟨codes, heff⟩, -⟩ := (handle_tokens env w.server c userId).mp ht
  have hcause := cause env w.server c
  rw [heff] at hcause
  cases hcause with
  | rightPassword hc hj h2 =>
    obtain ⟨hrow, -, -⟩ := account_of_gate (loginGate_of_judge (.inr hj))
    obtain rfl := Option.some.inj (ha.symm.trans hrow)
    rw [hm.confirmed] at h2
    cases h2
  | secondFactor hf =>
    cases codes with
    | none =>
      obtain ⟨partialToken, code, user, hc, -, hu, hok⟩ := secondFactor_totp hf
      obtain rfl := Option.some.inj (ha.symm.trans (account_of_getUserById hu))
      rw [factorOk_of_some (activeSecret_of_holds hm)] at hok
      exact .inl ⟨partialToken, code, hc, hok⟩
    | some left =>
      obtain ⟨partialToken, code, a', before, hashed, after, hc, -, ha', hcodes, -, hv, -⟩ := secondFactor_backup hf
      obtain rfl := Option.some.inj (ha.symm.trans ha')
      obtain ⟨stored, hs, hp⟩ := hm.codes
      obtain rfl := Option.some.inj (hcodes.symm.trans hs)
      refine .inr ⟨partialToken, code, hashed, hc, hv, ?_⟩
      rw [← hp.count_eq hashed, List.count_append]
      have hpos : 0 < (before ++ hashed :: after).count hashed := List.count_pos_iff.mpr (by simp)
      omega

theorem noSetup_of_staysConfirmed {env : Env} {userId : ℕ} {w : Watched} {c : Call} {w' : Watched}
    (hs : Watched.step env userId w c = some w') (h : StaysConfirmed userId w') : NoSetup env userId w c := by
  rintro hsome credentials user hc ha rfl
  obtain ⟨hstep, hen⟩ := watched_step_cases hs
  have heff : effect env w.server c = .newSecret user.id c.draws.totpSecret := by simp only [effect, hc, ha]
  rw [enrolledAfter, heff] at hen
  have hconf := h (by rw [hen]; exact hsome)
  rw [step_account hstep, heff, Option.map_map] at hconf
  obtain ⟨a, -, hfalse⟩ := Option.map_eq_some_iff.mp hconf
  simp [Effect.onAccount] at hfalse

/-- **The second factor stays.** After a confirmation the user stays confirmed, and gets tokens for a valid
code or an unused backup code only, if and only if the user does not call `setup_2fa` any more. -/
theorem second_factor_stays_iff (env : Env) (userId : ℕ) (s : Server) (cs : List Call) :
    Along (Watched.step env userId) (fun w c w' => StaysConfirmed userId w' ∧ FactorAsked env userId w c) ⟨s, none⟩ cs ↔
      Along (Watched.step env userId) (fun w c _ => NoSetup env userId w c) ⟨s, none⟩ cs := by
  constructor
  · refine fun h => h.mono fun w c w' hs hp => ?_
    exact noSetup_of_staysConfirmed hs hp.1
  · refine fun hg => along_of_invariant (fun w c w' (h : Keeps userId w) hg hs => ?_) nofun hg
    have hkeeps := keeps_step w c w' h hg hs
    exact ⟨hkeeps, staysConfirmed_of_keeps hkeeps, factorAsked_of_keeps h⟩

theorem setup_unconfirms : ¬ Along (Watched.step plainEnv 1)
    (fun w c w' => StaysConfirmed 1 w' ∧ FactorAsked plainEnv 1 w c) ⟨adminOnly, none⟩
    [⟨0, plainDraws, .confirm2fa (some ⟨1, 0⟩) "totp K"⟩, ⟨1, plainDraws, .setup2fa (some ⟨1, 0⟩)⟩] := by
  intro h
  have hfirst := (h _ rfl).2
  have hconf := (hfirst _ rfl).1.1
  exact absurd (hconf (by decide +kernel)) (by decide +kernel)

end Cadsa.SecondFactor
