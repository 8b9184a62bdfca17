import Cadsa.Lib.Calls
import Cadsa.Api.Effects

/-! `confirm_2fa` while `setup_2fa` is called. A confirmation verifies the secret it has read, and its
write sets `totp_confirmed` whatever secret is stored by then. -/
namespace Cadsa.Enrolment
open Db Auth Calls Runs
set_option autoImplicit false

structure Input where
  now : Time
  draws : Draws

/-- The body of `confirm_2fa`, with a write of `setup_2fa` as an event. -/
def confirm (env : Env) (userId : ℕ) :
    Protocol Users String Input String (Option UserRow) (Except Response String) Response where
  load users _ := getUserById users userId
  decide input code row := verifiedSecret env input.now code row
  commit input _ d users :=
    match d with
    | .ok _ => (confirmTotp users userId (input.draws.backupCodes.map (·.2)),
        .backupCodes (input.draws.backupCodes.map (·.1)))
    | .error response => (users, response)
  event secret users := setTotpSecret users userId secret

section
variable (env : Env) (draws : Draws) (now : Time) (s : Server) {credentials : Option AccessToken} {user : UserRow}

theorem confirm2fa_alone (code : String) (h : requireAuth env now s credentials = .ok user) :
    confirm2fa env draws now s credentials code =
      ({ s with users := (alone (confirm env user.id) ⟨now, draws⟩ s.users code).1 },
        (alone (confirm env user.id) ⟨now, draws⟩ s.users code).2) := by
  simp only [confirm2fa, withUser, h, alone, confirm]
  cases verifiedSecret env now code (getUserById s.users user.id) with
  | ok secret => rfl
  | error response => rfl

theorem setup2fa_event (h : requireAuth env now s credentials = .ok user) :
    (setup2fa env draws now s credentials).1.users = (confirm env user.id).event draws.totpSecret s.users := by
  simp only [setup2fa, withUser, h, confirm]

end

abbrev Sys := System Users String (Option UserRow) (Except Response String) Response

abbrev Confirm := Call String (Option UserRow) (Except Response String) Response

def verified (c : Confirm) : Option String :=
  match c.phase with
  | .decided _ (.ok secret) => some secret
  | .finished (.ok secret) _ => some secret
  | _ => none

def toConfirm (c : Confirm) : Option String :=
  match c.phase with
  | .decided _ (.ok secret) => some secret
  | _ => none

section
variable (env : Env) (userId : ℕ)

/-- A confirmed secret was verified by some call. -/
def ConfirmedVerified (s : Sys) : Prop :=
  ∀ a, s.store.account userId = some a → a.totpConfirmed = true →
    ∃ c ∈ s.calls, ∃ secret now, a.totpSecret = some secret ∧ verified c = some secret ∧
      env.verifyTotp secret c.arg now = true

/-- The secret that is stored when a call confirms is the one that it has verified. -/
def SecretKept (s : Sys) (a : Action Input String) : Prop :=
  ∀ c ∈ turn s a, ∀ secret ∈ toConfirm c, (s.store.account userId).bind Account.totpSecret = some secret

instance (s : Sys) (a : Action Input String) : Decidable (SecretKept userId s a) :=
  inferInstanceAs (Decidable (∀ c ∈ turn s a, ∀ secret ∈ toConfirm c, _ = _))

structure Inv (s : Sys) : Prop where
  valid : ∀ c ∈ s.calls, ∀ secret, verified c = some secret → ∃ now, env.verifyTotp secret c.arg now = true
  confirmed : ConfirmedVerified env userId s

end

/-! ## One step -/

section
variable {env : Env} {userId : ℕ} {s : Sys}

theorem inv_of_same_store {before after : List Confirm} {c c' : Confirm} (hi : Inv env userId s)
    (hc : s.calls = before ++ c :: after) (hn : verified c = none)
    (hv : ∀ secret, verified c' = some secret → ∃ now, env.verifyTotp secret c'.arg now = true) :
    Inv env userId ⟨s.store, before ++ c' :: after⟩ := by
  constructor
  · intro x hx secret hs
    rcases mem_of_mem_replace (d := c) hx with rfl | hx
    · exact hv secret hs
    · exact hi.valid x (hc ▸ hx) secret hs
  · intro a ha hconf
    obtain ⟨x, hx, secret, now, hs, hver, hok⟩ := hi.confirmed a ha hconf
    refine ⟨x, mem_replace (hc ▸ hx) ?_, secret, now, hs, hver, hok⟩
    rintro rfl
    rw [hn] at hver
    cases hver

theorem inv_step (s : Sys) (a : Action Input String) (s' : Sys) (hi : Inv env userId s) (hg : SecretKept userId s a)
    (h : step (confirm env userId) s a = some s') : Inv env userId s' := by
  cases moves _ h with
  | event secret =>
    refine ⟨hi.valid, fun a ha hconf => ?_⟩
    simp only [confirm, setTotpSecret, account_update, if_true] at ha
    obtain ⟨b, -, rfl⟩ := Option.map_eq_some_iff.mp ha
    cases hconf
  | load hc ht =>
    refine inv_of_same_store hi hc rfl fun secret hs => ?_
    cases hs
  | @decide i input before after arg row hc ht =>
    refine inv_of_same_store hi hc rfl fun secret hs => ?_
    cases hd : verifiedSecret env input.now arg row with
    | error response => simp [verified, confirm, hd] at hs
    | ok secret' =>
      obtain rfl : secret' = secret := by simpa [verified, confirm, hd] using hs
      exact ⟨input.now, (verifiedSecret_ok hd).2.2⟩
  | @commit i input before after arg row d hc ht =>
    cases d with
    | error response =>
      refine inv_of_same_store hi hc rfl fun secret hs => ?_
      cases hs
    | ok secret =>
      have hkept := hg _ ht secret rfl
      obtain ⟨now, hok⟩ := hi.valid ⟨arg, .decided row (.ok secret)⟩ (by simp [hc]) secret rfl
      constructor
      · intro x hx secret' hs
        rcases mem_of_mem_replace (d := ⟨arg, .decided row (.ok secret)⟩) hx with rfl | hx
        · obtain rfl : secret = secret' := by simpa [verified] using hs
          exact ⟨now, hok⟩
        · exact hi.valid x (hc ▸ hx) secret' hs
      · intro a ha hconf
        simp only [confirm, confirmTotp, account_update, if_true] at ha
        obtain ⟨b, hb, rfl⟩ := Option.map_eq_some_iff.mp ha
        rw [hb, Option.bind_some] at hkept
        exact ⟨_, List.mem_append_right _ List.mem_cons_self, secret, now, hkept, rfl, hok⟩

end

/-- **Enrolment.** In every interleaving in which a secret is still the stored one when it is confirmed,
a confirmed secret is one that was verified. -/
theorem confirmed_was_verified (env : Env) (userId : ℕ) (users : Users) (codes : List String)
    (as : List (Action Input String)) (h0 : ∀ a, users.account userId = some a → a.totpConfirmed = false)
    (hg : Along (step (confirm env userId)) (fun s a _ => SecretKept userId s a) (start users codes) as) :
    Visited (step (confirm env userId)) (ConfirmedVerified env userId) (start users codes) as := by
  refine visited_of_invariant (fun s hi => hi.confirmed) inv_step ⟨fun c hc secret hs => ?_, fun a ha hconf => ?_⟩ hg
  · rw [verified, ready_of_mem_start hc] at hs
    cases hs
  · rw [h0 a ha] at hconf
    cases hconf

def asked : Users := setTotpSecret adminOnly.users 1 "K"

def input : Input := ⟨0, plainDraws⟩

theorem confirmed_was_verified_setup : Visited (step (confirm plainEnv 1)) (ConfirmedVerified plainEnv 1)
    (start asked ["totp L"]) (.event "L" :: List.replicate 3 (.call 0 input)) :=
  confirmed_was_verified plainEnv 1 asked _ _ (by decide +kernel) (by decide +kernel)

theorem unverified_confirmed : (asked.account 1).map Account.totpConfirmed = some false ∧
    ¬ Visited (step (confirm plainEnv 1)) (ConfirmedVerified plainEnv 1) (start asked ["totp K"])
      [.call 0 input, .call 0 input, .event "L", .call 0 input] := by
  refine ⟨by decide +kernel, fun h => ?_⟩
  obtain ⟨c, hc, secret, now, hs, hv, -⟩ := h.of_exec rfl _ rfl rfl
  obtain rfl := List.mem_singleton.mp hc
  obtain rfl : "L" = secret := Option.some.inj hs
  exact absurd hv (by decide)

end Cadsa.Enrolment
