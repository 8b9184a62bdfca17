import Cadsa.Lib.Runs
import Cadsa.Api.Auth

/-! What a request does to the users table, and for whom it issues tokens: the endpoints reduced
to one update each. `handle_users` and `handle_tokens` say that nothing is lost, and the
invariants over runs are shown from the effects alone. -/
namespace Cadsa.Auth
open Db
set_option autoImplicit false

inductive Effect where
  | none
  | failed (userId : ℕ)
  /-- A login succeeds; a backup code leaves these codes. -/
  | accepted (userId : ℕ) (codes : Option (List String))
  | newPassword (userId : ℕ) (hash : String)
  | newSecret (userId : ℕ) (secret : String)
  | confirmed (userId : ℕ) (codes : List String)
  deriving DecidableEq

def Effect.apply (now : Time) (users : Users) : Effect → Users
  | .none => users
  | .failed userId => recordLoginFailure users now userId
  | .accepted userId codes =>
    recordLoginSuccess (match codes with
      | some left => writeBackupCodes users userId left
      | .none => users) now userId
  | .newPassword userId hash => updatePassword users userId hash
  | .newSecret userId secret => setTotpSecret users userId secret
  | .confirmed userId codes => confirmTotp users userId codes

def factorOk (env : Env) (now : Time) (code : String) (user : UserRow) : Bool :=
  match activeSecret user.account with
  | some secret => env.verifyTotp secret code now
  | none => true

theorem factorOk_of_none {env : Env} {now : Time} {code : String} {user : UserRow}
    (h : activeSecret user.account = none) : factorOk env now code user = true := by
  rw [factorOk, h]

theorem factorOk_of_some {env : Env} {now : Time} {code : String} {user : UserRow} {secret : String}
    (h : activeSecret user.account = some secret) : factorOk env now code user = env.verifyTotp secret code now := by
  rw [factorOk, h]

/-- The user whose second factor the request satisfies, and the backup codes that are left. -/
def secondFactor (env : Env) (s : Server) (c : Call) : Option (ℕ × Option (List String)) :=
  match c.request with
  | .login2fa partialToken code =>
    match livePartialToken c.now s partialToken with
    | none => none
    | some userId =>
      match getUserById s.users userId with
      | none => none
      | some user => if factorOk env c.now code user then some (userId, none) else none
  | .loginBackupCode partialToken code =>
    match livePartialToken c.now s partialToken with
    | none => none
    | some userId =>
      match checkBackupCode env.verifyHash code (getUserById s.users userId) with
      | .accepted left => some (userId, some left)
      | _ => none
  | _ => none

def effect (env : Env) (s : Server) (c : Call) : Effect :=
  match c.request with
  | .login username password =>
    match judgeLogin env c.now password (getUserByUsername s.users username) with
    | .refused _ => .none
    | .wrong user => .failed user.id
    | .right user => if user.account.totpConfirmed then .none else .accepted user.id none
  | .changePassword credentials current new =>
    match requireAuth env c.now s credentials with
    | .error _ => .none
    | .ok user =>
      if (weakPassword env new).isNone && env.verifyPassword user.account.passwordHash current then
        .newPassword user.id c.draws.passwordHash
      else .none
  | .setup2fa credentials =>
    match requireAuth env c.now s credentials with
    | .error _ => .none
    | .ok user => .newSecret user.id c.draws.totpSecret
  | .confirm2fa credentials code =>
    match requireAuth env c.now s credentials with
    | .error _ => .none
    | .ok user =>
      match verifiedSecret env c.now code (getUserById s.users user.id) with
      | .error _ => .none
      | .ok _ => .confirmed user.id (c.draws.backupCodes.map (·.2))
  | _ =>
    match secondFactor env s c with
    | some (userId, codes) => .accepted userId codes
    | none => .none

def Collides (env : Env) (s : Server) (c : Call) : Prop :=
  env.sha256 c.draws.refreshToken ∈ s.refreshTokens.rows.map RefreshToken.tokenHash

theorem storeRefreshToken_none (tokens : RefreshTokens) (now : Time) (userId : ℕ) (hash : String) :
    storeRefreshToken tokens now userId hash = none ↔ hash ∈ tokens.rows.map RefreshToken.tokenHash := by
  unfold storeRefreshToken Tables.Table.insert
  split_ifs with h <;> simp_all

section
variable (env : Env) (draws : Draws) (now : Time) (s : Server) (userId : ℕ) (setup : Bool) (change : Option Bool)

theorem issueTokens_users :
    (issueTokens env draws now s userId setup change).1.users = recordLoginSuccess s.users now userId := by
  unfold issueTokens
  dsimp only
  split <;> rfl

theorem issueTokens_tokens (v : ℕ) : (issueTokens env draws now s userId setup change).2.tokensFor = some v ↔
    userId = v ∧ env.sha256 draws.refreshToken ∉ s.refreshTokens.rows.map RefreshToken.tokenHash := by
  rw [← storeRefreshToken_none s.refreshTokens now userId]
  unfold issueTokens
  dsimp only
  cases storeRefreshToken s.refreshTokens now userId (env.sha256 draws.refreshToken) with
  | none => simp [Response.tokensFor]
  | some tokens => simp [Response.tokensFor]

end

/-! ## The endpoints against their effects -/

def Shows (env : Env) (s : Server) (c : Call) (r : Server × Response) (e : Effect) : Prop :=
  r.1.users = e.apply c.now s.users ∧
    ∀ userId, r.2.tokensFor = some userId ↔ (∃ codes, e = .accepted userId codes) ∧ ¬ Collides env s c

section
variable {env : Env} {s : Server} {c : Call}

theorem shows_no_tokens {r : Server × Response} {e : Effect} (hu : r.1.users = e.apply c.now s.users)
    (hr : r.2.tokensFor = none) (he : ∀ userId codes, e ≠ .accepted userId codes) : Shows env s c r e := by
  refine ⟨hu, fun userId => ?_⟩
  rw [hr]
  exact ⟨nofun, fun ⟨⟨codes, h⟩, _⟩ => absurd h (he userId codes)⟩

theorem shows_refusal {s' : Server} {r : Response} (hu : s'.users = s.users) (hr : r.tokensFor = none) :
    Shows env s c (s', r) .none := shows_no_tokens hu hr nofun

theorem shows_issue {s' : Server} {userId : ℕ} {codes : Option (List String)} {setup : Bool} {change : Option Bool}
    (hu : recordLoginSuccess s'.users c.now userId = (Effect.accepted userId codes).apply c.now s.users)
    (ht : s'.refreshTokens = s.refreshTokens) :
    Shows env s c (issueTokens env c.draws c.now s' userId setup change) (.accepted userId codes) := by
  refine ⟨(issueTokens_users ..).trans hu, fun v => ?_⟩
  rw [issueTokens_tokens, ht]
  refine and_congr_left fun _ => ⟨?_, ?_⟩
  · rintro rfl
    exact ⟨codes, rfl⟩
  · rintro ⟨_, h⟩
    injection h

theorem requireAuth_error {now : Time} {credentials : Option AccessToken} {response : Response}
    (h : requireAuth env now s credentials = .error response) : response.tokensFor = none := by
  unfold requireAuth at h
  split at h
  · cases h
    rfl
  · split_ifs at h
    · split at h <;> cases h
      rfl
    · cases h
      rfl

theorem shows_withUser {credentials : Option AccessToken} {endpoint : UserRow → Server × Response}
    {e : UserRow → Effect} (h : ∀ user, Shows env s c (endpoint user) (e user)) :
    Shows env s c (withUser env c.now s credentials endpoint)
      (match requireAuth env c.now s credentials with
        | .error _ => .none
        | .ok user => e user) := by
  unfold withUser
  cases hr : requireAuth env c.now s credentials with
  | ok user => exact h user
  | error response => exact shows_refusal rfl (requireAuth_error hr)

theorem shows_withUser_none {credentials : Option AccessToken} {endpoint : UserRow → Server × Response}
    (h : ∀ user, Shows env s c (endpoint user) .none) :
    Shows env s c (withUser env c.now s credentials endpoint) .none := by
  unfold withUser
  cases hr : requireAuth env c.now s credentials with
  | ok user => exact h user
  | error response => exact shows_refusal rfl (requireAuth_error hr)

theorem judgeLogin_refused {now : Time} {password : String} {row : Option UserRow} {response : Response}
    (h : judgeLogin env now password row = .refused response) : response.tokensFor = none := by
  unfold judgeLogin at h
  split at h
  · next hg =>
    cases h
    unfold loginGate at hg
    split at hg
    · cases hg
      rfl
    · split_ifs at hg <;> cases hg <;> rfl
  · split_ifs at h

theorem verifiedSecret_error {now : Time} {code : String} {row : Option UserRow} {response : Response}
    (h : verifiedSecret env now code row = .error response) : response.tokensFor = none := by
  unfold verifiedSecret at h
  split at h
  · cases h
    rfl
  · split_ifs at h
    cases h
    rfl

end

section
variable (env : Env) (s : Server) (now : Time) (draws : Draws)

theorem shows_login (username password : String) :
    Shows env s ⟨now, draws, .login username password⟩ (login env draws now s username password)
      (effect env s ⟨now, draws, .login username password⟩) := by
  unfold login effect
  dsimp only
  cases hj : judgeLogin env now password (getUserByUsername s.users username) with
  | refused response => exact shows_refusal rfl (judgeLogin_refused hj)
  | wrong user => exact shows_no_tokens rfl rfl nofun
  | right user =>
    dsimp only
    cases user.account.totpConfirmed with
    | true => exact shows_refusal rfl rfl
    | false => exact shows_issue rfl rfl

theorem shows_login2fa (partialToken code : String) :
    Shows env s ⟨now, draws, .login2fa partialToken code⟩ (login2fa env draws now s partialToken code)
      (effect env s ⟨now, draws, .login2fa partialToken code⟩) := by
  unfold login2fa effect secondFactor
  dsimp only [dropPartialToken]
  cases livePartialToken now s partialToken with
  | none => exact shows_refusal rfl rfl
  | some userId =>
    dsimp only
    cases getUserById s.users userId with
    | none => exact shows_refusal rfl rfl
    | some user =>
      dsimp only
      cases ha : activeSecret user.account with
      | none =>
        rw [factorOk_of_none ha, if_pos rfl]
        exact shows_issue rfl rfl
      | some secret =>
        rw [factorOk_of_some ha]
        dsimp only
        cases env.verifyTotp secret code now with
        | true => exact shows_issue rfl rfl
        | false => exact shows_refusal rfl rfl

theorem shows_loginBackupCode (partialToken code : String) :
    Shows env s ⟨now, draws, .loginBackupCode partialToken code⟩ (loginBackupCode env draws now s partialToken code)
      (effect env s ⟨now, draws, .loginBackupCode partialToken code⟩) := by
  unfold loginBackupCode effect secondFactor
  dsimp only [dropPartialToken]
  cases livePartialToken now s partialToken with
  | none => exact shows_refusal rfl rfl
  | some userId =>
    dsimp only
    cases checkBackupCode env.verifyHash code (getUserById s.users userId) with
    | accepted left => exact shows_issue rfl rfl
    | refused => exact shows_refusal rfl rfl
    | raised => exact shows_refusal rfl rfl

theorem shows_changePassword (credentials : Option AccessToken) (current new : String) :
    Shows env s ⟨now, draws, .changePassword credentials current new⟩
      (changePassword env draws now s credentials current new)
      (effect env s ⟨now, draws, .changePassword credentials current new⟩) := by
  refine shows_withUser fun user => ?_
  cases weakPassword env new with
  | some message => exact shows_refusal rfl rfl
  | none =>
    dsimp only [Option.isNone_none, Bool.true_and]
    cases env.verifyPassword user.account.passwordHash current with
    | true => exact shows_no_tokens rfl rfl nofun
    | false => exact shows_refusal rfl rfl

theorem shows_confirm2fa (credentials : Option AccessToken) (code : String) :
    Shows env s ⟨now, draws, .confirm2fa credentials code⟩ (confirm2fa env draws now s credentials code)
      (effect env s ⟨now, draws, .confirm2fa credentials code⟩) := by
  refine shows_withUser fun user => ?_
  cases hv : verifiedSecret env now code (getUserById s.users user.id) with
  | ok secret => exact shows_no_tokens rfl rfl nofun
  | error response => exact shows_refusal rfl (verifiedSecret_error hv)

theorem shows_refresh (token : String) :
    Shows env s ⟨now, draws, .refresh token⟩ (refreshToken env now s token) .none := by
  unfold refreshToken
  split
  · exact shows_refusal rfl rfl
  · split <;> exact shows_refusal rfl rfl

/-- **The endpoints do what their effects say** to the users table, and issue tokens to those
whose login succeeds. -/
theorem handle_shows (c : Call) : Shows env s c (handle env s c) (effect env s c) := by
  obtain ⟨now, draws, request⟩ := c
  cases request with
  | login username password => exact shows_login env s now draws username password
  | login2fa partialToken code => exact shows_login2fa env s now draws partialToken code
  | loginBackupCode partialToken code => exact shows_loginBackupCode env s now draws partialToken code
  | refresh token => exact shows_refresh env s now draws token
  | logout credentials token => exact shows_withUser_none fun _ => shows_refusal rfl rfl
  | changePassword credentials current new => exact shows_changePassword env s now draws credentials current new
  | setup2fa credentials => exact shows_withUser fun _ => shows_no_tokens rfl rfl nofun
  | confirm2fa credentials code => exact shows_confirm2fa env s now draws credentials code
  | me credentials => exact shows_withUser_none fun _ => shows_refusal rfl rfl

theorem handle_users (c : Call) : (handle env s c).1.users = (effect env s c).apply c.now s.users :=
  (handle_shows env s c).1

theorem handle_tokens (c : Call) (userId : ℕ) : (handle env s c).2.tokensFor = some userId ↔
    (∃ codes, effect env s c = .accepted userId codes) ∧ ¬ Collides env s c := (handle_shows env s c).2 userId

end

/-! ## What is behind an effect -/

/-- The request and the checks that lead to an effect. -/
inductive Cause (env : Env) (s : Server) (c : Call) : Effect → Prop where
  | nothing : Cause env s c .none
  | wrongPassword {username password : String} {user : UserRow} (hc : c.request = .login username password)
      (hj : judgeLogin env c.now password (getUserByUsername s.users username) = .wrong user) :
      Cause env s c (.failed user.id)
  | rightPassword {username password : String} {user : UserRow} (hc : c.request = .login username password)
      (hj : judgeLogin env c.now password (getUserByUsername s.users username) = .right user)
      (h2 : user.account.totpConfirmed = false) : Cause env s c (.accepted user.id none)
  | secondFactor {userId : ℕ} {codes : Option (List String)} (h : secondFactor env s c = some (userId, codes)) :
      Cause env s c (.accepted userId codes)
  | newPassword {credentials : Option AccessToken} {current new : String} {user : UserRow} (hash : String)
      (hc : c.request = .changePassword credentials current new)
      (ha : requireAuth env c.now s credentials = .ok user) : Cause env s c (.newPassword user.id hash)
  | newSecret {credentials : Option AccessToken} {user : UserRow} (secret : String)
      (hc : c.request = .setup2fa credentials)
      (ha : requireAuth env c.now s credentials = .ok user) : Cause env s c (.newSecret user.id secret)
  | confirmed {credentials : Option AccessToken} {code secret : String} {user : UserRow} (codes : List String)
      (hc : c.request = .confirm2fa credentials code)
      (ha : requireAuth env c.now s credentials = .ok user)
      (hv : verifiedSecret env c.now code (getUserById s.users user.id) = .ok secret) :
      Cause env s c (.confirmed user.id codes)

theorem cause (env : Env) (s : Server) (c : Call) : Cause env s c (effect env s c) := by
  unfold effect
  split
  · next hc =>
    split
    · exact .nothing
    · next hj => exact .wrongPassword hc hj
    · next hj =>
      split_ifs with h2
      · exact .nothing
      · exact .rightPassword hc hj (by simpa using h2)
  · next hc =>
    split
    · exact .nothing
    · next ha =>
      split_ifs
      · exact .newPassword _ hc ha
      · exact .nothing
  · next hc =>
    split
    · exact .nothing
    · next ha => exact .newSecret _ hc ha
  · next hc =>
    split
    · exact .nothing
    · next ha =>
      split
      · exact .nothing
      · next hv => exact .confirmed _ hc ha hv
  · split
    · next h => exact .secondFactor h
    · exact .nothing

section
variable {env : Env} {s : Server}

theorem loginGate_ok {now : Time} {row : Option UserRow} {user : UserRow} (h : loginGate now row = .ok user) :
    row = some user ∧ lockedAt now user.account = false ∧ user.account.isActive = true := by
  unfold loginGate at h
  split at h
  · cases h
  · split_ifs at h with hl ha
    cases h
    exact ⟨rfl, by simpa using hl, by simpa using ha⟩

theorem loginGate_of_judge {now : Time} {password : String} {row : Option UserRow} {user : UserRow}
    (h : judgeLogin env now password row = .wrong user ∨ judgeLogin env now password row = .right user) :
    loginGate now row = .ok user := by
  unfold judgeLogin at h
  cases hg : loginGate now row with
  | error response => simp [hg] at h
  | ok found =>
    simp only [hg] at h
    split_ifs at h with hv
    · obtain h | h := h
      · cases h
      · cases h
        rfl
    · obtain h | h := h
      · cases h
        rfl
      · cases h

theorem account_of_gate {now : Time} {username : String} {user : UserRow}
    (h : loginGate now (getUserByUsername s.users username) = .ok user) :
    s.users.account user.id = some user.account ∧ lockedAt now user.account = false ∧
      user.account.isActive = true := by
  obtain ⟨hrow, hl, ha⟩ := loginGate_ok h
  exact ⟨account_of_username hrow, hl, ha⟩

theorem verifiedSecret_ok {now : Time} {code secret : String} {row : Option UserRow}
    (h : verifiedSecret env now code row = .ok secret) :
    row.bind (·.account.totpSecret) = some secret ∧ secret ≠ "" ∧ env.verifyTotp secret code now = true := by
  unfold verifiedSecret at h
  split at h
  · cases h
  · next hf =>
    split_ifs at h with hv
    cases h
    obtain ⟨hs, hne⟩ := Option.filter_eq_some_iff.mp hf
    exact ⟨hs, by simpa using hne, hv⟩

theorem secondFactor_totp {c : Call} {userId : ℕ} (h : secondFactor env s c = some (userId, none)) :
    ∃ partialToken code user, c.request = .login2fa partialToken code ∧
      livePartialToken c.now s partialToken = some userId ∧ getUserById s.users userId = some user ∧
      factorOk env c.now code user = true := by
  unfold secondFactor at h
  split at h
  · next partialToken code hc =>
    split at h
    · cases h
    · next hp =>
      split at h
      · cases h
      · next user hu =>
        split_ifs at h with hf
        cases h
        exact ⟨partialToken, code, user, hc, hp, hu, hf⟩
  · split at h
    · cases h
    · split at h <;> cases h
  · cases h

theorem secondFactor_backup {c : Call} {userId : ℕ} {left : List String}
    (h : secondFactor env s c = some (userId, some left)) :
    ∃ partialToken code a before hashed after, c.request = .loginBackupCode partialToken code ∧
      livePartialToken c.now s partialToken = some userId ∧ s.users.account userId = some a ∧
      a.backupCodes = some (before ++ hashed :: after) ∧ left = before ++ after ∧
      env.verifyHash hashed code = .ok ∧ ∀ g ∈ before, env.verifyHash g code = .mismatch := by
  unfold secondFactor at h
  split at h
  · split at h
    · cases h
    · split at h
      · cases h
      · split_ifs at h
        cases h
  · next partialToken code hc =>
    split at h
    · cases h
    · next hp =>
      split at h
      · next hacc =>
        cases h
        obtain ⟨before, hashed, after, hrow, hleft, hv, hb⟩ := checkBackupCode_accepted hacc
        obtain ⟨user, hu, hcodes⟩ := Option.bind_eq_some_iff.mp hrow
        exact ⟨partialToken, code, user.account, before, hashed, after, hc, hp, account_of_getUserById hu, hcodes,
          hleft, hv, hb⟩
      · cases h
  · cases h

end

theorem effect_of_secondFactor {env : Env} {s : Server} {c : Call} {userId : ℕ} {codes : Option (List String)}
    (h : secondFactor env s c = some (userId, codes)) : effect env s c = .accepted userId codes := by
  have hc := h
  unfold secondFactor at hc
  unfold effect
  split at hc
  · next hr => simp only [hr, h]
  · next hr => simp only [hr, h]
  · cases hc

/-! ## One account -/

def Effect.onAccount (userId : ℕ) (now : Time) (a : Account) : Effect → Account
  | .none => a
  | .failed v => if userId = v then a.fail now else a
  | .accepted v codes =>
    if userId = v then { a with
      backupCodes := codes <|> a.backupCodes, lastLogin := some now, failedAttempts := 0, lockedUntil := Option.none }
    else a
  | .newPassword v hash => if userId = v then { a with passwordHash := hash, mustChangePassword := false } else a
  | .newSecret v secret => if userId = v then { a with totpSecret := some secret, totpConfirmed := false } else a
  | .confirmed v codes => if userId = v then { a with totpConfirmed := true, backupCodes := some codes } else a

theorem account_apply (e : Effect) (now : Time) (users : Users) (userId : ℕ) :
    (e.apply now users).account userId = (users.account userId).map fun a => e.onAccount userId now a := by
  cases e with
  | none => simp [Effect.apply, Effect.onAccount]
  | accepted v codes =>
    cases codes <;> by_cases h : userId = v <;>
      simp [Effect.apply, Effect.onAccount, recordLoginSuccess, writeBackupCodes, h, Function.comp_def]
  | failed v => by_cases h : userId = v <;> simp [Effect.apply, Effect.onAccount, recordLoginFailure, h]
  | newPassword v hash => by_cases h : userId = v <;> simp [Effect.apply, Effect.onAccount, updatePassword, h]
  | newSecret v secret => by_cases h : userId = v <;> simp [Effect.apply, Effect.onAccount, setTotpSecret, h]
  | confirmed v codes => by_cases h : userId = v <;> simp [Effect.apply, Effect.onAccount, confirmTotp, h]

theorem account_handle (env : Env) {s : Server} (c : Call) {userId : ℕ} {a : Account}
    (ha : s.users.account userId = some a) :
    (handle env s c).1.users.account userId = some ((effect env s c).onAccount userId c.now a) := by
  rw [handle_users, account_apply, ha]
  rfl

theorem no_tokens_of_effect {env : Env} {s : Server} {c : Call} {e : Effect} {userId : ℕ}
    (he : effect env s c = e) (hn : ∀ codes, e ≠ .accepted userId codes) :
    (handle env s c).2.tokensFor ≠ some userId := by
  rw [ne_eq, handle_tokens, he]
  exact fun ⟨⟨codes, h⟩, _⟩ => hn codes h

theorem step_of_le {env : Env} {s : Server} {c : Call} (h : s.clock ≤ c.now) :
    step env s c = some { (handle env s c).1 with clock := c.now } := if_pos h

theorem step_account {env : Env} {s s' : Server} {c : Call} (h : step env s c = some s') (userId : ℕ) :
    s'.users.account userId = (s.users.account userId).map fun a => (effect env s c).onAccount userId c.now a := by
  unfold step at h
  split_ifs at h
  cases h
  change (handle env s c).1.users.account userId = _
  rw [handle_users, account_apply]

theorem onAccount_lock {e : Effect} {userId : ℕ} (hf : e ≠ .failed userId)
    (ha : ∀ codes, e ≠ .accepted userId codes) (now : Time) (a : Account) :
    (e.onAccount userId now a).failedAttempts = a.failedAttempts ∧
      (e.onAccount userId now a).lockedUntil = a.lockedUntil := by
  cases e with
  | none => exact ⟨rfl, rfl⟩
  | failed v =>
    have hv : userId ≠ v := fun h => hf (h ▸ rfl)
    simp [Effect.onAccount, hv]
  | accepted v codes =>
    have hv : userId ≠ v := fun h => ha codes (h ▸ rfl)
    simp [Effect.onAccount, hv]
  | newPassword v hash => by_cases hv : userId = v <;> simp [Effect.onAccount, hv]
  | newSecret v secret => by_cases hv : userId = v <;> simp [Effect.onAccount, hv]
  | confirmed v codes => by_cases hv : userId = v <;> simp [Effect.onAccount, hv]

/-! ## A server with one user -/

/-- Libraries that are easy to compute: a hash is the text with a mark in front. -/
def plainEnv : Env where
  verifyPassword hash password := hash = "#" ++ password
  verifyHash hash code := if hash = "#" ++ code then .ok else .mismatch
  verifyTotp secret code _ := code = "totp " ++ secret
  provisioningUri secret username := "otpauth://totp/cadsa:" ++ username ++ "?secret=" ++ secret
  sha256 token := token
  acceptsToken token now := now < token.iat + minutes 15
  isUpper := Char.isUpper
  isDigit := Char.isDigit

def admin : UserRow := ⟨1, "admin", none, ⟨"#pw", true, false, some "K", true, some ["#c1", "#c2"], none, 0, none⟩⟩

def adminOnly : Server where
  clock := 0
  users := ⟨⟨[admin], by decide⟩, by decide⟩
  refreshTokens := ⟨[], by decide⟩
  partialTokens _ := none

def plainDraws : Draws := ⟨"p", "r", "L", "#new", [("c3", "#c3")]⟩

end Cadsa.Auth
