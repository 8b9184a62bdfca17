import Cadsa.Api.Effects

/-! What a user who has not changed the first password, or has not confirmed a second factor, can reach.
The endpoints of the routers other than `/auth` stand behind `require_auth`, the socket behind
`require_auth_ws`; what they do is a parameter, as neither guard passes anything of the user on to them. -/
namespace Cadsa.Onboarding
open Db Auth Runs
set_option autoImplicit false

/-- The endpoints that take a `CurrentUser`, those of `api/auth.py` apart. -/
inductive Endpoint where
  -- analytics.py
  | getOverview | getTimeseries | getTopPaths | getTopIps | getTopCountries | getDistinctCountries | getStatusCodes
  | getPerformance | getBandwidth | getBrowsers | getDevices | getReferers | getHosts | getGeo | getIpDetail
  | getPathsByStatus | getRequests | getTopCities | getOs | getHostPatterns | getSlowestPaths | getRequestDetail
  -- alerts.py
  | listRules | createRule | updateRule | deleteRule | testRule | getHistory
  -- settings.py
  | getSettings | patchSettings | getLogSources | testLogSource | triggerGeoipUpdate | testEmail | testWebhook
  | getSystemInfo
  -- security_api.py
  | getSecurityEvents | getSecurityEvent | getTopThreats | getIpStatus | getIpProfile | createWhitelistEntry
  | listWhitelist | deleteWhitelistEntry | createBlocklistEntry | listBlocklist | deleteBlocklistEntry
  deriving DecidableEq

inductive Request where
  | auth (c : Call)
  | guarded (now : Time) (credentials : Option AccessToken) (endpoint : Endpoint)
  | websocketRealtime (now : Time) (token : Option AccessToken)

def Request.now : Request → Time
  | .auth c => c.now
  | .guarded now _ _ => now
  | .websocketRealtime now _ => now

/-- The access token that a guard looks at. -/
def Request.bearer : Request → Option AccessToken
  | .auth _ => none
  | .guarded _ credentials _ => credentials
  | .websocketRealtime _ token => token

inductive Reply (β : Type) where
  | response (response : Response)
  | closed (code : ℕ)
  | served (result : β)
  | accepted

def Reply.refuses {β : Type} : Reply β → Bool
  | .response (.error _ _) => true
  | .closed _ => true
  | _ => false

/-- `ω`: what the guarded endpoints work on. No user is in it. -/
structure App (ω : Type) where
  server : Server
  rest : ω

def requireAuthWs (env : Env) (now : Time) (s : Server) (token : Option AccessToken) : Option UserRow :=
  token.bind fun token =>
    if env.acceptsToken token now then (getUserById s.users token.sub).filter (·.account.isActive) else none

section
variable {ω β : Type} (env : Env) (serve : Endpoint → ω → ω × β)

def perform (app : App ω) : Request → App ω × Reply β
  | .auth c => ({ app with server := (handle env app.server c).1 }, .response (handle env app.server c).2)
  | .guarded now credentials endpoint =>
    match requireAuth env now app.server credentials with
    | .error response => (app, .response response)
    | .ok _ => ({ app with rest := (serve endpoint app.rest).1 }, .served (serve endpoint app.rest).2)
  | .websocketRealtime now token =>
    match requireAuthWs env now app.server token with
    | none => (app, .closed 4001)
    | some _ => (app, .accepted)

/-- One request; the clock never goes back. -/
def step (app : App ω) (r : Request) : Option (App ω) :=
  if app.server.clock ≤ r.now then
    some { (perform env serve app r).1 with server := { (perform env serve app r).1.server with clock := r.now } }
  else none

/-- The first password has not been changed, or the second factor has not been confirmed. -/
def unfinished (a : Account) : Bool := a.mustChangePassword || !a.totpConfirmed

/-- A request with the token of a user who is not through is refused. -/
def Refuses (app : App ω) (r : Request) : Prop :=
  ∀ token a, r.bearer = some token → app.server.users.account token.sub = some a → unfinished a = true →
    (perform env serve app r).2.refuses = true

/-- The token of a user who is not through is no longer valid, or the user has been deactivated. -/
def ShutOut (app : App ω) (r : Request) : Prop :=
  ∀ token a, r.bearer = some token → app.server.users.account token.sub = some a → unfinished a = true →
    env.acceptsToken token r.now = false ∨ a.isActive = false

end

/-! ## The guards -/

section
variable (env : Env) (now : Time) (s : Server)

/-- A guard lets a token through that is valid and of an active user. -/
def admits (token : AccessToken) : Bool :=
  env.acceptsToken token now && ((s.users.account token.sub).map Account.isActive).getD false

theorem filter_active (userId : ℕ) : ((getUserById s.users userId).filter (·.account.isActive)).isSome =
    ((s.users.account userId).map Account.isActive).getD false := by
  rw [Users.account]
  cases getUserById s.users userId with
  | none => rfl
  | some user => cases hactive : user.account.isActive <;> simp [hactive]

theorem requireAuth_admits (token : AccessToken) :
    (∃ user, requireAuth env now s (some token) = .ok user) ↔ admits env now s token = true := by
  simp only [requireAuth, admits, ← filter_active]
  cases env.acceptsToken token now with
  | false => simp
  | true => cases (getUserById s.users token.sub).filter (·.account.isActive) <;> simp

theorem requireAuthWs_admits (token : AccessToken) :
    (requireAuthWs env now s (some token)).isSome = admits env now s token := by
  simp only [requireAuthWs, admits, ← filter_active, Option.bind_some]
  cases env.acceptsToken token now <;> simp

theorem requireAuth_error_refuses {β : Type} {credentials : Option AccessToken} {response : Response}
    (h : requireAuth env now s credentials = .error response) : (Reply.response response : Reply β).refuses = true := by
  unfold requireAuth at h
  split at h
  · cases h
    rfl
  · split_ifs at h
    · split at h
      · cases h
        rfl
      · cases h
    · cases h
      rfl

end

section
variable {ω β : Type} {env : Env} {serve : Endpoint → ω → ω × β} {app : App ω} {r : Request}

/-- Whoever the user is, a guard looks at the token and at `is_active`. -/
theorem refuses_iff {token : AccessToken} (h : r.bearer = some token) :
    (perform env serve app r).2.refuses = true ↔ admits env r.now app.server token = false := by
  cases r with
  | auth c => cases h
  | guarded now credentials endpoint =>
    obtain rfl : credentials = some token := h
    rw [← Bool.not_eq_true, Request.now, ← requireAuth_admits, perform]
    cases hauth : requireAuth env now app.server (some token) with
    | error response => simp [requireAuth_error_refuses env now app.server hauth]
    | ok user => simp [Reply.refuses]
  | websocketRealtime now credentials =>
    obtain rfl : credentials = some token := h
    rw [Request.now, ← requireAuthWs_admits, perform]
    cases requireAuthWs env now app.server (some token) with
    | none => simp [Reply.refuses]
    | some user => simp [Reply.refuses]

theorem refuses_iff_shutOut : Refuses env serve app r ↔ ShutOut env app r := by
  refine forall_congr' fun token => forall_congr' fun a => forall_congr' fun hbearer => forall_congr' fun ha =>
    forall_congr' fun _ => ?_
  rw [refuses_iff hbearer, admits, ha, Bool.and_eq_false_iff]
  rfl

end

/-- **Onboarding.** Along a run the guarded endpoints refuse the users who are not through with it if and only
if these come with tokens that are no longer valid, or have been deactivated: the guards do not look at
`must_change_password` and `totp_confirmed`. -/
theorem onboarding_gate_iff {ω β : Type} (env : Env) (serve : Endpoint → ω → ω × β) (app : App ω) (rs : List Request) :
    Along (step env serve) (fun app r _ => Refuses env serve app r) app rs ↔
      Along (step env serve) (fun app r _ => ShutOut env app r) app rs :=
  along_congr fun _ _ _ => refuses_iff_shutOut

/-! ## Whatever came before -/

section
variable {ω β : Type} {env : Env} {serve : Endpoint → ω → ω × β} {userId : ℕ}

def Active (userId : ℕ) (s : Server) : Prop := (s.users.account userId).map Account.isActive = some true

theorem onAccount_isActive (e : Effect) (now : Time) (a : Account) : (e.onAccount userId now a).isActive = a.isActive := by
  cases e with
  | none => rfl
  | failed v => by_cases hv : userId = v <;> simp [Effect.onAccount, Account.fail, hv]
  | accepted v codes => by_cases hv : userId = v <;> simp [Effect.onAccount, hv]
  | newPassword v hash => by_cases hv : userId = v <;> simp [Effect.onAccount, hv]
  | newSecret v secret => by_cases hv : userId = v <;> simp [Effect.onAccount, hv]
  | confirmed v codes => by_cases hv : userId = v <;> simp [Effect.onAccount, hv]

theorem active_step (app : App ω) (r : Request) (app' : App ω) (ha : Active userId app.server)
    (h : step env serve app r = some app') : Active userId app'.server := by
  rw [step] at h
  split_ifs at h
  cases h
  cases r with
  | auth c =>
    obtain ⟨a, hacc, hactive⟩ := Option.map_eq_some_iff.mp ha
    change ((handle env app.server c).1.users.account userId).map Account.isActive = some true
    rw [account_handle env c hacc, Option.map_some, onAccount_isActive, hactive]
  | guarded now credentials endpoint =>
    rw [perform]
    cases requireAuth env now app.server credentials with
    | error response => exact ha
    | ok user => exact ha
  | websocketRealtime now token =>
    rw [perform]
    cases requireAuthWs env now app.server token with
    | none => exact ha
    | some user => exact ha

/-- No endpoint deactivates a user, and so none takes the guarded endpoints from an active one: after any run
they serve every valid token, however far the user has come with the onboarding. -/
theorem valid_tokens_pass {app app' : App ω} {rs : List Request} (ha : Active userId app.server)
    (h : exec (step env serve) app rs = some app') {r : Request} {token : AccessToken} (hbearer : r.bearer = some token)
    (hsub : token.sub = userId) (hvalid : env.acceptsToken token r.now = true) :
    (perform env serve app' r).2.refuses = false := by
  have hactive : Active userId app'.server :=
    exec_invariant (fun app r app' ha (_ : True) h => active_step app r app' ha h) ha
      (along_of_mem (fun _ _ _ _ => trivial) app) h
  rw [← Bool.not_eq_true, refuses_iff hbearer, admits, hvalid, hsub, hactive]
  simp

end

/-! ## The first login -/

/-- `_ensure_admin_user`: the password is `admin`, and it has to be changed. -/
def freshAdmin : UserRow := ⟨1, "admin", some "", ⟨"#admin", true, true, none, false, none, none, 0, none⟩⟩

def freshApp : App Unit where
  server := ⟨0, ⟨⟨[freshAdmin], List.nodup_singleton _⟩, List.nodup_singleton _⟩, ⟨[], List.nodup_nil⟩, fun _ => none⟩
  rest := ()

def firstLogin : Request := .auth ⟨0, plainDraws, .login "admin" "admin"⟩

def firstSettings : Request := .guarded 1 (some ⟨1, 0⟩) .getSettings

/-- The settings, before the password is changed and without a second factor. -/
theorem onboarding_skipped :
    (perform plainEnv (fun _ app => (app, ())) freshApp firstLogin).2 = .response (.tokens ⟨1, 0⟩ "r" true (some true)) ∧
    ¬ Along (step plainEnv fun _ app => (app, ())) (fun app r _ => Refuses plainEnv (fun _ app => (app, ())) app r)
      freshApp ([firstLogin] ++ [firstSettings]) := by
  refine ⟨by simp only [perform, firstLogin]; exact congrArg Reply.response (by decide +kernel), ?_⟩
  have hrun : (exec (step plainEnv fun _ app => (app, ())) freshApp [firstLogin]).map (fun app => (app.server.clock,
      (app.server.users.account 1).map unfinished,
      (perform plainEnv (fun _ app => (app, ())) app firstSettings).2.refuses)) = some (0, some true, false) := by
    decide +kernel
  obtain ⟨m, hm, hfacts⟩ := Option.map_eq_some_iff.mp hrun
  simp only [Prod.mk.injEq] at hfacts
  obtain ⟨hclock, hunfinished, hserved⟩ := hfacts
  obtain ⟨a, ha, hu⟩ := Option.map_eq_some_iff.mp hunfinished
  have hstep : ∃ m', step plainEnv (fun _ app => (app, ())) m firstSettings = some m' :=
    ⟨_, if_pos (by rw [hclock]; decide)⟩
  obtain ⟨m', hstep⟩ := hstep
  refine not_along_concat hm hstep fun h => ?_
  rw [h ⟨1, 0⟩ a rfl ha hu] at hserved
  exact Bool.false_ne_true hserved.symm

end Cadsa.Onboarding
