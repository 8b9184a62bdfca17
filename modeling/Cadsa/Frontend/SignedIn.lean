import Cadsa.Api.Onboarding
import Cadsa.Frontend.Refresh

/-! A browser and the server: the client of `lib/api.ts` with the session that a login has given it, and `/auth/refresh`
at the other end of the wire, which loses no answer. Whatever the page asks for, and in whatever order answers arrive,
the client stays signed in until the refresh token expires or is revoked. -/
namespace Cadsa.Frontend.SignedIn
open Db Runs Tables
set_option autoImplicit false

/-- The text of an access token. -/
abbrev Text := Auth.AccessToken → String

/-- The browser, the server, and what the server has answered to each refresh. -/
structure System where
  world : Api.World
  server : Auth.Server
  answers : ℕ → Option Auth.Response

/-! ## What arrives of an answer -/

def statusOf : Auth.Response → ℕ
  | .error status _ => status
  | .invalid _ => 422
  | .serverError => 500
  | _ => 200

def bodyOf (text : Text) : Auth.Response → Api.RefreshBody
  | .access token => .data (some (text token))
  | .tokens token _ _ _ => .data (some (text token))
  | _ => .data none

/-! ## Steps -/

inductive Event
  /-- Of the page, and of the answers to its calls. -/
  | browser (a : Api.Action)
  /-- A request of anyone. -/
  | serve (c : Auth.Call)
  /-- The server takes a refresh off the wire. -/
  | refresh (p : ℕ) (now : Time) (draws : Auth.Draws)
  /-- Its answer arrives. -/
  | arrive (p : ℕ)
  /-- And is read. -/
  | read (p : ℕ)

/-- Not a login, a logout or an answer to a refresh. -/
def ofPage : Api.Action → Bool
  | .fetch _ => true
  | .initSession => true
  | .registerUnauthorizedHandler => true
  | .reply _ _ => true
  | .resume _ => true
  | .body _ _ => true
  | _ => false

def step (env : Auth.Env) (text : Text) (t : System) : Event → Option System
  | .browser a => if ofPage a then (Api.step t.world a).map fun world => { t with world } else none
  | .serve c => (Auth.step env t.server c).map fun server => { t with server }
  | .refresh p now draws =>
    match t.world.refreshes[p]?, t.answers p with
    | some r, none =>
      let c : Auth.Call := ⟨now, draws, .refresh r.token⟩
      (Auth.step env t.server c).map fun server =>
        { t with server, answers := Function.update t.answers p (some (Auth.handle env t.server c).2) }
    | _, _ => none
  | .arrive p => (t.answers p).bind fun response =>
      (Api.step t.world (.refreshReply p (.status (statusOf response)))).map fun world => { t with world }
  | .read p => (t.answers p).bind fun response =>
      (Api.step t.world (.refreshBody p (bodyOf text response))).map fun world => { t with world }

/-! ## A session -/

/-- A session: whose it is, its refresh token, and when that expires. -/
structure Session where
  userId : ℕ
  token : String
  expires : Time

section
variable (env : Auth.Env) (text : Text) (σ : Session)

/-- The server knows the session. -/
structure Alive (s : Auth.Server) : Prop where
  row : s.refreshTokens.find (env.sha256 σ.token) = some ⟨σ.userId, env.sha256 σ.token, σ.expires, false⟩
  active : Onboarding.Active σ.userId s

/-- The client holds it, with an access token that the server has given for this user. -/
structure Held (clock : Time) (w : Api.World) : Prop where
  refreshToken : w.refreshToken = σ.token
  stored : w.stored = some σ.token
  accessToken : ∃ iat ≤ clock, w.accessToken = some (text ⟨σ.userId, iat⟩)

/-- No refresh is under way, and no call waits for one. -/
structure Idle (w : Api.World) : Prop where
  promise : w.refreshPromise = none
  refreshes : ∀ r ∈ w.refreshes, r.pending = false
  calls : ∀ c ∈ w.calls, ∀ o, c.pc ≠ .awaiting o

/-- Up to its expiry, and while nobody logs out with the token. -/
def Lasts : Event → Prop
  | .serve c => ∀ credentials token, c.request = .logout credentials token → env.sha256 token ≠ env.sha256 σ.token
  | .refresh _ now _ => now < σ.expires
  | _ => True

end

/-! ## The server keeps it -/

section
variable {env : Auth.Env} {σ : Session} {s s' : Auth.Server} {c : Auth.Call}

theorem issueTokens_row {hash : String} {row : RefreshToken} (hrow : s.refreshTokens.find hash = some row)
    (draws : Auth.Draws) (now : Time) (userId : ℕ) (setup : Bool) (change : Option Bool) :
    (Auth.issueTokens env draws now s userId setup change).1.refreshTokens.find hash = some row := by
  unfold Auth.issueTokens
  dsimp only
  cases hstore : storeRefreshToken s.refreshTokens now userId (env.sha256 draws.refreshToken) with
  | none => exact hrow
  | some tokens =>
    show tokens.find hash = some row
    have hfree := find_none_of_insert _ hstore
    rw [find_insert _ hstore]
    split_ifs with hkey
    · rw [hkey, hrow] at hfree
      cases hfree
    · exact hrow

theorem withUser_row {hash : String} {row : RefreshToken} (hrow : s.refreshTokens.find hash = some row) {now : Time}
    {credentials : Option Auth.AccessToken} {endpoint : UserRow → Auth.Server × Auth.Response}
    (h : ∀ user, (endpoint user).1.refreshTokens.find hash = some row) :
    (Auth.withUser env now s credentials endpoint).1.refreshTokens.find hash = some row := by
  unfold Auth.withUser
  cases Auth.requireAuth env now s credentials with
  | error response => exact hrow
  | ok user => exact h user

theorem handle_row {row : RefreshToken} (hrow : s.refreshTokens.find (env.sha256 σ.token) = some row)
    (hlasts : ∀ credentials token, c.request = .logout credentials token → env.sha256 token ≠ env.sha256 σ.token) :
    (Auth.handle env s c).1.refreshTokens.find (env.sha256 σ.token) = some row := by
  obtain ⟨now, draws, request⟩ := c
  cases request with
  | login username password =>
    show (Auth.login env draws now s username password).1.refreshTokens.find _ = _
    unfold Auth.login
    cases Auth.judgeLogin env now password (getUserByUsername s.users username) with
    | refused response => exact hrow
    | wrong user => exact hrow
    | right user =>
      dsimp only
      split_ifs
      · exact hrow
      · exact issueTokens_row hrow draws now user.id true _
  | login2fa partialToken code =>
    show (Auth.login2fa env draws now s partialToken code).1.refreshTokens.find _ = _
    unfold Auth.login2fa
    dsimp only
    split
    · exact hrow
    · split
      · exact hrow
      · split
        · exact issueTokens_row (s := Auth.dropPartialToken s partialToken) hrow draws now _ true _
        · split_ifs
          · exact issueTokens_row (s := Auth.dropPartialToken s partialToken) hrow draws now _ false _
          · exact hrow
  | loginBackupCode partialToken code =>
    show (Auth.loginBackupCode env draws now s partialToken code).1.refreshTokens.find _ = _
    unfold Auth.loginBackupCode
    dsimp only
    split
    · exact hrow
    · split
      · exact hrow
      · exact hrow
      · apply issueTokens_row
        exact hrow
  | refresh token =>
    show (Auth.refreshToken env now s token).1.refreshTokens.find _ = _
    unfold Auth.refreshToken
    split
    · exact hrow
    · split <;> exact hrow
  | logout credentials token =>
    refine withUser_row hrow fun user => ?_
    show (revokeRefreshToken s.refreshTokens (env.sha256 token)).find _ = _
    rw [revokeRefreshToken, find_modify, if_neg fun h => hlasts credentials token rfl h.symm, hrow]
  | changePassword credentials current new =>
    refine withUser_row hrow fun user => ?_
    split
    · exact hrow
    · split_ifs <;> exact hrow
  | setup2fa credentials => exact withUser_row hrow fun user => hrow
  | confirm2fa credentials code =>
    refine withUser_row hrow fun user => ?_
    split <;> exact hrow
  | me credentials => exact withUser_row hrow fun user => hrow

theorem Alive.step (h : Alive env σ s)
    (hlasts : ∀ credentials token, c.request = .logout credentials token → env.sha256 token ≠ env.sha256 σ.token)
    (hstep : Auth.step env s c = some s') : Alive env σ s' ∧ s'.clock = c.now ∧ s.clock ≤ c.now := by
  unfold Auth.step at hstep
  split_ifs at hstep with hclock
  cases hstep
  refine ⟨⟨handle_row h.row hlasts, ?_⟩, rfl, hclock⟩
  obtain ⟨a, ha, hactive⟩ := Option.map_eq_some_iff.mp h.active
  show ((Auth.handle env s c).1.users.account σ.userId).map Account.isActive = some true
  rw [Auth.account_handle env c ha, Option.map_some, Onboarding.onAccount_isActive, hactive]

/-- A refresh in time is answered with an access token. -/
theorem Alive.answer (h : Alive env σ s) {now : Time} (hnow : now < σ.expires) (draws : Auth.Draws) :
    (Auth.handle env s ⟨now, draws, .refresh σ.token⟩).2 = .access ⟨σ.userId, now⟩ := by
  obtain ⟨a, ha, hactive⟩ := Option.map_eq_some_iff.mp h.active
  obtain ⟨user, huser, rfl⟩ := Option.map_eq_some_iff.mp ha
  have hid : user.id = σ.userId := find_key _ huser
  have hvalid : validateRefreshToken s.refreshTokens now (env.sha256 σ.token) =
      some ⟨σ.userId, env.sha256 σ.token, σ.expires, false⟩ := by
    rw [validateRefreshToken, h.row]
    simpa using hnow
  show (Auth.refreshToken env now s σ.token).2 = _
  unfold Auth.refreshToken
  simp [hvalid, huser, Option.filter, hactive, hid]

end

/-! ## The client keeps it -/

/-- From refresh `n` on everything that the client waits for is about the session's token. -/
structure Client (σ : Session) (n : ℕ) (w : Api.World) : Prop where
  refreshToken : w.refreshToken = σ.token
  stored : w.stored = some σ.token
  old : ∀ p < n, Api.inFlight w p = false
  ours : ∀ (p : ℕ) (r : Api.Refresh), n ≤ p → w.refreshes[p]? = some r → r.token = σ.token ∧ r.phase ≠ .settled false
  promise : ∀ p, w.refreshPromise = some p → n ≤ p
  waits : ∀ c ∈ w.calls, ∀ o, c.pc = .awaiting o → ∃ p, o = some p ∧ n ≤ p
  length : n ≤ w.refreshes.length

section
variable {σ : Session} {n p : ℕ} {w w' : Api.World}

/-- A refresh that is not over is one of those from `n` on. -/
theorem Client.le_of_phase (h : Client σ n w) {phase : Api.Phase}
    (hphase : (w.refreshes[p]?).map (·.phase) = some phase) (hp : ∀ b, phase ≠ .settled b) : n ≤ p := by
  by_contra hlt
  have hflight := Api.inFlight_of_phase hphase hp
  rw [h.old p (Nat.lt_of_not_le hlt)] at hflight
  cases hflight

theorem Idle.client {w : Api.World} {text : Text} {clock : Time} (h : Idle w) (hheld : Held text σ clock w) :
    Client σ w.refreshes.length w where
  refreshToken := hheld.refreshToken
  stored := hheld.stored
  old p hp := by
    have hr : w.refreshes[p]? = some w.refreshes[p] := List.getElem?_eq_getElem hp
    simp [Api.inFlight, Slots.holds, hr, h.refreshes]
  ours p r hp hr := by
    have hlt := (List.getElem?_eq_some_iff.mp hr).1
    omega
  promise p hp := by
    cases h.promise.symm.trans hp
  waits c hc o ho := absurd ho (h.calls c hc o)
  length := Nat.le_refl _

/-- Of the client only its calls change. -/
theorem Client.calls (h : Client σ n w) (htoken : w'.refreshToken = w.refreshToken) (hstored : w'.stored = w.stored)
    (hrefreshes : w'.refreshes = w.refreshes) (hpromise : w'.refreshPromise = w.refreshPromise)
    (hcalls : ∀ c ∈ w'.calls, c ∈ w.calls ∨ ∀ o, c.pc = .awaiting o → ∃ p, o = some p ∧ n ≤ p) : Client σ n w' where
  refreshToken := htoken.trans h.refreshToken
  stored := hstored.trans h.stored
  old p hp := by
    rw [Api.inFlight, hrefreshes]
    exact h.old p hp
  ours p r hp hr := h.ours p r hp (hrefreshes ▸ hr)
  promise p hp := h.promise p (hpromise ▸ hp)
  waits c hc := (hcalls c hc).elim (h.waits c) id
  length := hrefreshes ▸ h.length

theorem Client.setCall (h : Client σ n w) {c : Api.Call} (k : ℕ)
    (hc : ∀ o, c.pc = .awaiting o → ∃ p, o = some p ∧ n ≤ p) : Client σ n (Api.setCall k c w) := by
  refine h.calls rfl rfl rfl rfl fun d hd => ?_
  apply (List.mem_or_eq_of_mem_set hd).imp_right
  intro hdc
  rw [hdc]
  exact hc

theorem Client.addCall (h : Client σ n w) {c : Api.Call} (wire : List Api.Wire)
    (hc : ∀ o, c.pc = .awaiting o → ∃ p, o = some p ∧ n ≤ p) :
    Client σ n { w with calls := w.calls ++ [c], wire := wire } := by
  refine h.calls rfl rfl rfl rfl fun d hd => ?_
  apply (List.mem_append.mp hd).imp_right
  intro hcd
  rw [List.mem_singleton.mp hcd]
  exact hc

/-- The promise of a refresh: of the one under way, or of one with the session's token. -/
theorem Client.doRefresh (h : Client σ n w) (htoken : σ.token ≠ "") :
    Client σ n (Api._doRefresh w).2 ∧ ∃ p, (Api._doRefresh w).1 = some p ∧ n ≤ p := by
  have ht : w.refreshToken ≠ "" := h.refreshToken ▸ htoken
  cases hp : w.refreshPromise with
  | some p =>
    simp only [Api._doRefresh, ht, if_false, hp]
    exact ⟨h, p, rfl, h.promise p hp⟩
  | none =>
    simp only [Api._doRefresh, ht, if_false, hp, Api.fetch]
    refine ⟨⟨h.refreshToken, h.stored, fun q hq => ?_, fun q r hq hr => ?_, fun q hq => ?_, h.waits, ?_⟩, _, rfl,
      h.length⟩
    · have hlt := h.length
      rw [Api.inFlight, Slots.holds_append_ne _ (by omega)]
      exact h.old q hq
    · rcases Slots.getElem?_concat_eq_some.mp hr with hr | ⟨-, rfl⟩
      · exact h.ours q r hq hr
      · refine ⟨h.refreshToken, fun hphase => ?_⟩
        cases hphase
    · cases hq
      exact h.length
    · rw [List.length_append]
      exact Nat.le_add_right_of_le h.length

theorem Client.setPhase (h : Client σ n w) (hp : n ≤ p) {phase : Api.Phase} (hphase : phase ≠ .settled false) :
    Client σ n (Api.setPhase p phase w) where
  refreshToken := h.refreshToken
  stored := h.stored
  old q hq := by
    show Slots.holds _ (w.refreshes.modify p _) q = false
    rw [Slots.holds_modify_ne _ (by omega)]
    exact h.old q hq
  ours q r hq hr := by
    have hr : (w.refreshes.modify p fun r => { r with phase })[q]? = some r := hr
    rw [List.getElem?_modify] at hr
    obtain ⟨r', hr', rfl⟩ := Option.map_eq_some_iff.mp hr
    obtain ⟨htoken, hne⟩ := h.ours q r' hq hr'
    split_ifs
    · exact ⟨htoken, hphase⟩
    · exact ⟨htoken, hne⟩
  promise := h.promise
  waits := h.waits
  length := by
    show n ≤ (w.refreshes.modify p _).length
    rw [List.length_modify]
    exact h.length

theorem finish_not_awaiting (code : ℕ) (body : Api.Body) (o : Option ℕ) : Api.finish code body ≠ .awaiting o :=
  (Api.finish_final code body).2 o

theorem Client.readBody (h : Client σ n w) (k : ℕ) (c : Api.Call) (reply : Api.Reply) :
    Client σ n (Api.readBody k c reply w) := by
  cases reply with
  | failure => exact h.setCall k fun o ho => nomatch ho
  | status code => exact h.setCall k fun o ho => nomatch ho

/-- What the page does leaves the tokens alone, and sends nobody to the login page. -/
structure Keeps (σ : Session) (n : ℕ) (w w' : Api.World) : Prop where
  client : Client σ n w'
  accessToken : w'.accessToken = w.accessToken
  redirects : w'.redirects = w.redirects

theorem doRefresh_keeps (w : Api.World) : (Api._doRefresh w).2.accessToken = w.accessToken ∧
    (Api._doRefresh w).2.redirects = w.redirects := by
  unfold Api._doRefresh
  split_ifs
  · exact ⟨rfl, rfl⟩
  · split <;> exact ⟨rfl, rfl⟩

/-- A refresh that a call waits for ends well. -/
theorem Client.outcome (h : Client σ n w) {c : Api.Call} (hc : c ∈ w.calls) {o : Option ℕ} (ho : c.pc = .awaiting o)
    {b : Bool} (hb : Api.outcome w o = some b) : b = true := by
  obtain ⟨p, rfl, hp⟩ := h.waits c hc o ho
  obtain ⟨r, hr, hphase⟩ := Option.map_eq_some_iff.mp (Api.outcome_settled hb)
  cases b with
  | true => rfl
  | false => exact absurd hphase (h.ours p r hp hr).2

theorem Client.initSession (h : Client σ n w) (htoken : σ.token ≠ "") : Keeps σ n w (Api.initSession w) := by
  have ht : w.refreshToken ≠ "" := h.refreshToken ▸ htoken
  have hquiet : Client σ n { w with onUnauthorized := false } := h.calls rfl rfl rfl rfl fun c hc => .inl hc
  obtain ⟨hclient, p, hp, hnp⟩ := hquiet.doRefresh htoken
  obtain ⟨haccess, hredirects⟩ := doRefresh_keeps { w with onUnauthorized := false }
  simp only [Api.initSession, ht, if_false]
  refine ⟨hclient.addCall _ fun o ho => ?_, haccess, hredirects⟩
  cases ho
  exact ⟨p, hp, hnp⟩

theorem Client.firstReply (h : Client σ n w) (htoken : σ.token ≠ "") (k : ℕ) (c : Api.Call) (reply : Api.Reply) :
    Keeps σ n w (Api.firstReply k c reply w) := by
  unfold Api.firstReply
  split_ifs
  · obtain ⟨hclient, p, hp, hnp⟩ := h.doRefresh htoken
    obtain ⟨haccess, hredirects⟩ := doRefresh_keeps w
    refine ⟨hclient.setCall k fun o ho => ?_, haccess, hredirects⟩
    cases ho
    exact ⟨p, hp, hnp⟩
  · refine ⟨h.readBody k c reply, ?_, ?_⟩ <;> cases reply <;> rfl

theorem Client.resume (h : Client σ n w) (k : ℕ) (c : Api.Call) : Keeps σ n w (Api.resume k c true w) := by
  unfold Api.resume
  split
  · refine ⟨(h.setCall k fun o ho => ?_).calls rfl rfl rfl rfl fun d hd => .inl hd, rfl, rfl⟩
    cases ho
  · next saved _ =>
    have hsaved : Client σ n { w with onUnauthorized := saved } := h.calls rfl rfl rfl rfl fun d hd => .inl hd
    refine ⟨hsaved.setCall k fun o ho => ?_, rfl, rfl⟩
    cases ho

theorem Client.page (h : Client σ n w) (htoken : σ.token ≠ "") {a : Api.Action} (ha : ofPage a = true)
    (hs : Api.step w a = some w') : Keeps σ n w w' := by
  cases a with
  | fetch request =>
    cases hs
    exact ⟨h.addCall _ fun o ho => (nomatch ho), rfl, rfl⟩
  | initSession =>
    cases hs
    exact h.initSession htoken
  | registerUnauthorizedHandler =>
    cases hs
    exact ⟨h.calls rfl rfl rfl rfl fun c hc => .inl hc, rfl, rfl⟩
  | reply k reply =>
    obtain ⟨c, hk, ⟨hc, rfl⟩ | ⟨hc, rfl⟩⟩ := Api.step_reply hs
    · exact h.firstReply htoken k c reply
    · refine ⟨h.readBody k c reply, ?_, ?_⟩ <;> cases reply <;> rfl
  | resume k =>
    obtain ⟨c, o, b, hk, hc, hb, rfl⟩ := Api.step_resume hs
    rw [h.outcome (List.mem_of_getElem? hk) hc hb]
    exact h.resume k c
  | body k body =>
    obtain ⟨c, code, hk, hc, rfl⟩ := Api.step_body hs
    exact ⟨h.setCall k fun o ho => absurd ho (finish_not_awaiting code body o), rfl, rfl⟩
  | _ => cases ha

end

/-! ## The two together -/

/-- Up to here the session has held: refreshes from `n` on have been answered with a token of the user. -/
structure Holds (env : Auth.Env) (text : Text) (σ : Session) (n redirects : ℕ) (t : System) : Prop where
  client : Client σ n t.world
  accessToken : ∃ iat ≤ t.server.clock, t.world.accessToken = some (text ⟨σ.userId, iat⟩)
  alive : Alive env σ t.server
  answers : ∀ p, n ≤ p → ∀ response, t.answers p = some response →
    ∃ iat ≤ t.server.clock, response = .access ⟨σ.userId, iat⟩
  redirects : t.world.redirects = redirects

/-- A call that has waited for a refresh is sent again, with a token of the user. -/
def Retries (text : Text) (σ : Session) (t : System) (e : Event) (t' : System) : Prop :=
  ∀ k, e = .browser (.resume k) → ∀ c, t.world.calls[k]? = some c → ∀ request, c.kind = .fetch request →
    ∃ iat ≤ t'.server.clock, t'.world.wire = t.world.wire ++
      [⟨.call k, { request with path := Api.BASE ++ request.path }, some ("Bearer " ++ text ⟨σ.userId, iat⟩)⟩]

section
variable {env : Auth.Env} {text : Text} {σ : Session} {n redirects : ℕ} {t t' : System}

/-- The page has gone on. -/
theorem Holds.paged (h : Holds env text σ n redirects t) (htoken : σ.token ≠ "") {a : Api.Action}
    (ha : ofPage a = true) {world : Api.World} (hs : Api.step t.world a = some world) :
    Holds env text σ n redirects { t with world } := by
  have hkeeps := h.client.page htoken ha hs
  refine ⟨hkeeps.client, ?_, h.alive, h.answers, hkeeps.redirects.trans h.redirects⟩
  obtain ⟨iat, hiat, haccess⟩ := h.accessToken
  exact ⟨iat, hiat, hkeeps.accessToken.trans haccess⟩

theorem Holds.arrived (h : Holds env text σ n redirects t) {p : ℕ} {response : Auth.Response}
    (hp : t.answers p = some response) {world : Api.World}
    (hs : Api.step t.world (.refreshReply p (.status (statusOf response))) = some world) :
    Holds env text σ n redirects { t with world } := by
  obtain ⟨hphase, hs⟩ := Option.ite_none_right_eq_some.mp hs
  cases hs
  have hnp : n ≤ p := h.client.le_of_phase hphase fun b hb => nomatch hb
  obtain ⟨iat, -, rfl⟩ := h.answers p hnp response hp
  exact ⟨h.client.setPhase hnp fun hne => (nomatch hne), h.accessToken, h.alive, h.answers, h.redirects⟩

theorem Holds.hasRead (h : Holds env text σ n redirects t) {p : ℕ} {response : Auth.Response}
    (hp : t.answers p = some response) {world : Api.World}
    (hs : Api.step t.world (.refreshBody p (bodyOf text response)) = some world) :
    Holds env text σ n redirects { t with world } := by
  obtain ⟨hphase, hs⟩ := Option.ite_none_right_eq_some.mp hs
  cases hs
  have hnp : n ≤ p := h.client.le_of_phase hphase fun b hb => nomatch hb
  obtain ⟨iat, hiat, rfl⟩ := h.answers p hnp response hp
  have hread : Client σ n (Api.setPhase p (.settled true) t.world) := h.client.setPhase hnp fun hne => nomatch hne
  refine ⟨⟨hread.refreshToken, hread.stored, hread.old, hread.ours, fun q hq => (nomatch hq), hread.waits, hread.length⟩,
    ⟨iat, hiat, rfl⟩, h.alive, h.answers, h.redirects⟩

/-- The server has gone on, and its clock with it. -/
theorem Holds.served (h : Holds env text σ n redirects t) {c : Auth.Call} {s' : Auth.Server}
    (hlasts : ∀ credentials token, c.request = .logout credentials token → env.sha256 token ≠ env.sha256 σ.token)
    (hs : Auth.step env t.server c = some s') : Holds env text σ n redirects { t with server := s' } := by
  obtain ⟨halive, hnow, hclock⟩ := h.alive.step hlasts hs
  have hle : t.server.clock ≤ s'.clock := hnow ▸ hclock
  refine ⟨h.client, ?_, halive, fun p hp response hr => ?_, h.redirects⟩
  · obtain ⟨iat, hiat, htext⟩ := h.accessToken
    exact ⟨iat, Nat.le_trans hiat hle, htext⟩
  · obtain ⟨iat, hiat, htext⟩ := h.answers p hp response hr
    exact ⟨iat, Nat.le_trans hiat hle, htext⟩

theorem Holds.step (h : Holds env text σ n redirects t) (htoken : σ.token ≠ "") {e : Event} (hlasts : Lasts env σ e)
    (hs : step env text t e = some t') : Holds env text σ n redirects t' := by
  cases e with
  | browser a =>
    obtain ⟨ha, hs⟩ := Option.ite_none_right_eq_some.mp hs
    obtain ⟨world, hworld, rfl⟩ := Option.map_eq_some_iff.mp hs
    exact h.paged htoken ha hworld
  | serve c =>
    obtain ⟨s', hserver, rfl⟩ := Option.map_eq_some_iff.mp hs
    exact h.served hlasts hserver
  | refresh p now draws =>
    unfold SignedIn.step at hs
    dsimp only at hs
    split at hs
    · next r hr hanswer =>
      obtain ⟨s', hserver, rfl⟩ := Option.map_eq_some_iff.mp hs
      have hother : ∀ credentials token, Auth.Request.refresh r.token = .logout credentials token →
          env.sha256 token ≠ env.sha256 σ.token := fun _ _ hc => nomatch hc
      have hserved := h.served hother hserver
      refine ⟨hserved.client, hserved.accessToken, hserved.alive, fun q hq response hresponse => ?_, hserved.redirects⟩
      by_cases hqp : q = p
      · subst hqp
        obtain ⟨htok, -⟩ := h.client.ours q r hq hr
        obtain ⟨-, hclock, -⟩ := h.alive.step hother hserver
        simp only [Function.update_self, Option.some.injEq] at hresponse
        rw [← hresponse, htok, h.alive.answer hlasts draws]
        exact ⟨now, Nat.le_of_eq hclock.symm, rfl⟩
      · simp only [Function.update_of_ne hqp] at hresponse
        exact hserved.answers q hq response hresponse
    · cases hs
  | arrive p =>
    obtain ⟨response, hp, hs⟩ := Option.bind_eq_some_iff.mp hs
    obtain ⟨world, hworld, rfl⟩ := Option.map_eq_some_iff.mp hs
    exact h.arrived hp hworld
  | read p =>
    obtain ⟨response, hp, hs⟩ := Option.bind_eq_some_iff.mp hs
    obtain ⟨world, hworld, rfl⟩ := Option.map_eq_some_iff.mp hs
    exact h.hasRead hp hworld

theorem Holds.retries (h : Holds env text σ n redirects t) {e : Event} (hs : SignedIn.step env text t e = some t') :
    Retries text σ t e t' := by
  intro k he c hk request hkind
  subst he
  unfold SignedIn.step at hs
  obtain ⟨-, hs⟩ := Option.ite_none_right_eq_some.mp hs
  obtain ⟨world, hworld, rfl⟩ := Option.map_eq_some_iff.mp hs
  obtain ⟨c', o, b, hk', hc, hb, rfl⟩ := Api.step_resume hworld
  obtain rfl : c = c' := Option.some.inj (hk.symm.trans hk')
  rw [h.client.outcome (List.mem_of_getElem? hk) hc hb]
  obtain ⟨iat, hiat, haccess⟩ := h.accessToken
  refine ⟨iat, hiat, ?_⟩
  simp [Api.resume, hkind, Api.fetch, Api.setCall, Api.bearer, haccess]

end

/-- Whatever the page does, whatever else the server is asked, and whenever answers arrive: while the refresh token is
neither expired nor logged out with, the client keeps it and holds an access token of the user, no call sends the user
to the login page, and every call that was refused is sent again. -/
theorem stays_signed_in (env : Auth.Env) (text : Text) (σ : Session) (t : System) (events : List Event)
    (htoken : σ.token ≠ "") (halive : Alive env σ t.server) (hheld : Held text σ t.server.clock t.world)
    (hidle : Idle t.world) (hanswers : ∀ p, t.world.refreshes.length ≤ p → t.answers p = none)
    (hlasts : Along (step env text) (fun _ e _ => Lasts env σ e) t events) :
    Visited (step env text) (fun t' => Held text σ t'.server.clock t'.world ∧ Alive env σ t'.server ∧
      t'.world.redirects = t.world.redirects) t events ∧
    Along (step env text) (Retries text σ) t events := by
  have h₀ : Holds env text σ t.world.refreshes.length t.world.redirects t := by
    refine ⟨hidle.client hheld, hheld.accessToken, halive, fun p hp response hr => ?_, rfl⟩
    cases (hanswers p hp).symm.trans hr
  have hkeep : ∀ s e s', Holds env text σ t.world.refreshes.length t.world.redirects s → Lasts env σ e →
      step env text s e = some s' → Holds env text σ t.world.refreshes.length t.world.redirects s' :=
    fun s e s' h hl hs => h.step htoken hl hs
  constructor
  · refine visited_of_invariant ?_ hkeep h₀ hlasts
    exact fun t' h => ⟨⟨h.client.refreshToken, h.client.stored, h.accessToken⟩, h.alive, h.redirects⟩
  · exact along_of_invariant (fun t e t' h hl hs => ⟨hkeep t e t' h hl hs, h.retries hs⟩) h₀ hlasts

def sampleText : Text := fun token => "a" ++ toString token.iat

def sampleSession : Session := ⟨1, "r", days 7⟩

def sampleStart : System where
  world := Api.setTokens (sampleText ⟨1, 0⟩) "r" (Api.load none)
  server := { Auth.adminOnly with refreshTokens := ⟨[⟨1, "r", days 7, false⟩], by decide⟩ }
  answers _ := none

/-- Two calls are refused once the access token is old; another session logs out meanwhile. -/
def sampleEvents : List Event :=
  [.browser (.fetch ⟨"/a", "GET", []⟩), .browser (.fetch ⟨"/b", "GET", []⟩), .browser (.reply 0 (.status 401)),
    .refresh 0 (minutes 20) Auth.plainDraws, .browser (.reply 1 (.status 401)), .arrive 0,
    .serve ⟨minutes 21, Auth.plainDraws, .logout (some ⟨1, minutes 20⟩) "other"⟩, .read 0, .browser (.resume 1)]

theorem stays_signed_in_sample :
    (exec (step Auth.plainEnv sampleText) sampleStart sampleEvents).isSome = true ∧
    Along (step Auth.plainEnv sampleText) (Retries sampleText sampleSession) sampleStart sampleEvents := by
  refine ⟨by decide +kernel, (stays_signed_in Auth.plainEnv sampleText sampleSession sampleStart sampleEvents
    (by decide) ⟨by decide, rfl⟩ ⟨rfl, rfl, 0, Nat.le_refl 0, rfl⟩ ⟨rfl, ?_, ?_⟩ (fun _ _ => rfl) ?_).2⟩
  · exact fun r hr => nomatch hr
  · exact fun c hc => nomatch hc
  · apply along_of_mem
    intro e he t t'
    simp only [sampleEvents, List.mem_cons, List.not_mem_nil, or_false] at he
    rcases he with rfl | rfl | rfl | rfl | rfl | rfl | rfl | rfl | rfl
    case inr.inr.inr.inr.inr.inr.inl =>
      intro credentials token hc
      cases hc
      decide
    case inr.inr.inr.inl => exact (by decide : (minutes 20 : ℕ) < days 7)
    all_goals trivial

end Cadsa.Frontend.SignedIn
