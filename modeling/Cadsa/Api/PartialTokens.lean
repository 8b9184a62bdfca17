import Mathlib.Data.List.Perm.Subperm
import Cadsa.Api.Effects
import Cadsa.Lib.Coroutines

/-! `login`, `login_2fa` and `login_backup_code` as coroutines: what may happen to a partial token between the
awaits of many requests. -/
namespace Cadsa.PartialTokens
open Db Auth Coroutines
set_option autoImplicit false

inductive Attempt where
  | login (username password : String)
  | login2fa (partialToken code : String)
  | loginBackupCode (partialToken code : String)

/-- Where a request stands. The last steps of every login carry the partial token it was sent with. -/
inductive Task where
  | login (username password : String)
  | loginRead (password : String) (row : Option UserRow)
  | loginWrong (userId : ℕ)
  | loginRight (user : UserRow)
  | login2fa (partialToken code : String)
  | login2faAccepted (partialToken code : String) (userId : ℕ)
  | login2faRead (partialToken code : String) (userId : ℕ) (row : Option UserRow)
  | backupCode (partialToken code : String)
  | backupCodeAccepted (partialToken code : String) (userId : ℕ)
  | backupCodeRead (partialToken code : String) (userId : ℕ) (row : Option UserRow)
  | backupCodeMatched (partialToken : String) (userId : ℕ) (left : List String)
  | issuing (partialToken : Option String) (userId : ℕ) (mustSetup2fa : Bool) (mustChangePassword : Option Bool)
  | storing (partialToken : Option String) (userId : ℕ) (mustSetup2fa : Bool) (mustChangePassword : Option Bool)
  | done (response : Response)

inductive Event where
  /-- `verify_password` has succeeded in `login`. -/
  | verified (userId : ℕ)
  | created (partialToken : String) (userId : ℕ)
  /-- `_consume_partial_token` has returned a user. -/
  | accepted (partialToken : String)
  /-- `totp.verify`, or the loop of `consume_backup_code`. -/
  | checked
  | issued (partialToken : Option String) (userId : ℕ)
  deriving DecidableEq

abbrev Step := Yield Server Task Event

section
variable (env : Env) (draws : Draws) (now : Time)

/-- `_consume_partial_token`, and what the request does after it. -/
def consumePartialToken (s : Server) (token : String) (accepted : ℕ → Task) : Step :=
  match livePartialToken now s token with
  | none => ⟨dropPartialToken s token, .done (.error 401 "Invalid or expired session"), none⟩
  | some userId => ⟨dropPartialToken s token, accepted userId, some (.accepted token)⟩

/-- From one await to the next; what is written to the audit log is left out, but not the await. -/
def resume (s : Server) : Task → Option Step
  | .login username password => some ⟨s, .loginRead password (getUserByUsername s.users username), none⟩
  | .loginRead password row =>
    match judgeLogin env now password row with
    | .refused response => some ⟨s, .done response, none⟩
    | .wrong user => some ⟨s, .loginWrong user.id, none⟩
    | .right user => some ⟨s, .loginRight user, some (.verified user.id)⟩
  | .loginWrong userId =>
    some ⟨{ s with users := recordLoginFailure s.users now userId }, .done (.error 401 "Invalid credentials"), none⟩
  | .loginRight user =>
    if user.account.totpConfirmed then
      some ⟨createPartialToken draws now s user.id,
        .done (.requires2fa user.account.mustChangePassword draws.partialToken),
        some (.created draws.partialToken user.id)⟩
    else some ⟨s, .issuing none user.id true (some user.account.mustChangePassword), none⟩
  | .login2fa token code => some (consumePartialToken now s token (.login2faAccepted token code))
  | .login2faAccepted token code userId =>
    some ⟨s, .login2faRead token code userId (getUserById s.users userId), none⟩
  | .login2faRead token code userId row =>
    match row with
    | none => some ⟨s, .done (.error 401 "User not found"), none⟩
    | some user =>
      match activeSecret user.account with
      | none => some ⟨s, .issuing (some token) userId true (some user.account.mustChangePassword), none⟩
      | some secret =>
        if env.verifyTotp secret code now then
          some ⟨s, .issuing (some token) userId false (some user.account.mustChangePassword), some .checked⟩
        else some ⟨s, .done (.error 401 "Invalid 2FA code"), some .checked⟩
  | .backupCode token code => some (consumePartialToken now s token (.backupCodeAccepted token code))
  | .backupCodeAccepted token code userId =>
    some ⟨s, .backupCodeRead token code userId (getUserById s.users userId), none⟩
  | .backupCodeRead token code userId row =>
    match checkBackupCode env.verifyHash code row with
    | .raised => some ⟨s, .done .serverError, some .checked⟩
    | .refused => some ⟨s, .done (.error 401 "Invalid backup code"), some .checked⟩
    | .accepted left => some ⟨s, .backupCodeMatched token userId left, some .checked⟩
  | .backupCodeMatched token userId left =>
    some ⟨{ s with users := writeBackupCodes s.users userId left }, .issuing (some token) userId false none, none⟩
  | .issuing token userId mustSetup2fa mustChangePassword =>
    some ⟨{ s with users := recordLoginSuccess s.users now userId },
      .storing token userId mustSetup2fa mustChangePassword, none⟩
  | .storing token userId mustSetup2fa mustChangePassword =>
    match storeRefreshToken s.refreshTokens now userId (env.sha256 draws.refreshToken) with
    | none => some ⟨s, .done .serverError, none⟩
    | some refreshTokens =>
      some ⟨{ s with refreshTokens }, .done (.tokens ⟨userId, now⟩ draws.refreshToken mustSetup2fa mustChangePassword),
        some (.issued token userId)⟩
  | .done _ => none

end

def Attempt.start : Attempt → Task
  | .login username password => .login username password
  | .login2fa token code => .login2fa token code
  | .loginBackupCode token code => .backupCode token code

/-- The other endpoints change the tables of the database, and no partial token. -/
def logins (env : Env) : Program Server Task Event Attempt Draws (Users × RefreshTokens) where
  start := Attempt.start
  resume draws now s task := resume env draws now s task
  other tables s := { s with users := tables.1, refreshTokens := tables.2 }

/-! ## One request alone -/

/-- The steps of a request at one time, up to its response. -/
def alone (env : Env) (draws : Draws) (now : Time) : ℕ → Server → Task → Option (Server × Response)
  | _, s, .done response => some (s, response)
  | 0, _, _ => none
  | fuel + 1, s, task => (resume env draws now s task).bind fun y => alone env draws now fuel y.store y.task

section
variable (env : Env) (draws : Draws) (now : Time) (s : Server)

theorem alone_issuing (fuel : ℕ) (token : Option String) (userId : ℕ) (mustSetup2fa : Bool)
    (mustChangePassword : Option Bool) :
    alone env draws now (fuel + 2) s (.issuing token userId mustSetup2fa mustChangePassword) =
      some (issueTokens env draws now s userId mustSetup2fa mustChangePassword) := by
  simp only [alone, resume, Option.bind_some, issueTokens]
  cases storeRefreshToken s.refreshTokens now userId (env.sha256 draws.refreshToken) with
  | none => simp [alone]
  | some refreshTokens => simp [alone]

theorem login_alone (username password : String) :
    alone env draws now 5 s (.login username password) = some (login env draws now s username password) := by
  simp only [alone, resume, Option.bind_some, login]
  cases judgeLogin env now password (getUserByUsername s.users username) with
  | refused response => simp [alone]
  | wrong user => simp [alone, resume]
  | right user =>
    simp only [alone, resume, Option.bind_some]
    split_ifs
    · simp [alone]
    · exact alone_issuing env draws now s 0 ..

theorem login2fa_alone (token code : String) :
    alone env draws now 5 s (.login2fa token code) = some (login2fa env draws now s token code) := by
  simp only [alone, resume, Option.bind_some, login2fa, consumePartialToken]
  cases livePartialToken now s token with
  | none => simp [alone]
  | some userId =>
    simp only [alone, resume, Option.bind_some]
    cases getUserById (dropPartialToken s token).users userId with
    | none => simp [alone]
    | some user =>
      simp only
      cases activeSecret user.account with
      | none => exact alone_issuing env draws now _ 0 ..
      | some secret =>
        dsimp only
        split_ifs
        · exact alone_issuing env draws now _ 0 ..
        · simp [alone]

theorem loginBackupCode_alone (token code : String) :
    alone env draws now 6 s (.backupCode token code) = some (loginBackupCode env draws now s token code) := by
  simp only [alone, resume, Option.bind_some, loginBackupCode, consumePartialToken]
  cases livePartialToken now s token with
  | none => simp [alone]
  | some userId =>
    simp only [alone, resume, Option.bind_some]
    cases checkBackupCode env.verifyHash code (getUserById (dropPartialToken s token).users userId) with
    | raised => simp [alone]
    | refused => simp [alone]
    | accepted left => exact alone_issuing env draws now _ 0 ..

end

/-! ## What the log says -/

abbrev Log := List (Entry Event)

def Event.isVerified : Event → Bool
  | .verified _ => true
  | _ => false

def Event.isChecked : Event → Bool
  | .checked => true
  | _ => false

def Event.tokenCreated : Event → Option String
  | .created token _ => some token
  | _ => none

def Event.tokenAccepted : Event → Option String
  | .accepted token => some token
  | _ => none

def createdTokens (log : Log) : List String := log.filterMap fun e => e.event.tokenCreated

def acceptedTokens (log : Log) : List String := log.filterMap fun e => e.event.tokenAccepted

def creators (log : Log) : List ℕ := requests (fun e => e.tokenCreated.isSome) log

def acceptors (log : Log) : List ℕ := requests (fun e => e.tokenAccepted.isSome) log

/-- The token was made for the user, and the request has consumed it. -/
def Holding (log : Log) (request : ℕ) (token : String) (userId : ℕ) : Prop :=
  (∃ j t, ⟨j, t, .created token userId⟩ ∈ log) ∧ ∃ t, ⟨request, t, .accepted token⟩ ∈ log

/-- The request has verified the user's password, or has consumed a partial token made for the user. -/
def Entitled (log : Log) (request : ℕ) : Option String → ℕ → Prop
  | none, userId => ∃ t, ⟨request, t, .verified userId⟩ ∈ log
  | some token, userId => Holding log request token userId

/-- What must be in the log before an event. -/
def Justified (log : Log) (e : Entry Event) : Prop :=
  match e.event with
  | .verified _ => True
  | .created _ userId => ∃ t, ⟨e.request, t, .verified userId⟩ ∈ log ∧ t ≤ e.time
  | .accepted token => ∃ j t userId, ⟨j, t, .created token userId⟩ ∈ log ∧ t ≤ e.time ∧ e.time ≤ t + minutes 5
  | .checked => e.request ∈ acceptors log
  | .issued token userId => Entitled log e.request token userId

/-- What must not be. -/
def Unheard (log : Log) (e : Entry Event) : Prop :=
  match e.event with
  | .created _ _ => e.request ∉ creators log
  | .accepted token => token ∉ acceptedTokens log
  | .checked => e.request ∉ requests Event.isChecked log
  | _ => True

structure Global (clock : Time) (s : Server) (log : Log) : Prop where
  past : ∀ e ∈ log, e.time ≤ clock
  justified : ∀ e ∈ log, Justified log e
  live : ∀ token data, s.partialTokens token = some data →
    (∃ j, ⟨j, data.createdAt, .created token data.userId⟩ ∈ log) ∧ token ∉ acceptedTokens log
  createdBy : (creators log).Nodup
  acceptedOnce : (acceptedTokens log).Nodup
  checkedBy : (requests Event.isChecked log).Nodup

def Local (log : Log) (request : ℕ) : Task → Prop
  | .login _ _ | .loginRead _ _ | .login2fa _ _ | .backupCode _ _ => ∀ e ∈ log, e.request ≠ request
  | .loginRight user => (∃ t, ⟨request, t, .verified user.id⟩ ∈ log) ∧ request ∉ creators log
  | .login2faAccepted token _ userId | .login2faRead token _ userId _ | .backupCodeAccepted token _ userId
  | .backupCodeRead token _ userId _ => Holding log request token userId ∧ request ∉ requests Event.isChecked log
  | .backupCodeMatched token userId _ => Holding log request token userId
  | .issuing token userId _ _ | .storing token userId _ _ => Entitled log request token userId
  | .loginWrong _ | .done _ => True

section
variable {log : Log}

theorem Holding.append {request : ℕ} {token : String} {userId : ℕ} (more : Log) (h : Holding log request token userId) :
    Holding (log ++ more) request token userId := by
  obtain ⟨⟨j, t, hcreated⟩, t', haccepted⟩ := h
  exact ⟨⟨j, t, List.mem_append_left _ hcreated⟩, t', List.mem_append_left _ haccepted⟩

theorem Entitled.append {request : ℕ} {token : Option String} {userId : ℕ} (more : Log)
    (h : Entitled log request token userId) : Entitled (log ++ more) request token userId := by
  cases token with
  | none =>
    obtain ⟨t, ht⟩ := h
    exact ⟨t, List.mem_append_left _ ht⟩
  | some token => exact Holding.append more h

theorem Justified.append {e : Entry Event} (more : Log) (h : Justified log e) : Justified (log ++ more) e := by
  obtain ⟨request, time, event⟩ := e
  cases event with
  | verified userId => trivial
  | created token userId =>
    obtain ⟨t, ht, hle⟩ := h
    exact ⟨t, List.mem_append_left _ ht, hle⟩
  | accepted token =>
    obtain ⟨j, t, userId, ht, hle⟩ := h
    exact ⟨j, t, userId, List.mem_append_left _ ht, hle⟩
  | checked =>
    have hmem : request ∈ acceptors log := h
    rw [Justified, acceptors, requests_append]
    exact List.mem_append_left _ hmem
  | issued token userId => exact Entitled.append more h

theorem filterMap_append_entries {β : Type} (f : Event → Option β) (log : Log) (request : ℕ) (now : Time)
    (event : Option Event) : (log ++ entries request now event).filterMap (fun e => f e.event) =
      log.filterMap (fun e => f e.event) ++ (event.bind f).toList := by
  rw [List.filterMap_append]
  cases event with
  | none => rfl
  | some event =>
    refine congrArg _ ?_
    cases hf : f event with
    | none => simp [entries, hf]
    | some b => simp [entries, hf]

theorem acceptedTokens_append (log : Log) (request : ℕ) (now : Time) (event : Option Event) :
    acceptedTokens (log ++ entries request now event) =
      acceptedTokens log ++ (event.bind Event.tokenAccepted).toList :=
  filterMap_append_entries Event.tokenAccepted log request now event

/-- One more event. -/
theorem Global.record {clock now : Time} {s s' : Server} {request : ℕ} {event : Option Event} (h : Global clock s log)
    (hnow : clock ≤ now)
    (hnew : ∀ e ∈ event, Justified log ⟨request, now, e⟩ ∧ Unheard log ⟨request, now, e⟩)
    (hlive : ∀ token data, s'.partialTokens token = some data →
      (∃ j, ⟨j, data.createdAt, .created token data.userId⟩ ∈ log ++ entries request now event) ∧
        token ∉ acceptedTokens (log ++ entries request now event)) :
    Global now s' (log ++ entries request now event) := by
  cases event with
  | none =>
    rw [entries, Option.map_none, Option.toList_none, List.append_nil] at hlive ⊢
    exact ⟨fun e he => Nat.le_trans (h.past e he) hnow, h.justified, hlive, h.createdBy, h.acceptedOnce, h.checkedBy⟩
  | some event =>
    obtain ⟨hjust, hun⟩ := hnew event rfl
    refine ⟨fun e he => ?_, fun e he => ?_, hlive, ?_, ?_, ?_⟩
    · rcases mem_append_entries.mp he with hold | ⟨-, htime, -⟩
      · exact Nat.le_trans (h.past e hold) hnow
      · exact Nat.le_of_eq htime
    · rcases List.mem_append.mp he with hold | hlast
      · exact (h.justified e hold).append _
      · obtain rfl := List.mem_singleton.mp hlast
        exact hjust.append _
    · refine nodup_requests_concat h.createdBy fun hk => ?_
      cases event with
      | created token userId => exact hun
      | _ => exact absurd hk Bool.false_ne_true
    · rw [acceptedTokens_append]
      cases event with
      | accepted token => exact Slots.nodup_concat h.acceptedOnce hun
      | _ => exact (List.append_nil _).symm ▸ h.acceptedOnce
    · refine nodup_requests_concat h.checkedBy fun hk => ?_
      cases event with
      | checked => exact hun
      | _ => exact absurd hk Bool.false_ne_true

/-- A step that leaves the partial tokens alone. -/
theorem Global.keep {clock now : Time} {s s' : Server} {request : ℕ} {event : Option Event} (h : Global clock s log)
    (hnow : clock ≤ now) (hsame : s'.partialTokens = s.partialTokens) (hquiet : event.bind Event.tokenAccepted = none)
    (hnew : ∀ e ∈ event, Justified log ⟨request, now, e⟩ ∧ Unheard log ⟨request, now, e⟩) :
    Global now s' (log ++ entries request now event) := by
  refine h.record hnow hnew fun token data hdata => ?_
  rw [hsame] at hdata
  obtain ⟨⟨j, hj⟩, hnot⟩ := h.live token data hdata
  rw [acceptedTokens_append, hquiet, Option.toList_none, List.append_nil]
  exact ⟨⟨j, List.mem_append_left _ hj⟩, hnot⟩

/-- `_create_partial_token`. -/
theorem Global.create {clock now : Time} {s : Server} {request : ℕ} {draws : Draws} {userId : ℕ} (h : Global clock s log)
    (hnow : clock ≤ now) (hverified : ∃ t, ⟨request, t, .verified userId⟩ ∈ log) (hnew : request ∉ creators log)
    (hfresh : draws.partialToken ∉ acceptedTokens log) :
    Global now (createPartialToken draws now s userId)
      (log ++ entries request now (some (.created draws.partialToken userId))) := by
  obtain ⟨t, ht⟩ := hverified
  refine h.record hnow ?_ fun token data hdata => ?_
  · rintro e ⟨⟩
    exact ⟨⟨t, ht, Nat.le_trans (h.past _ ht) hnow⟩, hnew⟩
  · have hacc : acceptedTokens (log ++ entries request now (some (.created draws.partialToken userId))) =
        acceptedTokens log := (acceptedTokens_append ..).trans (List.append_nil _)
    rw [hacc]
    simp only [createPartialToken, Function.update_apply] at hdata
    split_ifs at hdata with htoken
    · cases hdata
      exact ⟨⟨request, htoken ▸ List.mem_append_right _ (List.mem_singleton_self _)⟩, htoken ▸ hfresh⟩
    · obtain ⟨⟨j, hj⟩, hnot⟩ := h.live token data hdata
      exact ⟨⟨j, List.mem_append_left _ hj⟩, hnot⟩

theorem livePartialToken_some {now : Time} {s : Server} {token : String} {userId : ℕ}
    (h : livePartialToken now s token = some userId) :
    ∃ createdAt, s.partialTokens token = some ⟨userId, createdAt⟩ ∧ now - createdAt ≤ minutes 5 := by
  obtain ⟨⟨userId', createdAt⟩, hdata, hage⟩ := Option.bind_eq_some_iff.mp h
  split_ifs at hage with hold
  cases hage
  exact ⟨createdAt, hdata, Nat.le_of_not_lt hold⟩

/-- `_consume_partial_token`. -/
theorem Global.consume {clock now : Time} {s : Server} (h : Global clock s log) (request : ℕ) (token : String)
    (task : ℕ → Task) (hnow : clock ≤ now) :
    let y := consumePartialToken now s token task
    Global now y.store (log ++ entries request now y.event) ∧
      ((∃ response, y.task = .done response) ∨ ∃ userId, y.task = task userId ∧
        Holding (log ++ entries request now y.event) request token userId) := by
  have hdrop : ∀ tok data, (dropPartialToken s token).partialTokens tok = some data →
      tok ≠ token ∧ s.partialTokens tok = some data := by
    intro tok data hdata
    simp only [dropPartialToken, Function.update_apply] at hdata
    split_ifs at hdata with htok
    exact ⟨htok, hdata⟩
  rw [consumePartialToken]
  cases hlive : livePartialToken now s token with
  | none =>
    refine ⟨h.record hnow nofun fun tok data hdata => ?_, .inl ⟨_, rfl⟩⟩
    rw [entries, Option.map_none, Option.toList_none, List.append_nil]
    exact h.live tok data (hdrop tok data hdata).2
  | some userId =>
    obtain ⟨createdAt, hdata, hage⟩ := livePartialToken_some hlive
    obtain ⟨⟨j, hj⟩, hnot⟩ := h.live token _ hdata
    have hpast : createdAt ≤ now := Nat.le_trans (h.past _ hj) hnow
    refine ⟨h.record hnow ?_ fun tok data hdata => ?_, .inr ⟨userId, rfl, ?_⟩⟩
    · rintro e ⟨⟩
      exact ⟨⟨j, createdAt, userId, hj, hpast, Nat.sub_le_iff_le_add'.mp hage⟩, hnot⟩
    · obtain ⟨hne, hold⟩ := hdrop tok data hdata
      obtain ⟨⟨k, hk⟩, hnot'⟩ := h.live tok data hold
      refine ⟨⟨k, List.mem_append_left _ hk⟩, fun hmem => ?_⟩
      rcases List.mem_append.mp (acceptedTokens_append .. ▸ hmem) with hmem | hmem
      · exact hnot' hmem
      · exact hne (List.mem_singleton.mp hmem)
    · exact ⟨⟨j, createdAt, List.mem_append_left _ hj⟩, now, List.mem_append_right _ (List.mem_singleton_self _)⟩

theorem Global.check {clock now : Time} {s : Server} {request : ℕ} {token : String} {userId : ℕ} (h : Global clock s log)
    (hnow : clock ≤ now) (hhold : Holding log request token userId)
    (hnew : request ∉ requests Event.isChecked log) :
    Global now s (log ++ entries request now (some .checked)) := by
  obtain ⟨-, t, ht⟩ := hhold
  refine h.keep hnow rfl rfl ?_
  rintro e ⟨⟩
  exact ⟨mem_requests.mpr ⟨_, ht, rfl, rfl⟩, hnew⟩

theorem accepted_created {clock : Time} {s : Server} (h : Global clock s log) {token : String}
    (htoken : token ∈ acceptedTokens log) : token ∈ createdTokens log := by
  obtain ⟨⟨request, time, event⟩, he, hevent⟩ := List.mem_filterMap.mp htoken
  cases event with
  | accepted token' =>
    cases hevent
    obtain ⟨j, t, userId, hj, -⟩ := h.justified _ he
    exact List.mem_filterMap.mpr ⟨_, hj, rfl⟩
  | _ => cases hevent

theorem fresh_of_nodup {request : ℕ} {now : Time} {token : String} {userId : ℕ}
    (h : (createdTokens (log ++ entries request now (some (.created token userId)))).Nodup) :
    token ∉ createdTokens log := by
  intro hmem
  rw [createdTokens, filterMap_append_entries] at h
  exact List.disjoint_of_nodup_append h hmem (List.mem_singleton_self token)

end

theorem local_start (log : Log) (request : ℕ) (a : Attempt) (h : ∀ e ∈ log, e.request ≠ request) :
    Local log request a.start := by
  cases a with
  | login username password => exact h
  | login2fa token code => exact h
  | loginBackupCode token code => exact h

theorem local_frame (log : Log) (i : ℕ) (now : Time) (event : Option Event) (j : ℕ) (task : Task) (hj : j ≠ i)
    (h : Local log j task) : Local (log ++ entries i now event) j task := by
  have hsilent : (∀ e ∈ log, e.request ≠ j) → ∀ e ∈ log ++ entries i now event, e.request ≠ j := by
    intro hlog e he
    rcases mem_append_entries.mp he with hold | ⟨hi, -, -⟩
    · exact hlog e hold
    · exact hi ▸ Ne.symm hj
  have hother : ∀ {kind : Event → Bool}, j ∉ requests kind log → j ∉ requests kind (log ++ entries i now event) :=
    fun h => not_mem_requests_entries h fun he => absurd he hj
  cases task with
  | login username password => exact hsilent h
  | loginRead password row => exact hsilent h
  | loginWrong userId => trivial
  | loginRight user =>
    obtain ⟨⟨t, ht⟩, hcreators⟩ := h
    exact ⟨⟨t, List.mem_append_left _ ht⟩, hother hcreators⟩
  | login2fa token code => exact hsilent h
  | login2faAccepted token code userId => exact ⟨h.1.append _, hother h.2⟩
  | login2faRead token code userId row => exact ⟨h.1.append _, hother h.2⟩
  | backupCode token code => exact hsilent h
  | backupCodeAccepted token code userId => exact ⟨h.1.append _, hother h.2⟩
  | backupCodeRead token code userId row => exact ⟨h.1.append _, hother h.2⟩
  | backupCodeMatched token userId left => exact Holding.append _ h
  | issuing token userId mustSetup2fa mustChangePassword => exact Entitled.append _ h
  | storing token userId mustSetup2fa mustChangePassword => exact Entitled.append _ h
  | done response => trivial

/-- What a step leaves behind: the log is in order, and so is the task that took it. -/
def Kept (now : Time) (log : Log) (request : ℕ) (y : Step) : Prop :=
  Global now y.store (log ++ entries request now y.event) ∧ Local (log ++ entries request now y.event) request y.task

section
variable {log : Log} {clock now : Time} {s : Server} {request : ℕ} (h : Global clock s log) (hnow : clock ≤ now)
include h hnow

theorem kept_quiet {s' : Server} {task : Task} (hsame : s'.partialTokens = s.partialTokens)
    (htask : Local log request task) : Kept now log request ⟨s', task, none⟩ := by
  refine ⟨h.keep hnow hsame rfl nofun, ?_⟩
  rw [append_entries_none]
  exact htask

theorem kept_consume {token : String} {task : ℕ → Task} (hsilent : ∀ e ∈ log, e.request ≠ request)
    (htask : ∀ log userId, Local log request (task userId) ↔
      Holding log request token userId ∧ request ∉ requests Event.isChecked log) :
    Kept now log request (consumePartialToken now s token task) := by
  obtain ⟨hglobal, hdone | ⟨userId, htask', hhold⟩⟩ := h.consume request token task hnow
  · obtain ⟨response, hdone⟩ := hdone
    refine ⟨hglobal, ?_⟩
    rw [hdone]
    trivial
  · refine ⟨hglobal, ?_⟩
    rw [htask', htask]
    refine ⟨hhold, not_mem_requests_entries (not_mem_requests_of_silent hsilent _) fun _ e he => ?_⟩
    rw [consumePartialToken] at he
    split at he
    · cases he
    · cases he
      rfl

theorem kept_check {token : String} {userId : ℕ} {task : Task} (hhold : Holding log request token userId)
    (hnew : request ∉ requests Event.isChecked log)
    (htask : ∀ log, Holding log request token userId → Local log request task) :
    Kept now log request ⟨s, task, some .checked⟩ :=
  ⟨h.check hnow hhold hnew, htask _ (hhold.append _)⟩

theorem resume_kept {env : Env} {draws : Draws} {task : Task} {y : Step} (htask : Local log request task)
    (hy : resume env draws now s task = some y)
    (hdrawn : (createdTokens (log ++ entries request now y.event)).Nodup) : Kept now log request y := by
  cases task with
  | login username password =>
    cases hy
    exact kept_quiet h hnow rfl htask
  | loginRead password row =>
    rw [resume] at hy
    cases hjudge : judgeLogin env now password row with
    | refused response =>
      rw [hjudge] at hy
      cases hy
      exact kept_quiet h hnow rfl trivial
    | wrong user =>
      rw [hjudge] at hy
      cases hy
      exact kept_quiet h hnow rfl trivial
    | right user =>
      rw [hjudge] at hy
      cases hy
      refine ⟨h.keep hnow rfl rfl ?_, ⟨now, List.mem_append_right _ (List.mem_singleton_self _)⟩, ?_⟩
      · rintro e ⟨⟩
        exact ⟨trivial, trivial⟩
      · refine not_mem_requests_entries (not_mem_requests_of_silent htask _) fun _ e he => ?_
        cases he
        rfl
  | loginWrong userId =>
    cases hy
    exact kept_quiet h hnow rfl trivial
  | loginRight user =>
    obtain ⟨hverified, hcreators⟩ := htask
    rw [resume] at hy
    split_ifs at hy
    · cases hy
      exact ⟨h.create hnow hverified hcreators fun hmem =>
        fresh_of_nodup hdrawn (accepted_created h hmem), trivial⟩
    · cases hy
      exact kept_quiet h hnow rfl hverified
  | login2fa token code =>
    cases hy
    exact kept_consume h hnow htask fun _ _ => Iff.rfl
  | login2faAccepted token code userId =>
    cases hy
    exact kept_quiet h hnow rfl htask
  | login2faRead token code userId row =>
    cases row with
    | none =>
      cases hy
      exact kept_quiet h hnow rfl trivial
    | some user =>
      simp only [resume] at hy
      cases hsecret : activeSecret user.account with
      | none =>
        rw [hsecret] at hy
        cases hy
        exact kept_quiet h hnow rfl htask.1
      | some secret =>
        rw [hsecret] at hy
        dsimp only at hy
        split_ifs at hy
        · cases hy
          exact kept_check h hnow htask.1 htask.2 fun _ hhold => hhold
        · cases hy
          exact kept_check h hnow htask.1 htask.2 fun _ _ => trivial
  | backupCode token code =>
    cases hy
    exact kept_consume h hnow htask fun _ _ => Iff.rfl
  | backupCodeAccepted token code userId =>
    cases hy
    exact kept_quiet h hnow rfl htask
  | backupCodeRead token code userId row =>
    rw [resume] at hy
    cases hcheck : checkBackupCode env.verifyHash code row with
    | raised =>
      rw [hcheck] at hy
      cases hy
      exact kept_check h hnow htask.1 htask.2 fun _ _ => trivial
    | refused =>
      rw [hcheck] at hy
      cases hy
      exact kept_check h hnow htask.1 htask.2 fun _ _ => trivial
    | accepted left =>
      rw [hcheck] at hy
      cases hy
      exact kept_check h hnow htask.1 htask.2 fun _ hhold => hhold
  | backupCodeMatched token userId left =>
    cases hy
    exact kept_quiet h hnow rfl htask
  | issuing token userId mustSetup2fa mustChangePassword =>
    cases hy
    exact kept_quiet h hnow rfl htask
  | storing token userId mustSetup2fa mustChangePassword =>
    rw [resume] at hy
    cases hstore : storeRefreshToken s.refreshTokens now userId (env.sha256 draws.refreshToken) with
    | none =>
      rw [hstore] at hy
      cases hy
      exact kept_quiet h hnow rfl trivial
    | some refreshTokens =>
      rw [hstore] at hy
      cases hy
      refine ⟨h.keep hnow rfl rfl ?_, trivial⟩
      rintro e ⟨⟩
      exact ⟨htask, trivial⟩
  | done response => cases hy

end

theorem logins_keeps (env : Env) : Keeps (logins env) (fun log => (createdTokens log).Nodup) Global Local where
  earlier log more h := by
    rw [createdTokens, List.filterMap_append] at h
    exact (List.nodup_append.mp h).1
  start := local_start
  frame := local_frame
  other tables clock s log h := ⟨h.past, h.justified, h.live, h.createdBy, h.acceptedOnce, h.checkedBy⟩
  resume clock s log i now draws task y h htask hnow hy hdrawn := resume_kept h hnow htask hy hdrawn

/-! ## Every run -/

/-- The process starts without a partial token. -/
def start (clock : Time) (users : Users) (refreshTokens : RefreshTokens) : System Server Task Event :=
  ⟨clock, ⟨clock, users, refreshTokens, fun _ => none⟩, [], []⟩

theorem start_holds (clock : Time) (users : Users) (refreshTokens : RefreshTokens) :
    Holds Global Local (start clock users refreshTokens) where
  global := ⟨nofun, nofun, nofun, List.nodup_nil, List.nodup_nil, List.nodup_nil⟩
  tasks i task htask := by cases htask
  known e he := by cases he

section
variable {clock : Time} {s : Server} {log : Log} (h : Global clock s log)
include h

theorem verified_of_created (hdrawn : (createdTokens log).Nodup) {token : String} {userId j v : ℕ} {t : Time}
    (hmade : ∃ j t, ⟨j, t, .created token userId⟩ ∈ log) (hcreated : ⟨j, t, .created token v⟩ ∈ log) :
    v = userId ∧ ∃ t', ⟨j, t', .verified userId⟩ ∈ log ∧ t' ≤ t := by
  obtain ⟨k, u, hk⟩ := hmade
  have hsame := eq_of_nodup_filterMap hdrawn hcreated hk rfl rfl
  cases hsame
  exact ⟨rfl, h.justified _ hcreated⟩

/-- Checks are of accepted tokens, these are of created ones, and each of those has its own verification. -/
theorem checks_le_verifications :
    log.countP (fun e => e.event.isChecked) ≤ log.countP fun e => e.event.isVerified := by
  have hchecks : (requests Event.isChecked log).length ≤ (acceptors log).length := by
    refine (List.subperm_of_subset h.checkedBy fun i hi => ?_).length_le
    obtain ⟨⟨request, time, event⟩, he, hkind, rfl⟩ := mem_requests.mp hi
    cases event with
    | checked => exact h.justified _ he
    | _ => exact absurd hkind Bool.false_ne_true
  have haccepted : (acceptedTokens log).length ≤ (createdTokens log).length :=
    (List.subperm_of_subset h.acceptedOnce fun _ htoken => accepted_created h htoken).length_le
  have hcreated : (creators log).length ≤ (requests Event.isVerified log).length := by
    refine (List.subperm_of_subset h.createdBy fun i hi => ?_).length_le
    obtain ⟨⟨request, time, event⟩, he, hkind, rfl⟩ := mem_requests.mp hi
    cases event with
    | created token userId =>
      obtain ⟨t, ht, -⟩ := h.justified _ he
      exact mem_requests.mpr ⟨_, ht, rfl, rfl⟩
    | _ => exact absurd hkind Bool.false_ne_true
  rw [length_requests] at hchecks hcreated
  rw [acceptors, length_requests] at hchecks
  rw [acceptedTokens, List.length_filterMap_eq_countP, createdTokens, List.length_filterMap_eq_countP] at haccepted
  rw [creators, length_requests] at hcreated
  omega

end

/-- **A password buys one attempt.** In every interleaving in which the partial tokens drawn are different, each is
accepted once, in time, and for the user whose password was verified when it was made; and there are no more
second-factor checks than passwords verified. -/
theorem one_attempt_each (env : Env) (clock : Time) (users : Users) (refreshTokens : RefreshTokens)
    (acts : List (Act Attempt Draws (Users × RefreshTokens))) (s : System Server Task Event)
    (hrun : Runs.exec (step (logins env)) (start clock users refreshTokens) acts = some s)
    (hdrawn : (createdTokens s.log).Nodup) :
    (acceptedTokens s.log).Nodup ∧
    (∀ i t token, ⟨i, t, .accepted token⟩ ∈ s.log →
      ∃ j t' userId, ⟨j, t', .created token userId⟩ ∈ s.log ∧ t' ≤ t ∧ t ≤ t' + minutes 5) ∧
    (∀ i t token userId, ⟨i, t, .issued (some token) userId⟩ ∈ s.log →
      (∃ t', ⟨i, t', .accepted token⟩ ∈ s.log) ∧ ∀ j t' v, ⟨j, t', .created token v⟩ ∈ s.log →
        v = userId ∧ ∃ t'', ⟨j, t'', .verified userId⟩ ∈ s.log ∧ t'' ≤ t') ∧
    s.log.countP (fun e => e.event.isChecked) ≤ s.log.countP fun e => e.event.isVerified := by
  have h : Global s.clock s.store s.log :=
    ((logins_keeps env).exec (start_holds clock users refreshTokens) hrun hdrawn).global
  refine ⟨h.acceptedOnce, fun i t token he => h.justified _ he, fun i t token userId he => ?_,
    checks_le_verifications h⟩
  obtain ⟨hmade, haccepted⟩ := h.justified _ he
  exact ⟨haccepted, fun j t' v hcreated => verified_of_created h hdrawn hmade hcreated⟩

/-- Two requests present one partial token. -/
def sharedToken : List (Act Attempt Draws (Users × RefreshTokens)) :=
  [.arrive (.login "admin" "pw"), .arrive (.login2fa "p" "totp K"), .arrive (.loginBackupCode "p" "c1")] ++
    ([0, 0, 0, 1, 2, 1, 1, 1, 1].map fun i => .resume i 1 plainDraws)

theorem one_attempt_each_shared : ∃ s, Runs.exec (step (logins plainEnv)) (start 0 adminOnly.users adminOnly.refreshTokens)
    sharedToken = some s ∧ createdTokens s.log = ["p"] ∧ (acceptedTokens s.log).Nodup := by
  have hrun : (Runs.exec (step (logins plainEnv)) (start 0 adminOnly.users adminOnly.refreshTokens) sharedToken).map
      (fun s => createdTokens s.log) = some ["p"] := by
    decide +kernel
  obtain ⟨s, hs, hcreated⟩ := Option.map_eq_some_iff.mp hrun
  exact ⟨s, hs, hcreated, (one_attempt_each plainEnv 0 adminOnly.users adminOnly.refreshTokens sharedToken s hs
    (hcreated ▸ List.nodup_singleton "p")).1⟩

end Cadsa.PartialTokens
