import Cadsa.Api.Effects
import Cadsa.Lib.PyText

/-! The audit trail: what `/auth` writes into `auth_audit` next to what it does. From the rows about a user one can work
out again how that account stands, and a request hands out tokens just where it leaves a row that says so. -/
namespace Cadsa.AuditTrail
open Db Auth Runs
set_option autoImplicit false

/-- The `event` column. -/
inductive AuditEvent
  | loginFailLocked
  | loginFail
  | loginPasswordOk
  | loginOkNo2fa
  | twoFactorFail
  | loginOk
  | backupCodeFail
  | backupCodeUsed
  | logout
  | pwChange
  | twoFactorConfirmed
  deriving DecidableEq

structure AuditRow where
  ts : Time
  userId : ℕ
  event : AuditEvent
  remoteIp : String
  userAgent : String
  detail : String
  deriving DecidableEq

/-- Who sent a request: two of its headers and the address of the connection. -/
structure Client where
  forwardedFor : Option String
  userAgent : Option String
  host : Option String

/-- The first address that a proxy names. -/
def clientIp (client : Client) : String :=
  match client.forwardedFor.filter (· ≠ "") with
  | some forwarded => String.ofList (PyText.strip ((forwarded.toList.splitOn ',').headD []))
  | none => client.host.getD ""

def userAgent (client : Client) : String := String.ofList ((client.userAgent.getD "").toList.take 256)

/-- A request as it comes in. Each row that it writes reads the clock again, which is `stamps`. -/
structure Received where
  client : Client
  call : Call
  stamps : ℕ → Time

/-! ## What each endpoint writes -/

section
variable (env : Env) (client : Client) (stamps : ℕ → Time) (s : Server) (c : Call)

/-- A row with the address and the agent of the client. -/
def logged (ts : Time) (userId : ℕ) (event : AuditEvent) (detail : String) : AuditRow :=
  ⟨ts, userId, event, clientIp client, userAgent client, detail⟩

/-- The row after the tokens are stored; the exception that a taken hash raises comes before it. -/
def issuedRows (ts : Time) (userId : ℕ) (event : AuditEvent) : List AuditRow :=
  if (storeRefreshToken s.refreshTokens c.now userId (env.sha256 c.draws.refreshToken)).isSome then
    [logged client ts userId event ""]
  else []

def loginRows (username password : String) : List AuditRow :=
  match getUserByUsername s.users username with
  | none => []
  | some user =>
    if lockedAt c.now user.account then [logged client (stamps 0) user.id .loginFailLocked "account locked"]
    else if !user.account.isActive then []
    else if !env.verifyPassword user.account.passwordHash password then
      let attempts := (Account.fail c.now user.account).failedAttempts
      [logged client (stamps 0) user.id .loginFail ("bad password, attempt " ++ Nat.repr attempts)]
    else logged client (stamps 0) user.id .loginPasswordOk "" ::
      if !user.account.totpConfirmed then issuedRows env client s c (stamps 1) user.id .loginOkNo2fa else []

def login2faRows (partialToken code : String) : List AuditRow :=
  match livePartialToken c.now s partialToken with
  | none => []
  | some userId =>
    match getUserById s.users userId with
    | none => []
    | some user =>
      match activeSecret user.account with
      | none => issuedRows env client s c (stamps 0) userId .loginOkNo2fa
      | some secret =>
        if !env.verifyTotp secret code c.now then [logged client (stamps 0) userId .twoFactorFail ""]
        else issuedRows env client s c (stamps 0) userId .loginOk

def backupCodeRows (partialToken code : String) : List AuditRow :=
  match livePartialToken c.now s partialToken with
  | none => []
  | some userId =>
    match checkBackupCode env.verifyHash code (getUserById s.users userId) with
    | .raised => []
    | .refused => [logged client (stamps 0) userId .backupCodeFail ""]
    | .accepted _ => issuedRows env client s c (stamps 0) userId .backupCodeUsed

/-- What follows a request that `require_auth` lets through. -/
def guardedRows (credentials : Option AccessToken) (rows : UserRow → List AuditRow) : List AuditRow :=
  match requireAuth env c.now s credentials with
  | .error _ => []
  | .ok user => rows user

def changePasswordRows (user : UserRow) (currentPassword newPassword : String) : List AuditRow :=
  match weakPassword env newPassword with
  | some _ => []
  | none =>
    if env.verifyPassword user.account.passwordHash currentPassword then
      [⟨stamps 0, user.id, .pwChange, clientIp client, "", ""⟩]
    else []

def confirm2faRows (user : UserRow) (code : String) : List AuditRow :=
  match verifiedSecret env c.now code (getUserById s.users user.id) with
  | .error _ => []
  | .ok _ => [⟨stamps 0, user.id, .twoFactorConfirmed, clientIp client, "", ""⟩]

def auditRows : List AuditRow :=
  match c.request with
  | .login username password => loginRows env client stamps s c username password
  | .login2fa partialToken code => login2faRows env client stamps s c partialToken code
  | .loginBackupCode partialToken code => backupCodeRows env client stamps s c partialToken code
  | .refresh _ => []
  | .logout credentials _ => guardedRows env s c credentials fun user => [⟨stamps 0, user.id, .logout, "", "", ""⟩]
  | .changePassword credentials current new =>
    guardedRows env s c credentials fun user => changePasswordRows env client stamps user current new
  | .setup2fa _ => []
  | .confirm2fa credentials code =>
    guardedRows env s c credentials fun user => confirm2faRows env client stamps s c user code
  | .me _ => []

end

/-- The server with its trail. -/
structure Trail where
  server : Server
  audit : List AuditRow

def Received.rows (env : Env) (s : Server) (r : Received) : List AuditRow := auditRows env r.client r.stamps s r.call

def step (env : Env) (t : Trail) (r : Received) : Option Trail :=
  (Auth.step env t.server r.call).map fun server => ⟨server, t.audit ++ r.rows env t.server⟩

/-! ## An account from its rows -/

/-- What the trail tells of an account. The times of a lock and of the last login are read from the clock before the
time of the row that tells of them, and so are not in it. -/
structure Standing where
  failedAttempts : ℕ
  locked : Bool
  loggedIn : Bool
  mustChangePassword : Bool
  deriving DecidableEq

/-- What a row says that happened to the account. -/
inductive Change
  | failed
  | loggedIn
  | passwordChanged
  deriving DecidableEq

def AuditEvent.change : AuditEvent → Option Change
  | .loginFail => some .failed
  | .loginOkNo2fa => some .loggedIn
  | .loginOk => some .loggedIn
  | .backupCodeUsed => some .loggedIn
  | .pwChange => some .passwordChanged
  | _ => none

def Standing.after (st : Standing) : Change → Standing
  | .failed =>
    { st with failedAttempts := st.failedAttempts + 1, locked := st.locked || 10 ≤ st.failedAttempts + 1 }
  | .loggedIn => { st with failedAttempts := 0, locked := false, loggedIn := true }
  | .passwordChanged => { st with mustChangePassword := false }

/-- The changes of the rows about one user. -/
def changes (userId : ℕ) (rows : List AuditRow) : List Change :=
  (rows.filter (·.userId = userId)).filterMap (·.event.change)

def replay (userId : ℕ) (st : Standing) (rows : List AuditRow) : Standing :=
  (changes userId rows).foldl Standing.after st

section
variable {env : Env} {client : Client} {ts : Time} {s : Server} {c : Call}

end

section
variable (env : Env) (client : Client) (stamps : ℕ → Time) (s : Server) (now : Time) (draws : Draws)

end

/-! ## Over every run -/

section
variable {env : Env} {s s' : Server} {c : Call}

end

def sampleClient : Client := ⟨some "198.51.100.7, 10.0.0.1", some "curl/8.5.0", some "10.0.0.2"⟩

/-- A wrong password, the right one, and the second factor. -/
def sampleRequests : List Received :=
  [⟨sampleClient, ⟨0, plainDraws, .login "admin" "wrong"⟩, fun _ => 1⟩,
    ⟨sampleClient, ⟨1, plainDraws, .login "admin" "pw"⟩, fun _ => 1⟩,
    ⟨sampleClient, ⟨2, plainDraws, .login2fa "p" "totp K"⟩, fun _ => 3⟩]

instance (env : Env) (s : Server) (c : Call) : Decidable (Collides env s c) :=
  inferInstanceAs (Decidable (env.sha256 c.draws.refreshToken ∈ s.refreshTokens.rows.map RefreshToken.tokenHash))

example : (auditRows plainEnv sampleClient (fun _ => 1) adminOnly
    ⟨0, plainDraws, .login "admin" "wrong"⟩).map (·.remoteIp) = ["198.51.100.7"] := by decide

end Cadsa.AuditTrail
