import Mathlib.Logic.Function.Basic
import Cadsa.Db.RefreshTokens

/-! `api/auth.py`: the endpoints, one request after the other. What a request draws at random is
part of it, and so is its time. The audit log, the client's address and its user agent are only
written and are left out. -/
namespace Cadsa.Auth
open Db
set_option autoImplicit false

structure AccessToken where
  sub : ℕ
  iat : Time
  deriving DecidableEq

/-- The libraries: argon2, pyotp, hashlib, jose, and `str`'s character classes. -/
structure Env where
  verifyPassword : String → String → Bool
  verifyHash : String → String → Verdict
  /-- `pyotp.TOTP(secret).verify(code, valid_window=1)`. -/
  verifyTotp : String → String → Time → Bool
  provisioningUri : String → String → String
  sha256 : String → String
  /-- The signature holds and the token has not expired. -/
  acceptsToken : AccessToken → Time → Bool
  isUpper : Char → Bool
  isDigit : Char → Bool

/-- The random values of one request; a backup code comes with its hash. -/
structure Draws where
  partialToken : String
  refreshToken : String
  totpSecret : String
  passwordHash : String
  backupCodes : List (String × String)

structure PartialToken where
  userId : ℕ
  createdAt : Time
  deriving DecidableEq

structure Server where
  clock : Time
  users : Users
  refreshTokens : RefreshTokens
  partialTokens : String → Option PartialToken

inductive Response where
  | error (status : ℕ) (detail : String)
  | invalid (message : String)
  | serverError
  | tokens (accessToken : AccessToken) (refreshToken : String) (mustSetup2fa : Bool)
      (mustChangePassword : Option Bool)
  | requires2fa (requiresPasswordChange : Bool) (partialToken : String)
  | access (accessToken : AccessToken)
  | ok
  | totpSetup (secret provisioningUri : String)
  | backupCodes (codes : List String)
  | me (id : ℕ) (username : String) (email : Option String) (mustChangePassword totpConfirmed : Bool)
      (lastLogin : Option Time)
  deriving DecidableEq

/-- The user for whom a response hands out an access and a refresh token. -/
def Response.tokensFor : Response → Option ℕ
  | .tokens accessToken _ _ _ => some accessToken.sub
  | _ => none

section
variable (env : Env) (draws : Draws) (now : Time)

/-! ## Login -/

def createPartialToken (s : Server) (userId : ℕ) : Server :=
  { s with partialTokens := Function.update s.partialTokens draws.partialToken (some ⟨userId, now⟩) }

/-- `_consume_partial_token` as a lookup: the user of a token not older than five minutes. -/
def livePartialToken (s : Server) (token : String) : Option ℕ :=
  (s.partialTokens token).bind fun data => if minutes 5 < now - data.createdAt then none else some data.userId

def dropPartialToken (s : Server) (token : String) : Server :=
  { s with partialTokens := Function.update s.partialTokens token none }

/-- The end of every successful login. -/
def issueTokens (s : Server) (userId : ℕ) (mustSetup2fa : Bool) (mustChangePassword : Option Bool) :
    Server × Response :=
  let s := { s with users := recordLoginSuccess s.users now userId }
  match storeRefreshToken s.refreshTokens now userId (env.sha256 draws.refreshToken) with
  | none => (s, .serverError)
  | some refreshTokens =>
    ({ s with refreshTokens }, .tokens ⟨userId, now⟩ draws.refreshToken mustSetup2fa mustChangePassword)

def lockedAt (a : Account) : Bool :=
  match a.lockedUntil with
  | some locked => decide (now < locked)
  | none => false

/-- What `login` finds out about the row it has read. -/
inductive LoginVerdict where
  | refused (response : Response)
  | wrong (user : UserRow)
  | right (user : UserRow)
  deriving DecidableEq

def loginGate (row : Option UserRow) : Except Response UserRow :=
  match row with
  | none => .error (.error 401 "Invalid credentials")
  | some user =>
    if lockedAt now user.account then .error (.error 429 "Account temporarily locked. Try again later.")
    else if !user.account.isActive then .error (.error 401 "Account inactive")
    else .ok user

def judgeLogin (password : String) (row : Option UserRow) : LoginVerdict :=
  match loginGate now row with
  | .error response => .refused response
  | .ok user => if env.verifyPassword user.account.passwordHash password then .right user else .wrong user

def login (s : Server) (username password : String) : Server × Response :=
  match judgeLogin env now password (getUserByUsername s.users username) with
  | .refused response => (s, response)
  | .wrong user =>
    ({ s with users := recordLoginFailure s.users now user.id }, .error 401 "Invalid credentials")
  | .right user =>
    if user.account.totpConfirmed then
      (createPartialToken draws now s user.id, .requires2fa user.account.mustChangePassword draws.partialToken)
    else issueTokens env draws now s user.id true (some user.account.mustChangePassword)

/-- The secret to verify against; nothing where two-factor authentication is not set up. -/
def activeSecret (a : Account) : Option String :=
  if a.totpConfirmed then a.totpSecret.filter (· ≠ "") else none

def login2fa (s : Server) (partialToken code : String) : Server × Response :=
  let s' := dropPartialToken s partialToken
  match livePartialToken now s partialToken with
  | none => (s', .error 401 "Invalid or expired session")
  | some userId =>
    match getUserById s'.users userId with
    | none => (s', .error 401 "User not found")
    | some user =>
      match activeSecret user.account with
      | none => issueTokens env draws now s' userId true (some user.account.mustChangePassword)
      | some secret =>
        if env.verifyTotp secret code now then
          issueTokens env draws now s' userId false (some user.account.mustChangePassword)
        else (s', .error 401 "Invalid 2FA code")

def loginBackupCode (s : Server) (partialToken code : String) : Server × Response :=
  let s' := dropPartialToken s partialToken
  match livePartialToken now s partialToken with
  | none => (s', .error 401 "Invalid or expired session")
  | some userId =>
    match checkBackupCode env.verifyHash code (getUserById s'.users userId) with
    | .raised => (s', .serverError)
    | .refused => (s', .error 401 "Invalid backup code")
    | .accepted left =>
      issueTokens env draws now { s' with users := writeBackupCodes s'.users userId left } userId false none

/-! ## The other endpoints -/

def refreshToken (s : Server) (token : String) : Server × Response :=
  match validateRefreshToken s.refreshTokens now (env.sha256 token) with
  | none => (s, .error 401 "Invalid or expired refresh token")
  | some row =>
    match (getUserById s.users row.userId).filter (·.account.isActive) with
    | none => (s, .error 401 "User inactive")
    | some user => (s, .access ⟨user.id, now⟩)

def requireAuth (s : Server) (credentials : Option AccessToken) : Except Response UserRow :=
  match credentials with
  | none => .error (.error 401 "Not authenticated")
  | some token =>
    if env.acceptsToken token now then
      match (getUserById s.users token.sub).filter (·.account.isActive) with
      | none => .error (.error 401 "User not found or inactive")
      | some user => .ok user
    else .error (.error 401 "Invalid or expired token")

def withUser (s : Server) (credentials : Option AccessToken) (endpoint : UserRow → Server × Response) :
    Server × Response :=
  match requireAuth env now s credentials with
  | .error response => (s, response)
  | .ok user => endpoint user

def logout (s : Server) (credentials : Option AccessToken) (token : String) : Server × Response :=
  withUser env now s credentials fun _ =>
    ({ s with refreshTokens := revokeRefreshToken s.refreshTokens (env.sha256 token) }, .ok)

def weakPassword (v : String) : Option String :=
  if v.length < 12 then some "Password must be at least 12 characters"
  else if !v.toList.any env.isUpper then some "Password must contain an uppercase letter"
  else if !v.toList.any env.isDigit then some "Password must contain a digit"
  else none

def changePassword (s : Server) (credentials : Option AccessToken) (currentPassword newPassword : String) :
    Server × Response :=
  withUser env now s credentials fun user =>
    match weakPassword env newPassword with
    | some message => (s, .invalid message)
    | none =>
      if env.verifyPassword user.account.passwordHash currentPassword then
        ({ s with users := updatePassword s.users user.id draws.passwordHash }, .ok)
      else (s, .error 400 "Current password is incorrect")

def setup2fa (s : Server) (credentials : Option AccessToken) : Server × Response :=
  withUser env now s credentials fun user =>
    ({ s with users := setTotpSecret s.users user.id draws.totpSecret },
      .totpSetup draws.totpSecret (env.provisioningUri draws.totpSecret user.username))

def verifiedSecret (code : String) (row : Option UserRow) : Except Response String :=
  match (row.bind (·.account.totpSecret)).filter (· ≠ "") with
  | none => .error (.error 400 "TOTP not set up yet")
  | some secret => if env.verifyTotp secret code now then .ok secret else .error (.error 400 "Invalid TOTP code")

def confirm2fa (s : Server) (credentials : Option AccessToken) (code : String) : Server × Response :=
  withUser env now s credentials fun user =>
    match verifiedSecret env now code (getUserById s.users user.id) with
    | .error response => (s, response)
    | .ok _ =>
      ({ s with users := confirmTotp s.users user.id (draws.backupCodes.map (·.2)) },
        .backupCodes (draws.backupCodes.map (·.1)))

def getMe (s : Server) (credentials : Option AccessToken) : Server × Response :=
  withUser env now s credentials fun user =>
    (s, .me user.id user.username user.email user.account.mustChangePassword user.account.totpConfirmed
      user.account.lastLogin)

end

/-! ## Requests -/

inductive Request where
  | login (username password : String)
  | login2fa (partialToken code : String)
  | loginBackupCode (partialToken code : String)
  | refresh (token : String)
  | logout (credentials : Option AccessToken) (token : String)
  | changePassword (credentials : Option AccessToken) (currentPassword newPassword : String)
  | setup2fa (credentials : Option AccessToken)
  | confirm2fa (credentials : Option AccessToken) (code : String)
  | me (credentials : Option AccessToken)

structure Call where
  now : Time
  draws : Draws
  request : Request

def handle (env : Env) (s : Server) (c : Call) : Server × Response :=
  match c.request with
  | .login username password => login env c.draws c.now s username password
  | .login2fa partialToken code => login2fa env c.draws c.now s partialToken code
  | .loginBackupCode partialToken code => loginBackupCode env c.draws c.now s partialToken code
  | .refresh token => refreshToken env c.now s token
  | .logout credentials token => logout env c.now s credentials token
  | .changePassword credentials current new => changePassword env c.draws c.now s credentials current new
  | .setup2fa credentials => setup2fa env c.draws c.now s credentials
  | .confirm2fa credentials code => confirm2fa env c.draws c.now s credentials code
  | .me credentials => getMe env c.now s credentials

/-- One request; the clock never goes back. -/
def step (env : Env) (s : Server) (c : Call) : Option Server :=
  if s.clock ≤ c.now then some { (handle env s c).1 with clock := c.now } else none

end Cadsa.Auth
