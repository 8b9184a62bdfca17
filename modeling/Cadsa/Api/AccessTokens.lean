import Cadsa.Api.Effects
import Cadsa.Lib.JsonDump

/-! Access tokens as texts: `auth_utils.py` makes and reads them with the keys that it finds in two files, each time
anew. Where the keys belong together, what `require_auth` says of a text is what it says of the user and the time that
the text stands for; where they do not, no text is accepted. -/
namespace Cadsa.AccessTokens
open Db Auth
set_option autoImplicit false

inductive Algorithm
  | rs256
  | hs256
  deriving DecidableEq

/-- The claims. Times are in seconds. -/
structure Payload where
  sub : String
  iat : ℕ
  exp : ℕ
  type : String
  deriving DecidableEq

/-- What `jose` raises: `JWTError`, or something else. -/
inductive JoseError
  | jwtError
  | other

/-- `jwt.encode` and `jwt.decode`; the latter looks at the clock. -/
structure Jose where
  encode : Payload → String → Algorithm → Except JoseError String
  decode : String → String → Algorithm → ℕ → Except JoseError Payload

/-! ## `auth_utils.py` -/

/-- The files of the keys, where they can be read, and the secret of the configuration. -/
structure Settings where
  privateKey : Option String
  publicKey : Option String
  secretKey : String

/-- The public key is not looked for where the private one cannot be read. -/
def loadKeys (cfg : Settings) : String × String :=
  match cfg.privateKey with
  | none => ("", "")
  | some privateKey => (privateKey, cfg.publicKey.getD "")

def fallbackKey (cfg : Settings) : String := if cfg.secretKey = "" then "dev-secret" else cfg.secretKey

def seconds (t : Time) : ℕ := t / 1000000

def accessTokenExpireMinutes : ℕ := 15

def payloadOf (userId : ℕ) (now : Time) : Payload where
  sub := Nat.repr userId
  iat := seconds now
  exp := seconds (now + minutes accessTokenExpireMinutes)
  type := "access"

section
variable (jose : Jose)

def createAccessToken (cfg : Settings) (userId : ℕ) (now : Time) : Except JoseError String :=
  let privateKey := (loadKeys cfg).1
  if privateKey ≠ "" then jose.encode (payloadOf userId now) privateKey .rs256
  else jose.encode (payloadOf userId now) (fallbackKey cfg) .hs256

/-- What is made of a payload, and of the exception that is caught. -/
def accessOnly : Except JoseError Payload → Except JoseError (Option Payload)
  | .ok payload => .ok (if payload.type ≠ "access" then none else some payload)
  | .error .jwtError => .ok none
  | .error .other => .error .other

def decodeAccessToken (cfg : Settings) (token : String) (now : Time) : Except JoseError (Option Payload) :=
  let publicKey := (loadKeys cfg).2
  accessOnly (if publicKey ≠ "" then jose.decode token publicKey .rs256 (seconds now)
    else jose.decode token (fallbackKey cfg) .hs256 (seconds now))

/-! ## `dependencies.py` -/

/-- `int` of decimal digits. -/
def intOf (s : String) : Option ℕ :=
  if s ≠ "" ∧ s.toList.all Char.isDigit then some (Nat.ofDigitChars 10 s.toList 0) else none

/-- What raises is answered with 500. -/
def requireAuth (cfg : Settings) (now : Time) (s : Server) (credentials : Option String) : Except Response UserRow :=
  match credentials with
  | none => .error (.error 401 "Not authenticated")
  | some token =>
    match decodeAccessToken jose cfg token now with
    | .error _ => .error .serverError
    | .ok none => .error (.error 401 "Invalid or expired token")
    | .ok (some payload) =>
      match intOf payload.sub with
      | none => .error .serverError
      | some userId =>
        match (getUserById s.users userId).filter (·.account.isActive) with
        | none => .error (.error 401 "User not found or inactive")
        | some user => .ok user

end

/-! ## Keys that belong together -/

/-- Which keys decode what a key has encoded: `pair` says it of private and public keys. -/
def Decodes (pair : String → String → Prop) : Algorithm → String → String → Prop
  | .rs256, key, other => pair key other
  | .hs256, key, other => key = other

/-- What is documented of the library: claims come back with a key that decodes them under their algorithm, until they
expire, and then `JWTError` is raised. -/
structure Jose.Documented (jose : Jose) (pair : String → String → Prop) : Prop where
  decode_iff : ∀ {p : Payload} {key : String} {a : Algorithm} {token : String}, jose.encode p key a = .ok token →
    ∀ (other : String) (b : Algorithm) (now : ℕ) (q : Payload),
      jose.decode token other b now = .ok q ↔ q = p ∧ a = b ∧ Decodes pair a key other ∧ now ≤ p.exp
  expired : ∀ {p : Payload} {key : String} {a : Algorithm} {token : String}, jose.encode p key a = .ok token →
    ∀ (other : String) (now : ℕ), Decodes pair a key other → p.exp < now →
      jose.decode token other a now = .error .jwtError

/-- What the one settings create the other settings read: with a pair of keys, or with neither key and one secret. -/
def Belong (pair : String → String → Prop) (created used : Settings) : Prop :=
  if (loadKeys created).1 = "" then (loadKeys used).2 = "" ∧ fallbackKey created = fallbackKey used
  else (loadKeys used).2 ≠ "" ∧ pair (loadKeys created).1 (loadKeys used).2

/-! ## The text of a token and what it stands for -/

theorem intOf_repr (n : ℕ) : intOf (Nat.repr n) = some n := by
  have hdigits : (Nat.repr n).toList = Nat.toDigits 10 n := Nat.toList_repr
  have hne : Nat.repr n ≠ "" := by
    intro hempty
    rw [hempty] at hdigits
    exact Nat.toDigits_ne_nil hdigits.symm
  have hall : (Nat.repr n).toList.all Char.isDigit = true := by
    rw [hdigits, List.all_eq_true]
    intro c hc
    exact Nat.isDigit_of_mem_toDigits (by omega) (by omega) hc
  rw [intOf, if_pos ⟨hne, hall⟩, hdigits, Nat.ofDigitChars_ten_toDigits]

section
variable {jose : Jose} {pair : String → String → Prop} {created used : Settings} {userId : ℕ} {issued now : Time}
  {token : String}

/-- With which key and which algorithm a token is made, and with which it is read. -/
def signing (cfg : Settings) : String × Algorithm :=
  if (loadKeys cfg).1 ≠ "" then ((loadKeys cfg).1, .rs256) else (fallbackKey cfg, .hs256)

def checking (cfg : Settings) : String × Algorithm :=
  if (loadKeys cfg).2 ≠ "" then ((loadKeys cfg).2, .rs256) else (fallbackKey cfg, .hs256)

theorem createAccessToken_eq :
    createAccessToken jose created userId issued =
      jose.encode (payloadOf userId issued) (signing created).1 (signing created).2 := by
  by_cases h : (loadKeys created).1 = ""
  all_goals simp [createAccessToken, signing, h]

theorem decodeAccessToken_eq :
    decodeAccessToken jose used token now =
      accessOnly (jose.decode token (checking used).1 (checking used).2 (seconds now)) := by
  by_cases h : (loadKeys used).2 = ""
  all_goals simp [decodeAccessToken, checking, h]

theorem belong_iff :
    Belong pair created used ↔
      (signing created).2 = (checking used).2 ∧
        Decodes pair (signing created).2 (signing created).1 (checking used).1 := by
  unfold Belong signing checking
  by_cases hprivate : (loadKeys created).1 = "" <;> by_cases hpublic : (loadKeys used).2 = ""
  all_goals simp [hprivate, hpublic, Decodes]

theorem decodeAccessToken_belong (hjose : jose.Documented pair)
    (htoken : createAccessToken jose created userId issued = .ok token) (h : Belong pair created used) :
    decodeAccessToken jose used token now =
      .ok (if seconds now ≤ seconds (issued + minutes 15) then some (payloadOf userId issued) else none) := by
  rw [createAccessToken_eq] at htoken
  obtain ⟨halgorithm, hdecodes⟩ := belong_iff.mp h
  rw [decodeAccessToken_eq, ← halgorithm]
  by_cases hfresh : seconds now ≤ seconds (issued + minutes 15)
  · rw [(hjose.decode_iff htoken _ _ _ _).mpr ⟨rfl, rfl, hdecodes, hfresh⟩, if_pos hfresh]
    rfl
  · rw [hjose.expired htoken _ _ hdecodes (Nat.lt_of_not_le hfresh), if_neg hfresh]
    rfl

theorem decodeAccessToken_apart (hjose : jose.Documented pair)
    (htoken : createAccessToken jose created userId issued = .ok token) (h : ¬Belong pair created used)
    (payload : Payload) : decodeAccessToken jose used token now ≠ .ok (some payload) := by
  rw [createAccessToken_eq] at htoken
  rw [decodeAccessToken_eq]
  cases hdecoded : jose.decode token (checking used).1 (checking used).2 (seconds now) with
  | ok q =>
    obtain ⟨-, halgorithm, hdecodes, -⟩ := (hjose.decode_iff htoken _ _ _ _).mp hdecoded
    exact absurd (belong_iff.mpr ⟨halgorithm, hdecodes⟩) h
  | error e => cases e <;> nofun

/-- **Tokens as texts**: settings that belong together read a token as the user and the time that it was made for, until
its fifteen minutes are over; others accept it of nobody, whenever and whoever is stored. -/
theorem access_token_read (hjose : jose.Documented pair) {env : Env}
    (henv : ∀ accessToken time, env.acceptsToken accessToken time = true ↔
      seconds time ≤ seconds (accessToken.iat + minutes 15))
    (htoken : createAccessToken jose created userId issued = .ok token) (now : Time) (s : Server) :
    (Belong pair created used →
      requireAuth jose used now s (some token) = Auth.requireAuth env now s (some ⟨userId, issued⟩)) ∧
    (¬Belong pair created used → ∀ user, requireAuth jose used now s (some token) ≠ .ok user) := by
  constructor
  · intro hbelong
    have haccepts := henv ⟨userId, issued⟩ now
    simp only [requireAuth, Auth.requireAuth, decodeAccessToken_belong hjose htoken hbelong]
    by_cases hfresh : seconds now ≤ seconds (issued + minutes 15)
    · rw [if_pos hfresh, if_pos (haccepts.mpr hfresh)]
      cases huser : (getUserById s.users userId).filter (·.account.isActive) with
      | none => simp only [payloadOf, intOf_repr, huser]
      | some user => simp only [payloadOf, intOf_repr, huser]
    · rw [if_neg hfresh, if_neg fun h => hfresh (haccepts.mp h)]
  · intro hapart user
    have hnone : ∀ payload, decodeAccessToken jose used token now ≠ .ok (some payload) :=
      decodeAccessToken_apart hjose htoken hapart
    simp only [requireAuth]
    cases hdecoded : decodeAccessToken jose used token now with
    | error e =>
      intro h
      cases h
    | ok decoded =>
      cases decoded with
      | none =>
        intro h
        cases h
      | some payload => exact absurd hdecoded (hnone payload)

end

/-! ## Tokens that are signed with the secret itself -/

def ofAlgorithm : Algorithm → String
  | .rs256 => "RS256"
  | .hs256 => "HS256"

theorem ofAlgorithm_injective {a b : Algorithm} (h : ofAlgorithm a = ofAlgorithm b) : a = b := by
  cases a <;> cases b <;> simp_all [ofAlgorithm]

/-- A token that shows its key. -/
def shown (p : Payload) (key : String) (a : Algorithm) : PyJson.Json :=
  .arr [.str (ofAlgorithm a), .str key, .str p.sub, .int p.iat, .int p.exp, .str p.type]

def readShown (key : String) (a : Algorithm) (now : ℕ) : Option PyJson.Json → Except JoseError Payload
  | some (.arr [.str a', .str key', .str sub, .int iat, .int exp, .str type]) =>
    if a' = ofAlgorithm a ∧ key' = key ∧ now ≤ exp.toNat then .ok ⟨sub, iat.toNat, exp.toNat, type⟩ else .error .jwtError
  | _ => .error .jwtError

def plainJose : Jose where
  encode p key a := .ok (JsonDump.dumps (shown p key a))
  decode token key a now := readShown key a now (JsonDump.loads token)

theorem dumpable_shown (p : Payload) (key : String) (a : Algorithm) : JsonDump.Dumpable (shown p key a) := by
  apply JsonDump.Dumpable.arr
  intro j hj
  simp only [List.mem_cons, List.not_mem_nil, or_false] at hj
  obtain rfl | rfl | rfl | rfl | rfl | rfl := hj
  all_goals first | exact .str _ | exact .int _

theorem plainJose_decode {p : Payload} {key : String} {a : Algorithm} {token : String}
    (h : plainJose.encode p key a = .ok token) (other : String) (b : Algorithm) (now : ℕ) :
    plainJose.decode token other b now =
      if a = b ∧ key = other ∧ now ≤ p.exp then .ok p else .error .jwtError := by
  have hname : ofAlgorithm a = ofAlgorithm b ↔ a = b := ⟨ofAlgorithm_injective, congrArg _⟩
  simp only [plainJose, Except.ok.injEq] at h ⊢
  rw [← h, JsonDump.loads_dumps (dumpable_shown p key a)]
  simp only [shown, readShown, Int.toNat_natCast, hname]

theorem plainJose_documented : plainJose.Documented (· = ·) where
  decode_iff := by
    intro p key a token h other b now q
    have hdecodes : Decodes (· = ·) a key other ↔ key = other := by cases a <;> rfl
    rw [plainJose_decode h, hdecodes]
    split
    · next hcond => simp [hcond, eq_comm]
    · next hcond => simpa using fun _ => hcond
  expired := by
    intro p key a token h other now _ hlate
    rw [plainJose_decode h, if_neg (by omega)]

def someSettings : Settings := ⟨none, some "public key", "secret"⟩

def someToken : String := JsonDump.dumps (shown (payloadOf 1 0) "secret" .hs256)

/-- A process that has got another secret since. -/
def otherSettings : Settings := { someSettings with secretKey := "other" }

theorem access_token_read_sample :
    createAccessToken plainJose someSettings 1 0 = .ok someToken ∧
    requireAuth plainJose someSettings (minutes 15) adminOnly (some someToken) = .ok admin ∧
    ∀ user, requireAuth plainJose otherSettings (minutes 15) adminOnly (some someToken) ≠ .ok user := by
  have hbelong : Belong (· = ·) someSettings someSettings := ⟨rfl, rfl⟩
  have hapart : ¬Belong (· = ·) someSettings otherSettings := by
    rintro ⟨-, hsecret⟩
    exact absurd hsecret (by decide)
  have hmade : createAccessToken plainJose someSettings 1 0 = .ok someToken := rfl
  let env : Env := { plainEnv with acceptsToken := fun t now => seconds now ≤ seconds (t.iat + minutes 15) }
  have henv : ∀ accessToken time, env.acceptsToken accessToken time = true ↔
      seconds time ≤ seconds (accessToken.iat + minutes 15) := fun _ _ => decide_eq_true_iff
  refine ⟨hmade, ?_, ?_⟩
  · exact (access_token_read plainJose_documented henv hmade (minutes 15) adminOnly).1 hbelong
  · exact (access_token_read plainJose_documented henv hmade (minutes 15) adminOnly).2 hapart

end Cadsa.AccessTokens
