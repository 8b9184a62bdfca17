import Mathlib.Data.List.Basic
import Cadsa.Lib.Runs

/-! The token state of the API client and the calls that share it: `_fetch`, `initSession`
and the refresh they may wait for. An `await` ends a step; what a call does between two of
them happens at once. A response arrives, and a call that waits for a settled refresh goes on,
at any moment. -/
namespace Cadsa.Frontend.Api
open Runs
set_option autoImplicit false

/-- How a `fetch` settles: it rejects, or there is a response with a status. -/
inductive Reply
  | failure
  | status (code : ℕ)
  deriving DecidableEq, Repr

def ok (code : ℕ) : Bool := 200 ≤ code && code ≤ 299

/-- The body of a refresh: no JSON or `null`, or a value whose `access_token` may be absent. -/
inductive RefreshBody
  | broken
  | data (accessToken : Option String)
  deriving DecidableEq, Repr

/-- The body of any other response: no JSON, the JSON value `null`, or one with a `detail`. -/
inductive Body
  | broken (statusText : String)
  | null
  | json (detail : Option String)
  deriving DecidableEq, Repr

/-- `body` holds the fields of the object that is sent as JSON. -/
structure Request where
  path : String
  method : String
  body : List (String × String)
  deriving DecidableEq, Repr

inductive Failure
  | network
  | invalidBody
  | apiError (status : ℕ) (message : String)
  deriving DecidableEq, Repr

/-- Where a call stands; `awaiting none` is a promise that was resolved with `false` at once. -/
inductive Pc
  | first
  | awaiting (promise : Option ℕ)
  | second
  | reading (code : ℕ)
  | resolved
  | answered (ok : Bool)
  | rejected (failure : Failure)
  deriving DecidableEq, Repr

inductive Kind
  | fetch (request : Request)
  | initSession (saved : Bool)
  deriving DecidableEq, Repr

structure Call where
  kind : Kind
  authorization : Option String
  pc : Pc
  deriving DecidableEq, Repr

inductive Phase
  | requested
  | reading
  | settled (ok : Bool)
  deriving DecidableEq, Repr

/-- One run of the closure in `_doRefresh`, with the refresh token it sent. -/
structure Refresh where
  token : String
  phase : Phase
  deriving DecidableEq, Repr

inductive Sender
  | call (k : ℕ)
  | refresh (p : ℕ)
  deriving DecidableEq, Repr

/-- A request as `fetch` sent it. -/
structure Wire where
  sender : Sender
  request : Request
  authorization : Option String
  deriving DecidableEq, Repr

/-- Promises of `_doRefresh` and calls are numbered in the order they are made. An access token
of `none` is JavaScript's `undefined`; `onUnauthorized` says whether the handler of `main.tsx`
is in place. -/
structure World where
  accessToken : Option String
  refreshToken : String
  stored : Option String
  refreshPromise : Option ℕ
  onUnauthorized : Bool
  refreshes : List Refresh
  calls : List Call
  wire : List Wire
  redirects : ℕ
  deriving DecidableEq, Repr

def BASE : String := "/api/v1"

/-- The call of the browser's `fetch`. -/
def fetch (sender : Sender) (request : Request) (authorization : Option String) (s : World) : World :=
  { s with wire := s.wire ++ [⟨sender, { request with path := BASE ++ request.path }, authorization⟩] }

def load (stored : Option String) : World :=
  { accessToken := some "", refreshToken := stored.getD "", stored := stored, refreshPromise := none,
    onUnauthorized := false, refreshes := [], calls := [], wire := [], redirects := 0 }

/-! ## Tokens -/

def setTokens (access refresh : String) (s : World) : World :=
  { s with accessToken := some access, refreshToken := refresh, stored := some refresh }

def clearTokens (s : World) : World :=
  { s with accessToken := some "", refreshToken := "", stored := none }

/-- The handler that `main.tsx` registers. -/
def unauthorized (s : World) : World := { clearTokens s with redirects := s.redirects + 1 }

def bearer (s : World) : String := "Bearer " ++ s.accessToken.getD "undefined"

/-! ## The refresh -/

def refreshRequest (token : String) : Request := ⟨"/auth/refresh", "POST", [("refresh_token", token)]⟩

/-- The promise to wait for, and the state once it is there. -/
def _doRefresh (s : World) : Option ℕ × World :=
  if s.refreshToken = "" then (none, s)
  else match s.refreshPromise with
    | some p => (some p, s)
    | none =>
      let p := s.refreshes.length
      let s := fetch (.refresh p) (refreshRequest s.refreshToken) none s
      (some p, { s with refreshPromise := some p, refreshes := s.refreshes ++ [⟨s.refreshToken, .requested⟩] })

def setPhase (p : ℕ) (phase : Phase) (s : World) : World :=
  { s with refreshes := s.refreshes.modify p fun r => { r with phase := phase } }

/-- The closure's last steps: `finally` and the promise's outcome. -/
def settle (p : ℕ) (ok : Bool) (s : World) : World := setPhase p (.settled ok) { s with refreshPromise := none }

def refreshReply (p : ℕ) (reply : Reply) (s : World) : World :=
  match reply with
  | .failure => settle p false (clearTokens s)
  | .status code => if ok code then setPhase p .reading s else settle p false (clearTokens s)

def refreshBody (p : ℕ) (body : RefreshBody) (s : World) : World :=
  match body with
  | .broken => settle p false (clearTokens s)
  | .data access => settle p true { s with accessToken := access }

/-- The outcome a waiting call observes, once there is one. -/
def outcome (s : World) : Option ℕ → Option Bool
  | none => some false
  | some p =>
    match s.refreshes[p]? with
    | some ⟨_, .settled ok⟩ => some ok
    | _ => none

/-! ## Calls -/

def setCall (k : ℕ) (c : Call) (s : World) : World := { s with calls := s.calls.set k c }

def _fetch (request : Request) (s : World) : World :=
  let authorization := if s.accessToken.getD "" = "" then none else some (bearer s)
  let s := fetch (.call s.calls.length) request authorization s
  { s with calls := s.calls ++ [⟨.fetch request, authorization, .first⟩] }

def initSession (s : World) : World :=
  if s.refreshToken = "" then { s with calls := s.calls ++ [⟨.initSession s.onUnauthorized, none, .answered false⟩] }
  else
    let saved := s.onUnauthorized
    let (promise, s) := _doRefresh { s with onUnauthorized := false }
    { s with calls := s.calls ++ [⟨.initSession saved, none, .awaiting promise⟩] }

/-- A call goes on with a response it keeps: read the body. -/
def readBody (k : ℕ) (c : Call) (reply : Reply) (s : World) : World :=
  match reply with
  | .failure => setCall k { c with pc := .rejected .network } s
  | .status code => setCall k { c with pc := .reading code } s

def firstReply (k : ℕ) (c : Call) (reply : Reply) (s : World) : World :=
  if reply = .status 401 ∧ s.refreshToken ≠ "" then
    let (promise, s) := _doRefresh s
    setCall k { c with pc := .awaiting promise } s
  else readBody k c reply s

def resume (k : ℕ) (c : Call) (refreshed : Bool) (s : World) : World :=
  match c.kind with
  | .fetch request =>
    if refreshed then
      fetch (.call k) request (some (bearer s)) (setCall k { c with authorization := some (bearer s), pc := .second } s)
    else
      let s := if s.onUnauthorized then unauthorized s else s
      setCall k { c with pc := .rejected (.apiError 401 "Session expired — please sign in again") } s
  | .initSession saved => setCall k { c with pc := .answered refreshed } { s with onUnauthorized := saved }

def finish (code : ℕ) (body : Body) : Pc :=
  if ok code then
    match body with
    | .broken _ => .rejected .invalidBody
    | .null | .json _ => .resolved
  else
    match body with
    | .broken statusText => .rejected (.apiError code statusText)
    | .null => .rejected .invalidBody
    | .json detail => .rejected (.apiError code (detail.getD "Request failed"))

/-! ## Runs -/

inductive Action
  | fetch (request : Request)
  | initSession
  | setTokens (access refresh : String)
  | clearTokens
  | registerUnauthorizedHandler
  | reply (k : ℕ) (reply : Reply)
  | resume (k : ℕ)
  | body (k : ℕ) (body : Body)
  | refreshReply (p : ℕ) (reply : Reply)
  | refreshBody (p : ℕ) (body : RefreshBody)
  deriving DecidableEq, Repr

def step (s : World) : Action → Option World
  | .fetch request => some (_fetch request s)
  | .initSession => some (initSession s)
  | .setTokens access refresh => some (setTokens access refresh s)
  | .clearTokens => some (clearTokens s)
  | .registerUnauthorizedHandler => some { s with onUnauthorized := true }
  | .reply k reply => (s.calls[k]?).bind fun c =>
    match c.pc with
    | .first => some (firstReply k c reply s)
    | .second => some (readBody k c reply s)
    | _ => none
  | .resume k => (s.calls[k]?).bind fun c =>
    match c.pc with
    | .awaiting promise => (outcome s promise).map fun refreshed => resume k c refreshed s
    | _ => none
  | .body k body => (s.calls[k]?).bind fun c =>
    match c.pc with
    | .reading code => some (setCall k { c with pc := finish code body } s)
    | _ => none
  | .refreshReply p reply =>
    if (s.refreshes[p]?).map (·.phase) = some .requested then some (refreshReply p reply s) else none
  | .refreshBody p body =>
    if (s.refreshes[p]?).map (·.phase) = some .reading then some (refreshBody p body s) else none

/-- A refresh goes on to the body of a good response, and ends the session otherwise. -/
theorem refreshReply_cases (p : ℕ) (reply : Reply) (s : World) :
    (∃ code, reply = .status code ∧ ok code = true ∧ refreshReply p reply s = setPhase p .reading s) ∨
      (∀ code, reply = .status code → ok code = false) ∧
        refreshReply p reply s = settle p false (clearTokens s) := by
  cases reply with
  | failure =>
    refine .inr ⟨fun code h => ?_, rfl⟩
    cases h
  | status code =>
    cases hok : ok code with
    | true => exact .inl ⟨code, rfl, hok, by simp [refreshReply, hok]⟩
    | false =>
      refine .inr ⟨fun code' h => ?_, by simp [refreshReply, hok]⟩
      cases h
      exact hok

section
variable {s s' : World} {k : ℕ}

theorem step_reply {reply : Reply} (hs : step s (.reply k reply) = some s') : ∃ c, s.calls[k]? = some c ∧
    (c.pc = .first ∧ s' = firstReply k c reply s ∨ c.pc = .second ∧ s' = readBody k c reply s) := by
  obtain ⟨c, hk, hs⟩ := Option.bind_eq_some_iff.mp hs
  split at hs
  · next hc => exact ⟨c, hk, .inl ⟨hc, (Option.some.inj hs).symm⟩⟩
  · next hc => exact ⟨c, hk, .inr ⟨hc, (Option.some.inj hs).symm⟩⟩
  · cases hs

theorem step_resume (hs : step s (.resume k) = some s') : ∃ c o b, s.calls[k]? = some c ∧ c.pc = .awaiting o ∧
    outcome s o = some b ∧ s' = resume k c b s := by
  obtain ⟨c, hk, hs⟩ := Option.bind_eq_some_iff.mp hs
  split at hs
  · next o hc =>
    obtain ⟨b, hb, hs⟩ := Option.map_eq_some_iff.mp hs
    exact ⟨c, o, b, hk, hc, hb, hs.symm⟩
  · cases hs

theorem step_body {body : Body} (hs : step s (.body k body) = some s') : ∃ c code, s.calls[k]? = some c ∧
    c.pc = .reading code ∧ s' = setCall k { c with pc := finish code body } s := by
  obtain ⟨c, hk, hs⟩ := Option.bind_eq_some_iff.mp hs
  split at hs
  · next code hc => exact ⟨c, code, hk, hc, (Option.some.inj hs).symm⟩
  · cases hs

end

end Cadsa.Frontend.Api
