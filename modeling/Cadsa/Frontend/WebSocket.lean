import Mathlib.Data.List.Basic
import Cadsa.Lib.Runs

/-! The `CadsaWebSocket` class together with the part of a browser it works on: the sockets it
has created, the timeouts and intervals that are set, and what its handlers were called with.
Time is left out: a timeout that is set may fire at any moment, and so may an interval. -/
namespace Cadsa.Frontend.WebSocket
open Runs
set_option autoImplicit false

inductive ReadyState
  | connecting | opened | closing | closed
  deriving DecidableEq, Repr

/-- `attached` is false once `disconnect` has nulled the four event handlers. -/
structure Socket where
  url : String
  readyState : ReadyState
  attached : Bool
  deriving DecidableEq, Repr

inductive Callback
  | deferredConnect | reconnect
  deriving DecidableEq, Repr

structure Timeout where
  id : ℕ
  callback : Callback
  delay : ℕ
  deriving DecidableEq, Repr

inductive ClientMessage
  | pong
  | filter (host : Option String)
  deriving DecidableEq, Repr

/-- The text of a frame: no JSON object, a ping, or any other message. -/
inductive Frame (μ : Type)
  | malformed
  | ping
  | message (m : μ)
  deriving DecidableEq, Repr

inductive Call (μ : Type)
  | message (handler : ℕ) (m : μ)
  | status (handler : ℕ) (connected : Bool)
  deriving DecidableEq, Repr

/-- Sockets are numbered in the order of their creation; handlers stand for the functions
that were registered. -/
structure World (μ : Type) where
  ws : Option ℕ
  handlers : List ℕ
  statusHandlers : List ℕ
  reconnectTimer : Option ℕ
  pendingConnect : Option ℕ
  reconnectDelay : ℕ
  shouldReconnect : Bool
  pingInterval : Option ℕ
  protocol : String
  host : String
  accessToken : String
  sockets : List Socket
  timeouts : List Timeout
  intervals : List ℕ
  nextId : ℕ
  called : List (Call μ)
  sent : List (ℕ × ClientMessage)
  deriving DecidableEq

variable {μ : Type}

/-! ## The browser's operations -/

def setTimeout (callback : Callback) (delay : ℕ) (s : World μ) : World μ :=
  { s with timeouts := s.timeouts ++ [⟨s.nextId, callback, delay⟩], nextId := s.nextId + 1 }

def clearTimeout (id : ℕ) (s : World μ) : World μ :=
  { s with timeouts := s.timeouts.filter (·.id ≠ id) }

def Socket.close (w : Socket) : Socket :=
  match w.readyState with
  | .connecting | .opened => { w with readyState := .closing }
  | .closing | .closed => w

def readyState (sockets : List Socket) (i : ℕ) : Option ReadyState := (sockets[i]?).map (·.readyState)

def attached (sockets : List Socket) (i : ℕ) : Bool := ((sockets[i]?).map (·.attached)).getD false

def setReadyState (i : ℕ) (r : ReadyState) (s : World μ) : World μ :=
  { s with sockets := s.sockets.modify i fun w => { w with readyState := r } }

/-! ## The methods of the class -/

def send (msg : ClientMessage) (s : World μ) : World μ :=
  match s.ws with
  | some i => if readyState s.sockets i = some .opened then { s with sent := s.sent ++ [(i, msg)] } else s
  | none => s

def _notifyStatus (connected : Bool) (s : World μ) : World μ :=
  { s with called := s.called ++ s.statusHandlers.map fun h => .status h connected }

def _startPing (s : World μ) : World μ :=
  { s with pingInterval := some s.nextId, intervals := s.intervals ++ [s.nextId], nextId := s.nextId + 1 }

def _stopPing (s : World μ) : World μ :=
  match s.pingInterval with
  | some id => { s with intervals := s.intervals.filter (· ≠ id), pingInterval := none }
  | none => s

def url (s : World μ) : String :=
  let proto := if s.protocol = "https:" then "wss" else "ws"
  proto ++ "://" ++ s.host ++ "/api/v1/ws/realtime?token=" ++ s.accessToken

def _connect (s : World μ) : World μ :=
  { s with ws := some s.sockets.length, sockets := s.sockets ++ [⟨url s, .connecting, true⟩] }

def connect (s : World μ) : World μ :=
  let s := { s with shouldReconnect := true }
  let state := s.ws.bind (readyState s.sockets)
  if state = some .opened ∨ state = some .connecting then s
  else if s.pendingConnect.isSome then s
  else { setTimeout .deferredConnect 0 s with pendingConnect := some s.nextId }

def disconnect (s : World μ) : World μ :=
  let s := { s with shouldReconnect := false }
  match s.pendingConnect with
  | some id => { clearTimeout id s with pendingConnect := none }
  | none =>
    let s := match s.reconnectTimer with
      | some id => { clearTimeout id s with reconnectTimer := none }
      | none => s
    let s := _stopPing s
    match s.ws with
    | some i =>
      { s with sockets := s.sockets.modify i fun w => { w with attached := false }.close, ws := none }
    | none => s

/-! ## Callbacks and socket events -/

def runTimeout (callback : Callback) (s : World μ) : World μ :=
  match callback with
  | .deferredConnect =>
    let s := { s with pendingConnect := none }
    if s.shouldReconnect then _connect s else s
  | .reconnect => _connect { s with reconnectDelay := min (s.reconnectDelay * 2) 30000 }

/-- The handlers of socket `i` are attached and it is the client's current socket. -/
def listening (s : World μ) (i : ℕ) : Bool := attached s.sockets i && s.ws == some i

def onopen (i : ℕ) (s : World μ) : World μ :=
  if listening s i then _startPing (_notifyStatus true { s with reconnectDelay := 1000 }) else s

def onmessage (i : ℕ) (f : Frame μ) (s : World μ) : World μ :=
  if listening s i then
    match f with
    | .malformed => s
    | .ping => send .pong s
    | .message m => { s with called := s.called ++ s.handlers.map fun h => .message h m }
  else s

def onclose (i : ℕ) (s : World μ) : World μ :=
  if listening s i then
    let s := _stopPing (_notifyStatus false s)
    if s.shouldReconnect then
      { setTimeout .reconnect s.reconnectDelay s with reconnectTimer := some s.nextId }
    else s
  else s

def onerror (i : ℕ) (s : World μ) : World μ :=
  if listening s i then { s with sockets := s.sockets.modify i Socket.close } else s

/-! ## Runs -/

inductive Action (μ : Type)
  | connect
  | disconnect
  | send (msg : ClientMessage)
  | onMessage (handler : ℕ)
  | offMessage (handler : ℕ)
  | onStatus (handler : ℕ)
  | offStatus (handler : ℕ)
  | token (access : String)
  | timeout (id : ℕ)
  | interval (id : ℕ)
  | opened (i : ℕ)
  | frame (i : ℕ) (f : Frame μ)
  | closing (i : ℕ)
  | error (i : ℕ)
  | closed (i : ℕ)
  deriving DecidableEq

def step (s : World μ) : Action μ → Option (World μ)
  | .connect => some (connect s)
  | .disconnect => some (disconnect s)
  | .send msg => some (send msg s)
  | .onMessage h => some { s with handlers := s.handlers ++ [h] }
  | .offMessage h => some { s with handlers := s.handlers.filter (· ≠ h) }
  | .onStatus h => some { s with statusHandlers := s.statusHandlers ++ [h] }
  | .offStatus h => some { s with statusHandlers := s.statusHandlers.filter (· ≠ h) }
  | .token access => some { s with accessToken := access }
  | .timeout id =>
    (s.timeouts.find? (·.id = id)).map fun t => runTimeout t.callback (clearTimeout id s)
  | .interval id => if id ∈ s.intervals then some (send .pong s) else none
  | .opened i =>
    if readyState s.sockets i = some .connecting then some (onopen i (setReadyState i .opened s)) else none
  | .frame i f => if readyState s.sockets i = some .opened then some (onmessage i f s) else none
  | .closing i => if readyState s.sockets i = some .opened then some (setReadyState i .closing s) else none
  -- A failing socket fires `error` and then `close`; neither comes after `close`.
  | .error i =>
    if (readyState s.sockets i).isSome ∧ readyState s.sockets i ≠ some .closed then some (onerror i s) else none
  | .closed i =>
    if (readyState s.sockets i).isSome ∧ readyState s.sockets i ≠ some .closed then
      some (onclose i (setReadyState i .closed s))
    else none

/-- A client just constructed, on a page of the given location. -/
def fresh (protocol host accessToken : String) : World μ :=
  { ws := none, handlers := [], statusHandlers := [], reconnectTimer := none, pendingConnect := none,
    reconnectDelay := 1000, shouldReconnect := true, pingInterval := none, protocol := protocol, host := host,
    accessToken := accessToken, sockets := [], timeouts := [], intervals := [], nextId := 1, called := [], sent := [] }

end Cadsa.Frontend.WebSocket
