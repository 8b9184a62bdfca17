import Mathlib.Data.List.Basic
import Mathlib.Data.Int.Notation
import Cadsa.Lib.Runs

/-! `api/realtime.py` and what it shares with `core/ingestion.py`: the ring buffer, the broadcast
callbacks, and for each connection its queue and what its tasks have sent. A step is what happens
between two awaits. Authentication, the logging and the counters are left out. -/
namespace Cadsa.Realtime
open Runs
set_option autoImplicit false

/-- The columns of a stored request that the page and the filter read. -/
structure RequestRow where
  host : Option String
  statusClass : Option String
  remoteIp : Option String
  method : Option String
  path : Option String
  countryCode : Option String
  durationMs : Option ℤ
  requestBytes : Option ℤ
  responseBytes : Option ℤ
  deriving DecidableEq, Repr

/-- `other` stands for the messages that are not about one request: metrics and security events. -/
inductive Message
  | newRequest (row : RequestRow)
  | replay (rows : List RequestRow)
  | ping
  | other (n : ℕ)
  deriving DecidableEq, Repr

def Message.request : Message → Option RequestRow
  | .newRequest row => some row
  | _ => none

/-- The last filter message of the client; the empty one before the first. -/
structure Filter where
  host : Option String
  statusClass : Option String
  deriving DecidableEq, Repr

def Filter.none : Filter := ⟨Option.none, Option.none⟩

/-- A member that is there and not empty has to be equal. -/
def matchesFilter (wanted value : Option String) : Bool := wanted.getD "" = "" || value == wanted

def passesFilter (m : Message) (f : Filter) : Bool :=
  match m with
  | .newRequest row => matchesFilter f.host row.host && matchesFilter f.statusClass row.statusClass
  | _ => true

inductive Phase
  | replaying
  | live
  | closed
  deriving DecidableEq, Repr

/-- `start` counts the requests that the ring buffer had taken when the snapshot was made. -/
structure Conn where
  phase : Phase
  snapshot : List RequestRow
  start : ℕ
  queue : List Message
  activeFilter : Filter
  sent : List Message
  deriving DecidableEq, Repr

/-- `appended` is every request the ring buffer ever took; a callback is the number of its
connection. -/
structure Server where
  ring : List RequestRow
  callbacks : List ℕ
  conns : List Conn
  appended : List RequestRow
  deriving DecidableEq, Repr

def boot : Server := ⟨[], [], [], []⟩

/-- A deque of at most 10,000 entries. -/
def appendRing (row : RequestRow) (ring : List RequestRow) : List RequestRow :=
  (if ring.length < 10000 then ring else ring.tail) ++ [row]

/-- `ring[-100:]`. -/
def lastHundred (ring : List RequestRow) : List RequestRow := ring.drop (ring.length - 100)

/-- `_enqueue`: a full queue drops the message. -/
def enqueue (m : Message) (c : Conn) : Conn :=
  if c.queue.length < 500 then { c with queue := c.queue ++ [m] } else c

def broadcast (m : Message) (s : Server) : Server :=
  { s with conns := s.callbacks.foldl (fun conns i => conns.modify i (enqueue m)) s.conns }

def registerBroadcast (i : ℕ) (s : Server) : Server :=
  { s with
    callbacks := s.callbacks ++ [i]
    conns := s.conns.modify i fun c => { c with phase := .live } }

def unregisterBroadcast (i : ℕ) (s : Server) : Server :=
  { s with
    callbacks := s.callbacks.erase i
    conns := s.conns.modify i fun c => { c with phase := .closed } }

/-- `websocket_realtime` up to its first await: with an empty ring there is none before
`register_broadcast`. -/
def accept (s : Server) : Server :=
  let s' := { s with conns := s.conns ++ [⟨.replaying, s.ring, s.appended.length, [], Filter.none, []⟩] }
  if s.ring = [] then registerBroadcast s.conns.length s' else s'

/-- The end of `ingest_line_async`, from the ring buffer to the last callback. -/
def ingest (row : RequestRow) (s : Server) : Server :=
  broadcast (.newRequest row) { s with ring := appendRing row s.ring, appended := s.appended ++ [row] }

/-- `_sender` takes one message. -/
def take (m : Message) (rest : List Message) (c : Conn) : Conn :=
  { c with queue := rest, sent := if passesFilter m c.activeFilter then c.sent ++ [m] else c.sent }

inductive Action
  | accept
  | replayed (i : ℕ) (ok : Bool)
  | ingest (row : RequestRow)
  | notify (n : ℕ)
  | take (i : ℕ)
  | ping (i : ℕ)
  | filter (i : ℕ) (f : Filter)
  | close (i : ℕ)
  deriving DecidableEq, Repr

def phase (s : Server) (i : ℕ) : Option Phase := (s.conns[i]?).map (·.phase)

def step (s : Server) : Action → Option Server
  | .accept => some (accept s)
  | .replayed i ok =>
    if phase s i = some .replaying then
      some (registerBroadcast i { s with conns := s.conns.modify i fun c =>
        if ok then { c with sent := c.sent ++ [.replay (lastHundred c.snapshot)] } else c })
    else none
  | .ingest row => some (ingest row s)
  | .notify n => some (broadcast (.other n) s)
  | .take i => (s.conns[i]?).bind fun c =>
    match c.phase, c.queue with
    | .live, m :: rest => some { s with conns := s.conns.modify i (take m rest) }
    | _, _ => none
  | .ping i =>
    if phase s i = some .live then
      some { s with conns := s.conns.modify i fun c => { c with sent := c.sent ++ [.ping] } }
    else none
  | .filter i f =>
    if phase s i = some .live then some { s with conns := s.conns.modify i fun c => { c with activeFilter := f } }
    else none
  | .close i => if phase s i = some .live then some (unregisterBroadcast i s) else none

theorem step_take {s s' : Server} {i : ℕ} (hs : step s (.take i) = some s') :
    ∃ c m rest, s.conns[i]? = some c ∧ c.phase = .live ∧ c.queue = m :: rest ∧
      s' = { s with conns := s.conns.modify i (take m rest) } := by
  obtain ⟨c, hc, hs⟩ := Option.bind_eq_some_iff.mp hs
  split at hs
  · next m rest hl hq => exact ⟨c, m, rest, hc, hl, hq, (Option.some.inj hs).symm⟩
  · cases hs

/-- A request of a host, for runs on fixed inputs. -/
def request (host : String) : RequestRow :=
  ⟨some host, some "2xx", some "10.0.0.1", some "GET", some "/", none, some 12, some 0, some 512⟩

end Cadsa.Realtime
