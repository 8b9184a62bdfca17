import Mathlib.Algebra.Ring.Int.Defs
import Mathlib.Data.List.Dedup
import Mathlib.Data.List.Infix
import Cadsa.Api.Realtime
import Cadsa.Frontend.WebSocket

/-! The Real-Time page, its `CadsaWebSocket` client and the server it talks to. A connection is a
pair of streams: what the server has sent and the socket has yet to hand over, what the client has
sent and the server has yet to read. Charts, and the metrics that are quotients, are left out. -/
namespace Cadsa.Frontend.RealTime
open Runs Realtime Frontend.WebSocket
set_option autoImplicit false

structure Filters where
  host : Option String
  remoteIp : Option String
  method : Option String
  statusClass : Option String
  path : Option String
  country : Option String
  deriving DecidableEq, Repr

/-- `t` is in milliseconds. -/
structure LocalEvent where
  t : ℕ
  sc : String
  d : Option ℤ
  bo : ℤ
  bi : ℤ
  ip : String
  host : String
  method : String
  path : String
  country : String
  deriving DecidableEq, Repr

structure LiveMetrics where
  reqCount : ℕ
  uniqueIps : ℕ
  p50Ms : ℤ
  bytesOut : ℤ
  bytesIn : ℤ
  req2xx : ℕ
  req3xx : ℕ
  req4xx : ℕ
  req5xx : ℕ
  deriving DecidableEq, Repr

/-! ## The functions of the page -/

def includes (s sub : String) : Bool := decide (sub.toList <:+: s.toList)

/-- A path filter that is set has to occur in the path. -/
def pathMatches (wanted value : Option String) : Bool :=
  wanted.getD "" = "" || value.any fun path => includes path (wanted.getD "")

def rowMatchesFilters (r : RequestRow) (filters : Filters) : Bool :=
  matchesFilter filters.host r.host && matchesFilter filters.remoteIp r.remoteIp &&
    matchesFilter filters.method r.method && matchesFilter filters.statusClass r.statusClass &&
    pathMatches filters.path r.path && matchesFilter filters.country r.countryCode

/-- The events of the last thirty seconds. -/
def window (now : ℕ) (events : List LocalEvent) : List LocalEvent := events.dropWhile (·.t < now - 30000)

/-- The events that pass every filter but the host's, which the server applies. -/
def matched (now : ℕ) (events : List LocalEvent) (filters : Filters) : List LocalEvent :=
  (window now events).filter fun e =>
    matchesFilter filters.remoteIp (some e.ip) && matchesFilter filters.method (some e.method) &&
      matchesFilter filters.statusClass (some e.sc) && pathMatches filters.path (some e.path) &&
      matchesFilter filters.country (some e.country)

/-- What is counted of matching events. -/
def localCounts (events : List LocalEvent) : LiveMetrics :=
  let count (sc : String) : ℕ := events.countP (·.sc = sc)
  let durs := (events.filterMap (·.d)).mergeSort
  { reqCount := events.length
    uniqueIps := (events.map (·.ip)).dedup.length
    p50Ms := durs.getD (durs.length / 2) 0
    bytesOut := (events.map (·.bo)).sum
    bytesIn := (events.map (·.bi)).sum
    req2xx := count "2xx"
    req3xx := count "3xx"
    req4xx := count "4xx"
    req5xx := count "5xx" }

def computeLocalMetrics (now : ℕ) (events : List LocalEvent) (filters : Filters) : Option LiveMetrics :=
  let events := matched now events filters
  if events.length = 0 then none else some (localCounts events)

def localEvent (now : ℕ) (r : RequestRow) : LocalEvent :=
  { t := now, sc := r.statusClass.getD "", d := r.durationMs, bo := r.responseBytes.getD 0,
    bi := r.requestBytes.getD 0, ip := r.remoteIp.getD "", host := r.host.getD "", method := r.method.getD "",
    path := r.path.getD "", country := r.countryCode.getD "" }

structure Page where
  filters : Filters
  paused : Bool
  rows : List RequestRow
  localEvents : List LocalEvent
  metrics : Option LiveMetrics
  deriving DecidableEq, Repr

def onMessage (now : ℕ) (m : Message) (p : Page) : Page :=
  match m with
  | .newRequest r =>
    if p.paused then p
    else { p with rows := (r :: p.rows).take 500, localEvents := p.localEvents ++ [localEvent now r] }
  | .replay rows => { p with rows := (rows.filter (rowMatchesFilters · p.filters)).reverse.take 500 }
  | _ => p

def anyFilter (f : Filters) : Bool :=
  [f.host, f.remoteIp, f.method, f.statusClass, f.path, f.country].any fun value => value.getD "" ≠ ""

/-- The interval that runs while a filter is set. -/
def tick (now : ℕ) (p : Page) : Page :=
  if anyFilter p.filters && !p.paused then
    { p with
      localEvents := window now p.localEvents
      metrics := (computeLocalMetrics now p.localEvents p.filters).orElse fun _ => p.metrics }
  else p

/-! ## The page, its client and the server -/

/-- One connection: `received` counts the server's messages that the socket has handed over,
`handled` the client's that the server has read, and `filteredAt` is how many messages the server
had sent when it last read a filter. -/
structure Link where
  socket : ℕ
  received : ℕ
  handled : ℕ
  filteredAt : ℕ
  deriving DecidableEq, Repr

/-- `links` goes with the connections of the server; there is no page while it is not mounted. -/
structure Live where
  page : Option Page
  client : World Message
  server : Server
  links : List Link
  deriving DecidableEq

inductive Event
  | mount (filters : Filters)
  | filters (filters : Filters)
  | pause (paused : Bool)
  | tick (now : ℕ)
  | unmount
  | browser (a : WebSocket.Action Message)
  | accept (i : ℕ)
  | serve (a : Realtime.Action)
  | receive (k : ℕ)
  | frame (k : ℕ) (now : ℕ)
  deriving DecidableEq

/-- What happens to the client's sockets and timeouts without the page and without a frame. -/
def ofBrowser (links : List Link) : WebSocket.Action Message → Bool
  | .opened i => links.any (·.socket = i)
  | .token _ | .timeout _ | .interval _ | .closing _ | .error _ | .closed _ => true
  | _ => false

def ofServer : Realtime.Action → Bool
  | .replayed .. | .ingest _ | .notify _ | .take _ | .ping _ | .close _ => true
  | .accept | .filter .. => false

/-- What the client has sent on a socket. -/
def sentOn (i : ℕ) (client : World Message) : List ClientMessage :=
  client.sent.filterMap fun (j, m) => if j = i then some m else none

def toFrame : Message → Frame Message
  | .ping => .ping
  | m => .message m

/-- A call of the client's handlers reaches the page. -/
def handle (now : ℕ) (page : Option Page) : Call Message → Option Page
  | .message _ m => page.map (onMessage now m)
  | .status .. => page

/-- The effects of the first render, in order. -/
def mount (filters : Filters) (s : Live) : Live :=
  let client := WebSocket.connect s.client
  let client := { client with handlers := client.handlers ++ [0], statusHandlers := client.statusHandlers ++ [0] }
  { s with page := some ⟨filters, false, [], [], none⟩, client := send (.filter filters.host) client }

def unmount (s : Live) : Live :=
  { s with
    page := none
    client := disconnect { s.client with
      handlers := s.client.handlers.filter (· ≠ 0), statusHandlers := s.client.statusHandlers.filter (· ≠ 0) } }

/-- The server reads the next message of a client. -/
def receive (k : ℕ) (m : ClientMessage) (l : Link) (s : Live) : Option Live :=
  match m with
  | .pong =>
    if phase s.server k = some .live then
      some { s with links := s.links.set k { l with handled := l.handled + 1 } }
    else none
  | .filter host => (Realtime.step s.server (.filter k ⟨host, none⟩)).map fun server =>
    { s with
      server := server
      links := s.links.set k
        { l with handled := l.handled + 1, filteredAt := ((server.conns[k]?).map (·.sent.length)).getD 0 } }

/-- The next message of the server reaches the socket. -/
def frame (k : ℕ) (now : ℕ) (m : Message) (l : Link) (s : Live) : Option Live :=
  (WebSocket.step s.client (.frame l.socket (toFrame m))).map fun client =>
    { s with
      client := client
      page := (client.called.drop s.client.called.length).foldl (handle now) s.page
      links := s.links.set k { l with received := l.received + 1 } }

def step (s : Live) : Event → Option Live
  | .mount filters => if s.page = none then some (mount filters s) else none
  | .filters filters => s.page.map fun p =>
    { s with
      page := some { p with filters := filters, rows := [], localEvents := [], metrics := none }
      client := send (.filter filters.host) s.client }
  | .pause paused => s.page.map fun p => { s with page := some { p with paused := paused } }
  | .tick now => s.page.map fun p => { s with page := some (tick now p) }
  | .unmount => if s.page = none then none else some (unmount s)
  | .browser a =>
    if ofBrowser s.links a then (WebSocket.step s.client a).map fun client => { s with client := client } else none
  | .accept i =>
    if readyState s.client.sockets i = some .connecting ∧ ∀ l ∈ s.links, l.socket ≠ i then
      some { s with server := Realtime.accept s.server, links := s.links ++ [⟨i, 0, 0, 0⟩] }
    else none
  | .serve a =>
    if ofServer a then (Realtime.step s.server a).map fun server => { s with server := server } else none
  | .receive k => (s.links[k]?).bind fun l =>
    ((sentOn l.socket s.client)[l.handled]?).bind fun m => receive k m l s
  | .frame k now => (s.links[k]?).bind fun l =>
    ((s.server.conns[k]?).bind (·.sent[l.received]?)).bind fun m => frame k now m l s

def boot (protocol host accessToken : String) : Live :=
  ⟨none, fresh protocol host accessToken, Realtime.boot, []⟩

end Cadsa.Frontend.RealTime
