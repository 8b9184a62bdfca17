import Mathlib.Tactic.Common
import Cadsa.Frontend.RealTime

/-! Which hosts the live view counts. The page leaves the host to the server, so an event counts
rightly when the server had read the page's last filter message before it sent the request. -/
namespace Cadsa.Frontend.RealTime
open Runs Realtime Frontend.WebSocket
set_option autoImplicit false

/-- What the server filters by once it has read the messages. -/
def lastFilter (ms : List ClientMessage) : Realtime.Filter :=
  ms.foldl (fun f m => match m with
    | .filter host => ⟨host, none⟩
    | .pong => f) Filter.none

/-- Every event that `computeLocalMetrics` would count has the host that is filtered for. -/
def HostsOnly (s : Live) : Prop :=
  ∀ p ∈ s.page, ∀ h ∈ p.filters.host, h ≠ "" → ∀ now, ∀ e ∈ matched now p.localEvents p.filters, e.host = h

/-- The last filter message on the connection names the host, and the server had read it when it
sent the message that the socket hands over next. -/
structure FilterRead (s : Live) (l : Link) (h : String) : Prop where
  names : lastFilter (sentOn l.socket s.client) = ⟨some h, none⟩
  read : ∀ m ∈ (sentOn l.socket s.client).drop l.handled, m = .pong
  before : l.filteredAt ≤ l.received

/-- If the page takes the message in and filters by a host, the message was sent under that filter. -/
def SentUnder (s : Live) (l : Link) (m : Message) : Prop :=
  listening s.client l.socket = true → m.request ≠ none → ∀ p ∈ s.page, p.paused = false →
    ∀ h ∈ p.filters.host, h ≠ "" → FilterRead s l h

def FilterInForce (s : Live) : Event → Prop
  | .frame k _ => ∀ l ∈ s.links[k]?, ∀ c ∈ s.server.conns[k]?, ∀ m ∈ c.sent[l.received]?, SentUnder s l m
  | _ => True

/-! ## The client's stream -/

theorem send_extends (msg : ClientMessage) (s : World Message) : s.sent <+: (send msg s).sent := by
  unfold send
  split
  · split
    · exact List.prefix_append ..
    · exact List.prefix_refl _
  · exact List.prefix_refl _

theorem connect_sent (s : World Message) : (WebSocket.connect s).sent = s.sent := by
  unfold WebSocket.connect
  dsimp only
  split
  · rfl
  · split <;> rfl

theorem _stopPing_sent (s : World Message) : (_stopPing s).sent = s.sent := by
  unfold _stopPing
  split <;> rfl

theorem disconnect_sent (s : World Message) : (disconnect s).sent = s.sent := by
  unfold disconnect
  dsimp only
  split
  · rfl
  · split <;> split <;> simp [_stopPing_sent, clearTimeout]

theorem onclose_sent (i : ℕ) (s : World Message) : (onclose i s).sent = s.sent := by
  unfold onclose
  split
  · dsimp only
    split <;> simp [_stopPing_sent, _notifyStatus, setTimeout]
  · rfl

theorem onmessage_prefix (i : ℕ) (f : Frame Message) (s : World Message) : s.sent <+: (onmessage i f s).sent := by
  unfold onmessage
  split
  · cases f with
    | malformed => exact List.prefix_refl _
    | ping => exact send_extends .pong s
    | message m => exact List.prefix_refl _
  · exact List.prefix_refl _

theorem onopen_sent (i : ℕ) (s : World Message) : (onopen i s).sent = s.sent := by
  unfold onopen
  split <;> rfl

theorem onerror_sent (i : ℕ) (s : World Message) : (onerror i s).sent = s.sent := by
  unfold onerror
  split <;> rfl

theorem runTimeout_sent (callback : Callback) (s : World Message) : (runTimeout callback s).sent = s.sent := by
  cases callback with
  | deferredConnect =>
    unfold runTimeout
    dsimp only
    split <;> rfl
  | reconnect => rfl

/-- No step takes back what the client has sent. -/
theorem client_extends {s s' : World Message} {a : WebSocket.Action Message} (hs : WebSocket.step s a = some s') :
    s.sent <+: s'.sent := by
  cases a with
  | connect =>
    obtain rfl := Option.some.inj hs
    rw [connect_sent]
  | disconnect =>
    obtain rfl := Option.some.inj hs
    rw [disconnect_sent]
  | send msg =>
    obtain rfl := Option.some.inj hs
    exact send_extends msg s
  | onMessage | offMessage | onStatus | offStatus | token =>
    obtain rfl := Option.some.inj hs
    exact List.prefix_refl _
  | timeout id =>
    obtain ⟨t, -, rfl⟩ := Option.map_eq_some_iff.mp hs
    rw [runTimeout_sent, clearTimeout]
  | interval id =>
    obtain ⟨-, hs⟩ := Option.ite_none_right_eq_some.mp hs
    obtain rfl := Option.some.inj hs
    exact send_extends .pong s
  | opened i =>
    obtain ⟨-, hs⟩ := Option.ite_none_right_eq_some.mp hs
    obtain rfl := Option.some.inj hs
    rw [onopen_sent, setReadyState]
  | frame i f =>
    obtain ⟨-, hs⟩ := Option.ite_none_right_eq_some.mp hs
    obtain rfl := Option.some.inj hs
    exact onmessage_prefix i f s
  | closing i =>
    obtain ⟨-, hs⟩ := Option.ite_none_right_eq_some.mp hs
    obtain rfl := Option.some.inj hs
    exact List.prefix_refl _
  | error i =>
    obtain ⟨-, hs⟩ := Option.ite_none_right_eq_some.mp hs
    obtain rfl := Option.some.inj hs
    rw [onerror_sent]
  | closed i =>
    obtain ⟨-, hs⟩ := Option.ite_none_right_eq_some.mp hs
    obtain rfl := Option.some.inj hs
    rw [onclose_sent, setReadyState]

theorem sentOn_prefix {s s' : World Message} (h : s.sent <+: s'.sent) (i : ℕ) : sentOn i s <+: sentOn i s' := by
  obtain ⟨ms, h⟩ := h
  rw [sentOn, sentOn, ← h, List.filterMap_append]
  exact List.prefix_append ..

theorem mount_sent (filters : Filters) (s : Live) : s.client.sent <+: (mount filters s).client.sent := by
  refine List.IsPrefix.trans ?_ (send_extends _ _)
  rw [connect_sent]

/-- The calls that a frame leads to. -/
theorem frame_calls {s s' : World Message} {i : ℕ} {m : Message} (hs : WebSocket.step s (.frame i (toFrame m)) = some s') :
    s'.called = s.called ∨
      listening s i = true ∧ s'.called = s.called ++ s.handlers.map fun h => .message h m := by
  obtain ⟨-, hs⟩ := Option.ite_none_right_eq_some.mp hs
  obtain rfl := Option.some.inj hs
  unfold onmessage
  by_cases hl : listening s i = true
  · rw [if_pos hl]
    cases m with
    | ping =>
      left
      show (send .pong s).called = s.called
      unfold send
      split
      · split <;> rfl
      · rfl
    | newRequest | replay | other => exact .inr ⟨hl, rfl⟩
  · rw [if_neg hl]
    exact .inl rfl

/-! ## The server's stream -/

/-- What the server does to a connection on its own: it sends what passes the filter. -/
def Later (c c' : Conn) : Prop :=
  c'.activeFilter = c.activeFilter ∧
    ∃ ms, c'.sent = c.sent ++ ms ∧ ∀ m ∈ ms, passesFilter m c.activeFilter = true

theorem Later.of_same {c c' : Conn} (hf : c'.activeFilter = c.activeFilter) (hs : c'.sent = c.sent) : Later c c' :=
  ⟨hf, [], by rw [hs, List.append_nil], by simp⟩

theorem Later.refl (c : Conn) : Later c c := .of_same rfl rfl

theorem Later.sends {c c' : Conn} {m : Message} (hf : c'.activeFilter = c.activeFilter) (hs : c'.sent = c.sent ++ [m])
    (hp : passesFilter m c.activeFilter = true) : Later c c' := ⟨hf, [m], hs, by simpa using hp⟩

theorem Later.trans {c d e : Conn} (h : Later c d) (h' : Later d e) : Later c e := by
  obtain ⟨hf, ms, hs, hp⟩ := h
  obtain ⟨hf', ms', hs', hp'⟩ := h'
  refine ⟨hf'.trans hf, ms ++ ms', ?_, fun m hm => ?_⟩
  · rw [hs', hs, List.append_assoc]
  · rcases List.mem_append.mp hm with hm | hm
    · exact hp m hm
    · exact hf ▸ hp' m hm

/-- Each connection is a later state of what it was. -/
def AllLater (conns conns' : List Conn) : Prop := List.Forall₂ Later conns conns'

theorem AllLater.refl (conns : List Conn) : AllLater conns conns := List.forall₂_same.mpr fun c _ => Later.refl c

theorem AllLater.modify {f : Conn → Conn} (hf : ∀ c, Later c (f c)) (i : ℕ) (conns : List Conn) :
    AllLater conns (conns.modify i f) := by
  refine List.forall₂_iff_get.mpr ⟨(List.length_modify ..).symm, fun k hk hk' => ?_⟩
  simp only [List.get_eq_getElem, List.getElem_modify]
  split
  · exact hf _
  · exact Later.refl _

theorem AllLater.trans {l l' l'' : List Conn} (h : AllLater l l') (h' : AllLater l' l'') : AllLater l l'' := by
  induction h generalizing l'' with
  | nil => exact h'
  | cons hc hl ih =>
    cases h' with
    | cons hc' hl' => exact .cons (hc.trans hc') (ih hl')

theorem enqueue_later (m : Message) (c : Conn) : Later c (enqueue m c) := by
  unfold enqueue
  split <;> exact .of_same rfl rfl

theorem broadcast_later (m : Message) (s : Server) : AllLater s.conns (broadcast m s).conns := by
  unfold broadcast
  dsimp only
  generalize s.callbacks = is
  generalize s.conns = conns
  induction is generalizing conns with
  | nil => exact AllLater.refl _
  | cons i is ih => exact (AllLater.modify (enqueue_later m) i conns).trans (ih _)

theorem take_later (m : Message) (rest : List Message) (c : Conn) : Later c (take m rest c) := by
  unfold take
  by_cases hp : passesFilter m c.activeFilter = true
  · rw [if_pos hp]
    exact .sends rfl rfl hp
  · rw [if_neg hp]
    exact .of_same rfl rfl

/-- Without a new connection or a filter the server only sends. -/
theorem serve_later {s s' : Server} {a : Realtime.Action} (ha : ofServer a = true) (hs : Realtime.step s a = some s') :
    AllLater s.conns s'.conns := by
  cases a with
  | accept | filter => cases ha
  | replayed i ok =>
    obtain ⟨-, hs⟩ := Option.ite_none_right_eq_some.mp hs
    obtain rfl := Option.some.inj hs
    refine AllLater.trans (AllLater.modify (fun c => ?_) i s.conns) (AllLater.modify (fun c => ?_) i _)
    · cases ok with
      | true => exact .sends rfl rfl rfl
      | false => exact .refl c
    · exact .of_same rfl rfl
  | ingest row =>
    obtain rfl := Option.some.inj hs
    exact broadcast_later _ _
  | notify n =>
    obtain rfl := Option.some.inj hs
    exact broadcast_later _ _
  | take i =>
    obtain ⟨c, m, rest, -, -, -, rfl⟩ := step_take hs
    exact AllLater.modify (take_later m rest) i _
  | ping i =>
    obtain ⟨-, hs⟩ := Option.ite_none_right_eq_some.mp hs
    obtain rfl := Option.some.inj hs
    refine AllLater.modify (fun c => ?_) i s.conns
    exact .sends rfl rfl rfl
  | close i =>
    obtain ⟨-, hs⟩ := Option.ite_none_right_eq_some.mp hs
    obtain rfl := Option.some.inj hs
    refine AllLater.modify (fun c => ?_) i s.conns
    exact .of_same rfl rfl

/-! ## The invariant -/

structure LinkInv (client : World Message) (l : Link) (c : Conn) : Prop where
  handled : l.handled ≤ (sentOn l.socket client).length
  filter : c.activeFilter = lastFilter ((sentOn l.socket client).take l.handled)
  passed : ∀ m ∈ c.sent.drop l.filteredAt, passesFilter m c.activeFilter = true

def PageInv (p : Page) : Prop := ∀ h ∈ p.filters.host, h ≠ "" → ∀ e ∈ p.localEvents, e.host = h

structure Inv (s : Live) : Prop where
  links : List.Forall₂ (LinkInv s.client) s.links s.server.conns
  page : ∀ p ∈ s.page, PageInv p

theorem LinkInv.client {client client' : World Message} {l : Link} {c : Conn} (h : LinkInv client l c)
    (hp : client.sent <+: client'.sent) : LinkInv client' l c := by
  obtain ⟨ms, hms⟩ := sentOn_prefix hp l.socket
  refine ⟨?_, ?_, h.passed⟩
  · rw [← hms, List.length_append]
    exact Nat.le_add_right_of_le h.handled
  · rw [← hms, List.take_append_of_le_length h.handled]
    exact h.filter

theorem LinkInv.later {client : World Message} {l : Link} {c c' : Conn} (h : LinkInv client l c) (hl : Later c c') :
    LinkInv client l c' := by
  obtain ⟨hf, ms, hs, hp⟩ := hl
  refine ⟨h.handled, hf.trans h.filter, fun m hm => ?_⟩
  rw [hf]
  rw [hs, List.drop_append] at hm
  rcases List.mem_append.mp hm with hm | hm
  · exact h.passed m hm
  · exact hp m (List.mem_of_mem_drop hm)

theorem links_later {client : World Message} {links : List Link} {conns conns' : List Conn}
    (h : List.Forall₂ (LinkInv client) links conns) (hl : AllLater conns conns') :
    List.Forall₂ (LinkInv client) links conns' := by
  induction h generalizing conns' with
  | nil =>
    cases hl
    exact .nil
  | cons hc hr ih =>
    cases hl with
    | cons hc' hl' => exact .cons (hc.later hc') (ih hl')

/-- One link and its connection change. -/
theorem links_set {client : World Message} {links : List Link} {conns : List Conn}
    (h : List.Forall₂ (LinkInv client) links conns) {k : ℕ} {l : Link} {f : Conn → Conn}
    (hk : ∀ c, conns[k]? = some c → LinkInv client l (f c)) :
    List.Forall₂ (LinkInv client) (links.set k l) (conns.modify k f) := by
  induction h generalizing k with
  | nil =>
    rw [List.set_nil, List.modify_nil]
    exact .nil
  | cons hc hr ih =>
    cases k with
    | zero => exact .cons (hk _ rfl) hr
    | succ k => exact .cons hc (ih hk)

theorem links_get {client : World Message} {links : List Link} {conns : List Conn}
    (h : List.Forall₂ (LinkInv client) links conns) {k : ℕ} {l : Link} {c : Conn} (hl : links[k]? = some l)
    (hc : conns[k]? = some c) : LinkInv client l c := by
  induction h generalizing k with
  | nil => cases hl
  | cons hd hr ih =>
    cases k with
    | zero =>
      cases hl
      cases hc
      exact hd
    | succ k => exact ih hl hc

theorem links_client {client client' : World Message} {links : List Link} {conns : List Conn}
    (h : List.Forall₂ (LinkInv client) links conns) (hp : client.sent <+: client'.sent) :
    List.Forall₂ (LinkInv client') links conns := h.imp fun _ _ hl => hl.client hp

theorem links_accept {client : World Message} {links : List Link} {s : Server}
    (h : List.Forall₂ (LinkInv client) links s.conns) (i : ℕ) :
    List.Forall₂ (LinkInv client) (links ++ [⟨i, 0, 0, 0⟩]) (Realtime.accept s).conns := by
  let c : Conn := ⟨.replaying, s.ring, s.appended.length, [], Filter.none, []⟩
  have hnew : LinkInv client ⟨i, 0, 0, 0⟩ c := ⟨Nat.zero_le _, rfl, by simp [c]⟩
  have hpush : List.Forall₂ (LinkInv client) (links ++ [⟨i, 0, 0, 0⟩]) (s.conns ++ [c]) :=
    List.rel_append h (.cons hnew .nil)
  unfold Realtime.accept
  dsimp only
  split
  · refine links_later hpush (AllLater.modify (fun c => ?_) s.conns.length (s.conns ++ [c]))
    exact .of_same rfl rfl
  · exact hpush

/-! ## What the page takes in -/

theorem lastFilter_append (ms ms' : List ClientMessage) (h : ∀ m ∈ ms', m = .pong) :
    lastFilter (ms ++ ms') = lastFilter ms := by
  rw [lastFilter, List.foldl_append]
  change List.foldl _ (lastFilter ms) ms' = _
  generalize lastFilter ms = f
  induction ms' generalizing f with
  | nil => rfl
  | cons m ms' ih =>
    obtain rfl := h m List.mem_cons_self
    exact ih (fun m hm => h m (List.mem_cons_of_mem _ hm)) f

theorem FilterRead.activeFilter {s : Live} {l : Link} {c : Conn} {h : String} (hr : FilterRead s l h)
    (hi : LinkInv s.client l c) : c.activeFilter = ⟨some h, none⟩ := by
  rw [hi.filter, ← hr.names, ← lastFilter_append _ _ hr.read, List.take_append_drop]

theorem passes_host {r : RequestRow} {h : String} (hh : h ≠ "")
    (hp : passesFilter (.newRequest r) ⟨some h, none⟩ = true) : r.host = some h := by
  simpa [passesFilter, matchesFilter, hh] using hp

theorem localEvent_host {r : RequestRow} {h : String} (hr : r.host = some h) (now : ℕ) : (localEvent now r).host = h := by
  rw [localEvent, hr]
  rfl

theorem onMessage_filters (now : ℕ) (m : Message) (p : Page) :
    (onMessage now m p).filters = p.filters ∧ (onMessage now m p).paused = p.paused := by
  unfold onMessage
  split
  · split <;> exact ⟨rfl, rfl⟩
  · exact ⟨rfl, rfl⟩
  · exact ⟨rfl, rfl⟩

theorem onMessage_inv {p : Page} (hp : PageInv p) (now : ℕ) {m : Message}
    (hm : ∀ r, m = .newRequest r → p.paused = false → ∀ h ∈ p.filters.host, h ≠ "" → r.host = some h) :
    PageInv (onMessage now m p) := by
  cases m with
  | newRequest r =>
    unfold onMessage
    dsimp only
    by_cases hpause : p.paused = true
    · rwa [if_pos hpause]
    · rw [if_neg hpause]
      intro h hh hne e he
      rcases List.mem_append.mp he with he | he
      · exact hp h hh hne e he
      · obtain rfl := List.mem_singleton.mp he
        exact localEvent_host (hm r rfl (Bool.eq_false_iff.mpr hpause) h hh hne) now
  | replay | ping | other => exact hp

theorem handled_none (now : ℕ) (calls : List (Call Message)) : calls.foldl (handle now) none = none := by
  induction calls with
  | nil => rfl
  | cons call calls ih => cases call <;> exact ih

theorem handled_inv {p : Page} (hp : PageInv p) (now : ℕ) {m : Message} (handlers : List ℕ)
    (hm : ∀ r, m = .newRequest r → p.paused = false → ∀ h ∈ p.filters.host, h ≠ "" → r.host = some h) :
    ∀ p' ∈ (handlers.map fun h => Call.message h m).foldl (handle now) (some p), PageInv p' := by
  induction handlers generalizing p with
  | nil =>
    intro p' hp'
    cases hp'
    exact hp
  | cons h handlers ih =>
    obtain ⟨hf, hpause⟩ := onMessage_filters now m p
    refine ih (onMessage_inv hp now hm) ?_
    rw [hf, hpause]
    exact hm

theorem tick_inv {p : Page} (hp : PageInv p) (now : ℕ) : PageInv (tick now p) := by
  unfold tick
  split
  · exact fun h hh hne e he => hp h hh hne e ((List.dropWhile_suffix _).mem he)
  · exact hp

/-! ## Steps -/

theorem receive_inv {s s' : Live} (hi : Inv s) {k : ℕ} {l : Link} {m : ClientMessage} (hl : s.links[k]? = some l)
    (hm : (sentOn l.socket s.client)[l.handled]? = some m) (hs : receive k m l s = some s') : Inv s' := by
  have hlt : l.handled < (sentOn l.socket s.client).length := (List.getElem?_eq_some_iff.mp hm).1
  have htake : (sentOn l.socket s.client).take (l.handled + 1) = (sentOn l.socket s.client).take l.handled ++ [m] := by
    rw [List.take_add_one, hm]
    rfl
  cases m with
  | pong =>
    obtain ⟨-, hs⟩ := Option.ite_none_right_eq_some.mp hs
    obtain rfl := Option.some.inj hs
    refine ⟨?_, hi.page⟩
    have hset := links_set (l := { l with handled := l.handled + 1 }) (f := id) hi.links (k := k) fun c hc => ?_
    · rwa [List.modify_id] at hset
    · have hlink := links_get hi.links hl hc
      refine ⟨hlt, ?_, hlink.passed⟩
      rw [htake, lastFilter_append _ _ (by simp)]
      exact hlink.filter
  | filter host =>
    obtain ⟨server, hserver, rfl⟩ := Option.map_eq_some_iff.mp hs
    obtain ⟨-, hserver⟩ := Option.ite_none_right_eq_some.mp hserver
    obtain rfl := Option.some.inj hserver
    refine ⟨links_set hi.links fun c hc => ?_, hi.page⟩
    refine ⟨hlt, ?_, ?_⟩
    · rw [htake, lastFilter, List.foldl_append]
      rfl
    · simp [hc]

theorem frame_inv {s s' : Live} (hi : Inv s) {k now : ℕ} {l : Link} {c : Conn} {m : Message}
    (hl : s.links[k]? = some l) (hc : s.server.conns[k]? = some c) (hm : c.sent[l.received]? = some m)
    (hg : FilterInForce s (.frame k now)) (hs : frame k now m l s = some s') : Inv s' := by
  obtain ⟨client, hclient, rfl⟩ := Option.map_eq_some_iff.mp hs
  refine ⟨?_, fun p hp => ?_⟩
  · have hlinks := links_client hi.links (client_extends hclient)
    have hset := links_set (l := { l with received := l.received + 1 }) (f := id) hlinks (k := k) fun c hc => ?_
    · rwa [List.modify_id] at hset
    · have hlink := links_get hlinks hl hc
      exact ⟨hlink.handled, hlink.filter, hlink.passed⟩
  · rcases frame_calls hclient with hcalled | ⟨hlisten, hcalled⟩
    · refine hi.page p ?_
      simpa [hcalled] using hp
    · cases hpage : s.page with
      | none =>
        rw [hpage, handled_none] at hp
        cases hp
      | some q =>
        simp only [hcalled, List.drop_left, hpage] at hp
        refine handled_inv (hi.page q hpage) now _ (fun r hr hpause h hh hne => ?_) p hp
        subst hr
        have hread := hg l hl c hc _ hm hlisten (by simp [Message.request]) q hpage hpause h hh hne
        have hlink := links_get hi.links hl hc
        refine passes_host hne ?_
        rw [← hread.activeFilter hlink]
        refine hlink.passed _ (List.mem_of_getElem? (i := l.received - l.filteredAt) ?_)
        rw [List.getElem?_drop, Nat.add_sub_cancel' hread.before]
        exact hm

theorem step_inv {s s' : Live} (hi : Inv s) {e : Event} (hg : FilterInForce s e) (hs : step s e = some s') :
    Inv s' := by
  cases e with
  | mount filters =>
    obtain ⟨-, hs⟩ := Option.ite_none_right_eq_some.mp hs
    obtain rfl := Option.some.inj hs
    refine ⟨links_client hi.links (mount_sent filters s), fun p hp => ?_⟩
    obtain rfl := Option.mem_some.mp hp
    exact fun _ _ _ _ he => by cases he
  | filters filters =>
    obtain ⟨p, -, rfl⟩ := Option.map_eq_some_iff.mp hs
    refine ⟨links_client hi.links (send_extends _ _), fun p' hp => ?_⟩
    obtain rfl := Option.mem_some.mp hp
    exact fun _ _ _ _ he => by cases he
  | pause paused =>
    obtain ⟨p, hp, rfl⟩ := Option.map_eq_some_iff.mp hs
    refine ⟨hi.links, fun p' hp' => ?_⟩
    obtain rfl := Option.mem_some.mp hp'
    exact hi.page p hp
  | tick now =>
    obtain ⟨p, hp, rfl⟩ := Option.map_eq_some_iff.mp hs
    refine ⟨hi.links, fun p' hp' => ?_⟩
    obtain rfl := Option.mem_some.mp hp'
    exact tick_inv (hi.page p hp) now
  | unmount =>
    obtain ⟨-, hs⟩ := Option.ite_none_left_eq_some.mp hs
    obtain rfl := Option.some.inj hs
    refine ⟨links_client hi.links ?_, fun p hp => by cases hp⟩
    rw [unmount, disconnect_sent]
  | browser a =>
    obtain ⟨-, hs⟩ := Option.ite_none_right_eq_some.mp hs
    obtain ⟨client, hclient, rfl⟩ := Option.map_eq_some_iff.mp hs
    exact ⟨links_client hi.links (client_extends hclient), hi.page⟩
  | accept i =>
    obtain ⟨-, hs⟩ := Option.ite_none_right_eq_some.mp hs
    obtain rfl := Option.some.inj hs
    exact ⟨links_accept hi.links i, hi.page⟩
  | serve a =>
    obtain ⟨ha, hs⟩ := Option.ite_none_right_eq_some.mp hs
    obtain ⟨server, hserver, rfl⟩ := Option.map_eq_some_iff.mp hs
    exact ⟨links_later hi.links (serve_later ha hserver), hi.page⟩
  | receive k =>
    obtain ⟨l, hl, hs⟩ := Option.bind_eq_some_iff.mp hs
    obtain ⟨m, hm, hs⟩ := Option.bind_eq_some_iff.mp hs
    exact receive_inv hi hl hm hs
  | frame k now =>
    obtain ⟨l, hl, hs⟩ := Option.bind_eq_some_iff.mp hs
    obtain ⟨m, hm, hs⟩ := Option.bind_eq_some_iff.mp hs
    obtain ⟨c, hc, hm⟩ := Option.bind_eq_some_iff.mp hm
    exact frame_inv hi hl hc hm hg hs

theorem Inv.hostsOnly {s : Live} (hi : Inv s) : HostsOnly s := by
  intro p hp h hh hne now e he
  have hw := List.mem_of_mem_filter he
  exact hi.page p hp h hh hne e ((List.dropWhile_suffix _).mem hw)

/-- **The live view counts the host that is filtered for**, for as long as each request it takes in
was sent after the server had read the page's last filter message on that connection. -/
theorem live_view_one_host (protocol host accessToken : String) (es : List Event)
    (hg : Along step (fun s e _ => FilterInForce s e) (boot protocol host accessToken) es) :
    Visited step HostsOnly (boot protocol host accessToken) es :=
  visited_of_invariant (fun _ => Inv.hostsOnly) (fun _ _ _ hi hg hs => step_inv hi hg hs)
    ⟨.nil, fun p hp => by cases hp⟩ hg

instance (s : Live) (l : Link) (h : String) : Decidable (FilterRead s l h) :=
  decidable_of_iff (lastFilter (sentOn l.socket s.client) = ⟨some h, none⟩ ∧
      (∀ m ∈ (sentOn l.socket s.client).drop l.handled, m = .pong) ∧ l.filteredAt ≤ l.received)
    ⟨fun ⟨names, read, before⟩ => ⟨names, read, before⟩, fun h => ⟨h.names, h.read, h.before⟩⟩

instance (s : Live) (l : Link) (m : Message) : Decidable (SentUnder s l m) :=
  inferInstanceAs (Decidable (listening s.client l.socket = true → m.request ≠ none → ∀ p ∈ s.page, p.paused = false →
    ∀ h ∈ p.filters.host, h ≠ "" → FilterRead s l h))

instance (s : Live) (e : Event) : Decidable (FilterInForce s e) :=
  match e with
  | .frame k _ => inferInstanceAs (Decidable (∀ l ∈ s.links[k]?, ∀ c ∈ s.server.conns[k]?,
      ∀ m ∈ c.sent[l.received]?, SentUnder s l m))
  | .mount _ | .filters _ | .pause _ | .tick _ | .unmount | .browser _ | .accept _ | .serve _ | .receive _ => isTrue trivial

def forHost (host : Option String) : Filters := ⟨host, none, none, none, none, none⟩

/-- The page connects with the given filters. -/
def connected (filters : Filters) : List Event :=
  [.mount filters, .browser (.timeout 1), .accept 0, .browser (.opened 0)]

def arrives (host : String) : List Event := [.serve (.ingest (request host)), .serve (.take 0)]

theorem live_view_one_host_in_turn : Visited step HostsOnly (boot "https:" "cadsa" "token")
    (connected (forHost none) ++ [.filters (forHost (some "a")), .receive 0] ++ arrives "b" ++ arrives "a" ++
      [.frame 0 1000]) :=
  live_view_one_host "https:" "cadsa" "token" _ (by decide +kernel)

/-- The filter of the first render is dropped, since there is no socket yet. -/
def firstConnection : List Event := connected (forHost (some "a")) ++ arrives "b" ++ [.frame 0 1000]

/-- A request is under way when the filter changes. -/
def underWay : List Event :=
  connected (forHost none) ++ arrives "b" ++ [.filters (forHost (some "a")), .frame 0 1000]

theorem other_host_counted :
    ¬ Visited step HostsOnly (boot "https:" "cadsa" "token") firstConnection ∧
    ¬ Visited step HostsOnly (boot "https:" "cadsa" "token") underWay := by
  constructor
  · intro hv
    have h := hv.of_exec rfl _ rfl "a" rfl (by decide) 1000 _ List.mem_cons_self
    revert h
    decide
  · intro hv
    have h := hv.of_exec rfl _ rfl "a" rfl (by decide) 1000 _ List.mem_cons_self
    revert h
    decide

end Cadsa.Frontend.RealTime
