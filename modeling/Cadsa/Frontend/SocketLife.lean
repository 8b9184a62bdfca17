import Mathlib.Data.List.Chain
import Mathlib.Tactic.Common
import Cadsa.Lib.Slots
import Cadsa.Frontend.WebSocket

/-! The life of one client as a machine of four states, and the world that each of them
stands for. A client whose `connect` calls come only where nothing is under way moves between
these four; from this follow that it never holds two sockets and that `disconnect` ends its
activity. -/
namespace Cadsa.Frontend.WebSocket
open Runs Slots
set_option autoImplicit false

variable {μ : Type}

/-! ## What the operations do to a socket's state -/

def Socket.live (w : Socket) : Bool := w.readyState == .connecting || w.readyState == .opened

def live (sockets : List Socket) (i : ℕ) : Bool := holds Socket.live sockets i

theorem live_of_readyState {sockets : List Socket} {i : ℕ} {r : ReadyState} (h : readyState sockets i = some r) :
    live sockets i = (r == .connecting || r == .opened) := by
  cases hw : sockets[i]? with
  | none => simp [readyState, hw] at h
  | some w =>
    have hr : w.readyState = r := by simpa [readyState, hw] using h
    simp [live, holds, hw, Socket.live, hr]

section Modify

variable (sockets : List Socket) (f : Socket → Socket) {i j : ℕ}

theorem readyState_modify_self (i : ℕ) :
    readyState (sockets.modify i f) i = (sockets[i]?).map fun w => (f w).readyState := by
  simp [readyState, Function.comp_def]

theorem readyState_modify_ne (h : i ≠ j) : readyState (sockets.modify i f) j = readyState sockets j := by
  simp [readyState, h]

theorem attached_modify_self (hf : ∀ w, (f w).attached = w.attached) (i : ℕ) :
    attached (sockets.modify i f) i = attached sockets i := by
  simp [attached, hf, Function.comp_def]

theorem attached_modify_ne (h : i ≠ j) : attached (sockets.modify i f) j = attached sockets j := by
  simp [attached, h]

end Modify

theorem close_live (w : Socket) : w.close.live = false := by
  cases hr : w.readyState <;> simp [Socket.close, Socket.live, hr]

theorem close_attached (w : Socket) : w.close.attached = w.attached := by
  cases hr : w.readyState <;> simp [Socket.close, hr]

theorem close_readyState {w : Socket} (h : w.readyState ≠ .closed) : w.close.readyState = .closing := by
  cases hr : w.readyState <;> simp_all [Socket.close]

/-! ## The four states -/

inductive Life
  | idle | scheduled | connected | waiting
  deriving DecidableEq, Repr

/-- The world in each state of the machine. -/
inductive Represents : Life → World μ → Prop
  | idle {s : World μ} (ws : s.ws = none) (pending : s.pendingConnect = none) (timeouts : s.timeouts = [])
      (ping : s.pingInterval = none) (intervals : s.intervals = []) : Represents .idle s
  | scheduled {s : World μ} (id : ℕ) (ws : s.ws = none) (pending : s.pendingConnect = some id)
      (timeouts : s.timeouts = [⟨id, .deferredConnect, 0⟩]) (ping : s.pingInterval = none)
      (intervals : s.intervals = []) (reconnects : s.shouldReconnect = true) : Represents .scheduled s
  | connected {s : World μ} (i : ℕ) (ws : s.ws = some i) (attached : attached s.sockets i = true)
      (state : readyState s.sockets i = some .connecting ∧ s.pingInterval = none ∨
        readyState s.sockets i = some .opened ∨ readyState s.sockets i = some .closing)
      (pending : s.pendingConnect = none) (timeouts : s.timeouts = [])
      (intervals : s.intervals = s.pingInterval.toList) (reconnects : s.shouldReconnect = true) :
      Represents .connected s
  | waiting {s : World μ} (i id delay : ℕ) (ws : s.ws = some i) (state : readyState s.sockets i = some .closed)
      (pending : s.pendingConnect = none) (timer : s.reconnectTimer = some id)
      (timeouts : s.timeouts = [⟨id, .reconnect, delay⟩]) (ping : s.pingInterval = none)
      (intervals : s.intervals = []) (reconnects : s.shouldReconnect = true) : Represents .waiting s

structure Inv (l : Life) (s : World μ) : Prop where
  shape : Represents l s
  others : ∀ i, s.ws ≠ some i → live s.sockets i = false
  ids : ∀ t ∈ s.timeouts, t.id < s.nextId

inductive Next : Life → Action μ → Life → Prop
  | keep (l : Life) (a : Action μ) : a ≠ .disconnect → (l = .idle → a ≠ .connect) → Next l a l
  | connect : Next .idle .connect .scheduled
  | disconnect (l : Life) : Next l .disconnect .idle
  | deferred (id : ℕ) : Next .scheduled (.timeout id) .connected
  | reconnect (id : ℕ) : Next .waiting (.timeout id) .connected
  | lost (i : ℕ) : Next .connected (.closed i) .waiting

/-- No reconnect is scheduled and the current socket is not closing. -/
def ConnectAllowed (s : World μ) : Prop :=
  (∀ t ∈ s.timeouts, t.callback ≠ .reconnect) ∧ s.ws.bind (readyState s.sockets) ≠ some .closing

/-! ## One lemma for each operation -/

theorem connect_defers {s : World μ} (pending : s.pendingConnect = none)
    (opened : s.ws.bind (readyState s.sockets) ≠ some .opened)
    (connecting : s.ws.bind (readyState s.sockets) ≠ some .connecting) :
    connect s = { setTimeout .deferredConnect 0 { s with shouldReconnect := true } with
      pendingConnect := some s.nextId } := by
  simp [connect, pending, opened, connecting]

theorem connect_idle {s : World μ} (h : Inv .idle s) : Inv .scheduled (connect s) := by
  obtain ⟨⟨ws, pending, timeouts, ping, intervals⟩, others, ids⟩ := h
  rw [connect_defers pending (by simp [ws]) (by simp [ws])]
  refine ⟨.scheduled s.nextId ws rfl (by simp [setTimeout, timeouts]) ping intervals rfl, others, ?_⟩
  simp [setTimeout, timeouts]

theorem connect_busy {l : Life} {s : World μ} (h : Inv l s) (hl : l ≠ .idle) (ha : ConnectAllowed s) :
    connect s = { s with shouldReconnect := true } := by
  obtain ⟨shape, -, -⟩ := h
  cases shape with
  | idle => exact absurd rfl hl
  | scheduled id ws pending => simp [connect, ws, pending]
  | connected i ws attached state =>
    have hn : readyState s.sockets i ≠ some .closing := by simpa [ws] using ha.2
    rcases state with ⟨hr, -⟩ | hr | hr
    · simp [connect, ws, hr]
    · simp [connect, ws, hr]
    · exact absurd hr hn
  | waiting i id delay ws state pending timer timeouts =>
    exact absurd rfl (ha.1 ⟨id, .reconnect, delay⟩ (by simp [timeouts]))

theorem Represents.reconnects {l : Life} {s : World μ} (h : Represents l s) (hl : l ≠ .idle) :
    s.shouldReconnect = true := by
  cases h with
  | idle => exact absurd rfl hl
  | scheduled => assumption
  | connected => assumption
  | waiting => assumption

theorem connect_keep {l : Life} {s : World μ} (h : Inv l s) (hl : l ≠ .idle) (ha : ConnectAllowed s) :
    connect s = s := by
  rw [connect_busy h hl ha, ← h.shape.reconnects hl]

theorem stopPing_armed {s : World μ} (h : s.intervals = s.pingInterval.toList) :
    _stopPing s = { s with intervals := [], pingInterval := none } := by
  cases hp : s.pingInterval with
  | none =>
    have hi : s.intervals = [] := by rw [h, hp]; rfl
    have hs : _stopPing s = s := by simp [_stopPing, hp]
    rw [hs, ← hi, ← hp]
  | some id => simp [_stopPing, hp, h]

theorem disconnect_some {s : World μ} {i : ℕ} (hp : s.pendingConnect = none) (hw : s.ws = some i)
    (hi : s.intervals = s.pingInterval.toList) :
    disconnect s = { s with
      shouldReconnect := false
      reconnectTimer := none
      timeouts := s.timeouts.filter fun t => some t.id ≠ s.reconnectTimer
      pingInterval := none
      intervals := []
      sockets := s.sockets.modify i fun w => { w with attached := false }.close
      ws := none } := by
  cases hr : s.reconnectTimer <;> cases hq : s.pingInterval <;>
    simp [disconnect, hp, hw, hr, hq, hi, clearTimeout, _stopPing]

theorem disconnect_socket {s : World μ} {i : ℕ} (ws : s.ws = some i) (pending : s.pendingConnect = none)
    (timeouts : s.timeouts.filter (fun t => some t.id ≠ s.reconnectTimer) = [])
    (intervals : s.intervals = s.pingInterval.toList) (others : ∀ i, s.ws ≠ some i → live s.sockets i = false) :
    Inv .idle (disconnect s) := by
  rw [disconnect_some pending ws intervals]
  refine ⟨.idle rfl pending timeouts rfl rfl, fun j _ => ?_, ?_⟩
  · by_cases hj : i = j
    · exact hj ▸ holds_modify_self (fun w => close_live _) _ i
    · rw [live, holds_modify_ne _ hj]
      exact others j fun h => hj (Option.some.inj (ws.symm.trans h))
  · intro t ht
    simp only [timeouts] at ht
    cases ht

theorem disconnect_idle {l : Life} {s : World μ} (h : Inv l s) : Inv .idle (disconnect s) := by
  obtain ⟨shape, others, ids⟩ := h
  cases shape with
  | idle ws pending timeouts ping intervals =>
    have hd : disconnect s = { s with shouldReconnect := false, reconnectTimer := none } := by
      cases hr : s.reconnectTimer <;> simp [disconnect, pending, hr, _stopPing, ping, ws, clearTimeout, timeouts]
    rw [hd]
    exact ⟨.idle ws pending timeouts ping intervals, others, ids⟩
  | scheduled id ws pending timeouts ping intervals =>
    have hd : disconnect s = { s with shouldReconnect := false, pendingConnect := none, timeouts := [] } := by
      simp [disconnect, pending, clearTimeout, timeouts]
    rw [hd]
    exact ⟨.idle ws rfl rfl ping intervals, others, by simp⟩
  | connected i ws attached state pending timeouts intervals =>
    exact disconnect_socket ws pending (by simp [timeouts]) intervals others
  | waiting i id delay ws state pending timer timeouts ping intervals =>
    exact disconnect_socket ws pending (by simp [timeouts, timer]) (by simp [ping, intervals]) others

theorem Inv.frame {l : Life} {s : World μ} (h : Inv l s) (handlers statusHandlers : List ℕ) (token : String)
    (called : List (Call μ)) (sent : List (ℕ × ClientMessage)) :
    Inv l { s with handlers := handlers, statusHandlers := statusHandlers, accessToken := token,
                   called := called, sent := sent } := by
  obtain ⟨shape, others, ids⟩ := h
  refine ⟨?_, others, ids⟩
  cases shape with
  | idle ws pending timeouts ping intervals => exact .idle ws pending timeouts ping intervals
  | scheduled id ws pending timeouts ping intervals reconnects =>
    exact .scheduled id ws pending timeouts ping intervals reconnects
  | connected i ws attached state pending timeouts intervals reconnects =>
    exact .connected i ws attached state pending timeouts intervals reconnects
  | waiting i id delay ws state pending timer timeouts ping intervals reconnects =>
    exact .waiting i id delay ws state pending timer timeouts ping intervals reconnects

theorem send_eq (msg : ClientMessage) (s : World μ) : ∃ sent, send msg s = { s with sent := sent } := by
  unfold send
  split
  · split
    · exact ⟨_, rfl⟩
    · exact ⟨s.sent, rfl⟩
  · exact ⟨s.sent, rfl⟩

theorem onmessage_eq (i : ℕ) (f : Frame μ) (s : World μ) :
    ∃ called sent, onmessage i f s = { s with called := called, sent := sent } := by
  unfold onmessage
  split
  · cases f with
    | malformed => exact ⟨s.called, s.sent, rfl⟩
    | ping =>
      obtain ⟨sent, h⟩ := send_eq .pong s
      exact ⟨s.called, sent, h⟩
    | message m => exact ⟨_, s.sent, rfl⟩
  · exact ⟨s.called, s.sent, rfl⟩

theorem connected_of_connect {s : World μ} (others : ∀ i, live s.sockets i = false)
    (pending : s.pendingConnect = none) (timeouts : s.timeouts = []) (ping : s.pingInterval = none)
    (intervals : s.intervals = []) (reconnects : s.shouldReconnect = true) : Inv .connected (_connect s) := by
  refine ⟨.connected s.sockets.length rfl ?_ (.inl ⟨?_, ping⟩) pending timeouts ?_ reconnects, fun j hj => ?_, ?_⟩
  · simp [attached, _connect]
  · simp [readyState, _connect]
  · simp [_connect, ping, intervals]
  · have hne : j ≠ s.sockets.length := fun h => hj (by rw [h]; rfl)
    exact (holds_append_ne _ hne).trans (others j)
  · simp [_connect, timeouts]

theorem current_of_live {l : Life} {s : World μ} (h : Inv l s) {i : ℕ} (hl : live s.sockets i = true) :
    s.ws = some i := by
  by_contra hn
  exact Bool.false_ne_true ((h.others i hn).symm.trans hl)

theorem fired {t u : Timeout} {id : ℕ} (h : [t].find? (·.id = id) = some u) : t.id = id ∧ u = t := by
  simp only [List.find?_cons, List.find?_nil] at h
  split at h
  · next hp => exact ⟨of_decide_eq_true hp, (Option.some.inj h).symm⟩
  · cases h

theorem timeout_step {l : Life} {s s' : World μ} (h : Inv l s) {id : ℕ} (hs : step s (.timeout id) = some s') :
    Next l (.timeout id : Action μ) .connected ∧ Inv .connected s' := by
  obtain ⟨shape, others, ids⟩ := h
  simp only [step, Option.map_eq_some_iff] at hs
  obtain ⟨t, ht, rfl⟩ := hs
  cases shape with
  | idle ws pending timeouts => simp [timeouts] at ht
  | scheduled p ws pending timeouts ping intervals reconnects =>
    obtain ⟨rfl, rfl⟩ := fired (timeouts ▸ ht)
    refine ⟨.deferred p, ?_⟩
    have hr : runTimeout .deferredConnect (clearTimeout p s) =
        _connect { s with timeouts := [], pendingConnect := none } := by
      simp [runTimeout, clearTimeout, timeouts, reconnects]
    rw [hr]
    exact connected_of_connect (fun i => others i (by simp [ws])) rfl rfl ping intervals reconnects
  | connected i ws attached state pending timeouts => simp [timeouts] at ht
  | waiting i p delay ws state pending timer timeouts ping intervals reconnects =>
    obtain ⟨rfl, rfl⟩ := fired (timeouts ▸ ht)
    refine ⟨.reconnect p, ?_⟩
    have hr : runTimeout .reconnect (clearTimeout p s) =
        _connect { s with timeouts := [], reconnectDelay := min (s.reconnectDelay * 2) 30000 } := by
      simp [runTimeout, clearTimeout, timeouts]
    rw [hr]
    refine connected_of_connect (fun j => ?_) pending rfl ping intervals reconnects
    by_cases hj : s.ws = some j
    · obtain rfl : i = j := Option.some.inj (ws.symm.trans hj)
      exact live_of_readyState state
    · exact others j hj

/-- A socket that is not the current one may change, as long as it stays dead. -/
theorem Inv.other_socket {l : Life} {s : World μ} (h : Inv l s) {i : ℕ} {f : Socket → Socket} (hi : s.ws ≠ some i)
    (hf : ∀ w, (f w).live = false) : Inv l { s with sockets := s.sockets.modify i f } := by
  obtain ⟨shape, others, ids⟩ := h
  refine ⟨?_, fun j hj => ?_, ids⟩
  · have hne : ∀ j, s.ws = some j → i ≠ j := fun j hw hij => hi (hij ▸ hw)
    cases shape with
    | idle ws pending timeouts ping intervals => exact .idle ws pending timeouts ping intervals
    | scheduled id ws pending timeouts ping intervals reconnects =>
      exact .scheduled id ws pending timeouts ping intervals reconnects
    | connected j ws attached state pending timeouts intervals reconnects =>
      refine .connected j ws ?_ ?_ pending timeouts intervals reconnects
      · rwa [attached_modify_ne _ _ (hne j ws)]
      · simpa only [readyState_modify_ne _ _ (hne j ws)] using state
    | waiting j id delay ws state pending timer timeouts ping intervals reconnects =>
      refine .waiting j id delay ws ?_ pending timer timeouts ping intervals reconnects
      rwa [readyState_modify_ne _ _ (hne j ws)]
  · by_cases hij : i = j
    · exact hij ▸ holds_modify_self hf _ i
    · rw [live, holds_modify_ne _ hij]
      exact others j hj

theorem others_modify {s : World μ} {i : ℕ} (hi : s.ws = some i) (f : Socket → Socket)
    (others : ∀ j, s.ws ≠ some j → live s.sockets j = false) (j : ℕ) (hj : s.ws ≠ some j) :
    live (s.sockets.modify i f) j = false := by
  rw [live, holds_modify_ne _ fun h => hj (hi.trans (congrArg some h))]
  exact others j hj

theorem readyState_set {sockets : List Socket} {i : ℕ} {r : ReadyState} (h : readyState sockets i = some r)
    (r' : ReadyState) : readyState (sockets.modify i fun w => { w with readyState := r' }) i = some r' := by
  rw [readyState_modify_self]
  cases hw : sockets[i]? with
  | none => simp [readyState, hw] at h
  | some w => rfl

theorem attached_setReadyState {s : World μ} {i : ℕ} (h : attached s.sockets i = true) (r : ReadyState) :
    attached (setReadyState i r s).sockets i = true :=
  (attached_modify_self s.sockets (fun w => { w with readyState := r }) (fun _ => rfl) i).trans h

theorem listening_setReadyState {s : World μ} {i : ℕ} (hw : s.ws = some i) (h : attached s.sockets i = true)
    (r : ReadyState) : listening (setReadyState i r s) i = true := by
  have hws : (setReadyState i r s).ws = some i := hw
  rw [listening, attached_setReadyState h, hws, beq_self_eq_true, Bool.and_self]

theorem current_shape {l : Life} {s : World μ} (h : Inv l s) {i : ℕ} (hw : s.ws = some i)
    (hc : readyState s.sockets i ≠ some .closed) : l = .connected := by
  obtain ⟨shape, -, -⟩ := h
  cases shape with
  | idle ws => cases ws.symm.trans hw
  | scheduled id ws => cases ws.symm.trans hw
  | connected => rfl
  | waiting j id delay ws state =>
    obtain rfl : j = i := Option.some.inj (ws.symm.trans hw)
    exact absurd state hc

theorem opened_step {l : Life} {s : World μ} (h : Inv l s) {i : ℕ} (hr : readyState s.sockets i = some .connecting) :
    l = .connected ∧ Inv .connected (onopen i (setReadyState i .opened s)) := by
  have hw : s.ws = some i := current_of_live h (live_of_readyState hr)
  obtain rfl := current_shape h hw (by simp [hr])
  refine ⟨rfl, ?_⟩
  obtain ⟨shape, others, ids⟩ := h
  cases shape with
  | connected j ws attached state pending timeouts intervals reconnects =>
    obtain rfl : j = i := Option.some.inj (ws.symm.trans hw)
    have hping : s.pingInterval = none := by
      rcases state with ⟨-, hp⟩ | hs | hs
      · exact hp
      · cases hr.symm.trans hs
      · cases hr.symm.trans hs
    simp only [onopen, listening_setReadyState ws attached, if_true]
    refine ⟨.connected j ws (attached_setReadyState attached .opened) (.inr (.inl (readyState_set hr .opened))) pending timeouts ?_ reconnects,
      others_modify ws _ others, ?_⟩
    · simp [_startPing, _notifyStatus, setReadyState, intervals, hping]
    · simp [_startPing, _notifyStatus, setReadyState, timeouts]

theorem closing_step {l : Life} {s : World μ} (h : Inv l s) {i : ℕ} (hr : readyState s.sockets i = some .opened) :
    Inv l (setReadyState i .closing s) := by
  have hw : s.ws = some i := current_of_live h (live_of_readyState hr)
  obtain rfl := current_shape h hw (by simp [hr])
  obtain ⟨shape, others, ids⟩ := h
  cases shape with
  | connected j ws attached state pending timeouts intervals reconnects =>
    obtain rfl : j = i := Option.some.inj (ws.symm.trans hw)
    have hatt := attached_setReadyState attached .closing
    exact ⟨.connected j ws hatt (.inr (.inr (readyState_set hr .closing))) pending timeouts intervals reconnects,
      others_modify ws _ others, ids⟩

theorem error_step {l : Life} {s : World μ} (h : Inv l s) {i : ℕ} (hc : readyState s.sockets i ≠ some .closed) :
    Inv l (onerror i s) := by
  unfold onerror
  split
  · next hl =>
    have hw : s.ws = some i := by
      simp only [listening, Bool.and_eq_true, beq_iff_eq] at hl
      exact hl.2
    obtain rfl := current_shape h hw hc
    obtain ⟨shape, others, ids⟩ := h
    cases shape with
    | connected j ws attached state pending timeouts intervals reconnects =>
      obtain rfl : j = i := Option.some.inj (ws.symm.trans hw)
      have hatt := (attached_modify_self s.sockets Socket.close close_attached j).trans attached
      have hcl : readyState (s.sockets.modify j Socket.close) j = some .closing := by
        rw [readyState_modify_self]
        cases hs : s.sockets[j]? with
        | none => simp [readyState, hs] at state
        | some w =>
          have hne : w.readyState ≠ .closed := by simpa [readyState, hs] using hc
          simp [close_readyState hne]
      exact ⟨.connected j ws hatt (.inr (.inr hcl)) pending timeouts intervals reconnects,
        others_modify ws _ others, ids⟩
  · exact h

/-- The events of a socket that is not the current one are ignored. -/
theorem deaf {s : World μ} {i : ℕ} (h : s.ws ≠ some i) :
    onopen i s = s ∧ (∀ f, onmessage i f s = s) ∧ onclose i s = s ∧ onerror i s = s := by
  have hl : listening s i = false := by simp [listening, h]
  simp [onopen, onmessage, onclose, onerror, hl]

theorem onclose_current {s : World μ} {i : ℕ} (hl : listening s i = true)
    (hi : s.intervals = s.pingInterval.toList) (hr : s.shouldReconnect = true) :
    onclose i s = { setTimeout .reconnect s.reconnectDelay { _notifyStatus false s with
      intervals := [], pingInterval := none } with reconnectTimer := some s.nextId } := by
  have hs : _stopPing (_notifyStatus false s) = { _notifyStatus false s with intervals := [], pingInterval := none } :=
    stopPing_armed hi
  have hn : (_notifyStatus false s).shouldReconnect = true := hr
  simp only [onclose, hl, if_true, hs, hn]
  rfl

theorem closed_step {l : Life} {s : World μ} (h : Inv l s) {i : ℕ} {r : ReadyState}
    (hr : readyState s.sockets i = some r) (hc : r ≠ .closed) :
    (s.ws = some i ∧ l = .connected ∧ Inv .waiting (onclose i (setReadyState i .closed s))) ∨
    (s.ws ≠ some i ∧ Inv l (onclose i (setReadyState i .closed s))) := by
  by_cases hw : s.ws = some i
  · obtain rfl := current_shape h hw (by simpa [hr] using hc)
    refine .inl ⟨hw, rfl, ?_⟩
    obtain ⟨shape, others, ids⟩ := h
    cases shape with
    | connected j ws attached state pending timeouts intervals reconnects =>
      obtain rfl : j = i := Option.some.inj (ws.symm.trans hw)
      rw [onclose_current (listening_setReadyState ws attached .closed) intervals reconnects]
      refine ⟨.waiting j s.nextId s.reconnectDelay ws (readyState_set hr .closed) pending rfl ?_ rfl rfl reconnects,
        others_modify ws _ others, ?_⟩
      · simp [setTimeout, _notifyStatus, setReadyState, timeouts]
      · simp [setTimeout, _notifyStatus, setReadyState, timeouts]
  · refine .inr ⟨hw, ?_⟩
    rw [(deaf (s := setReadyState i .closed s) hw).2.2.1]
    exact h.other_socket hw fun w => rfl

/-! ## The refinement -/

theorem Inv.step {l : Life} {s s' : World μ} {a : Action μ} (h : Inv l s) (ha : a = .connect → ConnectAllowed s)
    (hs : step s a = some s') : ∃ l', Next l a l' ∧ Inv l' s' := by
  have keep : ∀ b : Action μ, b ≠ .disconnect → b ≠ .connect → Next l b l := fun b hd hc => .keep l b hd fun _ => hc
  cases a with
  | connect =>
    obtain rfl : connect s = s' := Option.some.inj hs
    by_cases hl : l = .idle
    · subst hl
      exact ⟨.scheduled, .connect, connect_idle h⟩
    · rw [connect_keep h hl (ha rfl)]
      exact ⟨l, .keep l _ (by simp) fun h => absurd h hl, h⟩
  | disconnect =>
    obtain rfl : disconnect s = s' := Option.some.inj hs
    exact ⟨.idle, .disconnect l, disconnect_idle h⟩
  | send msg =>
    obtain rfl : send msg s = s' := Option.some.inj hs
    obtain ⟨sent, he⟩ := send_eq msg s
    exact ⟨l, keep _ (by simp) (by simp), he ▸ h.frame _ _ _ _ _⟩
  | onMessage handler =>
    cases hs
    exact ⟨l, keep _ (by simp) (by simp), h.frame _ _ _ _ _⟩
  | offMessage handler =>
    cases hs
    exact ⟨l, keep _ (by simp) (by simp), h.frame _ _ _ _ _⟩
  | onStatus handler =>
    cases hs
    exact ⟨l, keep _ (by simp) (by simp), h.frame _ _ _ _ _⟩
  | offStatus handler =>
    cases hs
    exact ⟨l, keep _ (by simp) (by simp), h.frame _ _ _ _ _⟩
  | token access =>
    cases hs
    exact ⟨l, keep _ (by simp) (by simp), h.frame _ _ _ _ _⟩
  | timeout id =>
    obtain ⟨hn, hi⟩ := timeout_step h hs
    exact ⟨.connected, hn, hi⟩
  | interval id =>
    obtain ⟨-, hs⟩ := Option.ite_none_right_eq_some.mp hs
    obtain rfl := Option.some.inj hs
    obtain ⟨sent, he⟩ := send_eq .pong s
    exact ⟨l, keep _ (by simp) (by simp), he ▸ h.frame _ _ _ _ _⟩
  | opened i =>
    obtain ⟨hr, hs⟩ := Option.ite_none_right_eq_some.mp hs
    obtain rfl := Option.some.inj hs
    obtain ⟨rfl, hi⟩ := opened_step h hr
    exact ⟨.connected, keep _ (by simp) (by simp), hi⟩
  | frame i f =>
    obtain ⟨hr, hs⟩ := Option.ite_none_right_eq_some.mp hs
    obtain rfl := Option.some.inj hs
    obtain ⟨called, sent, he⟩ := onmessage_eq i f s
    exact ⟨l, keep _ (by simp) (by simp), he ▸ h.frame _ _ _ _ _⟩
  | closing i =>
    obtain ⟨hr, hs⟩ := Option.ite_none_right_eq_some.mp hs
    obtain rfl := Option.some.inj hs
    exact ⟨l, keep _ (by simp) (by simp), closing_step h hr⟩
  | error i =>
    obtain ⟨⟨-, hc⟩, hs⟩ := Option.ite_none_right_eq_some.mp hs
    obtain rfl := Option.some.inj hs
    exact ⟨l, keep _ (by simp) (by simp), error_step h hc⟩
  | closed i =>
    obtain ⟨⟨hsome, hc⟩, hs⟩ := Option.ite_none_right_eq_some.mp hs
    obtain rfl := Option.some.inj hs
    obtain ⟨r, hr⟩ := Option.isSome_iff_exists.mp hsome
    rcases closed_step h hr (fun h => hc (h ▸ hr)) with ⟨-, rfl, hi⟩ | ⟨-, hi⟩
    · exact ⟨.waiting, .lost i, hi⟩
    · exact ⟨l, keep _ (by simp) (by simp), hi⟩

theorem inv_keeps (s : World μ) (a : Action μ) (s' : World μ) (h : ∃ l, Inv l s)
    (ha : a = .connect → ConnectAllowed s) (hs : step s a = some s') : ∃ l, Inv l s' := by
  obtain ⟨l, h⟩ := h
  obtain ⟨l', -, hi⟩ := h.step ha hs
  exact ⟨l', hi⟩

theorem fresh_idle (protocol host token : String) : Inv .idle (fresh protocol host token : World μ) :=
  ⟨.idle rfl rfl rfl rfl rfl, fun _ _ => rfl, fun _ ht => nomatch ht⟩

/-! ## At most one live socket -/

/-- At most one socket is connecting or open, and at most one ping interval is running. -/
def OneLive (s : World μ) : Prop := s.sockets.countP Socket.live ≤ 1 ∧ s.intervals.length ≤ 1

instance (s : World μ) : Decidable (OneLive s) := inferInstanceAs (Decidable (_ ∧ _))

theorem Inv.oneLive {l : Life} {s : World μ} (h : Inv l s) : OneLive s := by
  obtain ⟨shape, others, ids⟩ := h
  constructor
  · cases hw : s.ws with
    | none => exact countP_le_one 0 fun j _ => others j (by simp [hw])
    | some i => exact countP_le_one i fun j hj => others j fun h => hj (Option.some.inj (hw.symm.trans h))
  · have hq : s.intervals = [] → s.intervals.length ≤ 1 := fun h => by simp [h]
    cases shape with
    | idle ws pending timeouts ping intervals => exact hq intervals
    | scheduled id ws pending timeouts ping intervals => exact hq intervals
    | connected i ws attached state pending timeouts intervals =>
      rw [intervals]
      cases s.pingInterval <;> simp
    | waiting i id delay ws state pending timer timeouts ping intervals => exact hq intervals

/-- With a deferred connect and a reconnect both set, either may fire after the other. -/
theorem two_sockets {s : World μ} (p q d d' : ℕ) (hp : s.timeouts.find? (·.id = p) = some ⟨p, .reconnect, d⟩)
    (hq : s.timeouts.find? (·.id = q) = some ⟨q, .deferredConnect, d'⟩) (hne : p ≠ q)
    (hr : s.shouldReconnect = true) :
    ∃ s', exec step s [.timeout q, .timeout p] = some s' ∧ ¬ OneLive s' := by
  have hc : (clearTimeout q s).timeouts.find? (·.id = p) = some ⟨p, .reconnect, d⟩ := by
    rw [← hp, clearTimeout, List.find?_filter]
    congr 1
    funext t
    by_cases ht : t.id = p
    · simp [ht, hne]
    · simp [ht]
  obtain ⟨m, hm, ht, hw⟩ : ∃ m, step s (.timeout q) = some m ∧ m.timeouts = (clearTimeout q s).timeouts ∧
      m.sockets = s.sockets ++ [⟨url s, .connecting, true⟩] := by
    have hr' : (clearTimeout q s).shouldReconnect = true := hr
    exact ⟨_connect { clearTimeout q s with pendingConnect := none },
      by simp only [step, hq, Option.map_some, runTimeout, hr', if_true], rfl, rfl⟩
  refine ⟨runTimeout .reconnect (clearTimeout p m), ?_, fun h => ?_⟩
  · have h₂ : step m (.timeout p) = some (runTimeout .reconnect (clearTimeout p m)) := by
      simp only [step, ht, hc, Option.map_some]
    simp only [exec, hm, h₂, Option.bind_some]
  · have hcount := h.1
    simp [runTimeout, _connect, clearTimeout, hw, Socket.live] at hcount

/-- A `connect` that is not allowed leaves two ways to a new socket, and both may be taken. -/
theorem second_socket {l : Life} {s : World μ} (h : Inv l s) (ha : ¬ ConnectAllowed s) :
    ∃ as s', exec step s (.connect :: as) = some s' ∧ ¬ OneLive s' := by
  obtain ⟨shape, others, ids⟩ := h
  cases shape with
  | idle ws pending timeouts => exact absurd ⟨by simp [timeouts], by simp [ws]⟩ ha
  | scheduled id ws pending timeouts => exact absurd ⟨by simp [timeouts], by simp [ws]⟩ ha
  | connected i ws attached state pending timeouts intervals reconnects =>
    have hr : readyState s.sockets i = some .closing := by
      by_contra hn
      exact ha ⟨by simp [timeouts], by simpa [ws] using hn⟩
    have hc := connect_defers pending (by simp [ws, hr]) (by simp [ws, hr])
    have hl : listening (setReadyState i .closed (connect s)) i = true :=
      listening_setReadyState (by rw [hc]; exact ws) (by rw [hc]; exact attached) .closed
    have hd : step (connect s) (.closed i) = some (onclose i (setReadyState i .closed (connect s))) := by
      have hs : (connect s).sockets = s.sockets := by rw [hc]; rfl
      simp [step, hs, hr]
    have ho := onclose_current hl (by simpa [hc, setTimeout, setReadyState] using intervals)
      (by simp [hc, setTimeout, setReadyState])
    obtain ⟨s', he, hn⟩ := two_sockets (s := onclose i (setReadyState i .closed (connect s))) (s.nextId + 1) s.nextId
      s.reconnectDelay 0
      (by rw [ho]; simp [hc, setTimeout, setReadyState, _notifyStatus, timeouts])
      (by rw [ho]; simp [hc, setTimeout, setReadyState, _notifyStatus, timeouts]) (by omega)
      (by rw [ho]; simp [hc, setTimeout, setReadyState, _notifyStatus])
    refine ⟨[.closed i, .timeout s.nextId, .timeout (s.nextId + 1)], s', ?_, hn⟩
    rw [← he]
    exact congrArg (Option.bind · fun m => exec step m [.timeout s.nextId, .timeout (s.nextId + 1)]) hd
  | waiting i id delay ws state pending timer timeouts ping intervals reconnects =>
    have hid : id ≠ s.nextId := Nat.ne_of_lt (ids ⟨id, .reconnect, delay⟩ (by simp [timeouts]))
    have hc := connect_defers pending (by simp [ws, state]) (by simp [ws, state])
    obtain ⟨s', he, hn⟩ := two_sockets (s := connect s) id s.nextId delay 0
      (by simp [hc, setTimeout, timeouts]) (by simp [hc, setTimeout, timeouts, hid]) hid (by simp [hc, setTimeout])
    exact ⟨[.timeout s.nextId, .timeout id], s', he, hn⟩

/-- Every state of a run whose `connect` calls are allowed has one live socket at most; after a
`connect` that is not allowed some continuation has two. -/
theorem one_live_socket (protocol host token : String) (as : List (Action μ))
    (hg : Along step (fun s a _ => a = .connect → ConnectAllowed s) (fresh protocol host token) as) :
    Visited step OneLive (fresh protocol host token) as ∧
    ∀ s, exec step (fresh protocol host token) as = some s → ¬ ConnectAllowed s →
      ∃ bs s', exec step s (.connect :: bs) = some s' ∧ ¬ OneLive s' := by
  have h0 : ∃ l, Inv l (fresh protocol host token : World μ) := ⟨.idle, fresh_idle protocol host token⟩
  refine ⟨visited_of_invariant (fun s ⟨l, h⟩ => h.oneLive) inv_keeps h0 hg, fun s hs ha => ?_⟩
  obtain ⟨l, h⟩ := exec_invariant inv_keeps h0 hg hs
  exact second_socket h ha

theorem one_live_socket_reconnected :
    Visited step OneLive (fresh "https:" "cadsa.local" "t" : World Unit)
      [.connect, .timeout 1, .opened 0, .closed 0, .timeout 3] :=
  (one_live_socket "https:" "cadsa.local" "t" [.connect, .timeout 1, .opened 0, .closed 0, .timeout 3] (by
    intro s hs
    obtain rfl := Option.some.inj hs
    exact ⟨fun _ => ⟨by decide, by decide⟩, along_of_mem (fun a ha _ _ hc => by simp [hc] at ha) _⟩)).1

/-- `connect` while a reconnect is scheduled: each of the two timeouts creates a socket. -/
theorem connect_while_reconnecting :
    ¬ ∀ (as : List (Action Unit)) (s : World Unit), exec step (fresh "https:" "cadsa.local" "t") as = some s →
      OneLive s := by
  intro h
  have := h [.connect, .timeout 1, .closed 0, .connect, .timeout 3, .timeout 2] _ rfl
  exact absurd this (by decide)

/-! ## After disconnect -/

theorem Inv.idle_allowed {s : World μ} (h : Inv .idle s) : ConnectAllowed s := by
  obtain ⟨shape, -, -⟩ := h
  cases shape with
  | idle ws pending timeouts => exact ⟨by simp [timeouts], by simp [ws]⟩

theorem Next.of_idle {l : Life} {a : Action μ} (h : Next .idle a l) (ha : a ≠ .connect) : l = .idle := by
  cases h with
  | keep => rfl
  | connect => exact absurd rfl ha
  | disconnect => rfl

theorem Next.of_disconnect {l l' : Life} (h : Next l (.disconnect : Action μ) l') : l' = .idle := by
  cases h with
  | keep _ _ hd => exact absurd rfl hd
  | disconnect => rfl

theorem idle_quiet {s s' : World μ} {a : Action μ} (h : Inv .idle s) (ha : a ≠ .connect)
    (hs : step s a = some s') :
    Inv .idle s' ∧ s'.sockets.length = s.sockets.length ∧ s'.called = s.called := by
  obtain ⟨l', hn, hi⟩ := h.step (fun h => absurd h ha) hs
  obtain rfl := hn.of_idle ha
  refine ⟨hi, ?_⟩
  obtain ⟨shape, -, -⟩ := h
  cases shape with
  | idle ws pending timeouts ping intervals =>
    have hw : ∀ i, s.ws ≠ some i := fun i => by simp [ws]
    cases a with
    | connect => exact absurd rfl ha
    | disconnect =>
      cases hs
      cases hr : s.reconnectTimer <;> simp [disconnect, pending, hr, _stopPing, ping, ws, clearTimeout]
    | send msg => 
      cases hs
      simp [send, ws]
    | onMessage handler =>
      cases hs
      simp
    | offMessage handler =>
      cases hs
      simp
    | onStatus handler =>
      cases hs
      simp
    | offStatus handler =>
      cases hs
      simp
    | token access =>
      cases hs
      simp
    | timeout id => simp [step, timeouts] at hs
    | interval id => simp [step, intervals] at hs
    | opened i =>
      obtain ⟨hr, hs⟩ := Option.ite_none_right_eq_some.mp hs
      obtain rfl := Option.some.inj hs
      rw [(deaf (s := setReadyState i .opened s) (hw i)).1]
      simp [setReadyState]
    | frame i f =>
      obtain ⟨hr, hs⟩ := Option.ite_none_right_eq_some.mp hs
      obtain rfl := Option.some.inj hs
      rw [(deaf (hw i)).2.1]
      exact ⟨rfl, rfl⟩
    | closing i =>
      obtain ⟨hr, hs⟩ := Option.ite_none_right_eq_some.mp hs
      obtain rfl := Option.some.inj hs
      simp [setReadyState]
    | error i =>
      obtain ⟨⟨-, hc⟩, hs⟩ := Option.ite_none_right_eq_some.mp hs
      obtain rfl := Option.some.inj hs
      rw [(deaf (hw i)).2.2.2]
      exact ⟨rfl, rfl⟩
    | closed i =>
      obtain ⟨⟨hsome, hc⟩, hs⟩ := Option.ite_none_right_eq_some.mp hs
      obtain rfl := Option.some.inj hs
      rw [(deaf (s := setReadyState i .closed s) (hw i)).2.2.1]
      simp [setReadyState]

theorem idle_run {s s' : World μ} {as : List (Action μ)} (h : Inv .idle s) (ha : .connect ∉ as)
    (hs : exec step s as = some s') :
    s'.timeouts = [] ∧ s'.intervals = [] ∧ s'.sockets.length = s.sockets.length ∧ s'.called = s.called := by
  induction as generalizing s with
  | nil =>
    obtain rfl : s = s' := Option.some.inj hs
    obtain ⟨shape, -, -⟩ := h
    cases shape with
    | idle ws pending timeouts ping intervals => exact ⟨timeouts, intervals, rfl, rfl⟩
  | cons a as ih =>
    obtain ⟨m, hm, hs⟩ := exec_cons_some hs
    obtain ⟨hi, hlen, hcalled⟩ := idle_quiet h (fun h => ha (by simp [h])) hm
    have := ih hi (fun h => ha (by simp [h])) hs
    rwa [hlen, hcalled] at this

def isCall : Action μ → Bool
  | .connect | .disconnect => true
  | _ => false

/-- `connect` and `disconnect` are called in turn. -/
def Alternating (as : List (Action μ)) : Prop := (as.filter isCall).IsChain (· ≠ ·)

theorem alternating_guard {l : Life} {s : World μ} {as : List (Action μ)} (h : Inv l s)
    (hl : l ≠ .idle → ∀ a ∈ (as.filter isCall).head?, a ≠ .connect) (ha : Alternating as) :
    Along step (fun s a _ => a = .connect → ConnectAllowed s) s as := by
  induction as generalizing l s with
  | nil => trivial
  | cons a as ih =>
    intro s' hs
    have hg : a = .connect → ConnectAllowed s := by
      rintro rfl
      by_cases hi : l = .idle
      · exact (hi ▸ h).idle_allowed
      · exact absurd rfl (hl hi .connect (by simp [isCall]))
    obtain ⟨l', hn, hi⟩ := h.step hg hs
    unfold Alternating at ha
    cases hcall : isCall a with
    | true =>
      rw [List.filter_cons_of_pos hcall, List.isChain_cons] at ha
      refine ⟨hg, ih hi (fun hl' b hb => ?_) ha.2⟩
      rintro rfl
      have hne := ha.1 .connect hb
      cases a with
      | connect => exact hne rfl
      | disconnect => exact hl' hn.of_disconnect
      | _ => exact Bool.false_ne_true hcall
    | false =>
      rw [List.filter_cons_of_neg (by simp [hcall])] at ha hl
      refine ⟨hg, ih hi (fun hl' => hl fun h => hl' ?_) ha⟩
      subst h
      exact hn.of_idle fun h => by simp [h, isCall] at hcall

theorem disconnect_final (protocol host token : String) (as bs : List (Action μ)) (s s' : World μ)
    (ha : Alternating (as ++ .disconnect :: bs)) (hb : .connect ∉ bs)
    (hs : exec step (fresh protocol host token) (as ++ [.disconnect]) = some s) (hs' : exec step s bs = some s') :
    s'.timeouts = [] ∧ s'.intervals = [] ∧ s'.sockets.length = s.sockets.length ∧ s'.called = s.called := by
  obtain ⟨m, hm, hd⟩ := exec_append_some hs
  have hal : Alternating as := by
    unfold Alternating at ha ⊢
    rw [List.filter_append] at ha
    exact (List.isChain_append.mp ha).1
  have hg := alternating_guard (fresh_idle protocol host token) (fun h => absurd rfl h) hal
  obtain ⟨l, h⟩ := exec_invariant inv_keeps ⟨.idle, fresh_idle protocol host token⟩ hg hm
  obtain ⟨s₁, h₁, h₂⟩ := exec_cons_some hd
  obtain rfl : s₁ = s := Option.some.inj h₂
  obtain rfl : disconnect m = s₁ := Option.some.inj h₁
  exact idle_run (disconnect_idle h) hb hs'

theorem disconnect_final_open :
    ∃ s' : World Unit, exec step (fresh "https:" "cadsa.local" "t")
        [.onStatus 0, .connect, .timeout 1, .opened 0, .disconnect, .error 0, .closed 0] = some s' ∧
      s'.timeouts = [] ∧ s'.intervals = [] ∧ s'.sockets.length = 1 ∧ s'.called = [.status 0 true] :=
  ⟨_, rfl, disconnect_final "https:" "cadsa.local" "t" [.onStatus 0, .connect, .timeout 1, .opened 0]
    [.error 0, .closed 0] _ _ (by unfold Alternating; decide) (by decide) rfl rfl⟩

end Cadsa.Frontend.WebSocket
