import Mathlib.Data.List.Nodup
import Mathlib.Tactic.Common
import Cadsa.Api.Realtime

/-! Where the replay of a connection ends and its live stream begins. The snapshot is taken before
the replay is sent and the callback is registered after it; a request that arrives in between
is in neither. -/
namespace Cadsa.Realtime
open Runs
set_option autoImplicit false

/-- The requests among the messages, in order. -/
def requests (ms : List Message) : List RequestRow := ms.filterMap Message.request

/-- Every request after the snapshot has been sent or is queued, once and in ring order, and the
replay holds requests from before it only. -/
structure ConnJoined (appended : List RequestRow) (c : Conn) : Prop where
  live : c.phase = .live → requests c.sent ++ requests c.queue = appended.drop c.start
  replay : ∀ rows, .replay rows ∈ c.sent → rows = (appended.take c.start).drop (c.start - 100)

def Joined (i : ℕ) (s : Server) : Prop := ∀ c ∈ s.conns[i]?, ConnJoined s.appended c

/-- The queue of connection `i` is not full when a message is broadcast, and its client sets no
filter. -/
def Unhindered (i : ℕ) (s : Server) : Action → Prop
  | .ingest _ | .notify _ => ∀ c ∈ s.conns[i]?, c.queue.length < 500
  | .filter j f => j = i → f = Filter.none
  | _ => True

/-- Nothing has been appended between the snapshot of connection `i` and its registration. -/
def NothingMissed (i : ℕ) (s : Server) : Action → Prop
  | .replayed j _ => j = i → ∀ c ∈ s.conns[i]?, s.appended.length = c.start
  | _ => True

/-! ## The invariant -/

/-- What the deque keeps of the requests it took. -/
def kept (appended : List RequestRow) : List RequestRow := appended.drop (appended.length - 10000)

structure ConnInv (appended : List RequestRow) (c : Conn) : Prop where
  start : c.start ≤ appended.length
  snapshot : c.snapshot = kept (appended.take c.start)
  filter : c.activeFilter = Filter.none
  queue : ∀ rows, .replay rows ∉ c.queue
  fresh : c.phase = .replaying → c.sent = [] ∧ c.queue = []

structure Inv (i : ℕ) (s : Server) : Prop where
  ring : s.ring = kept s.appended
  nodup : s.callbacks.Nodup
  registered : ∀ j, j ∈ s.callbacks ↔ phase s j = some .live
  conn : ∀ c ∈ s.conns[i]?, ConnInv s.appended c

/-! ## What a broadcast does -/

theorem foldl_modify (f : Conn → Conn) {is : List ℕ} (hn : is.Nodup) (conns : List Conn) (j : ℕ) :
    (is.foldl (fun conns i => conns.modify i f) conns)[j]? = if j ∈ is then (conns[j]?).map f else conns[j]? := by
  induction is generalizing conns with
  | nil => simp
  | cons i is ih =>
    obtain ⟨hi, hn⟩ := List.nodup_cons.mp hn
    rw [List.foldl_cons, ih hn]
    by_cases hij : i = j
    · subst hij
      simp [hi]
    · simp [hij, Ne.symm hij, List.mem_cons]

def deliver (m : Message) (c : Conn) : Conn := if c.phase = .live then enqueue m c else c

theorem broadcast_conns {s : Server} (hn : s.callbacks.Nodup) (hr : ∀ i, i ∈ s.callbacks ↔ phase s i = some .live)
    (m : Message) : (broadcast m s).conns = s.conns.map (deliver m) := by
  refine List.ext_getElem? fun j => ?_
  rw [broadcast, foldl_modify (enqueue m) hn, List.getElem?_map]
  cases hj : s.conns[j]? with
  | none => simp
  | some c =>
    have hc : j ∈ s.callbacks ↔ c.phase = .live := by rw [hr, phase, hj]; simp
    by_cases hl : c.phase = .live
    · rw [if_pos (hc.mpr hl)]
      simp [deliver, hl]
    · rw [if_neg (mt hc.mp hl)]
      simp [deliver, hl]

theorem deliver_phase (m : Message) (c : Conn) : (deliver m c).phase = c.phase := by
  unfold deliver enqueue
  split
  · split <;> rfl
  · rfl

theorem deliver_live {m : Message} {c : Conn} (hl : c.phase = .live) (hq : c.queue.length < 500) :
    deliver m c = { c with queue := c.queue ++ [m] } := by
  rw [deliver, if_pos hl, enqueue, if_pos hq]

theorem deliver_other {m : Message} {c : Conn} (hl : c.phase ≠ .live) : deliver m c = c := if_neg hl

theorem deliver_inv {appended : List RequestRow} {m : Message} {c : Conn} (h : ConnInv appended c)
    (hq : c.queue.length < 500) (hm : ∀ rows, m ≠ .replay rows) : ConnInv appended (deliver m c) := by
  by_cases hl : c.phase = .live
  · rw [deliver_live hl hq]
    refine ⟨h.start, h.snapshot, h.filter, fun rows hr => ?_, fun hp => ?_⟩
    · rcases List.mem_append.mp hr with hr | hr
      · exact h.queue rows hr
      · exact hm rows (List.mem_singleton.mp hr).symm
    · cases hl.symm.trans hp
  · rwa [deliver_other hl]

/-! ## What a new request does -/

theorem ConnInv.append {appended : List RequestRow} {c : Conn} (h : ConnInv appended c) (row : RequestRow) :
    ConnInv (appended ++ [row]) c := by
  refine ⟨?_, ?_, h.filter, h.queue, h.fresh⟩
  · rw [List.length_append]
    exact Nat.le_add_right_of_le h.start
  · rw [List.take_append_of_le_length h.start]
    exact h.snapshot

theorem ConnJoined.ingest {appended : List RequestRow} {c : Conn} (hi : ConnInv appended c)
    (h : ConnJoined appended c) (row : RequestRow) (hq : c.queue.length < 500) :
    ConnJoined (appended ++ [row]) (deliver (.newRequest row) c) := by
  have hreplay : ∀ rows, .replay rows ∈ c.sent → rows = ((appended ++ [row]).take c.start).drop (c.start - 100) := by
    rw [List.take_append_of_le_length hi.start]
    exact h.replay
  by_cases hl : c.phase = .live
  · rw [deliver_live hl hq]
    refine ⟨fun _ => ?_, hreplay⟩
    change requests c.sent ++ requests (c.queue ++ [.newRequest row]) = _
    rw [List.drop_append_of_le_length hi.start, ← h.live hl, requests, requests, List.filterMap_append,
      List.append_assoc]
    rfl
  · rw [deliver_other hl]
    exact ⟨fun hp => absurd hp hl, hreplay⟩

theorem ConnJoined.notify {appended : List RequestRow} {c : Conn} (h : ConnJoined appended c) (n : ℕ)
    (hq : c.queue.length < 500) : ConnJoined appended (deliver (.other n) c) := by
  by_cases hl : c.phase = .live
  · rw [deliver_live hl hq]
    refine ⟨fun _ => ?_, h.replay⟩
    change requests c.sent ++ requests (c.queue ++ [.other n]) = _
    rw [← h.live hl, requests, requests, List.filterMap_append]
    simp [Message.request, requests]
  · rwa [deliver_other hl]

/-! ## What the tasks of a connection do -/

theorem passes_none (m : Message) : passesFilter m Filter.none = true := by
  cases m <;> rfl

theorem take_eq {appended : List RequestRow} {c : Conn} (h : ConnInv appended c) (m : Message) (rest : List Message) :
    take m rest c = { c with queue := rest, sent := c.sent ++ [m] } := by
  rw [take, h.filter, passes_none, if_pos rfl]

theorem take_inv {appended : List RequestRow} {c : Conn} (h : ConnInv appended c) (hl : c.phase = .live) {m : Message}
    {rest : List Message} (hq : c.queue = m :: rest) : ConnInv appended (take m rest c) := by
  rw [take_eq h]
  refine ⟨h.start, h.snapshot, h.filter, fun rows hr => ?_, fun hp => ?_⟩
  · exact h.queue rows (hq ▸ List.mem_cons_of_mem m hr)
  · cases hl.symm.trans hp

theorem take_joined {appended : List RequestRow} {c : Conn} (hi : ConnInv appended c) (h : ConnJoined appended c)
    {m : Message} {rest : List Message} (hq : c.queue = m :: rest) : ConnJoined appended (take m rest c) := by
  rw [take_eq hi]
  refine ⟨fun hl => ?_, fun rows hr => ?_⟩
  · change requests (c.sent ++ [m]) ++ requests rest = _
    rw [← h.live hl, hq, requests, requests, requests, requests, List.filterMap_append, List.append_assoc,
      ← List.filterMap_append]
    rfl
  · rcases List.mem_append.mp hr with hr | hr
    · exact h.replay rows hr
    · have hm : .replay rows ∈ c.queue := by rw [hq, List.mem_singleton.mp hr]; exact List.mem_cons_self ..
      exact absurd hm (hi.queue rows)

theorem ping_joined {appended : List RequestRow} {c : Conn} (h : ConnJoined appended c) :
    ConnJoined appended { c with sent := c.sent ++ [.ping] } := by
  refine ⟨fun hl => ?_, fun rows hr => ?_⟩
  · rw [← h.live hl, requests, requests, List.filterMap_append]
    simp [Message.request, requests]
  · rcases List.mem_append.mp hr with hr | hr
    · exact h.replay rows hr
    · cases List.mem_singleton.mp hr

/-! ## Registration -/

theorem lastHundred_kept (l : List RequestRow) : lastHundred (kept l) = l.drop (l.length - 100) := by
  have h : l.length - 10000 + (l.length - (l.length - 10000) - 100) = l.length - 100 := by omega
  rw [lastHundred, kept, List.drop_drop, List.length_drop, h]

theorem lastHundred_snapshot {appended : List RequestRow} {c : Conn} (h : ConnInv appended c) :
    lastHundred c.snapshot = (appended.take c.start).drop (c.start - 100) := by
  have hlen : (appended.take c.start).length = c.start := List.length_take_of_le h.start
  rw [h.snapshot, lastHundred_kept, hlen]

/-- A connection at the moment its callback is registered. -/
def afterReplay (ok : Bool) (c : Conn) : Conn :=
  { c with phase := .live, sent := if ok then c.sent ++ [.replay (lastHundred c.snapshot)] else c.sent }

theorem afterReplay_joined {appended : List RequestRow} {c : Conn} (h : ConnInv appended c)
    (hp : c.phase = .replaying) (ok : Bool) :
    ConnJoined appended (afterReplay ok c) ↔ appended.length = c.start := by
  obtain ⟨hsent, hqueue⟩ := h.fresh hp
  have hreq : requests (afterReplay ok c).sent ++ requests (afterReplay ok c).queue = [] := by
    cases ok <;> simp [afterReplay, hsent, hqueue, requests, Message.request]
  constructor
  · intro hj
    have hdrop := hj.live rfl
    rw [hreq] at hdrop
    have := List.drop_eq_nil_iff.mp hdrop.symm
    exact Nat.le_antisymm this h.start
  · intro hlen
    refine ⟨fun _ => ?_, fun rows hr => ?_⟩
    · rw [hreq, eq_comm, List.drop_eq_nil_iff]
      exact Nat.le_of_eq hlen
    · cases ok with
      | true =>
        have hrows : rows = lastHundred c.snapshot := by simpa [afterReplay, hsent] using hr
        rw [hrows, lastHundred_snapshot h]
        rfl
      | false => simp [afterReplay, hsent] at hr

/-! ## The invariant is kept -/

theorem appendRing_kept (row : RequestRow) (appended : List RequestRow) :
    appendRing row (kept appended) = kept (appended ++ [row]) := by
  rw [appendRing, kept, kept, List.length_drop, List.length_append, List.length_singleton, List.tail_drop]
  split
  · have hd : appended.length - 10000 = appended.length + 1 - 10000 := by omega
    rw [hd, List.drop_append_of_le_length (by omega)]
  · have hd : appended.length - 10000 + 1 = appended.length + 1 - 10000 := by omega
    rw [hd, List.drop_append_of_le_length (by omega)]

variable {s : Server} {i j : ℕ}

theorem mem_modify {f : Conn → Conn} {l : List Conn} {c : Conn} (h : c ∈ (l.modify j f)[i]?) :
    j = i ∧ (∃ d ∈ l[i]?, c = f d) ∨ j ≠ i ∧ c ∈ l[i]? := by
  rw [List.getElem?_modify] at h
  obtain ⟨d, hd, rfl⟩ := Option.map_eq_some_iff.mp h
  by_cases hji : j = i
  · exact .inl ⟨hji, d, hd, if_pos hji⟩
  · refine .inr ⟨hji, ?_⟩
    rwa [if_neg hji]

theorem phase_modify (f : Conn → Conn) (j k : ℕ) :
    ((s.conns.modify j f)[k]?).map (·.phase) =
      if j = k then (s.conns[k]?).map fun c => (f c).phase else phase s k := by
  by_cases h : j = k
  · subst h
    simp [Function.comp_def]
  · simp [h, phase]

theorem phase_modify_const {f : Conn → Conn} {p : Phase} (hf : ∀ c, (f c).phase = p) (hj : phase s j ≠ none) (k : ℕ) :
    ((s.conns.modify j f)[k]?).map (·.phase) = if j = k then some p else phase s k := by
  rw [phase_modify]
  by_cases h : j = k
  · subst h
    obtain ⟨q, hq⟩ := Option.ne_none_iff_exists'.mp hj
    obtain ⟨c, hc, -⟩ := Option.map_eq_some_iff.mp hq
    simp [hc, hf]
  · rw [if_neg h, if_neg h]

/-- A connection changes but not its phase. -/
theorem Inv.modify (h : Inv i s) {f : Conn → Conn} (hphase : ∀ c, (f c).phase = c.phase)
    (hf : j = i → ∀ c ∈ s.conns[i]?, ConnInv s.appended (f c)) : Inv i { s with conns := s.conns.modify j f } := by
  refine ⟨h.ring, h.nodup, fun k => ?_, fun c hc => ?_⟩
  · have hp : phase { s with conns := s.conns.modify j f } k = phase s k := by
      refine (phase_modify f j k).trans ?_
      simp only [hphase, phase, ite_self]
    rw [hp]
    exact h.registered k
  · rcases mem_modify hc with ⟨hj, d, hd, rfl⟩ | ⟨-, hc⟩
    · exact hf hj d hd
    · exact h.conn c hc

/-- A connection becomes live and its callback is registered. -/
theorem Inv.register (h : Inv i s) {f : Conn → Conn} (hp : phase s j = some .replaying)
    (hphase : ∀ c, (f c).phase = .live) (hf : j = i → ∀ c ∈ s.conns[i]?, ConnInv s.appended (f c)) :
    Inv i { s with callbacks := s.callbacks ++ [j], conns := s.conns.modify j f } := by
  have hj : j ∉ s.callbacks := by
    rw [h.registered, hp]
    simp
  have hnodup : (s.callbacks ++ [j]).Nodup := by
    simpa using h.nodup.concat hj
  refine ⟨h.ring, hnodup, fun k => ?_, fun c hc => ?_⟩
  · rw [phase, phase_modify_const hphase (by simp [hp]), List.mem_append, List.mem_singleton, h.registered]
    by_cases hk : j = k
    · simp [hk]
    · simp [hk, Ne.symm hk]
  · rcases mem_modify hc with ⟨hj, d, hd, rfl⟩ | ⟨-, hc⟩
    · exact hf hj d hd
    · exact h.conn c hc

/-- A connection ends and its callback is removed. -/
theorem Inv.unregister (h : Inv i s) (hp : phase s j = some .live) : Inv i (unregisterBroadcast j s) := by
  have hphase : phase s j ≠ none := by simp [hp]
  refine ⟨h.ring, h.nodup.erase j, fun k => ?_, fun c hc => ?_⟩
  · have hmod := phase_modify_const (f := fun c => { c with phase := .closed }) (fun _ => rfl) hphase k
    rw [phase, unregisterBroadcast, hmod, h.nodup.mem_erase_iff, h.registered]
    by_cases hk : j = k
    · simp [hk]
    · simp [hk, Ne.symm hk]
  · rcases mem_modify hc with ⟨-, d, hd, rfl⟩ | ⟨-, hc⟩
    · have hc := h.conn d hd
      exact ⟨hc.start, hc.snapshot, hc.filter, hc.queue, by simp⟩
    · exact h.conn c hc

theorem Inv.broadcast (h : Inv i s) {m : Message} (hq : ∀ c ∈ s.conns[i]?, c.queue.length < 500)
    (hm : ∀ rows, m ≠ .replay rows) : Inv i (broadcast m s) := by
  have hb := broadcast_conns h.nodup h.registered m
  refine ⟨h.ring, h.nodup, fun k => ?_, fun c hc => ?_⟩
  · rw [phase, hb]
    simp only [List.getElem?_map, Option.map_map, Function.comp_def, deliver_phase]
    exact h.registered k
  · rw [hb, List.getElem?_map] at hc
    obtain ⟨d, hd, rfl⟩ := Option.map_eq_some_iff.mp hc
    exact deliver_inv (h.conn d hd) (hq d hd) hm

/-- The ring and the history take a request, before any queue does. -/
theorem Inv.append (h : Inv i s) (row : RequestRow) :
    Inv i { s with ring := appendRing row s.ring, appended := s.appended ++ [row] } where
  ring := (congrArg (appendRing row) h.ring).trans (appendRing_kept row s.appended)
  nodup := h.nodup
  registered := h.registered
  conn c hc := (h.conn c hc).append row

/-! ## A new connection -/

theorem getElem?_concat_cases {l : List Conn} {d c : Conn} {k : ℕ} (h : c ∈ (l ++ [d])[k]?) :
    c ∈ l[k]? ∨ k = l.length ∧ c = d := by
  rcases Nat.lt_trichotomy k l.length with hk | hk | hk
  · rw [List.getElem?_append_left hk] at h
    exact .inl h
  · subst hk
    rw [List.getElem?_concat_length] at h
    exact .inr ⟨rfl, (Option.mem_some.mp h).symm⟩
  · rw [List.getElem?_eq_none (by simp; omega)] at h
    cases h

def newConn (s : Server) : Conn := ⟨.replaying, s.ring, s.appended.length, [], Filter.none, []⟩

theorem newConn_inv (h : s.ring = kept s.appended) : ConnInv s.appended (newConn s) := by
  refine ⟨Nat.le_refl _, ?_, rfl, by simp [newConn], fun _ => ⟨rfl, rfl⟩⟩
  rw [newConn, List.take_length]
  exact h

theorem phase_push (s : Server) (k : ℕ) :
    phase { s with conns := s.conns ++ [newConn s] } k =
      if k = s.conns.length then some .replaying else phase s k := by
  rw [phase, phase]
  split
  · rename_i hk
    subst hk
    rw [List.getElem?_concat_length]
    rfl
  · rename_i hk
    rcases Nat.lt_or_gt_of_ne hk with hk | hk
    · rw [List.getElem?_append_left hk]
    · rw [List.getElem?_eq_none (by simp; omega), List.getElem?_eq_none (by omega)]

theorem Inv.push (h : Inv i s) : Inv i { s with conns := s.conns ++ [newConn s] } := by
  refine ⟨h.ring, h.nodup, fun k => ?_, fun c hc => ?_⟩
  · rw [phase_push]
    split
    · rename_i hk
      rw [h.registered, hk, phase, List.getElem?_eq_none (Nat.le_refl _)]
      simp
    · exact h.registered k
  · rcases getElem?_concat_cases hc with hc | ⟨-, rfl⟩
    · exact h.conn c hc
    · exact newConn_inv h.ring

theorem newConn_joined (s : Server) : ConnJoined s.appended (newConn s) := by
  refine ⟨fun hp => ?_, fun rows hr => ?_⟩
  · cases hp
  · cases hr

/-- With an empty ring the callback is registered before the first await. -/
theorem accept_cases (s : Server) :
    s.ring ≠ [] ∧ accept s = { s with conns := s.conns ++ [newConn s] } ∨
    s.ring = [] ∧ accept s =
      registerBroadcast s.conns.length { s with conns := s.conns ++ [newConn s] } := by
  by_cases hr : s.ring = []
  · exact .inr ⟨hr, if_pos hr⟩
  · exact .inl ⟨hr, if_neg hr⟩

theorem Inv.accept (h : Inv i s) : Inv i (accept s) := by
  rcases accept_cases s with ⟨-, he⟩ | ⟨-, he⟩
  · rw [he]
    exact h.push
  · rw [he]
    refine h.push.register ?_ (fun _ => rfl) fun _ c hc => ?_
    · rw [phase_push, if_pos rfl]
    · have hc := h.push.conn c hc
      exact ⟨hc.start, hc.snapshot, hc.filter, hc.queue, by simp⟩

theorem Joined.accept (h : Inv i s) (hj : Joined i s) : Joined i (accept s) := by
  have hpush : ∀ c ∈ (s.conns ++ [newConn s])[i]?, ConnJoined s.appended c := by
    intro c hc
    rcases getElem?_concat_cases hc with hc | ⟨-, rfl⟩
    · exact hj c hc
    · exact newConn_joined s
  rcases accept_cases s with ⟨-, he⟩ | ⟨hr, he⟩
  · rw [he]
    exact hpush
  · rw [he]
    intro c hc
    rcases mem_modify hc with ⟨hi, d, hd, rfl⟩ | ⟨-, hc⟩
    · rcases getElem?_concat_cases hd with hd | ⟨-, rfl⟩
      · rw [← hi, List.getElem?_eq_none (Nat.le_refl _)] at hd
        cases hd
      · exact (afterReplay_joined (newConn_inv h.ring) rfl false).mpr rfl
    · exact hpush c hc

/-! ## Steps -/

theorem replayed_eq (s : Server) (j : ℕ) (ok : Bool) :
    registerBroadcast j { s with conns := s.conns.modify j fun c =>
      if ok then { c with sent := c.sent ++ [.replay (lastHundred c.snapshot)] } else c } =
    { s with callbacks := s.callbacks ++ [j], conns := s.conns.modify j (afterReplay ok) } := by
  rw [registerBroadcast, List.modify_modify_eq]
  cases ok <;> rfl

theorem Inv.replayed (h : Inv i s) (hp : phase s j = some .replaying) (ok : Bool) :
    Inv i { s with callbacks := s.callbacks ++ [j], conns := s.conns.modify j (afterReplay ok) } := by
  refine h.register hp (fun _ => rfl) fun hj c hc => ?_
  have hi := h.conn c hc
  exact ⟨hi.start, hi.snapshot, hi.filter, hi.queue, by simp [afterReplay]⟩

theorem Joined.replayed (h : Inv i s) (hj : Joined i s) (hp : phase s j = some .replaying) (ok : Bool) :
    Joined i { s with callbacks := s.callbacks ++ [j], conns := s.conns.modify j (afterReplay ok) } ↔
      (j = i → ∀ c ∈ s.conns[i]?, s.appended.length = c.start) := by
  have hphase {c : Conn} (hji : j = i) (hc : c ∈ s.conns[i]?) : c.phase = .replaying := by
    rw [hji, phase, hc] at hp
    exact Option.some.inj hp
  constructor
  · rintro hjoined hji c hc
    refine (afterReplay_joined (h.conn c hc) (hphase hji hc) ok).mp (hjoined _ ?_)
    rw [hji, List.getElem?_modify_eq, hc]
    rfl
  · intro hmiss c hc
    rcases mem_modify hc with ⟨hji, d, hd, rfl⟩ | ⟨-, hc⟩
    · exact (afterReplay_joined (h.conn d hd) (hphase hji hd) ok).mpr (hmiss hji d hd)
    · exact hj c hc

theorem Joined.modify (hj : Joined i s) {f : Conn → Conn}
    (hf : j = i → ∀ c ∈ s.conns[i]?, ConnJoined s.appended (f c)) : Joined i { s with conns := s.conns.modify j f } := by
  intro c hc
  rcases mem_modify hc with ⟨hji, d, hd, rfl⟩ | ⟨-, hc⟩
  · exact hf hji d hd
  · exact hj c hc

theorem step_inv {s' : Server} (h : Inv i s) {a : Action} (ha : Unhindered i s a) (hs : step s a = some s') :
    Inv i s' := by
  cases a with
  | accept =>
    obtain rfl := Option.some.inj hs
    exact h.accept
  | replayed j ok =>
    obtain ⟨hp, hs⟩ := Option.ite_none_right_eq_some.mp hs
    obtain rfl := Option.some.inj hs
    rw [replayed_eq]
    exact h.replayed hp ok
  | ingest row =>
    obtain rfl := Option.some.inj hs
    exact (h.append row).broadcast ha (by simp)
  | notify n =>
    obtain rfl := Option.some.inj hs
    exact h.broadcast ha (by simp)
  | take j =>
    obtain ⟨c, m, rest, hc, hl, hq, rfl⟩ := step_take hs
    refine h.modify (fun _ => rfl) fun hji d hd => ?_
    obtain rfl : c = d := by
      rw [← hji] at hd
      exact Option.some.inj (hc.symm.trans hd)
    exact take_inv (h.conn c hd) hl hq
  | ping j =>
    obtain ⟨hp, hs⟩ := Option.ite_none_right_eq_some.mp hs
    obtain rfl := Option.some.inj hs
    refine h.modify (fun _ => rfl) fun hji d hd => ?_
    have hi := h.conn d hd
    refine ⟨hi.start, hi.snapshot, hi.filter, hi.queue, fun hr => ?_⟩
    rw [hji, phase, hd] at hp
    cases hr.symm.trans (Option.some.inj hp)
  | filter j f =>
    obtain ⟨-, hs⟩ := Option.ite_none_right_eq_some.mp hs
    obtain rfl := Option.some.inj hs
    refine h.modify (fun _ => rfl) fun hji d hd => ?_
    have hi := h.conn d hd
    exact ⟨hi.start, hi.snapshot, ha hji, hi.queue, hi.fresh⟩
  | close j =>
    obtain ⟨hp, hs⟩ := Option.ite_none_right_eq_some.mp hs
    obtain rfl := Option.some.inj hs
    exact h.unregister hp

theorem step_joined {s' : Server} (h : Inv i s) (hj : Joined i s) {a : Action} (ha : Unhindered i s a)
    (hs : step s a = some s') : Joined i s' ↔ NothingMissed i s a := by
  cases a with
  | accept =>
    obtain rfl := Option.some.inj hs
    exact iff_of_true (hj.accept h) trivial
  | replayed j ok =>
    obtain ⟨hp, hs⟩ := Option.ite_none_right_eq_some.mp hs
    obtain rfl := Option.some.inj hs
    rw [replayed_eq]
    exact hj.replayed h hp ok
  | ingest row =>
    obtain rfl := Option.some.inj hs
    have happ := h.append row
    refine iff_of_true (fun c hc => ?_) trivial
    rw [ingest, broadcast_conns happ.nodup happ.registered, List.getElem?_map] at hc
    obtain ⟨d, hd, rfl⟩ := Option.map_eq_some_iff.mp hc
    exact (hj d hd).ingest (h.conn d hd) row (ha d hd)
  | notify n =>
    obtain rfl := Option.some.inj hs
    refine iff_of_true (fun c hc => ?_) trivial
    rw [broadcast_conns h.nodup h.registered, List.getElem?_map] at hc
    obtain ⟨d, hd, rfl⟩ := Option.map_eq_some_iff.mp hc
    exact (hj d hd).notify n (ha d hd)
  | take j =>
    obtain ⟨c, m, rest, hc, -, hq, rfl⟩ := step_take hs
    refine iff_of_true (hj.modify fun hji d hd => ?_) trivial
    obtain rfl : c = d := by
      rw [← hji] at hd
      exact Option.some.inj (hc.symm.trans hd)
    exact take_joined (h.conn c hd) (hj c hd) hq
  | ping j =>
    obtain ⟨-, hs⟩ := Option.ite_none_right_eq_some.mp hs
    obtain rfl := Option.some.inj hs
    exact iff_of_true (hj.modify fun _ d hd => ping_joined (hj d hd)) trivial
  | filter j f =>
    obtain ⟨-, hs⟩ := Option.ite_none_right_eq_some.mp hs
    obtain rfl := Option.some.inj hs
    exact iff_of_true (hj.modify fun _ d hd => ⟨(hj d hd).live, (hj d hd).replay⟩) trivial
  | close j =>
    obtain ⟨-, hs⟩ := Option.ite_none_right_eq_some.mp hs
    obtain rfl := Option.some.inj hs
    exact iff_of_true (hj.modify fun _ d hd => ⟨(by simp), (hj d hd).replay⟩) trivial

/-! ## The sender empties the queue -/

theorem take_next {c : Conn} {m : Message} {rest : List Message} (hc : s.conns[j]? = some c) (hl : c.phase = .live)
    (hq : c.queue = m :: rest) : step s (.take j) = some { s with conns := s.conns.modify j (take m rest) } := by
  obtain ⟨phase, snapshot, start, queue, activeFilter, sent⟩ := c
  obtain rfl : phase = .live := hl
  obtain rfl : queue = m :: rest := hq
  simp only [step, hc, Option.bind_some]

theorem sender_drains {c : Conn} (hc : s.conns[i]? = some c) (hl : c.phase = .live)
    (hf : c.activeFilter = Filter.none) :
    ∃ s', exec step s (List.replicate c.queue.length (.take i)) = some s' ∧
      s'.conns[i]? = some { c with queue := [], sent := c.sent ++ c.queue } := by
  generalize hq : c.queue = q
  induction q generalizing s c with
  | nil => exact ⟨s, rfl, by rw [List.append_nil, hc, ← hq]⟩
  | cons m rest ih =>
    have hnext := take_next hc hl hq
    have htake : take m rest c = { c with queue := rest, sent := c.sent ++ [m] } := by
      rw [take, hf, passes_none, if_pos rfl]
    have hc' : (s.conns.modify i (take m rest))[i]? = some { c with queue := rest, sent := c.sent ++ [m] } := by
      rw [List.getElem?_modify_eq, hc, Option.map_eq_map, Option.map_some, htake]
    obtain ⟨s', hs', hget⟩ := ih (s := { s with conns := s.conns.modify i (take m rest) }) hc' hl hf rfl
    refine ⟨s', ?_, ?_⟩
    · rw [List.length_cons, List.replicate_succ, exec, hnext]
      exact hs'
    · rw [hget, List.append_assoc]
      rfl

/-! ## The seam -/

theorem boot_inv (i : ℕ) : Inv i boot := by
  refine ⟨rfl, List.nodup_nil, fun j => ?_, fun c hc => ?_⟩
  · simp [boot, phase]
  · cases hc

theorem boot_joined (i : ℕ) : Joined i boot := by
  intro c hc
  cases hc

/-- For as long as its queue does not fill and it sets no filter, the replay and the live stream of
a connection join in exactly the runs in which no request is appended between the snapshot and the
registration; what is queued is what the sender sends next. -/
theorem replay_meets_live (i : ℕ) (as : List Action) (ha : Along step (fun s a _ => Unhindered i s a) boot as) :
    (Visited step (Joined i) boot as ↔ Along step (fun s a _ => NothingMissed i s a) boot as) ∧
    ∀ s c, exec step boot as = some s → s.conns[i]? = some c → c.phase = .live →
      ∃ s', exec step s (List.replicate c.queue.length (.take i)) = some s' ∧
        s'.conns[i]? = some { c with queue := [], sent := c.sent ++ c.queue } := by
  have hinv := fun s a s' (hi : Inv i s) (ha : Unhindered i s a) (hs : step s a = some s') => step_inv hi ha hs
  refine ⟨?_, fun s c he hc hl => ?_⟩
  · refine visited_iff_along_of (fun s a s' hi hj ha hs hg => ?_) (fun s a s' hi hj ha hs hj' => ?_) (boot_inv i)
      (boot_joined i) ha
    · exact ⟨hinv s a s' hi ha hs, (step_joined hi hj ha hs).mpr hg⟩
    · exact (step_joined hi hj ha hs).mp hj'
  · have hi := exec_invariant hinv (boot_inv i) ha he
    exact sender_drains hc hl (hi.conn c hc).filter

instance (i : ℕ) (s : Server) (a : Action) : Decidable (Unhindered i s a) :=
  match a with
  | .ingest _ | .notify _ => inferInstanceAs (Decidable (∀ c ∈ s.conns[i]?, c.queue.length < 500))
  | .filter j f => inferInstanceAs (Decidable (j = i → f = Filter.none))
  | .accept | .replayed .. | .take _ | .ping _ | .close _ => isTrue trivial

instance (i : ℕ) (s : Server) (a : Action) : Decidable (NothingMissed i s a) :=
  match a with
  | .replayed j _ => inferInstanceAs (Decidable (j = i → ∀ c ∈ s.conns[i]?, s.appended.length = c.start))
  | .accept | .ingest _ | .notify _ | .take _ | .ping _ | .filter .. | .close _ => isTrue trivial

theorem replay_meets_live_in_turn : Visited step (Joined 0) boot
    [.ingest (request "a"), .accept, .replayed 0 true, .ingest (request "b"), .take 0] :=
  (replay_meets_live 0 _ (by decide)).1.mpr (by decide)

def lateIngest : List Action := [.ingest (request "a"), .accept, .ingest (request "b"), .replayed 0 true]

/-- The request that arrives while the replay is being sent is in neither. -/
theorem request_missed : Along step (fun s a _ => Unhindered 0 s a) boot lateIngest ∧
    ¬ Visited step (Joined 0) boot lateIngest := by
  refine ⟨by decide, fun hv => ?_⟩
  have hlive := (hv.of_exec rfl _ rfl).live rfl
  cases hlive

end Cadsa.Realtime
