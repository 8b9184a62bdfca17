import Mathlib.Tactic.Common
import Cadsa.Lib.Slots
import Cadsa.Frontend.Api

/-! One refresh at a time. Whatever calls are under way and in whatever order responses arrive,
the shared promise is set exactly while a refresh is in flight; so every call that has to wait
waits for that one, and no call goes round a second time. `auth.refresh`, which nothing calls,
is no refresh here but a request like any other. -/
namespace Cadsa.Frontend.Api
open Runs Slots
set_option autoImplicit false

/-! ## The invariant -/

def Refresh.pending (r : Refresh) : Bool :=
  match r.phase with
  | .settled _ => false
  | _ => true

def inFlight (s : World) (p : ℕ) : Bool := holds Refresh.pending s.refreshes p

def Wire.isOwn (k : ℕ) (w : Wire) : Bool := w.sender == .call k

/-- How often call `k` has sent its own request. -/
def attempts (wire : List Wire) (k : ℕ) : ℕ := wire.countP (Wire.isOwn k)

def Pc.allowance : Pc → ℕ
  | .first | .awaiting _ => 1
  | _ => 2

def allowance : Option Call → ℕ
  | none => 0
  | some c => c.pc.allowance

structure Inv (s : World) : Prop where
  flight : ∀ p, s.refreshPromise = some p ↔ inFlight s p = true
  waits : ∀ (k : ℕ) (c : Call) (o : Option ℕ), s.calls[k]? = some c → c.pc = .awaiting o →
    ∃ p, o = some p ∧ p < s.refreshes.length
  budget : ∀ k, attempts s.wire k ≤ allowance s.calls[k]?

theorem attempts_concat (wire : List Wire) (w : Wire) (k : ℕ) :
    attempts (wire ++ [w]) k = attempts wire k + if w.sender = .call k then 1 else 0 := by
  simp [attempts, List.countP_append, List.countP_cons, Wire.isOwn]

/-! ## What a refresh does to the promise -/

theorem inFlight_settle (p q : ℕ) (b : Bool) (s : World) :
    inFlight (settle p b s) q = if p = q then false else inFlight s q := by
  simp only [inFlight, settle, setPhase]
  split
  · next h => exact h ▸ holds_modify_self (fun _ => rfl) _ p
  · next h => exact holds_modify_ne _ h

/-- What `_doRefresh` gives a caller that holds a refresh token. -/
structure Joined (s : World) (promise : Option ℕ) (s' : World) : Prop where
  current : ∃ p, promise = some p ∧ s'.refreshPromise = some p
  joined : ∀ q, s.refreshPromise = some q → promise = some q
  calls : s'.calls = s.calls
  attempts : ∀ k, attempts s'.wire k = attempts s.wire k
  grows : s.refreshes.length ≤ s'.refreshes.length

theorem doRefresh_joined {s : World} (ht : s.refreshToken ≠ "") :
    Joined s (_doRefresh s).1 (_doRefresh s).2 := by
  cases hp : s.refreshPromise with
  | some p =>
    simp only [_doRefresh, ht, if_false, hp]
    exact ⟨⟨p, rfl, hp⟩, fun q hq => hp.symm.trans hq ▸ rfl, rfl, fun _ => rfl, Nat.le_refl _⟩
  | none =>
    simp only [_doRefresh, ht, if_false, hp]
    refine ⟨⟨_, rfl, rfl⟩, fun q hq => ?_, rfl, fun k => ?_, ?_⟩
    · cases hp.symm.trans hq
    · simp [fetch, attempts_concat]
    · simp [fetch]

theorem Inv.refreshed {s : World} (h : Inv s) (ht : s.refreshToken ≠ "") : Inv (_doRefresh s).2 := by
  have hj := doRefresh_joined ht
  refine ⟨fun p => ?_, fun k c o hk hc => ?_, fun k => ?_⟩
  · cases hp : s.refreshPromise with
    | some q =>
      simp only [_doRefresh, ht, if_false, hp, ← h.flight p]
    | none =>
      simp only [_doRefresh, ht, if_false, hp, inFlight, fetch]
      by_cases hl : p = s.refreshes.length
      · subst hl
        simp [holds_append_self, Refresh.pending]
      · rw [holds_append_ne _ hl]
        refine iff_of_false (fun he => hl (Option.some.inj he).symm) fun hf => ?_
        cases hp.symm.trans ((h.flight p).mpr hf)
  · rw [hj.calls] at hk
    obtain ⟨p, rfl, hp⟩ := h.waits k c o hk hc
    exact ⟨p, rfl, Nat.lt_of_lt_of_le hp hj.grows⟩
  · rw [hj.attempts, hj.calls]
    exact h.budget k

/-! ## The invariant is kept -/

theorem Inv.frame {s : World} (h : Inv s) (access : Option String) (refresh : String) (stored : Option String)
    (handler : Bool) (redirects : ℕ) :
    Inv { s with accessToken := access, refreshToken := refresh, stored := stored,
                 onUnauthorized := handler, redirects := redirects } :=
  ⟨h.flight, h.waits, h.budget⟩

theorem Inv.settled {s : World} (h : Inv s) {p : ℕ} (hp : inFlight s p = true) (b : Bool) : Inv (settle p b s) := by
  refine ⟨fun q => ?_, fun k c o hk hc => ?_, h.budget⟩
  · rw [inFlight_settle]
    by_cases hq : p = q
    · simp [hq, settle, setPhase]
    · have hs := (h.flight p).mpr hp
      have hn : inFlight s q ≠ true := fun hf => hq (Option.some.inj (hs.symm.trans ((h.flight q).mpr hf)))
      simp [hq, hn, settle, setPhase]
  · obtain ⟨q, rfl, hq⟩ := h.waits k c o hk hc
    exact ⟨q, rfl, by simpa [settle, setPhase] using hq⟩

theorem Inv.read {s : World} (h : Inv s) {p : ℕ} (hp : inFlight s p = true) : Inv (setPhase p .reading s) := by
  refine ⟨fun q => ?_, fun k c o hk hc => ?_, h.budget⟩
  · by_cases hq : p = q
    · subst hq
      have hr : inFlight (setPhase p .reading s) p = true := by
        obtain ⟨r, hr, -⟩ := holds_eq_true.mp hp
        exact holds_eq_true.mpr ⟨{ r with phase := .reading }, by simp [setPhase, hr], rfl⟩
      exact iff_of_true ((h.flight p).mpr hp) hr
    · have hn : inFlight (setPhase p .reading s) q = inFlight s q := holds_modify_ne _ hq
      rw [hn]
      exact h.flight q
  · obtain ⟨q, rfl, hq⟩ := h.waits k c o hk hc
    exact ⟨q, rfl, by simpa [setPhase] using hq⟩

theorem Inv.changed {s : World} (h : Inv s) {k : ℕ} {c c' : Call} (wire : List Wire) (hk : s.calls[k]? = some c)
    (hw : ∀ o, c'.pc = .awaiting o → ∃ p, o = some p ∧ p < s.refreshes.length)
    (hb : attempts wire k ≤ allowance (some c')) (ho : ∀ j, k ≠ j → attempts wire j ≤ attempts s.wire j) :
    Inv { s with calls := s.calls.set k c', wire := wire } := by
  have hlt : k < s.calls.length := (List.getElem?_eq_some_iff.mp hk).1
  refine ⟨h.flight, fun j d o hj hd => ?_, fun j => ?_⟩
  · by_cases hkj : k = j
    · subst hkj
      obtain rfl : c' = d := by simpa [hlt] using hj
      exact hw o hd
    · exact h.waits j d o (by simpa [hkj] using hj) hd
  · by_cases hkj : k = j
    · subst hkj
      simpa [hlt] using hb
    · simpa [hkj] using Nat.le_trans (ho j hkj) (h.budget j)

theorem Inv.added {s : World} (h : Inv s) {c : Call} (wire : List Wire)
    (hw : ∀ o, c.pc = .awaiting o → ∃ p, o = some p ∧ p < s.refreshes.length)
    (hb : ∀ k, attempts wire k ≤ attempts s.wire k + if k = s.calls.length then allowance (some c) else 0) :
    Inv { s with calls := s.calls ++ [c], wire := wire } := by
  have hget : ∀ k, k ≠ s.calls.length → (s.calls ++ [c])[k]? = s.calls[k]? := fun k hk => by
    rw [List.getElem?_append]
    split
    · rfl
    · rw [List.getElem?_eq_none (by simp; omega), List.getElem?_eq_none (by omega)]
  refine ⟨h.flight, fun k d o hk hd => ?_, fun k => ?_⟩
  · by_cases hl : k = s.calls.length
    · subst hl
      obtain rfl : c = d := by simpa using hk
      exact hw o hd
    · exact h.waits k d o ((hget k hl).symm.trans hk) hd
  · have hk := hb k
    by_cases hl : k = s.calls.length
    · have h0 : attempts s.wire k = 0 := by
        have := h.budget k
        rw [List.getElem?_eq_none (by omega)] at this
        exact Nat.le_zero.mp this
      subst hl
      simpa [h0] using hk
    · rw [if_neg hl] at hk
      simp only [hget k hl]
      exact Nat.le_trans hk (h.budget k)

theorem inFlight_lt {s : World} {p : ℕ} (h : inFlight s p = true) : p < s.refreshes.length := by
  obtain ⟨r, hr, -⟩ := holds_eq_true.mp h
  exact (List.getElem?_eq_some_iff.mp hr).1

theorem inFlight_of_phase {s : World} {p : ℕ} {phase : Phase} (h : (s.refreshes[p]?).map (·.phase) = some phase)
    (hp : ∀ b, phase ≠ .settled b) : inFlight s p = true := by
  obtain ⟨r, hr, rfl⟩ := Option.map_eq_some_iff.mp h
  refine holds_eq_true.mpr ⟨r, hr, ?_⟩
  cases hph : r.phase with
  | settled b => exact absurd hph (hp b)
  | _ => simp [Refresh.pending, hph]

theorem allowance_le_two (pc : Pc) : pc.allowance ≤ 2 := by cases pc <;> simp [Pc.allowance]

theorem Inv.budget_of {s : World} (h : Inv s) {k : ℕ} {c : Call} (hk : s.calls[k]? = some c) :
    attempts s.wire k ≤ c.pc.allowance := by
  have := h.budget k
  rwa [hk] at this

/-- The call stops waiting for a promise or for its first response. -/
theorem Inv.advanced {s : World} (h : Inv s) {k : ℕ} {c c' : Call} (hk : s.calls[k]? = some c)
    (hpc : c'.pc.allowance = 2) (hw : ∀ o, c'.pc ≠ .awaiting o) : Inv (setCall k c' s) := by
  refine h.changed s.wire hk (fun o ho => absurd ho (hw o)) ?_ fun _ _ => Nat.le_refl _
  rw [allowance, hpc]
  exact Nat.le_trans (h.budget_of hk) (allowance_le_two c.pc)

theorem Inv.readBody {s : World} (h : Inv s) {k : ℕ} {c : Call} (hk : s.calls[k]? = some c) (reply : Reply) :
    Inv (readBody k c reply s) := by
  cases reply with
  | failure => exact h.advanced hk rfl (fun o ho => nomatch ho)
  | status code => exact h.advanced hk rfl (fun o ho => nomatch ho)

theorem Inv.firstReply {s : World} (h : Inv s) {k : ℕ} {c : Call} (hk : s.calls[k]? = some c) (hc : c.pc = .first)
    (reply : Reply) : Inv (firstReply k c reply s) := by
  unfold Api.firstReply
  split
  · next hr =>
    have hj := doRefresh_joined hr.2
    have hi := h.refreshed hr.2
    obtain ⟨p, hp, hcur⟩ := hj.current
    refine hi.changed (_doRefresh s).2.wire (hj.calls ▸ hk) (fun o ho => ?_) ?_ fun _ _ => Nat.le_refl _
    · cases ho
      exact ⟨p, hp, inFlight_lt ((hi.flight p).mp hcur)⟩
    · rw [hj.attempts]
      have hb := h.budget_of hk
      rwa [hc] at hb
  · exact h.readBody hk reply

theorem Inv.resume {s : World} (h : Inv s) {k : ℕ} {c : Call} {o : Option ℕ} (hk : s.calls[k]? = some c)
    (hc : c.pc = .awaiting o) (refreshed : Bool) : Inv (resume k c refreshed s) := by
  have hb : attempts s.wire k ≤ 1 := by simpa [hc, Pc.allowance] using h.budget_of hk
  unfold Api.resume
  split
  · next request _ =>
    split
    · refine h.changed (s.wire ++ [⟨.call k, { request with path := BASE ++ request.path }, some (bearer s)⟩]) hk
        (fun o ho => ?_) ?_ fun j hj => ?_
      · cases ho
      · simpa [attempts_concat, allowance, Pc.allowance] using hb
      · simp [attempts_concat, hj]
    · split
      · exact (h.frame (some "") "" none s.onUnauthorized (s.redirects + 1)).advanced hk rfl (fun o ho => nomatch ho)
      · exact h.advanced hk rfl (fun o ho => nomatch ho)
  · next saved _ =>
    exact (h.frame s.accessToken s.refreshToken s.stored saved s.redirects).advanced hk rfl (fun o ho => nomatch ho)

theorem Inv.initSession {s : World} (h : Inv s) : Inv (initSession s) := by
  unfold Api.initSession
  split
  · exact h.added s.wire (fun o ho => nomatch ho) fun k => Nat.le_add_right _ _
  · next ht =>
    have h₀ : Inv { s with onUnauthorized := false } := h.frame _ _ _ false _
    have hj := doRefresh_joined (s := { s with onUnauthorized := false }) ht
    have hi := h₀.refreshed ht
    obtain ⟨p, hp, hcur⟩ := hj.current
    refine hi.added (_doRefresh { s with onUnauthorized := false }).2.wire (fun o ho => ?_)
      fun k => Nat.le_add_right _ _
    cases ho
    exact ⟨p, hp, inFlight_lt ((hi.flight p).mp hcur)⟩

theorem finish_final (code : ℕ) (body : Body) :
    (finish code body).allowance = 2 ∧ ∀ o, finish code body ≠ .awaiting o := by
  unfold finish
  split <;> split <;> exact ⟨rfl, fun o ho => nomatch ho⟩

theorem Inv.refreshReply {s : World} (h : Inv s) {p : ℕ} (hp : inFlight s p = true) (reply : Reply) :
    Inv (refreshReply p reply s) := by
  have hc : Inv (clearTokens s) := h.frame _ _ _ _ _
  rcases refreshReply_cases p reply s with ⟨code, -, -, hr⟩ | ⟨-, hr⟩
  · rw [hr]
    exact h.read hp
  · rw [hr]
    exact hc.settled hp false

theorem Inv.refreshBody {s : World} (h : Inv s) {p : ℕ} (hp : inFlight s p = true) (body : RefreshBody) :
    Inv (refreshBody p body s) := by
  cases body with
  | broken =>
    have hc : Inv (clearTokens s) := h.frame _ _ _ _ _
    exact hc.settled hp false
  | data access =>
    have hc : Inv { s with accessToken := access } := h.frame _ _ _ _ _
    exact hc.settled hp true

theorem Inv.step {s s' : World} {a : Action} (h : Inv s) (hs : step s a = some s') : Inv s' := by
  cases a with
  | fetch request =>
    obtain rfl := Option.some.inj hs
    refine h.added _ (fun o ho => nomatch ho) fun k => ?_
    simp only [fetch, attempts_concat, allowance, Pc.allowance]
    by_cases hk : k = s.calls.length
    · simp [hk]
    · simp [hk, Ne.symm hk]
  | initSession =>
    obtain rfl := Option.some.inj hs
    exact h.initSession
  | setTokens access refresh =>
    obtain rfl := Option.some.inj hs
    exact h.frame _ _ _ _ _
  | clearTokens =>
    obtain rfl := Option.some.inj hs
    exact h.frame _ _ _ _ _
  | registerUnauthorizedHandler =>
    obtain rfl := Option.some.inj hs
    exact h.frame _ _ _ _ _
  | reply k reply =>
    obtain ⟨c, hk, ⟨hc, rfl⟩ | ⟨-, rfl⟩⟩ := step_reply hs
    · exact h.firstReply hk hc reply
    · exact h.readBody hk reply
  | resume k =>
    obtain ⟨c, o, b, hk, hc, -, rfl⟩ := step_resume hs
    exact h.resume hk hc b
  | body k body =>
    obtain ⟨c, code, hk, -, rfl⟩ := step_body hs
    exact h.advanced hk (finish_final code body).1 (finish_final code body).2
  | refreshReply p reply =>
    obtain ⟨hp, hs⟩ := Option.ite_none_right_eq_some.mp hs
    obtain rfl := Option.some.inj hs
    exact h.refreshReply (inFlight_of_phase hp (by simp)) reply
  | refreshBody p body =>
    obtain ⟨hp, hs⟩ := Option.ite_none_right_eq_some.mp hs
    obtain rfl := Option.some.inj hs
    exact h.refreshBody (inFlight_of_phase hp (by simp)) body

theorem load_inv (stored : Option String) : Inv (load stored) :=
  ⟨fun _ => iff_of_false (fun h => nomatch h) (fun h => nomatch h), fun _ _ _ hk => (nomatch hk), fun _ => Nat.le_refl _⟩

theorem reachable_inv {stored : Option String} {as : List Action} {s : World}
    (h : exec step (load stored) as = some s) : Inv s :=
  exec_invariant (fun _ _ _ hi (_ : True) hs => hi.step hs) (load_inv stored)
    (along_of_mem (fun _ _ _ _ => trivial) _) h

/-! ## What one step does to a call -/

/-- The promise a call starts to wait for: it is in flight, and it is the one already in flight
if there was one. -/
def StartsWaiting (s s' : World) (o : Option ℕ) : Prop :=
  (∃ p, o = some p ∧ inFlight s' p = true) ∧ ∀ q, inFlight s q = true → o = some q

def sessionExpired : Failure := .apiError 401 "Session expired — please sign in again"

/-- Where a call goes from a refresh that ended with `refreshed`. -/
def Kind.after : Kind → Bool → Pc
  | .fetch _, true => .second
  | .fetch _, false => .rejected sessionExpired
  | .initSession _, refreshed => .answered refreshed

inductive Turn (s s' : World) : Option Call → Option Call → Prop
  | same (c : Option Call) : Turn s s' c c
  | fetched (c : Call) : c.pc = .first → Turn s s' none (some c)
  | answered (c : Call) : c.pc = .answered false → Turn s s' none (some c)
  | init (c : Call) (o : Option ℕ) : c.pc = .awaiting o → StartsWaiting s s' o → Turn s s' none (some c)
  | refused (c : Call) (o : Option ℕ) : c.pc = .first → StartsWaiting s s' o →
      Turn s s' (some c) (some { c with pc := .awaiting o })
  | failed (c : Call) : c.pc = .first ∨ c.pc = .second → Turn s s' (some c) (some { c with pc := .rejected .network })
  | kept (c : Call) (code : ℕ) : c.pc = .first ∨ c.pc = .second → Turn s s' (some c) (some { c with pc := .reading code })
  | resumed (c : Call) (o : Option ℕ) (b : Bool) (authorization : Option String) : c.pc = .awaiting o →
      outcome s o = some b → Turn s s' (some c) (some { c with authorization := authorization, pc := c.kind.after b })
  | finished (c : Call) (code : ℕ) (body : Body) : c.pc = .reading code →
      Turn s s' (some c) (some { c with pc := finish code body })

theorem get_set {l : List Call} {k : ℕ} {c : Call} (hk : l[k]? = some c) (c' : Call) (j : ℕ) :
    (l.set k c')[j]? = if k = j then some c' else l[j]? := by
  have hlt : k < l.length := (List.getElem?_eq_some_iff.mp hk).1
  by_cases h : k = j
  · subst h
    simp [hlt]
  · simp [h]

/-- One call changes. -/
theorem Turn.of_set {s s' : World} {k : ℕ} {c c' : Call} (hk : s.calls[k]? = some c)
    (hs : s'.calls = s.calls.set k c') (ht : Turn s s' (some c) (some c')) (j : ℕ) :
    Turn s s' s.calls[j]? s'.calls[j]? := by
  rw [hs, get_set hk]
  split
  · next h => exact h ▸ hk ▸ ht
  · exact .same _

theorem Turn.of_append {s s' : World} {c : Call} (hs : s'.calls = s.calls ++ [c])
    (ht : Turn s s' none (some c)) (j : ℕ) : Turn s s' s.calls[j]? s'.calls[j]? := by
  rw [hs, List.getElem?_append]
  split
  · exact .same _
  · next h =>
    rw [List.getElem?_eq_none (Nat.le_of_not_lt h)]
    cases hj : j - s.calls.length with
    | zero => exact ht
    | succ n => exact .same _

theorem Inv.startsWaiting {s s' : World} {o : Option ℕ} (h : Inv s) (h' : Inv s') (hj : Joined s o s') :
    StartsWaiting s s' o := by
  obtain ⟨p, hp, hcur⟩ := hj.current
  exact ⟨⟨p, hp, (h'.flight p).mp hcur⟩, fun q hq => hj.joined q ((h.flight q).mpr hq)⟩

theorem readBody_turn {s : World} {k : ℕ} {c : Call} (hk : s.calls[k]? = some c)
    (hc : c.pc = .first ∨ c.pc = .second) (reply : Reply) (j : ℕ) :
    Turn s (readBody k c reply s) s.calls[j]? (readBody k c reply s).calls[j]? := by
  cases reply with
  | failure => exact .of_set hk rfl (.failed c hc) j
  | status code => exact .of_set hk rfl (.kept c code hc) j

theorem resume_calls (s : World) (k : ℕ) (c : Call) (b : Bool) : ∃ authorization,
    (resume k c b s).calls = s.calls.set k { c with authorization := authorization, pc := c.kind.after b } := by
  unfold resume
  split
  · next request hkind =>
    cases b with
    | true => exact ⟨some (bearer s), by simp [fetch, setCall, Kind.after, hkind]⟩
    | false =>
      refine ⟨c.authorization, ?_⟩
      cases hu : s.onUnauthorized <;> simp [Kind.after, hkind, setCall, unauthorized, clearTokens, sessionExpired]
  · next saved hkind => exact ⟨c.authorization, by simp only [Kind.after, hkind]; rfl⟩

theorem step_turn {s s' : World} {a : Action} (h : Inv s) (hs : step s a = some s') (j : ℕ) :
    Turn s s' s.calls[j]? s'.calls[j]? := by
  cases a with
  | fetch request =>
    obtain rfl := Option.some.inj hs
    exact .of_append rfl (.fetched _ rfl) j
  | initSession =>
    obtain rfl := Option.some.inj hs
    unfold initSession
    split
    · exact .of_append rfl (.answered _ rfl) j
    · next ht =>
      have h₀ : Inv { s with onUnauthorized := false } := h.frame _ _ _ false _
      have hj := doRefresh_joined (s := { s with onUnauthorized := false }) ht
      have hw := h₀.startsWaiting (h₀.refreshed ht) hj
      refine .of_append (congrArg (· ++ [_]) hj.calls) (.init _ _ rfl ?_) j
      exact hw
  | setTokens access refresh =>
    obtain rfl := Option.some.inj hs
    exact .same _
  | clearTokens =>
    obtain rfl := Option.some.inj hs
    exact .same _
  | registerUnauthorizedHandler =>
    obtain rfl := Option.some.inj hs
    exact .same _
  | reply k reply =>
    obtain ⟨c, hk, ⟨hc, rfl⟩ | ⟨hc, rfl⟩⟩ := step_reply hs
    · unfold firstReply
      split
      · next hr =>
        have hj := doRefresh_joined hr.2
        have hw := h.startsWaiting (h.refreshed hr.2) hj
        refine .of_set hk ?_ (.refused c (_doRefresh s).1 hc ?_) j
        · exact congrArg (fun l => l.set k { c with pc := .awaiting (_doRefresh s).1 }) hj.calls
        · exact hw
      · exact readBody_turn hk (.inl hc) reply j
    · exact readBody_turn hk (.inr hc) reply j
  | resume k =>
    obtain ⟨c, o, b, hk, hc, hb, rfl⟩ := step_resume hs
    obtain ⟨authorization, hr⟩ := resume_calls s k c b
    exact .of_set hk hr (.resumed c o b authorization hc hb) j
  | body k body =>
    obtain ⟨c, code, hk, hc, rfl⟩ := step_body hs
    exact .of_set hk rfl (.finished c code body hc) j
  | refreshReply p reply =>
    obtain ⟨hp, hs⟩ := Option.ite_none_right_eq_some.mp hs
    obtain rfl := Option.some.inj hs
    have hc : (refreshReply p reply s).calls = s.calls := by
      rcases refreshReply_cases p reply s with ⟨code, -, -, hr⟩ | ⟨-, hr⟩
      · rw [hr, setPhase]
      · rw [hr, settle, setPhase, clearTokens]
    exact hc ▸ .same _
  | refreshBody p body =>
    obtain ⟨hp, hs⟩ := Option.ite_none_right_eq_some.mp hs
    obtain rfl := Option.some.inj hs
    cases body <;> exact .same _

/-! ## Runs -/

theorem outcome_settled {s : World} {p : ℕ} {b : Bool} (h : outcome s (some p) = some b) :
    (s.refreshes[p]?).map (·.phase) = some (.settled b) := by
  simp only [outcome] at h
  split at h
  · next hp =>
    obtain rfl := Option.some.inj h
    simp [hp]
  · cases h

end Cadsa.Frontend.Api
