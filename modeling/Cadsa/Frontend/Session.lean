import Mathlib.Tactic.Common
import Cadsa.Frontend.Refresh

/-! Which session the held tokens belong to. A history beside the token state records the session
that a login opened, the access tokens its refreshes brought, and the session in which each
refresh was sent. The continuation of a refresh writes without asking for any of this. -/
namespace Cadsa.Frontend.Api
open Runs Slots
set_option autoImplicit false

/-- Signed in with an access and a refresh token, and with the access tokens that refreshing the
latter has brought so far. -/
inductive Session
  | out
  | signedIn (access : Option String) (refresh : String) (obtained : List (Option String))
  deriving DecidableEq, Repr

/-- A login and a logout each begin an epoch; `started` holds the epoch each refresh was sent in. -/
structure History where
  world : World
  session : Session
  epoch : ℕ
  started : List ℕ
  deriving DecidableEq

def begin (stored : Option String) : History :=
  { world := load stored
    session := if stored.getD "" = "" then .out else .signedIn (some "") (stored.getD "") []
    epoch := 0
    started := [] }

/-- Refresh `p` was sent in the present session. -/
def current (t : History) (p : ℕ) : Prop := t.started[p]? = some t.epoch

instance (t : History) (p : ℕ) : Decidable (current t p) := inferInstanceAs (Decidable (_ = _))

/-- The refresh on whose behalf a step erases the tokens. -/
def erases (s : World) : Action → Option ℕ
  | .refreshReply p .failure => some p
  | .refreshReply p (.status code) => if ok code then none else some p
  | .refreshBody p .broken => some p
  | .resume k =>
    match s.calls[k]? with
    | some ⟨.fetch _, _, .awaiting (some p)⟩ => if outcome s (some p) = some false ∧ s.onUnauthorized then some p else none
    | _ => none
  | _ => none

/-- The refresh on whose behalf a step writes an access token, and the token. -/
def obtains : Action → Option (ℕ × Option String)
  | .refreshBody p (.data access) => some (p, access)
  | _ => none

def Session.obtain (access : Option String) (token : Option String) : Session → Session
  | .out => .out
  | .signedIn a r obtained => if token = some r then .signedIn a r (access :: obtained) else .signedIn a r obtained

/-- What a step means for the session; only what is done for a refresh of its own can end it or
add to it. -/
def nextSession (t : History) (a : Action) : Session :=
  match a with
  | .setTokens access refresh => .signedIn (some access) refresh []
  | .clearTokens => .out
  | a =>
    match erases t.world a, obtains a with
    | some p, _ => if current t p then .out else t.session
    | none, some (p, access) =>
      if current t p then t.session.obtain access ((t.world.refreshes[p]?).map (·.token)) else t.session
    | none, none => t.session

def nextEpoch (t : History) : Action → ℕ
  | .setTokens _ _ | .clearTokens => t.epoch + 1
  | _ => t.epoch

def track (t : History) (a : Action) (s' : World) : History :=
  { world := s'
    session := nextSession t a
    epoch := nextEpoch t a
    started := t.started ++ List.replicate (s'.refreshes.length - t.world.refreshes.length) t.epoch }

def trackedStep (t : History) (a : Action) : Option History := (step t.world a).map (track t a)

/-- The tokens held are those of the session, and none are held without one. -/
def Held (t : History) : Prop :=
  match t.session with
  | .out => t.world.accessToken = some "" ∧ t.world.refreshToken = ""
  | .signedIn access refresh obtained =>
    t.world.refreshToken = refresh ∧ (t.world.accessToken = access ∨ t.world.accessToken ∈ obtained)

/-- Tokens are written or erased for a refresh in the session that sent it only. -/
def OwnRefresh (t : History) (a : Action) : Prop :=
  (∀ p ∈ erases t.world a, current t p) ∧ ∀ w ∈ obtains a, current t w.1

instance (t : History) (a : Action) : Decidable (OwnRefresh t a) := inferInstanceAs (Decidable (_ ∧ _))

/-! ## The invariant -/

structure SessionInv (t : History) : Prop where
  inv : Inv t.world
  held : Held t
  length : t.started.length = t.world.refreshes.length
  bound : ∀ e ∈ t.started, e ≤ t.epoch
  sent : ∀ p access refresh obtained, current t p → t.session = .signedIn access refresh obtained →
    (t.world.refreshes[p]?).map (·.token) = some refresh
  quiet : t.session = .out → ∀ p, current t p → inFlight t.world p = false
  failed : ∀ p, current t p → outcome t.world (some p) = some false → t.session = .out

theorem outcome_congr {s s' : World} {p : ℕ} (h : s'.refreshes[p]? = s.refreshes[p]?) :
    outcome s' (some p) = outcome s (some p) := by simp only [outcome, h]

theorem SessionInv.current_lt {t : History} (h : SessionInv t) {p : ℕ} (hp : current t p) :
    p < t.world.refreshes.length := by
  rw [← h.length]
  exact (List.getElem?_eq_some_iff.mp hp).1

theorem SessionInv.signed {t : History} (h : SessionInv t) (ht : t.world.refreshToken ≠ "") :
    ∃ access obtained, t.session = .signedIn access t.world.refreshToken obtained := by
  have hheld := h.held
  unfold Held at hheld
  cases hs : t.session with
  | out => exact absurd (by rw [hs] at hheld; exact hheld.2) ht
  | signedIn access refresh obtained =>
    rw [hs] at hheld
    exact ⟨access, obtained, by rw [hheld.1]⟩

section SameRefreshes

variable {t : History} {a : Action} {s' : World}

theorem started_same (hl : s'.refreshes.length = t.world.refreshes.length) : (track t a s').started = t.started := by
  simp [track, hl]

theorem current_same (hl : s'.refreshes.length = t.world.refreshes.length) (he : nextEpoch t a = t.epoch) (p : ℕ) :
    current (track t a s') p ↔ current t p := by
  change (track t a s').started[p]? = some (nextEpoch t a) ↔ _
  rw [started_same hl, he]
  exact Iff.rfl

theorem bound_same (hl : s'.refreshes.length = t.world.refreshes.length) (h : SessionInv t) : ∀ e ∈ (track t a s').started, e ≤ (track t a s').epoch := by
  rw [started_same hl]
  intro e hm
  have hle : t.epoch ≤ nextEpoch t a := by
    unfold nextEpoch
    split <;> omega
  exact Nat.le_trans (h.bound e hm) hle

end SameRefreshes

/-- A step that changes neither the tokens nor any refresh. -/
theorem SessionInv.still {t : History} (h : SessionInv t) {a : Action} {s' : World} (hi : Inv s')
    (ha : s'.accessToken = t.world.accessToken) (hr : s'.refreshToken = t.world.refreshToken)
    (hf : s'.refreshes = t.world.refreshes) (hs : nextSession t a = t.session) (he : nextEpoch t a = t.epoch) :
    SessionInv (track t a s') := by
  have hl := congrArg List.length hf
  have hc := current_same (a := a) hl he
  refine ⟨hi, ?_, ?_, bound_same hl h, fun p access refresh obtained hp ht => ?_, fun ht p hp => ?_, fun p hp ho => ?_⟩
  · simpa only [Held, track, hs, ha, hr] using h.held
  · rw [started_same hl, h.length]
    exact hl.symm
  · have := h.sent p access refresh obtained ((hc p).mp hp) (hs.symm.trans ht)
    simpa only [track, hf] using this
  · have := h.quiet (hs.symm.trans ht) p ((hc p).mp hp)
    simpa only [inFlight, track, hf] using this
  · have hw : outcome t.world (some p) = some false := (outcome_congr (congrArg (·[p]?) hf)).symm.trans ho
    exact hs.trans (h.failed p ((hc p).mp hp) hw)

/-- A step that sends a refresh. -/
theorem SessionInv.sends {t : History} (h : SessionInv t) {a : Action} {s' : World} (hi : Inv s')
    (ha : s'.accessToken = t.world.accessToken) (hr : s'.refreshToken = t.world.refreshToken)
    (ht : t.world.refreshToken ≠ "") (hf : s'.refreshes = t.world.refreshes ++ [⟨t.world.refreshToken, .requested⟩])
    (hs : nextSession t a = t.session) (he : nextEpoch t a = t.epoch) : SessionInv (track t a s') := by
  have hst : (track t a s').started = t.started ++ [t.epoch] := by simp [track, hf]
  have hc : ∀ p, current (track t a s') p → p = t.world.refreshes.length ∨ current t p ∧ p < t.world.refreshes.length := by
    intro p hp
    change (track t a s').started[p]? = some (nextEpoch t a) at hp
    rw [hst, he] at hp
    by_cases hl : p < t.started.length
    · exact .inr ⟨(List.getElem?_append_left hl).symm.trans hp, h.length ▸ hl⟩
    · have hlt : p < (t.started ++ [t.epoch]).length := (List.getElem?_eq_some_iff.mp hp).1
      simp only [List.length_append, List.length_singleton] at hlt
      exact .inl (by rw [← h.length]; omega)
  obtain ⟨access₀, obtained₀, hsess⟩ := h.signed ht
  refine ⟨hi, ?_, ?_, ?_, fun p access refresh obtained hp hq => ?_, fun hq => ?_, fun p hp ho => ?_⟩
  · simpa only [Held, track, hs, ha, hr] using h.held
  · rw [hst]
    simp [track, hf, h.length]
  · rw [hst]
    intro e hm
    refine Nat.le_trans ?_ (Nat.le_of_eq he.symm)
    rcases List.mem_append.mp hm with hm | hm
    · exact h.bound e hm
    · exact Nat.le_of_eq (List.mem_singleton.mp hm)
  · have hq' := hs.symm.trans hq
    rcases hc p hp with rfl | ⟨hp, hl⟩
    · obtain rfl : t.world.refreshToken = refresh := by
        rw [hsess] at hq'
        cases hq'
        rfl
      simp [track, hf]
    · have := h.sent p access refresh obtained hp hq'
      simpa only [track, hf, List.getElem?_append_left hl] using this
  · cases hsess.symm.trans (hs.symm.trans hq)
  · rcases hc p hp with rfl | ⟨hp, hl⟩
    · simp [outcome, track, hf] at ho
    · have hw : outcome t.world (some p) = some false :=
        (outcome_congr ((congrArg (·[p]?) hf).trans (List.getElem?_append_left hl))).symm.trans ho
      exact hs.trans (h.failed p hp hw)

theorem outcome_modify_ne {s s' : World} {p q : ℕ} {f : Refresh → Refresh} (hf : s'.refreshes = s.refreshes.modify p f)
    (h : p ≠ q) : outcome s' (some q) = outcome s (some q) :=
  outcome_congr (by simp [hf, h])

theorem token_modify {l : List Refresh} {p q : ℕ} (phase : Phase) :
    ((l.modify p fun r => { r with phase := phase })[q]?).map (·.token) = (l[q]?).map (·.token) := by
  by_cases h : p = q
  · subst h
    simp [Function.comp_def]
  · simp [h]

theorem outcome_settle (s : World) {p : ℕ} (hp : p < s.refreshes.length) (b : Bool) :
    outcome (settle p b s) (some p) = some b := by
  simp [outcome, settle, setPhase, List.getElem?_eq_getElem hp]

theorem only_in_flight {s : World} (h : Inv s) {p q : ℕ} (hp : inFlight s p = true) (hq : p ≠ q) :
    inFlight s q = false := by
  by_contra hn
  have hs := (h.flight p).mpr hp
  exact hq (Option.some.inj (hs.symm.trans ((h.flight q).mpr (by simpa using hn))))

/-- A refresh of the session fails, and the session ends. -/
theorem SessionInv.ends {t : History} (h : SessionInv t) {a : Action} {p : ℕ} (hp : inFlight t.world p = true)
    (hs : nextSession t a = .out) (he : nextEpoch t a = t.epoch) :
    SessionInv (track t a (settle p false (clearTokens t.world))) := by
  have hl : (settle p false (clearTokens t.world)).refreshes.length = t.world.refreshes.length := by
    simp [settle, setPhase, clearTokens]
  have hc := current_same (a := a) hl he
  have hclear : Inv (clearTokens t.world) := h.inv.frame _ _ _ _ _
  refine ⟨hclear.settled hp false, ?_, ?_, bound_same hl h, fun q access refresh obtained _ hq => ?_,
    fun _ q _ => ?_, fun _ _ _ => hs⟩
  · simp only [Held, track, hs]
    exact ⟨rfl, rfl⟩
  · rw [started_same hl, h.length]
    exact hl.symm
  · cases hs.symm.trans hq
  · change inFlight (settle p false (clearTokens t.world)) q = false
    rw [inFlight_settle]
    split
    · rfl
    · next hq => exact only_in_flight hclear hp hq

/-- A refresh of the session succeeds. -/
theorem SessionInv.succeeds {t : History} (h : SessionInv t) {p : ℕ} (hp : inFlight t.world p = true)
    (hcur : current t p) (access : Option String) :
    SessionInv (track t (.refreshBody p (.data access)) (settle p true { t.world with accessToken := access })) := by
  have hl : (settle p true { t.world with accessToken := access }).refreshes.length = t.world.refreshes.length := by
    simp [settle, setPhase]
  have hc := current_same (a := .refreshBody p (.data access)) hl rfl
  obtain ⟨a, r, obtained, hsess⟩ : ∃ a r obtained, t.session = .signedIn a r obtained := by
    cases hs : t.session with
    | out => exact absurd ((h.quiet hs p hcur).symm.trans hp) Bool.false_ne_true
    | signedIn a r obtained => exact ⟨a, r, obtained, rfl⟩
  have hnext : nextSession t (.refreshBody p (.data access)) = .signedIn a r (access :: obtained) := by
    simp [nextSession, erases, obtains, hcur, hsess, Session.obtain, h.sent p a r obtained hcur hsess]
  have hheld := h.held
  simp only [Held, hsess] at hheld
  have hi : Inv { t.world with accessToken := access } := h.inv.frame _ _ _ _ _
  refine ⟨hi.settled hp true, ?_, ?_, bound_same hl h, fun q a' r' obtained' hq hq' => ?_, fun hq => ?_, fun q hq ho => ?_⟩
  · simp only [Held, track, hnext]
    exact ⟨hheld.1, .inr (List.mem_cons_self ..)⟩
  · rw [started_same hl, h.length]
    exact hl.symm
  · cases hnext.symm.trans hq'
    exact (token_modify _).trans (h.sent q a r obtained ((hc q).mp hq) hsess)
  · cases hnext.symm.trans hq
  · by_cases hpq : p = q
    · subst hpq
      cases (outcome_settle { t.world with accessToken := access } (h.current_lt hcur) true).symm.trans ho
    · have hw : outcome t.world (some q) = some false :=
        (outcome_modify_ne (f := fun r => { r with phase := .settled true }) rfl hpq).symm.trans ho
      cases hsess.symm.trans (h.failed q ((hc q).mp hq) hw)

/-- A refresh is answered and its body is awaited. -/
theorem SessionInv.reads {t : History} (h : SessionInv t) {a : Action} {p : ℕ} (hp : inFlight t.world p = true)
    (hs : nextSession t a = t.session) (he : nextEpoch t a = t.epoch) :
    SessionInv (track t a (setPhase p .reading t.world)) := by
  have hl : (setPhase p .reading t.world).refreshes.length = t.world.refreshes.length := by simp [setPhase]
  have hc := current_same (a := a) hl he
  refine ⟨h.inv.read hp, ?_, ?_, bound_same hl h, fun q a r obtained hq hq' => ?_, fun hq q hcur => ?_, fun q hq ho => ?_⟩
  · simpa only [Held, track, hs, setPhase] using h.held
  · rw [started_same hl, h.length]
    exact hl.symm
  · exact (token_modify _).trans (h.sent q a r obtained ((hc q).mp hq) (hs.symm.trans hq'))
  · have hquiet := h.quiet (hs.symm.trans hq) q ((hc q).mp hcur)
    have hpq : p ≠ q := fun e => Bool.false_ne_true (hquiet.symm.trans (e ▸ hp))
    exact (holds_modify_ne _ hpq).trans hquiet
  · by_cases hpq : p = q
    · subst hpq
      have hlt := inFlight_lt hp
      simp [outcome, track, setPhase, List.getElem?_eq_getElem hlt] at ho
    · have hw : outcome t.world (some q) = some false :=
        (outcome_modify_ne (f := fun r => { r with phase := .reading }) rfl hpq).symm.trans ho
      exact hs.trans (h.failed q ((hc q).mp hq) hw)

/-- A login or a logout: no refresh sent before belongs to the session after. -/
theorem SessionInv.begins {t : History} (h : SessionInv t) {a : Action} {s' : World} (hi : Inv s')
    (hf : s'.refreshes = t.world.refreshes) (he : nextEpoch t a = t.epoch + 1) (hh : Held (track t a s')) :
    SessionInv (track t a s') := by
  have hl := congrArg List.length hf
  have hnone : ∀ p, ¬ current (track t a s') p := fun p hp => by
    change (track t a s').started[p]? = some (nextEpoch t a) at hp
    rw [started_same hl, he] at hp
    have := h.bound _ (List.mem_of_getElem? hp)
    omega
  refine ⟨hi, hh, ?_, bound_same hl h, fun p _ _ _ hp => absurd hp (hnone p), fun _ p hp => absurd hp (hnone p),
    fun p hp => absurd hp (hnone p)⟩
  rw [started_same hl, h.length]
  exact hl.symm

theorem doRefresh_refreshes {s : World} (ht : s.refreshToken ≠ "") :
    (_doRefresh s).2.accessToken = s.accessToken ∧ (_doRefresh s).2.refreshToken = s.refreshToken ∧
      ((_doRefresh s).2.refreshes = s.refreshes ∨
        (_doRefresh s).2.refreshes = s.refreshes ++ [⟨s.refreshToken, .requested⟩]) := by
  unfold _doRefresh
  rw [if_neg ht]
  cases s.refreshPromise with
  | some p => exact ⟨rfl, rfl, .inl rfl⟩
  | none => exact ⟨rfl, rfl, .inr rfl⟩

/-- A call starts to wait. -/
theorem SessionInv.waits {t : History} (h : SessionInv t) {a : Action} {s s' : World} (hi : Inv s')
    (ht : s.refreshToken ≠ "") (hw : s.accessToken = t.world.accessToken ∧ s.refreshToken = t.world.refreshToken ∧
      s.refreshes = t.world.refreshes) (ha : s'.accessToken = (_doRefresh s).2.accessToken)
    (hr : s'.refreshToken = (_doRefresh s).2.refreshToken) (hf : s'.refreshes = (_doRefresh s).2.refreshes)
    (hs : nextSession t a = t.session) (he : nextEpoch t a = t.epoch) : SessionInv (track t a s') := by
  obtain ⟨haccess, hrefresh, hlist⟩ := doRefresh_refreshes ht
  obtain ⟨hwa, hwr, hwf⟩ := hw
  rcases hlist with hlist | hlist
  · exact h.still hi (ha.trans (haccess.trans hwa)) (hr.trans (hrefresh.trans hwr)) (hf.trans (hlist.trans hwf)) hs he
  · rw [hwf, hwr] at hlist
    exact h.sends hi (ha.trans (haccess.trans hwa)) (hr.trans (hrefresh.trans hwr)) (hwr ▸ ht) (hf.trans hlist) hs he

theorem SessionInv.reply {t : History} (h : SessionInv t) {k : ℕ} {c : Call} {reply : Reply}
    (hi : Inv (firstReply k c reply t.world)) : SessionInv (track t (.reply k reply) (firstReply k c reply t.world)) := by
  unfold firstReply at hi ⊢
  split at hi
  · next hr =>
    rw [if_pos hr]
    exact h.waits hi hr.2 ⟨rfl, rfl, rfl⟩ rfl rfl rfl rfl rfl
  · next hr =>
    rw [if_neg hr]
    cases reply <;> exact h.still hi rfl rfl rfl rfl rfl

theorem SessionInv.resume {t : History} (h : SessionInv t) {k : ℕ} {c : Call} {o : Option ℕ} {b : Bool}
    (hk : t.world.calls[k]? = some c) (hc : c.pc = .awaiting o) (hb : outcome t.world o = some b)
    (hg : OwnRefresh t (.resume k)) (hi : Inv (resume k c b t.world)) :
    SessionInv (track t (.resume k) (resume k c b t.world)) := by
  obtain ⟨p, rfl, -⟩ := h.inv.waits k c o hk hc
  obtain ⟨kind, authorization, pc⟩ := c
  cases hc
  cases kind with
  | initSession saved =>
    refine h.still hi rfl rfl rfl ?_ rfl
    simp [nextSession, erases, obtains, hk]
  | fetch request =>
    cases b with
    | true =>
      refine h.still hi rfl rfl rfl ?_ rfl
      simp [nextSession, erases, obtains, hk, hb]
    | false =>
      cases hu : t.world.onUnauthorized with
      | false =>
        have hr : Api.resume k ⟨.fetch request, authorization, .awaiting (some p)⟩ false t.world =
            setCall k ⟨.fetch request, authorization, .rejected sessionExpired⟩ t.world := by
          simp [Api.resume, hu, sessionExpired]
        rw [hr] at hi ⊢
        refine h.still hi rfl rfl rfl ?_ rfl
        simp [nextSession, erases, obtains, hk, hu]
      | true =>
        have hr : Api.resume k ⟨.fetch request, authorization, .awaiting (some p)⟩ false t.world =
            setCall k ⟨.fetch request, authorization, .rejected sessionExpired⟩ (unauthorized t.world) := by
          simp [Api.resume, hu, sessionExpired]
        have he : erases t.world (.resume k) = some p := by simp [erases, hk, hb, hu]
        have hout := h.failed p (hg.1 p he) hb
        have hheld := h.held
        simp only [Held, hout] at hheld
        rw [hr] at hi ⊢
        refine h.still hi hheld.1.symm hheld.2.symm rfl ?_ rfl
        simp [nextSession, he, hout]

theorem track_inv {t : History} {a : Action} {s' : World} (h : SessionInv t) (hg : OwnRefresh t a)
    (hs : step t.world a = some s') : SessionInv (track t a s') := by
  have hi := h.inv.step hs
  cases a with
  | fetch request =>
    obtain rfl := Option.some.inj hs
    exact h.still hi rfl rfl rfl rfl rfl
  | initSession =>
    obtain rfl := Option.some.inj hs
    unfold Api.initSession at hi ⊢
    split at hi
    · next ht =>
      rw [if_pos ht]
      exact h.still hi rfl rfl rfl rfl rfl
    · next ht =>
      rw [if_neg ht]
      exact h.waits (s := { t.world with onUnauthorized := false }) hi ht ⟨rfl, rfl, rfl⟩ rfl rfl rfl rfl rfl
  | setTokens access refresh =>
    obtain rfl := Option.some.inj hs
    exact h.begins hi rfl rfl ⟨rfl, .inl rfl⟩
  | clearTokens =>
    obtain rfl := Option.some.inj hs
    exact h.begins hi rfl rfl ⟨rfl, rfl⟩
  | registerUnauthorizedHandler =>
    obtain rfl := Option.some.inj hs
    exact h.still hi rfl rfl rfl rfl rfl
  | reply k reply =>
    obtain ⟨c, hk, ⟨-, rfl⟩ | ⟨-, rfl⟩⟩ := step_reply hs
    · exact h.reply hi
    · cases reply <;> exact h.still hi rfl rfl rfl rfl rfl
  | resume k =>
    obtain ⟨c, o, b, hk, hc, hb, rfl⟩ := step_resume hs
    exact h.resume hk hc hb hg hi
  | body k body =>
    obtain ⟨c, code, hk, -, rfl⟩ := step_body hs
    exact h.still hi rfl rfl rfl rfl rfl
  | refreshReply p reply =>
    obtain ⟨hp, hs⟩ := Option.ite_none_right_eq_some.mp hs
    obtain rfl := Option.some.inj hs
    have hfl : inFlight t.world p = true := inFlight_of_phase hp (by simp)
    rcases refreshReply_cases p reply t.world with ⟨code, rfl, hok, hr⟩ | ⟨hno, hr⟩
    · rw [hr]
      exact h.reads hfl (by simp [nextSession, erases, obtains, hok]) rfl
    · have he : erases t.world (.refreshReply p reply) = some p := by
        cases reply with
        | failure => rfl
        | status code => simp [erases, hno code rfl]
      rw [hr]
      exact h.ends hfl (by simp [nextSession, he, hg.1 p he]) rfl
  | refreshBody p body =>
    obtain ⟨hp, hs⟩ := Option.ite_none_right_eq_some.mp hs
    obtain rfl := Option.some.inj hs
    have hfl : inFlight t.world p = true := inFlight_of_phase hp (by simp)
    cases body with
    | broken =>
      have hcur := hg.1 p rfl
      exact h.ends hfl (by simp [nextSession, erases, hcur]) rfl
    | data access => exact h.succeeds hfl (hg.2 (p, access) rfl) access

theorem begin_inv (stored : Option String) : SessionInv (begin stored) := by
  have hnone : ∀ p, ¬ current (begin stored) p := fun p hp => nomatch hp
  refine ⟨load_inv stored, ?_, rfl, fun e he => (nomatch he), fun p _ _ _ hp => absurd hp (hnone p),
    fun _ p hp => absurd hp (hnone p), fun p hp => absurd hp (hnone p)⟩
  by_cases ht : stored.getD "" = ""
  · simp [Held, begin, load, ht]
  · simp [Held, begin, load, ht]

/-- **Tokens and sessions.** As long as every refresh is written in the session that sent it, the
tokens held are those of the session. -/
theorem tokens_of_one_session (stored : Option String) (as : List Action)
    (hg : Along trackedStep (fun t a _ => OwnRefresh t a) (begin stored) as) :
    Visited trackedStep Held (begin stored) as := by
  refine visited_of_invariant (fun t h => SessionInv.held h) (fun t a t' h hown hs => ?_) (begin_inv stored) hg
  obtain ⟨s', hw, rfl⟩ := Option.map_eq_some_iff.mp hs
  exact track_inv h hown hw

/-- A refresh is answered before the logout, and the login after it opens a new session. -/
theorem tokens_of_one_session_in_turn :
    Visited trackedStep Held (begin (some "r1"))
      [.fetch ⟨"/sites", "GET", []⟩, .reply 0 (.status 401), .refreshReply 0 (.status 200),
        .refreshBody 0 (.data (some "a1")), .clearTokens, .setTokens "a2" "r2"] :=
  tokens_of_one_session (some "r1") _ (by decide +kernel)

/-- The response of a refresh that a logout overtook brings the session back. -/
theorem logout_undone :
    ¬ ∀ (as : List Action) (t : History), exec trackedStep (begin (some "r1")) as = some t → Held t := by
  intro h
  have := h [.fetch ⟨"/sites", "GET", []⟩, .reply 0 (.status 401), .clearTokens, .refreshReply 0 (.status 200),
    .refreshBody 0 (.data (some "a1"))] _ rfl
  exact absurd this.1 (by decide)

end Cadsa.Frontend.Api
