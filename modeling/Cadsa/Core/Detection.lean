import Mathlib.Tactic.Linarith
import Cadsa.Core.SecurityEngine

/-! Runs of the security engine: evaluations and cleanups at times that do not decrease. The windows
hold what the history has in them, and the events of a row follow from counts over the history. -/
namespace Cadsa.SecurityEngine
open Window
set_option autoImplicit false

inductive Call
  | evaluate (cfg : SecurityConfig) (row : Row) (now : ℤ)
  | cleanup (now : ℤ)
  deriving DecidableEq

def Call.now : Call → ℤ
  | .evaluate _ _ now => now
  | .cleanup now => now

def Call.isEvaluate : Call → Bool
  | .evaluate .. => true
  | .cleanup _ => false

/-- When the call was, if it is an evaluation of such a row. -/
def Call.timeOf (p : Row → Bool) : Call → Option ℤ
  | .evaluate _ row now => if p row then some now else none
  | .cleanup _ => none

def InOrder (calls : List Call) : Prop := (calls.map Call.now).Pairwise (· ≤ ·)

instance (calls : List Call) : Decidable (InOrder calls) := inferInstanceAs (Decidable (List.Pairwise ..))

variable (t : Text)

def step (s : State) : Call → State
  | .evaluate cfg row now => (evaluate t cfg now row s).1
  | .cleanup now => cleanupStaleIpData now s

def after (calls : List Call) : State := calls.foldl (step t) initial

/-- The events of every evaluation. -/
def emittedFrom (s : State) : List Call → List (List Event)
  | [] => []
  | .evaluate cfg row now :: calls =>
    (evaluate t cfg now row s).2 :: emittedFrom (evaluate t cfg now row s).1 calls
  | .cleanup now :: calls => emittedFrom (cleanupStaleIpData now s) calls

def emitted (calls : List Call) : List (List Event) := emittedFrom t initial calls

def ofIp (ip : String) (row : Row) : Bool := row.remoteIp = ip

def loginOf (ip : String) (row : Row) : Bool := row.remoteIp = ip && row.isLoginPost t

def timesOf (p : Row → Bool) (calls : List Call) : List ℤ := calls.filterMap (Call.timeOf p)

/-- How many evaluations of such rows there were from `cutoff` on. -/
def countSince (p : Row → Bool) (cutoff : ℤ) (calls : List Call) : ℕ := (timesOf p calls).countP (cutoff ≤ ·)

section
variable {t}

theorem after_concat (calls : List Call) (c : Call) : after t (calls ++ [c]) = step t (after t calls) c :=
  List.foldl_concat ..

theorem emittedFrom_append (s : State) (xs ys : List Call) :
    emittedFrom t s (xs ++ ys) = emittedFrom t s xs ++ emittedFrom t (xs.foldl (step t) s) ys := by
  induction xs generalizing s with
  | nil => rfl
  | cons c xs ih =>
    cases c with
    | evaluate cfg row now => exact congrArg ((evaluate t cfg now row s).2 :: ·) (ih _)
    | cleanup now => exact ih _

theorem emitted_concat (calls : List Call) (cfg : SecurityConfig) (row : Row) (now : ℤ) :
    emitted t (calls ++ [.evaluate cfg row now]) = emitted t calls ++ [(evaluate t cfg now row (after t calls)).2] :=
  emittedFrom_append ..

theorem emitted_concat_cleanup (calls : List Call) (now : ℤ) :
    emitted t (calls ++ [.cleanup now]) = emitted t calls :=
  (emittedFrom_append ..).trans (List.append_nil _)

end

/-! ## Histories -/

section
variable {p q : Row → Bool} {calls : List Call} {cfg : SecurityConfig} {row : Row} {now clock : ℤ}

theorem InOrder.of_concat {c : Call} (h : InOrder (calls ++ [c])) :
    InOrder calls ∧ ∀ d ∈ calls, d.now ≤ c.now := by
  rw [InOrder, List.map_append, List.pairwise_append] at h
  refine ⟨h.1, fun d hd => ?_⟩
  exact h.2.2 d.now (List.mem_map_of_mem hd) c.now (List.mem_singleton_self _)

theorem InOrder.concat {c : Call} (h : InOrder calls) (hlast : ∀ d ∈ calls, d.now ≤ c.now) : InOrder (calls ++ [c]) := by
  rw [InOrder, List.map_append, List.pairwise_append]
  refine ⟨h, List.pairwise_singleton .., fun u hu v hv => ?_⟩
  obtain ⟨d, hd, rfl⟩ := List.mem_map.mp hu
  rw [List.mem_singleton.mp hv]
  exact hlast d hd

theorem inOrder_of_same (h : ∀ c ∈ calls, c.now = now) : InOrder calls := by
  refine List.pairwise_map.mpr (List.pairwise_of_forall_mem_list fun c hc d hd => ?_)
  rw [h c hc, h d hd]

theorem timesOf_concat (c : Call) : timesOf p (calls ++ [c]) = timesOf p calls ++ (c.timeOf p).toList := by
  rw [timesOf, List.filterMap_append]
  rfl

theorem timesOf_evaluate (h : p row = true) :
    timesOf p (calls ++ [.evaluate cfg row now]) = timesOf p calls ++ [now] := by
  rw [timesOf_concat, Call.timeOf, if_pos h]
  rfl

theorem timesOf_of_not (h : p row = false) : timesOf p (calls ++ [.evaluate cfg row now]) = timesOf p calls := by
  rw [timesOf_concat, Call.timeOf, if_neg (by simp [h])]
  exact List.append_nil _

theorem timesOf_cleanup : timesOf p (calls ++ [.cleanup now]) = timesOf p calls := by
  rw [timesOf_concat]
  exact List.append_nil _

theorem mem_timesOf {u : ℤ} (h : u ∈ timesOf p calls) : ∃ c ∈ calls, c.now = u := by
  obtain ⟨c, hc, hu⟩ := List.mem_filterMap.mp h
  refine ⟨c, hc, ?_⟩
  cases c with
  | evaluate cfg row now =>
    rw [Call.timeOf] at hu
    split_ifs at hu
    exact Option.some.inj hu
  | cleanup now => simp [Call.timeOf] at hu

theorem timesOf_subset (hpq : ∀ row, p row = true → q row = true) : timesOf p calls ⊆ timesOf q calls := by
  intro u hu
  obtain ⟨c, hc, hu⟩ := List.mem_filterMap.mp hu
  refine List.mem_filterMap.mpr ⟨c, hc, ?_⟩
  cases c with
  | evaluate cfg row now =>
    rw [Call.timeOf] at hu ⊢
    split_ifs at hu with hp
    rw [if_pos (hpq row hp), hu]
  | cleanup now => simp [Call.timeOf] at hu

theorem timesOf_pairwise (h : InOrder calls) : (timesOf p calls).Pairwise (· ≤ ·) := by
  induction calls using List.reverseRecOn with
  | nil => exact List.Pairwise.nil
  | append_singleton calls c ih =>
    obtain ⟨horder, hlast⟩ := h.of_concat
    rw [timesOf_concat]
    refine List.pairwise_append.mpr ⟨ih horder, ?_, ?_⟩
    · cases c.timeOf p <;> simp
    · intro u hu v hv
      obtain ⟨d, hd, rfl⟩ := mem_timesOf hu
      obtain ⟨e, he, rfl⟩ : ∃ e ∈ [c], e.now = v :=
        mem_timesOf (p := p) (List.mem_filterMap.mpr ⟨c, List.mem_singleton_self c, Option.mem_toList.mp hv⟩)
      rw [List.mem_singleton.mp he]
      exact hlast d hd

/-- Cleanups leave no mark in a history. -/
theorem timesOf_filter : timesOf p (calls.filter Call.isEvaluate) = timesOf p calls := by
  rw [timesOf, List.filterMap_filter]
  refine List.filterMap_congr fun c _ => ?_
  cases c <;> rfl

end

/-! ## The windows -/

/-- What the windows of a state have kept of a history that ends no later than `clock`. -/
structure Reflects (clock : ℤ) (calls : List Call) (s : State) : Prop where
  requests : ∀ ip, ∃ cutoff ≤ clock - seconds 60,
    (s.ipReqWindow ip).getD [] = held 1000 cutoff (timesOf (ofIp ip) calls)
  loginPosts : ∀ ip, ∃ cutoff ≤ clock - seconds 3600,
    (s.ipLoginPosts ip).getD [] = held 100 cutoff (timesOf (loginOf t ip) calls)
  kept : ∀ ip window, s.ipReqWindow ip = some window → window ≠ []

section
variable {t} {cfg : SecurityConfig} {row : Row} {now clock : ℤ} {calls : List Call} {s : State}

theorem record_of_ne {capacity : ℕ} {secs : ℤ} {windows : String → Option (List ℤ)} {key k : String} (h : k ≠ key) :
    record capacity secs windows key now k = windows k := Function.update_of_ne h ..

theorem record_same {capacity : ℕ} {secs cutoff : ℤ} {windows : String → Option (List ℤ)} {key : String}
    {history : List ℤ} (hw : (windows key).getD [] = held capacity cutoff history)
    (hs : (history ++ [now]).Pairwise (· ≤ ·)) (hc : cutoff ≤ now - seconds secs) :
    record capacity secs windows key now key = some (held capacity (now - seconds secs) (history ++ [now])) := by
  rw [record, Function.update_self, hw, expireWindow, expire_push_held hs hc]

theorem held_ne_nil {capacity : ℕ} {cutoff : ℤ} {history : List ℤ} (hcap : 0 < capacity) (hn : cutoff ≤ now) :
    held capacity cutoff (history ++ [now]) ≠ [] := by
  intro hnil
  have hlen : (held capacity cutoff (history ++ [now])).length = min capacity ((history ++ [now]).countP (cutoff ≤ ·)) :=
    length_held
  have hone : 0 < (history ++ [now]).countP (cutoff ≤ ·) :=
    List.countP_pos_iff.mpr ⟨now, by simp, by simpa using hn⟩
  rw [hnil, List.length_nil] at hlen
  omega

theorem Reflects.mono (h : Reflects t clock calls s) (hle : clock ≤ now) : Reflects t now calls s where
  requests ip := by
    obtain ⟨cutoff, hc, hw⟩ := h.requests ip
    exact ⟨cutoff, by omega, hw⟩
  loginPosts ip := by
    obtain ⟨cutoff, hc, hw⟩ := h.loginPosts ip
    exact ⟨cutoff, by omega, hw⟩
  kept := h.kept

theorem track_requests (h : Reflects t now calls s) (hord : InOrder (calls ++ [.evaluate cfg row now])) :
    (track t now row s).ipReqWindow row.remoteIp =
      some (held 1000 (now - seconds 60) (timesOf (ofIp row.remoteIp) (calls ++ [.evaluate cfg row now]))) := by
  obtain ⟨cutoff, hc, hw⟩ := h.requests row.remoteIp
  have hp : ofIp row.remoteIp row = true := decide_eq_true rfl
  rw [timesOf_evaluate hp]
  exact record_same hw (by rw [← timesOf_evaluate hp]; exact timesOf_pairwise hord) hc

theorem track_loginPosts (h : Reflects t now calls s) (hord : InOrder (calls ++ [.evaluate cfg row now]))
    (hl : row.isLoginPost t = true) :
    (track t now row s).ipLoginPosts row.remoteIp =
      some (held 100 (now - seconds 3600) (timesOf (loginOf t row.remoteIp) (calls ++ [.evaluate cfg row now]))) := by
  obtain ⟨cutoff, hc, hw⟩ := h.loginPosts row.remoteIp
  have hp : loginOf t row.remoteIp row = true := by simp [loginOf, hl]
  rw [timesOf_evaluate hp, track, if_pos hl]
  exact record_same hw (by rw [← timesOf_evaluate hp]; exact timesOf_pairwise hord) hc

/-- An evaluation touches the windows of its own address only. -/
theorem track_of_ne {ip : String} (hip : ip ≠ row.remoteIp) :
    (track t now row s).ipReqWindow ip = s.ipReqWindow ip ∧ (track t now row s).ipLoginPosts ip = s.ipLoginPosts ip := by
  refine ⟨record_of_ne hip, ?_⟩
  rw [track_ipLoginPosts]
  split_ifs
  · exact record_of_ne hip
  · rfl

theorem Reflects.evaluate (h : Reflects t now calls s) (hord : InOrder (calls ++ [.evaluate cfg row now])) :
    Reflects t now (calls ++ [.evaluate cfg row now]) (track t now row s) where
  requests ip := by
    by_cases hip : ip = row.remoteIp
    · subst hip
      exact ⟨now - seconds 60, le_refl _, by rw [track_requests h hord, Option.getD_some]⟩
    · rw [(track_of_ne hip).1, timesOf_of_not (decide_eq_false (Ne.symm hip))]
      exact h.requests ip
  loginPosts ip := by
    by_cases hip : ip = row.remoteIp
    · subst hip
      by_cases hl : row.isLoginPost t = true
      · exact ⟨now - seconds 3600, le_refl _, by rw [track_loginPosts h hord hl, Option.getD_some]⟩
      · rw [timesOf_of_not (by simp [loginOf, hl]), track, if_neg hl]
        exact h.loginPosts row.remoteIp
    · rw [(track_of_ne hip).2, timesOf_of_not (by simp [loginOf, Ne.symm hip])]
      exact h.loginPosts ip
  kept ip window hw := by
    by_cases hip : ip = row.remoteIp
    · subst hip
      rw [track_requests h hord, timesOf_evaluate (decide_eq_true rfl)] at hw
      rw [← Option.some.inj hw]
      exact held_ne_nil (by omega) (by rw [seconds]; omega)
    · rw [(track_of_ne hip).1] at hw
      exact h.kept ip window hw

/-- An address that a cleanup drops has made no request in the hour before it. -/
theorem lt_of_stale {ip : String} (h : Reflects t now calls s) (hord : InOrder calls) (hstale : s.stale now ip = true) :
    ∀ u ∈ timesOf (ofIp ip) calls, u < now - seconds 3600 := by
  obtain ⟨cutoff, -, hw⟩ := h.requests ip
  intro u hu
  cases hwin : s.ipReqWindow ip with
  | none => simp [State.stale, hwin] at hstale
  | some window =>
    have hne := h.kept ip window hwin
    rw [hwin, Option.getD_some] at hw
    obtain ⟨last, hlast⟩ := Option.isSome_iff_exists.mp (List.getLast?_isSome.mpr hne)
    have hlt : last < now - seconds 3600 := by simpa [State.stale, hwin, isStale, hlast] using hstale
    have hle := le_of_getLast?_held (timesOf_pairwise hord) (hw ▸ hlast) hu
    omega

theorem Reflects.cleanup (h : Reflects t now calls s) (hord : InOrder calls) :
    Reflects t now (calls ++ [.cleanup now]) (cleanupStaleIpData now s) where
  requests ip := by
    rw [timesOf_cleanup]
    by_cases hstale : s.stale now ip = true
    · refine ⟨now - seconds 3600, by rw [seconds, seconds]; omega, ?_⟩
      rw [held_of_forall_lt (lt_of_stale h hord hstale)]
      simp [cleanupStaleIpData, hstale]
    · simp only [cleanupStaleIpData, hstale]
      exact h.requests ip
  loginPosts ip := by
    rw [timesOf_cleanup]
    by_cases hstale : s.stale now ip = true
    · refine ⟨now - seconds 3600, le_refl _, ?_⟩
      have hsub : timesOf (loginOf t ip) calls ⊆ timesOf (ofIp ip) calls :=
        timesOf_subset fun row hp => (Bool.and_eq_true_iff.mp hp).1
      rw [held_of_forall_lt fun u hu => lt_of_stale h hord hstale u (hsub hu)]
      simp [cleanupStaleIpData, hstale]
    · simp only [cleanupStaleIpData, hstale]
      exact h.loginPosts ip
  kept ip window hw := by
    by_cases hstale : s.stale now ip = true
    · simp [cleanupStaleIpData, hstale] at hw
    · exact h.kept ip window (by simpa [cleanupStaleIpData, hstale] using hw)

theorem reflects_after (hord : InOrder calls) (hclock : ∀ c ∈ calls, c.now ≤ clock) :
    Reflects t clock calls (after t calls) := by
  induction calls using List.reverseRecOn generalizing clock with
  | nil => exact ⟨fun ip => ⟨_, le_refl _, held_nil.symm⟩, fun ip => ⟨_, le_refl _, held_nil.symm⟩, fun ip window hw => by cases hw⟩
  | append_singleton calls c ih =>
    obtain ⟨horder, hlast⟩ := hord.of_concat
    have hnow : c.now ≤ clock := hclock c (by simp)
    have hbefore := ih horder hlast
    rw [after_concat]
    cases c with
    | evaluate cfg row now => exact (hbefore.evaluate hord).mono hnow
    | cleanup now => exact (hbefore.cleanup horder).mono hnow

/-! ## What the rules count -/

theorem reflects_before (hord : InOrder (calls ++ [.evaluate cfg row now])) : Reflects t now calls (after t calls) :=
  reflects_after hord.of_concat.1 hord.of_concat.2

theorem counts_requests (h : Reflects t now calls s) (hord : InOrder (calls ++ [.evaluate cfg row now])) :
    (counts (track t now row s) row.remoteIp).requests =
      min 1000 (countSince (ofIp row.remoteIp) (now - seconds 60) (calls ++ [.evaluate cfg row now])) := by
  rw [counts, track_requests h hord, Option.getD_some, length_held]
  rfl

theorem counts_loginPosts (h : Reflects t now calls s) (hord : InOrder (calls ++ [.evaluate cfg row now]))
    (hl : row.isLoginPost t = true) :
    (counts (track t now row s) row.remoteIp).loginPosts =
      min 100 (countSince (loginOf t row.remoteIp) (now - seconds 3600) (calls ++ [.evaluate cfg row now])) := by
  rw [counts, track_loginPosts h hord hl, Option.getD_some, length_held]
  rfl

theorem mem_evaluate {e : Event} {type : EventType} : e ∈ (evaluate t cfg now row s).2 ∧ e.finding.eventType = type ↔
    ∃ f ∈ findingsOf t cfg row (counts (track t now row s) row.remoteIp) type, makeEvent now row f = e := by
  constructor
  · rintro ⟨he, rfl⟩
    obtain ⟨f, hf, rfl⟩ := List.mem_map.mp he
    exact ⟨f, mem_findings.mp hf, rfl⟩
  · rintro ⟨f, hf, rfl⟩
    have htype := eventType_of_mem hf
    refine ⟨List.mem_map_of_mem (mem_findings.mpr ?_), htype⟩
    rw [htype]
    exact hf

theorem exists_mem_evaluate {type : EventType} : (∃ e ∈ (evaluate t cfg now row s).2, e.finding.eventType = type) ↔
    findingsOf t cfg row (counts (track t now row s) row.remoteIp) type ≠ [] := by
  constructor
  · rintro ⟨e, he⟩
    obtain ⟨f, hf, -⟩ := mem_evaluate.mp he
    exact List.ne_nil_of_mem hf
  · intro hne
    obtain ⟨f, hf⟩ := List.exists_mem_of_ne_nil _ hne
    exact ⟨_, mem_evaluate.mpr ⟨f, hf, rfl⟩⟩

/-- The events say of a number what it is, where it is one that a rule fires at, and there are none where
it is not. -/
structure Reports (type : EventType) (key : String) (Fires : ℕ → Prop) (n : ℕ) (events : List Event) : Prop where
  emitted : (∃ e ∈ events, e.finding.eventType = type) ↔ Fires n
  reported : ∀ e ∈ events, e.finding.eventType = type → e.finding.details.lookup key = some (.int n)

/-- Two numbers are both reported by the same events where neither fires the rule, and where they are one. -/
theorem Reports.iff {type : EventType} {key : String} {Fires : ℕ → Prop} {m n : ℕ} {events : List Event}
    (h : Reports type key Fires m events) :
    Reports type key Fires n events ↔ (Fires m ↔ Fires n) ∧ (Fires m → m = n) := by
  constructor
  · intro hn
    refine ⟨h.emitted.symm.trans hn.emitted, fun hm => ?_⟩
    obtain ⟨e, he, htype⟩ := h.emitted.mpr hm
    have hsame := (h.reported e he htype).symm.trans (hn.reported e he htype)
    simpa using hsame
  · rintro ⟨hfires, heq⟩
    refine ⟨h.emitted.trans hfires, fun e he htype => ?_⟩
    rw [← heq (h.emitted.mp ⟨e, he, htype⟩)]
    exact h.reported e he htype

theorem reports_of_findings {type : EventType} {key : String} {Fires : ℕ → Prop} {n : ℕ} [Decidable (Fires n)]
    {severity : Severity} {details : List (String × Detail)} (hd : details.lookup key = some (.int n))
    (hf : findingsOf t cfg row (counts (track t now row s) row.remoteIp) type =
      if Fires n then [⟨type, severity, details⟩] else []) :
    Reports type key Fires n (evaluate t cfg now row s).2 := by
  constructor
  · rw [exists_mem_evaluate, hf]
    split_ifs with hn <;> simp [hn]
  · intro e he htype
    obtain ⟨f, hmem, rfl⟩ := mem_evaluate.mp ⟨he, htype⟩
    rw [hf] at hmem
    rw [List.mem_singleton.mp (List.mem_ite_nil_right.mp hmem).2]
    exact hd

/-! ## The rate limit -/

/-- How many evaluations there were for an address between two times. -/
def requestsBetween (ip : String) (first last : ℤ) (calls : List Call) : ℕ :=
  (timesOf (ofIp ip) calls).countP fun u => first ≤ u ∧ u ≤ last

/-- `rate_limit_trigger` says that there were `n` requests, where that is as many as the limit. -/
def ReportsRate (limit : ℤ) (n : ℕ) (events : List Event) : Prop :=
  Reports .rateLimitTrigger "req_per_min" (fun k => limit ≤ k) n events

theorem requestsBetween_eq {ip : String} {first : ℤ} (hclock : ∀ c ∈ calls, c.now ≤ now) :
    requestsBetween ip first now calls = countSince (ofIp ip) first calls := by
  refine List.countP_congr fun u hu => ?_
  obtain ⟨c, hc, rfl⟩ := mem_timesOf hu
  simp [hclock c hc]

theorem InOrder.le_last (hord : InOrder (calls ++ [.evaluate cfg row now])) :
    ∀ c ∈ calls ++ [.evaluate cfg row now], c.now ≤ now := by
  intro c hc
  rcases List.mem_append.mp hc with hc | hc
  · exact hord.of_concat.2 c hc
  · rw [List.mem_singleton.mp hc]
    exact le_refl _

/-- What the rule reports is the length of the window, which the capacity bounds. -/
theorem reportsRate_min (hord : InOrder (calls ++ [.evaluate cfg row now])) :
    ReportsRate cfg.rateLimitThreshold
      (min 1000 (requestsBetween row.remoteIp (now - seconds 60) now (calls ++ [.evaluate cfg row now])))
      (evaluate t cfg now row (after t calls)).2 := by
  have hcount := counts_requests (reflects_before (t := t) hord) hord
  rw [← requestsBetween_eq hord.le_last] at hcount
  rw [← hcount]
  exact reports_of_findings rfl rfl

/-- **The rate limit against the whole history.** -/
theorem reportsRate_iff (hord : InOrder (calls ++ [.evaluate cfg row now])) :
    let n := requestsBetween row.remoteIp (now - seconds 60) now (calls ++ [.evaluate cfg row now])
    ReportsRate cfg.rateLimitThreshold n (evaluate t cfg now row (after t calls)).2 ↔
      n ≤ 1000 ∨ n < cfg.rateLimitThreshold := by
  intro n
  rw [ReportsRate, (reportsRate_min hord).iff]
  omega

end

def pageView : Row :=
  ⟨0, "198.51.100.7", "example.com", some "/", some "/", some "Mozilla/5.0", some "GET", some 200, some 12⟩

/-- Two requests within a minute are two for the rule. -/
theorem reportsRate_two :
    ReportsRate 2 2 (evaluate asciiText ⟨2, 2000⟩ (seconds 60) pageView (after asciiText [.evaluate ⟨2, 2000⟩ pageView 0])).2 := by
  have hord : InOrder ([.evaluate ⟨2, 2000⟩ pageView 0] ++ [.evaluate ⟨2, 2000⟩ pageView (seconds 60)]) := by decide
  have h := (reportsRate_iff (t := asciiText) hord).mpr (.inl (by decide))
  have hn : requestsBetween pageView.remoteIp (seconds 60 - seconds 60) (seconds 60)
      ([.evaluate ⟨2, 2000⟩ pageView 0] ++ [.evaluate ⟨2, 2000⟩ pageView (seconds 60)]) = 2 := by decide
  rw [hn] at h
  exact h

section
variable {cfg : SecurityConfig} {row : Row} {now : ℤ}

theorem requestsBetween_replicate (n : ℕ) :
    requestsBetween row.remoteIp (now - seconds 60) now (List.replicate n (.evaluate cfg row now)) = n := by
  have hsome : Call.timeOf (ofIp row.remoteIp) (.evaluate cfg row now) = some now := if_pos (decide_eq_true rfl)
  rw [requestsBetween, timesOf, List.filterMap_replicate_of_some hsome, List.countP_replicate, if_pos]
  simp [seconds]

end

/-- With a limit above what the window can hold, the 1001st request of a burst is not reported. -/
theorem rate_limit_unreported : ¬ ∀ (t : Text) (cfg : SecurityConfig) (calls : List Call) (row : Row) (now : ℤ),
    InOrder (calls ++ [.evaluate cfg row now]) → ReportsRate cfg.rateLimitThreshold
      (requestsBetween row.remoteIp (now - seconds 60) now (calls ++ [.evaluate cfg row now]))
      (evaluate t cfg now row (after t calls)).2 := by
  intro h
  have hburst : List.replicate 1000 (Call.evaluate ⟨1001, 2000⟩ pageView 0) ++ [.evaluate ⟨1001, 2000⟩ pageView 0] =
      List.replicate 1001 (.evaluate ⟨1001, 2000⟩ pageView 0) := List.replicate_succ'.symm
  have hord : InOrder (List.replicate 1000 (Call.evaluate ⟨1001, 2000⟩ pageView 0) ++
      [.evaluate ⟨1001, 2000⟩ pageView 0]) := by
    rw [hburst]
    exact inOrder_of_same fun c hc => congrArg Call.now (List.eq_of_mem_replicate hc)
  have hfull := h asciiText _ _ _ _ hord
  have hmin := reportsRate_min (t := asciiText) hord
  rw [hburst, requestsBetween_replicate] at hfull hmin
  have hemitted := hmin.emitted.mp (hfull.emitted.mpr (by decide))
  exact absurd hemitted (by decide)

/-! ## Cleanups -/

def Event.isScan (e : Event) : Bool := e.finding.eventType = .portScanAttempt

def withoutScans (events : List Event) : List Event := events.filter fun e => !e.isScan

/-- Every address with something in one of the other two maps has a request window. -/
def NoOrphans (s : State) : Prop :=
  ∀ ip, (s.ip404Paths ip).isSome ∨ (s.ipLoginPosts ip).isSome → (s.ipReqWindow ip).isSome

section
variable {t} {cfg : SecurityConfig} {row : Row} {now : ℤ} {calls : List Call} {s : State}

theorem noOrphans_step (h : NoOrphans s) (c : Call) : NoOrphans (step t s c) := by
  intro ip hentry
  cases c with
  | evaluate cfg row now =>
    change ((track t now row s).ipReqWindow ip).isSome
    change ((track t now row s).ip404Paths ip).isSome ∨ ((track t now row s).ipLoginPosts ip).isSome at hentry
    by_cases hip : ip = row.remoteIp
    · subst hip
      simp [track, record]
    · rw [(track_of_ne hip).1]
      rw [(track_of_ne hip).2, track_ip404Paths] at hentry
      refine h ip ?_
      split_ifs at hentry
      · rwa [Function.update_of_ne hip] at hentry
      · exact hentry
  | cleanup now =>
    simp only [step, cleanupStaleIpData] at hentry ⊢
    by_cases hstale : s.stale now ip = true
    · simp [hstale] at hentry
    · rw [if_neg hstale] at hentry ⊢
      rw [if_neg hstale] at hentry
      exact h ip hentry

theorem noOrphans_after (calls : List Call) : NoOrphans (after t calls) := by
  induction calls using List.reverseRecOn with
  | nil => exact fun ip hentry => by simp [after, initial] at hentry
  | append_singleton calls c ih =>
    rw [after_concat]
    exact noOrphans_step ih c

/-- The rules other than the scan rule see the request count, and the login count at a login. -/
theorem findings_congr {m n : Counts} (hr : m.requests = n.requests)
    (hl : row.isLoginPost t = true → m.loginPosts = n.loginPosts) :
    (findings t cfg row m).filter (·.eventType ≠ .portScanAttempt) =
      (findings t cfg row n).filter (·.eventType ≠ .portScanAttempt) := by
  have hrate : rateLimitRule cfg m = rateLimitRule cfg n := by simp only [rateLimitRule, hr]
  have hempty : emptyUaRule t row m = emptyUaRule t row n := by simp only [emptyUaRule, hr]
  have habuse : methodAbuseRule t row m = methodAbuseRule t row n := by simp only [methodAbuseRule, hr]
  have hauth : authFailRule t row m = authFailRule t row n := by
    by_cases hp : row.isLoginPost t = true
    · simp only [authFailRule, hl hp]
    · simp only [authFailRule, hp]
      rfl
  have hscan (k : Counts) : (portScanRule row k).filter (·.eventType ≠ .portScanAttempt) = [] := by
    refine List.filter_eq_nil_iff.mpr fun f hf => ?_
    have htype : f.eventType = .portScanAttempt := eventType_of_mem (show f ∈ findingsOf t cfg row k .portScanAttempt from hf)
    simp [htype]
  simp only [findings, List.filter_append, hrate, hempty, habuse, hauth, hscan]

theorem withoutScans_evaluate : withoutScans (evaluate t cfg now row s).2 =
    ((findings t cfg row (counts (track t now row s) row.remoteIp)).filter (·.eventType ≠ .portScanAttempt)).map
      (makeEvent now row) := by
  rw [withoutScans, evaluate, List.filter_map]
  exact congrArg _ (List.filter_congr fun f _ => (decide_not ..).symm)

/-- Two histories with the same evaluations give a row the same events, scans apart. -/
theorem withoutScans_congr {xs ys : List Call} (hx : InOrder (xs ++ [.evaluate cfg row now]))
    (hy : InOrder (ys ++ [.evaluate cfg row now])) (hsame : ∀ p, timesOf p xs = timesOf p ys) :
    withoutScans (evaluate t cfg now row (after t xs)).2 = withoutScans (evaluate t cfg now row (after t ys)).2 := by
  have hcount : ∀ (p : Row → Bool) (cutoff : ℤ), countSince p cutoff (xs ++ [.evaluate cfg row now]) =
      countSince p cutoff (ys ++ [.evaluate cfg row now]) := fun p cutoff => by
    rw [countSince, countSince, timesOf_concat, timesOf_concat, hsame]
  rw [withoutScans_evaluate, withoutScans_evaluate]
  refine congrArg (List.map (makeEvent now row)) (findings_congr ?_ ?_)
  · rw [counts_requests (reflects_before hx) hx, counts_requests (reflects_before hy) hy, hcount]
  · intro hl
    rw [counts_loginPosts (reflects_before hx) hx hl, counts_loginPosts (reflects_before hy) hy hl, hcount]

theorem InOrder.filter (hord : InOrder calls) : InOrder (calls.filter Call.isEvaluate) :=
  hord.sublist (List.filter_sublist.map Call.now)

/-- **Cleanups go unnoticed.** The events of a run are those of its evaluations alone, scans apart, and
a cleanup leaves nothing behind of an address that it drops. -/
theorem cleanup_unobservable (calls : List Call) :
    (InOrder calls → (emitted t calls).map withoutScans =
      (emitted t (calls.filter Call.isEvaluate)).map withoutScans) ∧ NoOrphans (after t calls) := by
  refine ⟨fun hord => ?_, noOrphans_after calls⟩
  induction calls using List.reverseRecOn with
  | nil => rfl
  | append_singleton calls c ih =>
    have hfilter := hord.filter
    rw [List.filter_append] at hfilter ⊢
    cases c with
    | evaluate cfg row now =>
      change InOrder (calls.filter Call.isEvaluate ++ [.evaluate cfg row now]) at hfilter
      change _ = (emitted t (calls.filter Call.isEvaluate ++ [.evaluate cfg row now])).map withoutScans
      rw [emitted_concat, emitted_concat, List.map_append, List.map_append, ih hord.of_concat.1, List.map_singleton,
        List.map_singleton, withoutScans_congr hord hfilter fun p => timesOf_filter.symm]
    | cleanup now =>
      rw [emitted_concat_cleanup, ih hord.of_concat.1]
      exact congrArg (fun rest => (emitted t rest).map withoutScans) (List.append_nil _).symm

end

/-- A cleanup two hours later drops the address, and the next request is the first again. -/
theorem cleanup_unobservable_late : (emitted asciiText [.evaluate ⟨2, 2000⟩ pageView 0, .cleanup (seconds 7200),
    .evaluate ⟨2, 2000⟩ pageView (seconds 7200)]).map withoutScans =
    (emitted asciiText [.evaluate ⟨2, 2000⟩ pageView 0, .evaluate ⟨2, 2000⟩ pageView (seconds 7200)]).map withoutScans :=
  (cleanup_unobservable [.evaluate ⟨2, 2000⟩ pageView 0, .cleanup (seconds 7200),
    .evaluate ⟨2, 2000⟩ pageView (seconds 7200)]).1 (by decide)

end Cadsa.SecurityEngine
