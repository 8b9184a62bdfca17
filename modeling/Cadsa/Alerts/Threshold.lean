import Mathlib.Tactic.Common
import Cadsa.Alerts.Engine

/-! When a threshold rule fires. The loop fires exactly the enabled rules whose check says so, but
the check calls `query_overview` with the host in front of the two times, and raises. -/
namespace Cadsa.Alerts
open Db Analytics
set_option autoImplicit false

variable {κ ε : Type}

/-- The evaluation recorded the rule and called `_fire_notifications` for it. -/
def Fires (before after : Effects κ) (r : Rule κ) : Prop :=
  (∃ e ∈ after.db.history.drop before.db.history.length, e.ruleId = r.id) ∧
    ∃ f ∈ after.fired.drop before.fired.length, f.ruleId = r.id

/-! ## The loop -/

section
variable (cfg : AlertsConfig) (check : Rule κ → Except ε (Option Details)) (now : Time) (recordedAt : ℕ → Time)

def triggered (r : Rule κ) : Option Details :=
  match checkRule check now r with
  | .ok details => details
  | .error _ => none

def historyOf (r : Rule κ) : Option AlertHistory :=
  (triggered check now r).map fun details => ⟨r.id, recordedAt r.id, details⟩

def firingOf (r : Rule κ) : Option Firing :=
  (triggered check now r).map fun details => ⟨r.id, fireNotifications cfg r details⟩

theorem evaluateRule_log (s : Effects κ) (r : Rule κ) :
    (evaluateRule cfg check now recordedAt s r).db.history =
        s.db.history ++ (historyOf check now recordedAt r).toList ∧
      (evaluateRule cfg check now recordedAt s r).fired = s.fired ++ (firingOf cfg check now r).toList := by
  unfold evaluateRule historyOf firingOf triggered
  cases checkRule check now r with
  | error => simp
  | ok details => cases details <;> simp [recordAlertTriggered]

theorem evaluate_log (rules : List (Rule κ)) (s : Effects κ) :
    (rules.foldl (evaluateRule cfg check now recordedAt) s).db.history =
        s.db.history ++ rules.filterMap (historyOf check now recordedAt) ∧
      (rules.foldl (evaluateRule cfg check now recordedAt) s).fired =
        s.fired ++ rules.filterMap (firingOf cfg check now) := by
  induction rules generalizing s with
  | nil => simp
  | cons r rules ih =>
    obtain ⟨hh, hf⟩ := evaluateRule_log cfg check now recordedAt s r
    obtain ⟨ihh, ihf⟩ := ih (evaluateRule cfg check now recordedAt s r)
    rw [List.foldl_cons, ihh, ihf, hh, hf]
    constructor
    · cases h : historyOf check now recordedAt r <;> simp [h]
    · cases h : firingOf cfg check now r <;> simp [h]

theorem mem_getAlertRules {db : AlertDb κ} {r : Rule κ} : r ∈ getAlertRules db true ↔ r ∈ db.rules.rows ∧ r.enabled = true := by
  simp [getAlertRules, List.mem_insertionSort]

theorem same_rule {db : AlertDb κ} {r q : Rule κ} (hr : r ∈ db.rules.rows) (hq : q ∈ db.rules.rows)
    (h : q.id = r.id) : q = r := List.inj_on_of_nodup_map db.rules.nodup hq hr h

/-- **Only its own check decides about a rule**, whatever the other rules' checks do. -/
theorem fires_iff_triggered {s : Effects κ} {r : Rule κ} (hr : r ∈ s.db.rules.rows) (he : r.enabled = true) :
    Fires s (evaluateWith cfg check now recordedAt s) r ↔ ∃ details, checkRule check now r = .ok (some details) := by
  obtain ⟨hh, hf⟩ := evaluate_log cfg check now recordedAt (getAlertRules s.db true) s
  have hmem : r ∈ getAlertRules s.db true := mem_getAlertRules.mpr ⟨hr, he⟩
  have htrig {details : Details} : triggered check now r = some details ↔ checkRule check now r = .ok (some details) := by
    unfold triggered
    cases checkRule check now r <;> simp
  rw [Fires, evaluateWith, hh, hf, List.drop_left, List.drop_left]
  constructor
  · rintro ⟨⟨e, he, hid⟩, -⟩
    obtain ⟨q, hq, hqe⟩ := List.mem_filterMap.mp he
    obtain ⟨details, hd, rfl⟩ := Option.map_eq_some_iff.mp hqe
    obtain rfl := same_rule hr (mem_getAlertRules.mp hq).1 hid
    exact ⟨details, htrig.mp hd⟩
  · rintro ⟨details, hd⟩
    have hd := htrig.mpr hd
    have hhist : historyOf check now recordedAt r = some ⟨r.id, recordedAt r.id, details⟩ := by
      rw [historyOf, hd, Option.map_some]
    have hfire : firingOf cfg check now r = some ⟨r.id, fireNotifications cfg r details⟩ := by
      rw [firingOf, hd, Option.map_some]
    exact ⟨⟨_, List.mem_filterMap.mpr ⟨r, hmem, hhist⟩, rfl⟩, _, List.mem_filterMap.mpr ⟨r, hmem, hfire⟩, rfl⟩

end

/-! ## The metrics -/

/-- The metrics that the product offers, over the requests of five minutes. -/
inductive Metric
  | requestRate
  | errorRate
  | latencyP95
  | bandwidth
  deriving DecidableEq

def Metric.name : Metric → String
  | .requestRate => "request_rate"
  | .errorRate => "error_rate"
  | .latencyP95 => "latency_p95"
  | .bandwidth => "bandwidth"

theorem Metric.name_injective : Function.Injective Metric.name := by
  intro a b
  cases a <;> cases b <;> decide

def Metric.value (rows : List Request) : Metric → ℚ
  | .requestRate => rows.length / 5
  | .errorRate => errorShare rows
  | .latencyP95 => (percentileCont (19 / 20) (rows.filterMap (·.durationMs))).getD 0
  | .bandwidth => ((rows.map (·.responseBytes.getD 0)).sum : ℤ)

/-- The requests of the last five minutes, of the host or of all. -/
def recent (requests : List Request) (host : Option String) (now : Time) : List Request :=
  requests.filter fun r => now - minutes 5 ≤ r.ts && r.ts ≤ now && (host.isNone || host = some r.host)

theorem select_between (rows : List Request) (a b : Time) : Condition.select rows (.between (.datetime a) (.datetime b)) =
    .ok (rows.filter fun r => a ≤ r.ts && r.ts ≤ b) := rfl

/-- With the times in front and the host in a filter the helpers select these requests. -/
theorem queries_select_recent (requests : List Request) (host : Option String) (hh : host ≠ some "") (now : Time) :
    (buildWhere (.datetime (now - minutes 5)) (.datetime now) (.filter ⟨host, none, none, none, none, none⟩)).bind
      (select requests) = .ok (recent requests host now) := by
  generalize hfrom : now - minutes 5 = fromTs
  cases host with
  | none =>
    have hwhere : buildWhere (.datetime fromTs) (.datetime now) (.filter ⟨none, none, none, none, none, none⟩) =
        .ok [.between (.datetime fromTs) (.datetime now)] := rfl
    rw [hwhere, Except.bind, select, List.foldlM_cons, select_between, recent, hfrom]
    simp
  | some host =>
    have hne : host ≠ "" := fun h => hh (congrArg some h)
    have hwhere : buildWhere (.datetime fromTs) (.datetime now) (.filter ⟨some host, none, none, none, none, none⟩) =
        .ok [.between (.datetime fromTs) (.datetime now), .host host] := by
      simp [buildWhere, whenSet, hne]
    have hboth : ((requests.filter fun r => fromTs ≤ r.ts && r.ts ≤ now).filter (·.host = host)) =
        requests.filter fun r => fromTs ≤ r.ts && r.ts ≤ now && ((some host).isNone || some host = some r.host) := by
      rw [List.filter_filter]
      refine List.filter_congr fun r _ => ?_
      simp [Bool.and_comm, eq_comm]
    rw [hwhere, Except.bind, select, List.foldlM_cons, select_between, recent, hfrom, ← hboth]
    rfl

/-- The rule's metric is one of these, and over its host's recent requests it exceeds the threshold. -/
def ConditionHolds (requests : List Request) (now : Time) (r : Rule Conditions) : Prop :=
  ∃ m : Metric, r.conditions.metric = some m.name ∧
    r.conditions.threshold.getD 0 < m.value (recent requests r.conditions.host now)

theorem checkThreshold_raises (requests : List Request) (metric : String) (threshold : ℚ) (host : Option String)
    (fromTs toTs : Time) :
    checkThreshold requests metric threshold host fromTs toTs = .error (noHost "datetime.datetime") := rfl

section
variable (cfg : AlertsConfig) (requests : List Request) (now : Time) (recordedAt : ℕ → Time) (s : Effects Conditions)
  (r : Rule Conditions)

theorem threshold_rule_silent (hr : r ∈ s.db.rules.rows) (he : r.enabled = true) (ht : r.ruleType = "threshold")
    (hc : inCooldown now r = false) : ¬ Fires s (evaluateAlertRules cfg requests now recordedAt s) r := by
  rw [evaluateAlertRules, fires_iff_triggered _ _ _ _ hr he]
  rintro ⟨details, hd⟩
  rw [checkRule, hc, if_neg Bool.false_ne_true, if_pos ht, checkThreshold_raises] at hd
  cases hd

/-- A threshold rule does what it is for exactly where its condition gives it no reason to fire. -/
theorem threshold_rule_right_iff (hr : r ∈ s.db.rules.rows) (he : r.enabled = true) (ht : r.ruleType = "threshold")
    (hc : inCooldown now r = false) :
    (Fires s (evaluateAlertRules cfg requests now recordedAt s) r ↔ ConditionHolds requests now r) ↔
      ¬ ConditionHolds requests now r := by
  have hno := threshold_rule_silent cfg requests now recordedAt s r hr he ht hc
  rw [iff_false_left hno]

end

/-! ## Two requests in five minutes -/

def rateRule (threshold : ℚ) : RuleData Conditions :=
  ⟨"busy", true, "threshold", ⟨some "request_rate", some threshold, none⟩, 30, ["email"]⟩

def noRules : AlertDb Conditions := ⟨⟨[], List.nodup_nil⟩, 0, []⟩

def withRule (threshold : ℚ) : Effects Conditions := ⟨createAlertRule noRules (rateRule threshold), []⟩

def rule (threshold : ℚ) : Rule Conditions :=
  ⟨1, 0, "busy", true, "threshold", ⟨some "request_rate", some threshold, none⟩, 30, none, ["email"]⟩

def requestAt (ts : Time) : Request :=
  ⟨ts, "a", "10.0.0.1", some "GET", some 200, some "2xx", some "/", none, some 512, some 0, some 12⟩

def twoRequests : List Request := [requestAt (minutes 7), requestAt (minutes 8)]

theorem rate_of_two (threshold : ℚ) :
    ConditionHolds twoRequests (minutes 10) (rule threshold) ↔ threshold < 2 / 5 := by
  have hlen : (recent twoRequests none (minutes 10)).length = 2 := by decide
  have hvalue : Metric.requestRate.value (recent twoRequests none (minutes 10)) = 2 / 5 := by
    rw [Metric.value, hlen, Nat.cast_ofNat]
  constructor
  · rintro ⟨m, hm, hv⟩
    obtain rfl : .requestRate = m := Metric.name_injective (Option.some.inj hm)
    exact hvalue ▸ hv
  · intro h
    exact ⟨.requestRate, rfl, hvalue.symm ▸ h⟩

theorem threshold_rule_right_quiet :
    Fires (withRule 1) (evaluateAlertRules ⟨true, true⟩ twoRequests (minutes 10) (fun _ => minutes 10) (withRule 1)) (rule 1) ↔
      ConditionHolds twoRequests (minutes 10) (rule 1) :=
  (threshold_rule_right_iff ⟨true, true⟩ twoRequests (minutes 10) (fun _ => minutes 10) (withRule 1) (rule 1)
    (List.mem_singleton.mpr rfl) rfl rfl rfl).mpr (by rw [rate_of_two]; norm_num)

/-- The rate is above the threshold and nothing is recorded. -/
theorem busy_rule_silent : ConditionHolds twoRequests (minutes 10) (rule 0) ∧
    ¬ Fires (withRule 0) (evaluateAlertRules ⟨true, true⟩ twoRequests (minutes 10) (fun _ => minutes 10) (withRule 0))
      (rule 0) := by
  refine ⟨(rate_of_two 0).mpr (by norm_num), ?_⟩
  exact threshold_rule_silent _ _ _ _ _ _ (List.mem_singleton.mpr rfl) rfl rfl rfl

end Cadsa.Alerts
