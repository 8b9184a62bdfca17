import Cadsa.Db.AlertRules
import Cadsa.Db.Analytics

/-! `alerts/engine.py`: one evaluation of the alert rules. An exception that a rule raises is caught
and logged by the loop, so it leaves no trace here. -/
namespace Cadsa.Alerts
open Db Analytics
set_option autoImplicit false

/-- The members of the conditions that the engine reads. -/
structure Conditions where
  metric : Option String
  threshold : Option ℚ
  host : Option String
  deriving DecidableEq

/-- Which channels the configuration enables. -/
structure AlertsConfig where
  email : Bool
  webhook : Bool

inductive Channel
  | email
  | webhook
  deriving DecidableEq

structure Notification where
  channel : Channel
  ruleName : String
  details : Details
  deriving DecidableEq

/-- A call of `_fire_notifications`. -/
structure Firing where
  ruleId : ℕ
  notifications : List Notification
  deriving DecidableEq

structure Effects (κ : Type) where
  db : AlertDb κ
  fired : List Firing

variable {κ ε : Type}

/-- Within the cooldown of the last time it triggered. -/
def inCooldown (now : Time) (r : Rule κ) : Bool :=
  match r.lastTriggered with
  | some last => (now : ℤ) - last < r.cooldownMinutes * 60 * 1000000
  | none => false

/-- `_check_rule` up to what it does when the rule has triggered. -/
def checkRule (check : Rule κ → Except ε (Option Details)) (now : Time) (r : Rule κ) : Except ε (Option Details) :=
  if inCooldown now r then .ok none
  else if r.ruleType = "threshold" then check r
  else .ok none

def fireNotifications (cfg : AlertsConfig) (r : Rule κ) (details : Details) : List Notification :=
  (if "email" ∈ r.notifiers ∧ cfg.email then [⟨.email, r.name, details⟩] else []) ++
    if "webhook" ∈ r.notifiers ∧ cfg.webhook then [⟨.webhook, r.name, details⟩] else []

/-- `recordedAt` is when the engine records that a rule has triggered. -/
def evaluateRule (cfg : AlertsConfig) (check : Rule κ → Except ε (Option Details)) (now : Time) (recordedAt : ℕ → Time)
    (s : Effects κ) (r : Rule κ) : Effects κ :=
  match checkRule check now r with
  | .ok (some details) =>
    { db := recordAlertTriggered s.db (recordedAt r.id) r.id details
      fired := s.fired ++ [⟨r.id, fireNotifications cfg r details⟩] }
  | .ok none | .error _ => s

def evaluateWith (cfg : AlertsConfig) (check : Rule κ → Except ε (Option Details)) (now : Time) (recordedAt : ℕ → Time)
    (s : Effects κ) : Effects κ :=
  (getAlertRules s.db true).foldl (evaluateRule cfg check now recordedAt) s

def exceeds (metric : String) (value threshold shown : ℚ) : Option Details :=
  if threshold < value then some ⟨metric, shown, threshold⟩ else none

/-- The arguments stand as the engine passes them. -/
def checkThreshold (requests : List Request) (metric : String) (threshold : ℚ) (host : Option String)
    (fromTs toTs : Time) : Except QueryError (Option Details) := do
  let overview ← queryOverview requests (.ofHost host) (.datetime fromTs) (.datetime toTs)
  if metric = "request_rate" then
    let windowMin : ℚ := max (((toTs : ℚ) - fromTs) / 1000000 / 60) 1
    let rate : ℚ := overview.totalRequests / windowMin
    pure (exceeds metric rate threshold (roundTo 1 rate))
  else if metric = "error_rate" then
    pure (exceeds metric overview.errorRate threshold (roundTo 4 overview.errorRate))
  else if metric = "latency_p95" then
    let rows ← queryPerformance requests (.ofHost host) (.datetime fromTs) (.datetime toTs) (.str "minute")
    pure ((rows.map (·.p95)).max?.bind fun p95 => exceeds metric p95 threshold p95)
  else pure none

def evaluateAlertRules (cfg : AlertsConfig) (requests : List Request) (now : Time) (recordedAt : ℕ → Time)
    (s : Effects Conditions) : Effects Conditions :=
  let check (r : Rule Conditions) := checkThreshold requests (r.conditions.metric.getD "")
    (r.conditions.threshold.getD 0) r.conditions.host (now - minutes 5) now
  evaluateWith cfg check now recordedAt s

end Cadsa.Alerts
