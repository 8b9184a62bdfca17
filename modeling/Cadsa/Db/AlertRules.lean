import Mathlib.Data.List.Sort
import Mathlib.Data.Rat.Defs
import Cadsa.Db.Users

/-! The alert helpers of `db/sqlite_manager.py`. Each function is one SQL transaction. What the
conditions of a rule are is left open; `json.loads` gives back what `json.dumps` was given. -/
namespace Cadsa.Db
open Tables
set_option autoImplicit false

/-- `created` is no column: it numbers the inserts, which tells two rows apart that had one id in
turn. -/
structure Rule (κ : Type) where
  id : ℕ
  created : ℕ
  name : String
  enabled : Bool
  ruleType : String
  conditions : κ
  cooldownMinutes : ℤ
  lastTriggered : Option Time
  notifiers : List String
  deriving DecidableEq

structure Details where
  metric : String
  value : ℚ
  threshold : ℚ
  deriving DecidableEq

structure AlertHistory where
  ruleId : ℕ
  triggeredAt : Time
  details : Details
  deriving DecidableEq

structure AlertDb (κ : Type) where
  rules : Table ℕ (Rule κ) Rule.id
  inserts : ℕ
  history : List AlertHistory

structure RuleData (κ : Type) where
  name : String
  enabled : Bool
  ruleType : String
  conditions : κ
  cooldownMinutes : ℤ
  notifiers : List String
  deriving DecidableEq

/-- The members that the data of an update has. -/
structure RuleUpdate (κ : Type) where
  name : Option String
  enabled : Option Bool
  ruleType : Option String
  conditions : Option κ
  cooldownMinutes : Option ℤ
  notifiers : Option (List String)
  deriving DecidableEq

variable {κ : Type}

def getAlertRules (db : AlertDb κ) (enabledOnly : Bool) : List (Rule κ) :=
  (db.rules.rows.filter fun r => !enabledOnly || r.enabled).insertionSort fun a b => a.id ≤ b.id

def createAlertRule (db : AlertDb κ) (data : RuleData κ) : AlertDb κ :=
  let row : Rule κ :=
    { id := nextKey (db.rules.rows.map Rule.id), created := db.inserts, name := data.name, enabled := data.enabled,
      ruleType := data.ruleType, conditions := data.conditions, cooldownMinutes := data.cooldownMinutes,
      lastTriggered := none, notifiers := data.notifiers }
  { db with rules := db.rules.push row (nextKey_fresh _), inserts := db.inserts + 1 }

def Rule.update (data : RuleUpdate κ) (r : Rule κ) : Rule κ :=
  { r with
    name := data.name.getD r.name
    enabled := data.enabled.getD r.enabled
    ruleType := data.ruleType.getD r.ruleType
    conditions := data.conditions.getD r.conditions
    cooldownMinutes := data.cooldownMinutes.getD r.cooldownMinutes
    notifiers := data.notifiers.getD r.notifiers }

/-- `False` where the data names no column; `True` even where no row has the id. -/
def updateAlertRule (db : AlertDb κ) (ruleId : ℕ) (data : RuleUpdate κ) : Bool × AlertDb κ :=
  if data.name.isNone && data.enabled.isNone && data.ruleType.isNone && data.cooldownMinutes.isNone &&
      data.conditions.isNone && data.notifiers.isNone then (false, db)
  else (true, { db with rules := db.rules.modify ruleId (Rule.update data) fun _ => rfl })

def deleteAlertRule (db : AlertDb κ) (ruleId : ℕ) : AlertDb κ := { db with rules := db.rules.delete ruleId }

/-- The entry in the history is written even where no row has the id. -/
def recordAlertTriggered (db : AlertDb κ) (now : Time) (ruleId : ℕ) (details : Details) : AlertDb κ :=
  { db with
    rules := db.rules.modify ruleId (fun r => { r with lastTriggered := some now }) fun _ => rfl
    history := db.history ++ [⟨ruleId, now, details⟩] }

end Cadsa.Db
