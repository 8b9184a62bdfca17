import Mathlib.Data.List.Basic
import Cadsa.Alerts.Engine
import Cadsa.Lib.Runs

/-! The evaluation of the alert rules as the event loop runs it, one tick at a time, with the calls
of the rule API between any two awaits. What a check returns is up to whoever takes the step. -/
namespace Cadsa.Alerts
open Db Analytics Runs
set_option autoImplicit false

inductive Stage (κ : Type)
  | checking
  | recording (r : Rule κ) (details : Details)
  | notifying (r : Rule κ) (details : Details)
  deriving DecidableEq

/-- `now` is taken once the rules have been read; `checked` are the rules whose check was called. -/
structure Tick (κ : Type) where
  loaded : List (Rule κ)
  now : Option Time
  checked : List (Rule κ)
  pending : List (Rule κ)
  stage : Stage κ
  deriving DecidableEq

/-- A call of `record_alert_triggered` that was committed: the rule as it was read, the row that
the update found, if any, and the time it wrote. -/
structure Write (κ : Type) where
  rule : Rule κ
  row : Option ℕ
  time : Time
  details : Details
  deriving DecidableEq

structure Sent where
  rule : ℕ
  channel : Channel
  deriving DecidableEq

/-- `finished` has the rules that each tick loaded and those it checked. -/
structure State (κ : Type) where
  db : AlertDb κ
  clock : Time
  tick : Option (Tick κ)
  writes : List (Write κ)
  sent : List Sent
  finished : List (List (Rule κ) × List (Rule κ))

/-- `ok` says that a transaction is committed; the switches are the configuration's. -/
inductive Action (κ : Type)
  | create (data : RuleData κ)
  | update (ruleId : ℕ) (data : RuleUpdate κ)
  | delete (ruleId : ℕ)
  | advance (microseconds : ℕ)
  | load
  | start
  | check (outcome : Except Unit (Option Details))
  | record (ok : Bool)
  | notify (cfg : AlertsConfig)
  | finish
  | restart

variable {κ : Type}

def Tick.next (t : Tick κ) : Tick κ := { t with stage := .checking }

/-- The check of the first pending rule returns or raises. -/
def Tick.check (now : Time) (outcome : Except Unit (Option Details)) (r : Rule κ) (rest : List (Rule κ)) (t : Tick κ) :
    Tick κ :=
  { t with
    checked := t.checked ++ [r]
    pending := rest
    stage := match checkRule (fun _ => outcome) now r with
      | .ok (some details) => .recording r details
      | .ok none | .error _ => .checking }

def rowOf (db : AlertDb κ) (ruleId : ℕ) : Option ℕ := (db.rules.find ruleId).map (·.created)

def record (r : Rule κ) (details : Details) (t : Tick κ) (s : State κ) : State κ :=
  { s with
    db := recordAlertTriggered s.db s.clock r.id details
    writes := s.writes ++ [⟨r, rowOf s.db r.id, s.clock, details⟩]
    tick := some { t with stage := .notifying r details } }

def stepTick (s : State κ) (t : Tick κ) : Action κ → Option (State κ)
  | .start => if t.now = none then some { s with tick := some { t with now := some s.clock } } else none
  | .check outcome =>
    match t.now, t.stage, t.pending with
    | some now, .checking, r :: rest => some { s with tick := some (t.check now outcome r rest) }
    | _, _, _ => none
  | .record ok =>
    match t.stage with
    | .recording r details => some (if ok then record r details t s else { s with tick := some t.next })
    | _ => none
  | .notify cfg =>
    match t.stage with
    | .notifying r details => some { s with
        sent := s.sent ++ (fireNotifications cfg r details).map fun n => ⟨r.created, n.channel⟩
        tick := some t.next }
    | _ => none
  | .finish =>
    match t.stage, t.pending with
    | .checking, [] => some { s with tick := none, finished := s.finished ++ [(t.loaded, t.checked)] }
    | _, _ => none
  | _ => none

def step (s : State κ) : Action κ → Option (State κ)
  | .create data => some { s with db := createAlertRule s.db data }
  | .update ruleId data => some { s with db := (updateAlertRule s.db ruleId data).2 }
  | .delete ruleId => some { s with db := deleteAlertRule s.db ruleId }
  | .advance microseconds => some { s with clock := s.clock + microseconds }
  | .load =>
    -- Ticks do not overlap, and one that finds no rules returns at once.
    if s.tick.isSome then none
    else match getAlertRules s.db true with
      | [] => some s
      | rules => some { s with tick := some ⟨rules, none, [], rules, .checking⟩ }
  | .restart => some { s with tick := none }
  | a => s.tick.bind fun t => stepTick s t a

def boot : State κ := ⟨⟨⟨[], List.nodup_nil⟩, 0, []⟩, 0, none, [], [], []⟩

end Cadsa.Alerts
