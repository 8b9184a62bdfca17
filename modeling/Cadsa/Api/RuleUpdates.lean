import Mathlib.Data.List.Forall2
import Mathlib.Data.List.Sort
import Cadsa.Db.AlertRules
import Cadsa.Lib.PyJson
import Cadsa.Lib.Table

/-! A change of an alert rule, from the request `PUT /alerts/rules/{rule_id}` of `api/alerts.py` to the columns of
`alert_rules` and back through `get_alert_rules`. The conditions and the notifiers of a rule are stored as texts. -/
namespace Cadsa.RuleUpdates
open PyJson Tables
set_option autoImplicit false

/-! ## The table -/

/-- The numbers that fit the 64 bits of an INTEGER of SQLite. -/
def Fits (n : ℤ) : Prop := -9223372036854775808 ≤ n ∧ n < 9223372036854775808

instance (n : ℤ) : Decidable (Fits n) := inferInstanceAs (Decidable (_ ∧ _))

structure SqlInt where
  val : ℤ
  fits : Fits val
  deriving DecidableEq

/-- How `sqlite3` binds an `int`. -/
def SqlInt.bind (n : ℤ) : Except PyError SqlInt := if h : Fits n then .ok ⟨n, h⟩ else .error .overflowError

/-- A `bool` is an `int`. -/
def SqlInt.ofBool (b : Bool) : SqlInt := ⟨if b then 1 else 0, by cases b <;> decide⟩

structure StoredRule where
  id : SqlInt
  name : String
  enabled : Option SqlInt
  ruleType : String
  conditions : String
  cooldownMinutes : Option SqlInt
  lastTriggered : Option String
  notifiers : Option String
  deriving DecidableEq

abbrev Rules := Table SqlInt StoredRule StoredRule.id

/-- `json.dumps` and `json.loads`; nothing where the latter raises. -/
structure JsonLib where
  dumps : Json → String
  loads : String → Option Json

/-- Of the two functions: what is dumped is a text, and it can be loaded. -/
structure JsonLib.Lawful (lib : JsonLib) : Prop where
  nonempty : ∀ j, lib.dumps j ≠ ""
  loadable : ∀ j, (lib.loads (lib.dumps j)).isSome = true

/-- A column that holds JSON, as `_parse_rule` leaves it. -/
inductive Cell
  | text (s : String)
  | value (j : Json)

structure ParsedRule where
  id : ℤ
  name : String
  enabled : Option ℤ
  ruleType : String
  conditions : Cell
  cooldownMinutes : Option ℤ
  lastTriggered : Option String
  notifiers : Option Cell

/-- What is not truthy or cannot be loaded stays a text. -/
def parseCell (lib : JsonLib) (s : String) : Cell :=
  if s = "" then .text s
  else match lib.loads s with
    | some j => .value j
    | none => .text s

def parseRule (lib : JsonLib) (r : StoredRule) : ParsedRule where
  id := r.id.val
  name := r.name
  enabled := r.enabled.map SqlInt.val
  ruleType := r.ruleType
  conditions := parseCell lib r.conditions
  cooldownMinutes := r.cooldownMinutes.map SqlInt.val
  lastTriggered := r.lastTriggered
  notifiers := r.notifiers.map (parseCell lib)

def getAlertRules (lib : JsonLib) (rules : Rules) (enabledOnly : Bool) : List ParsedRule :=
  ((rules.rows.filter fun r => !enabledOnly || r.enabled = some (.ofBool true)).insertionSort
    fun a b => a.id.val ≤ b.id.val).map (parseRule lib)

/-! ## The request -/

/-- The fields of the body that are not None. The number is an `int` first, and what it is bound to then. -/
structure AlertRuleUpdate (ι : Type) where
  name : Option String
  enabled : Option Bool
  ruleType : Option String
  conditions : Option (List (String × Json))
  cooldownMinutes : Option ι
  notifiers : Option (List String)

def AlertRuleUpdate.withCooldown {ι κ : Type} (data : AlertRuleUpdate ι) (cooldownMinutes : Option κ) :
    AlertRuleUpdate κ where
  name := data.name
  enabled := data.enabled
  ruleType := data.ruleType
  conditions := data.conditions
  cooldownMinutes := cooldownMinutes
  notifiers := data.notifiers

/-- One `column = ?` with its parameter. -/
inductive Assignment (ι : Type)
  | name (s : String)
  | enabled (b : Bool)
  | ruleType (s : String)
  | cooldownMinutes (n : ι)
  | conditions (s : String)
  | notifiers (s : String)

section
variable (lib : JsonLib)

def dumpConditions (conditions : List (String × Json)) : String := lib.dumps (.obj conditions)

def dumpNotifiers (notifiers : List String) : String := lib.dumps (.arr (notifiers.map .str))

/-- `fields` and `params`, without the id. -/
def assignments {ι : Type} (data : AlertRuleUpdate ι) : List (Assignment ι) :=
  data.name.toList.map .name ++ data.enabled.toList.map .enabled ++ data.ruleType.toList.map .ruleType ++
    data.cooldownMinutes.toList.map .cooldownMinutes ++
    data.conditions.toList.map (fun c => .conditions (dumpConditions lib c)) ++
    data.notifiers.toList.map fun n => .notifiers (dumpNotifiers lib n)

def StoredRule.assign (r : StoredRule) : Assignment SqlInt → StoredRule
  | .name s => { r with name := s }
  | .enabled b => { r with enabled := some (.ofBool b) }
  | .ruleType s => { r with ruleType := s }
  | .cooldownMinutes n => { r with cooldownMinutes := some n }
  | .conditions s => { r with conditions := s }
  | .notifiers s => { r with notifiers := some s }

def StoredRule.set (r : StoredRule) (fields : List (Assignment SqlInt)) : StoredRule := fields.foldl StoredRule.assign r

theorem StoredRule.assign_id (r : StoredRule) (a : Assignment SqlInt) : (r.assign a).id = r.id := by cases a <;> rfl

theorem StoredRule.set_id (r : StoredRule) (fields : List (Assignment SqlInt)) : (r.set fields).id = r.id := by
  induction fields generalizing r with
  | nil => rfl
  | cons a fields ih => exact (ih (r.assign a)).trans (r.assign_id a)

def AlertRuleUpdate.bind (data : AlertRuleUpdate ℤ) : Except PyError (AlertRuleUpdate SqlInt) :=
  match data.cooldownMinutes with
  | none => .ok (data.withCooldown none)
  | some n => (SqlInt.bind n).map fun n => data.withCooldown (some n)

/-- The parameters are bound when the statement is executed, which raises where a number does not fit. That no row has
the id makes no difference. -/
def updateAlertRule (rules : Rules) (ruleId : ℤ) (data : AlertRuleUpdate ℤ) : Except PyError (Bool × Rules) :=
  if (assignments lib data).isEmpty then .ok (false, rules)
  else match data.bind, SqlInt.bind ruleId with
    | .ok data, .ok ruleId => .ok (true, rules.modify ruleId (StoredRule.set · (assignments lib data)) fun r => r.set_id _)
    | _, _ => .error .overflowError

inductive Answer
  | ok
  | error (status : ℕ) (detail : String)
  deriving DecidableEq

def ruleNotFound : Answer := .error 404 "Rule not found"

def serverError : Answer := .error 500 "Internal Server Error"

/-- The endpoint; what raises is answered with 500. -/
def updateRule (rules : Rules) (ruleId : ℤ) (body : AlertRuleUpdate ℤ) : Answer × Rules :=
  match updateAlertRule lib rules ruleId body with
  | .ok (true, rules) => (.ok, rules)
  | .ok (false, rules) => (ruleNotFound, rules)
  | .error _ => (serverError, rules)

end

/-! ## What a change should be -/

section
variable (lib : JsonLib)

/-- `json.loads(json.dumps(j))`. -/
def jsonRoundTrip (j : Json) : Json := (lib.loads (lib.dumps j)).getD .null

/-- The rule with the fields of the request, and its other columns. -/
def received (body : AlertRuleUpdate ℤ) (p : ParsedRule) : ParsedRule where
  id := p.id
  name := body.name.getD p.name
  enabled := (body.enabled.map fun b => some (if b then 1 else 0)).getD p.enabled
  ruleType := body.ruleType.getD p.ruleType
  conditions := (body.conditions.map fun c => .value (jsonRoundTrip lib (.obj c))).getD p.conditions
  cooldownMinutes := (body.cooldownMinutes.map some).getD p.cooldownMinutes
  lastTriggered := p.lastTriggered
  notifiers := (body.notifiers.map fun n => some (.value (jsonRoundTrip lib (.arr (n.map .str))))).getD p.notifiers

def Exists (rules : Rules) (ruleId : ℤ) : Prop := ∃ r ∈ rules.rows, r.id.val = ruleId

/-- `Rule not found` is answered just where no rule has the id; otherwise the rules then read as before, but for the
one with the id, which has what was sent. -/
structure Exact (rules : Rules) (ruleId : ℤ) (body : AlertRuleUpdate ℤ) : Prop where
  notFound : (updateRule lib rules ruleId body).1 = ruleNotFound ↔ ¬ Exists rules ruleId
  updated : Exists rules ruleId → getAlertRules lib (updateRule lib rules ruleId body).2 false =
    (getAlertRules lib rules false).map fun p => if p.id = ruleId then received lib body p else p

/-- Some field is not None. -/
def AlertRuleUpdate.names {ι : Type} (body : AlertRuleUpdate ι) : Bool :=
  body.name.isSome || body.enabled.isSome || body.ruleType.isSome || body.cooldownMinutes.isSome ||
    body.conditions.isSome || body.notifiers.isSome

/-- A field is named just where some rule has the id, and a number that is sent fits the column. -/
structure Plain (rules : Rules) (ruleId : ℤ) (body : AlertRuleUpdate ℤ) : Prop where
  named : body.names = true ↔ Exists rules ruleId
  cooldown : ∀ n ∈ body.cooldownMinutes, Fits n

end

/-! ## What a request does -/

theorem SqlInt.bind_val (i : SqlInt) : SqlInt.bind i.val = .ok i := dif_pos i.fits

theorem SqlInt.bind_of_not_fits {n : ℤ} (h : ¬ Fits n) : SqlInt.bind n = .error .overflowError := dif_neg h

section
variable {lib : JsonLib} {rules : Rules} {ruleId : ℤ} {body : AlertRuleUpdate ℤ}

theorem isEmpty_assignments {ι : Type} (data : AlertRuleUpdate ι) : (assignments lib data).isEmpty = !data.names := by
  rw [Bool.eq_iff_iff, List.isEmpty_iff]
  simp only [assignments, AlertRuleUpdate.names, List.append_eq_nil_iff, List.map_eq_nil_iff, Option.toList_eq_nil_iff,
    Bool.not_eq_true', Bool.or_eq_false_iff, Option.isSome_eq_false_iff, Option.isNone_iff_eq_none]

/-- The row once the statement is executed. -/
def StoredRule.update (lib : JsonLib) (data : AlertRuleUpdate SqlInt) (r : StoredRule) : StoredRule where
  id := r.id
  name := data.name.getD r.name
  enabled := (data.enabled.map fun b => some (.ofBool b)).getD r.enabled
  ruleType := data.ruleType.getD r.ruleType
  conditions := (data.conditions.map (dumpConditions lib)).getD r.conditions
  cooldownMinutes := (data.cooldownMinutes.map some).getD r.cooldownMinutes
  lastTriggered := r.lastTriggered
  notifiers := (data.notifiers.map fun n => some (dumpNotifiers lib n)).getD r.notifiers

theorem StoredRule.set_append (r : StoredRule) (as bs : List (Assignment SqlInt)) : r.set (as ++ bs) = (r.set as).set bs :=
  List.foldl_append ..

theorem StoredRule.set_assignments (data : AlertRuleUpdate SqlInt) (r : StoredRule) :
    r.set (assignments lib data) = r.update lib data := by
  have hname : ∀ (r : StoredRule) (o : Option String),
      r.set (o.toList.map .name) = { r with name := o.getD r.name } := by
    intro r o
    cases o <;> rfl
  have henabled : ∀ (r : StoredRule) (o : Option Bool),
      r.set (o.toList.map .enabled) = { r with enabled := (o.map fun b => some (.ofBool b)).getD r.enabled } := by
    intro r o
    cases o <;> rfl
  have hruleType : ∀ (r : StoredRule) (o : Option String),
      r.set (o.toList.map .ruleType) = { r with ruleType := o.getD r.ruleType } := by
    intro r o
    cases o <;> rfl
  have hcooldown : ∀ (r : StoredRule) (o : Option SqlInt),
      r.set (o.toList.map .cooldownMinutes) =
        { r with cooldownMinutes := (o.map some).getD r.cooldownMinutes } := by
    intro r o
    cases o <;> rfl
  have hconditions : ∀ (r : StoredRule) (o : Option (List (String × Json))),
      r.set (o.toList.map fun c => .conditions (dumpConditions lib c)) =
        { r with conditions := (o.map (dumpConditions lib)).getD r.conditions } := by
    intro r o
    cases o <;> rfl
  have hnotifiers : ∀ (r : StoredRule) (o : Option (List String)),
      r.set (o.toList.map fun n => .notifiers (dumpNotifiers lib n)) =
        { r with notifiers := (o.map fun n => some (dumpNotifiers lib n)).getD r.notifiers } := by
    intro r o
    cases o <;> rfl
  simp only [assignments, StoredRule.set_append, hname, henabled, hruleType, hcooldown, hconditions, hnotifiers,
    StoredRule.update]

/-! ### The three outcomes -/

theorem updateRule_of_nothing_named (h : body.names = false) : updateRule lib rules ruleId body = (ruleNotFound, rules) := by
  rw [updateRule, updateAlertRule, isEmpty_assignments, h]
  rfl

theorem bind_of_fits (h : ∀ n ∈ body.cooldownMinutes, Fits n) :
    ∃ c : Option SqlInt, c.map SqlInt.val = body.cooldownMinutes ∧ body.bind = .ok (body.withCooldown c) := by
  rw [AlertRuleUpdate.bind]
  cases hc : body.cooldownMinutes with
  | none => exact ⟨none, rfl, rfl⟩
  | some n =>
    have hn : Fits n := h n hc
    refine ⟨some ⟨n, hn⟩, rfl, ?_⟩
    dsimp only
    rw [SqlInt.bind, dif_pos hn]
    rfl

theorem updateRule_of_overflow {n : ℤ} (hn : body.cooldownMinutes = some n) (hfits : ¬ Fits n) :
    updateRule lib rules ruleId body = (serverError, rules) := by
  have hnames : body.names = true := by simp [AlertRuleUpdate.names, hn]
  have hbind : body.bind = .error .overflowError := by
    rw [AlertRuleUpdate.bind, hn]
    dsimp only
    rw [SqlInt.bind_of_not_fits hfits]
    rfl
  rw [updateRule, updateAlertRule, isEmpty_assignments, hnames, hbind]
  rfl

theorem updateRule_of_named (h : body.names = true) {c : Option SqlInt} (hbind : body.bind = .ok (body.withCooldown c))
    (id : SqlInt) :
    updateRule lib rules id.val body =
      (.ok, rules.modify id (StoredRule.update lib (body.withCooldown c)) fun _ => rfl) := by
  rw [updateRule, updateAlertRule, isEmpty_assignments, h, hbind, SqlInt.bind_val]
  have hset : (StoredRule.set · (assignments lib (body.withCooldown c))) = StoredRule.update lib (body.withCooldown c) :=
    funext (StoredRule.set_assignments (body.withCooldown c))
  simp only [hset, Bool.not_true, Bool.false_eq_true, if_false]

/-- Without a row of the id the answer says that there is one all the same. -/
theorem updateRule_answer_of_named (h : body.names = true) : (updateRule lib rules ruleId body).1 ≠ ruleNotFound := by
  rw [updateRule, updateAlertRule, isEmpty_assignments, h]
  simp only [Bool.not_true, Bool.false_eq_true, if_false]
  cases body.bind with
  | error _ =>
    show serverError ≠ ruleNotFound
    decide
  | ok data =>
    cases SqlInt.bind ruleId with
    | error _ =>
      show serverError ≠ ruleNotFound
      decide
    | ok id =>
      show Answer.ok ≠ ruleNotFound
      decide

/-! ### What is read afterwards -/

theorem parseCell_dumps (hlib : lib.Lawful) (j : Json) :
    parseCell lib (lib.dumps j) = .value (jsonRoundTrip lib j) := by
  obtain ⟨j', hj'⟩ := Option.isSome_iff_exists.mp (hlib.loadable j)
  rw [parseCell, if_neg (hlib.nonempty j), jsonRoundTrip, hj']
  rfl

theorem parseRule_update (hlib : lib.Lawful) {c : Option SqlInt} (hc : c.map SqlInt.val = body.cooldownMinutes)
    (r : StoredRule) :
    parseRule lib (r.update lib (body.withCooldown c)) = received lib body (parseRule lib r) := by
  have henabled : ((body.enabled.map fun b => some (SqlInt.ofBool b)).getD r.enabled).map SqlInt.val =
      (body.enabled.map fun b => some (if b then 1 else 0)).getD (r.enabled.map SqlInt.val) := by
    cases body.enabled <;> rfl
  have hconditions : parseCell lib ((body.conditions.map (dumpConditions lib)).getD r.conditions) =
      (body.conditions.map fun c => .value (jsonRoundTrip lib (.obj c))).getD (parseCell lib r.conditions) := by
    cases body.conditions with
    | none => rfl
    | some conditions => exact parseCell_dumps hlib _
  have hcooldown : ((c.map some).getD r.cooldownMinutes).map SqlInt.val =
      (body.cooldownMinutes.map some).getD (r.cooldownMinutes.map SqlInt.val) := by
    rw [← hc]
    cases c <;> rfl
  have hnotifiers : ((body.notifiers.map fun n => some (dumpNotifiers lib n)).getD r.notifiers).map (parseCell lib) =
      (body.notifiers.map fun n => some (.value (jsonRoundTrip lib (.arr (n.map .str))))).getD
        (r.notifiers.map (parseCell lib)) := by
    cases body.notifiers with
    | none => rfl
    | some notifiers => exact congrArg some (parseCell_dumps hlib _)
  simp only [parseRule, StoredRule.update, received, AlertRuleUpdate.withCooldown, henabled, hconditions, hcooldown,
    hnotifiers]

theorem getAlertRules_all (lib : JsonLib) (rules : Rules) :
    getAlertRules lib rules false = (rules.rows.insertionSort fun a b => a.id.val ≤ b.id.val).map (parseRule lib) := by
  have hall : (rules.rows.filter fun r => !false || r.enabled = some (.ofBool true)) = rules.rows :=
    List.filter_eq_self.mpr fun _ _ => rfl
  rw [getAlertRules, hall]

theorem SqlInt.val_inj {i j : SqlInt} : i.val = j.val ↔ i = j := by
  constructor
  · intro h
    cases i
    cases j
    cases h
    rfl
  · exact congrArg SqlInt.val

/-- A change of the row with an id is read as the change of the rule with that id, in its place. -/
theorem getAlertRules_modify {id : SqlInt} {f : StoredRule → StoredRule} (hf : ∀ r, (f r).id = r.id)
    {g : ParsedRule → ParsedRule} (hg : ∀ r, parseRule lib (f r) = g (parseRule lib r)) :
    getAlertRules lib (rules.modify id f hf) false =
      (getAlertRules lib rules false).map fun p => if p.id = id.val then g p else p := by
  have hid : ∀ r, (setRow StoredRule.id id f r).id = r.id := by
    intro r
    rw [setRow]
    split_ifs
    · exact hf r
    · rfl
  have hsort := List.map_insertionSort (fun a b : StoredRule => a.id.val ≤ b.id.val) (fun a b => a.id.val ≤ b.id.val)
    (setRow StoredRule.id id f) rules.rows fun a _ b _ => by rw [hid, hid]
  rw [getAlertRules_all, getAlertRules_all, rows_modify, ← hsort, List.map_map, List.map_map]
  refine List.map_congr_left fun r _ => ?_
  have hcond : (parseRule lib r).id = id.val ↔ r.id = id := SqlInt.val_inj
  simp only [Function.comp_apply, setRow, hcond]
  split_ifs
  · exact hg r
  · rfl

theorem mem_getAlertRules {r : StoredRule} (h : r ∈ rules.rows) : parseRule lib r ∈ getAlertRules lib rules false := by
  rw [getAlertRules_all]
  exact List.mem_map_of_mem ((List.mem_insertionSort _).mpr h)

/-! ### When a change is as it should be -/

theorem exact_of_plain (hlib : lib.Lawful) (h : Plain rules ruleId body) : Exact lib rules ruleId body := by
  by_cases hnames : body.names = true
  · obtain ⟨row, hrow, rfl⟩ := h.named.mp hnames
    obtain ⟨c, hc, hbind⟩ := bind_of_fits h.cooldown
    have hupdate : updateRule lib rules row.id.val body =
        (.ok, rules.modify row.id (StoredRule.update lib (body.withCooldown c)) fun _ => rfl) :=
      updateRule_of_named hnames hbind row.id
    refine ⟨?_, fun _ => ?_⟩
    · exact iff_of_false (updateRule_answer_of_named hnames) (not_not_intro ⟨row, hrow, rfl⟩)
    · rw [hupdate]
      exact getAlertRules_modify (f := StoredRule.update lib (body.withCooldown c)) (g := received lib body) (fun _ => rfl)
        (parseRule_update hlib hc)
  · have hno : ¬ Exists rules ruleId := fun he => hnames (h.named.mpr he)
    rw [Bool.not_eq_true] at hnames
    exact ⟨iff_of_true (by rw [updateRule_of_nothing_named hnames]) hno, fun he => absurd he hno⟩

theorem plain_of_exact (h : Exact lib rules ruleId body) : Plain rules ruleId body := by
  have hnamed : body.names = true ↔ Exists rules ruleId := by
    constructor
    · intro hnames
      by_contra hno
      exact updateRule_answer_of_named hnames (h.notFound.mpr hno)
    · intro he
      by_contra hnames
      rw [Bool.not_eq_true] at hnames
      exact h.notFound.mp (by rw [updateRule_of_nothing_named hnames]) he
  refine ⟨hnamed, fun n hn => ?_⟩
  by_contra hfits
  -- What is stored fits, and no change is made; the number that was sent is therefore not read back.
  have hnames : body.names = true := by
    rw [AlertRuleUpdate.names, show body.cooldownMinutes = some n from hn]
    simp
  obtain ⟨row, hrow, rfl⟩ := hnamed.mp hnames
  have hread := h.updated ⟨row, hrow, rfl⟩
  rw [updateRule_of_overflow hn hfits] at hread
  have hmem : parseRule lib row ∈ getAlertRules lib rules false := mem_getAlertRules hrow
  obtain ⟨i, hi, hget⟩ := List.getElem_of_mem hmem
  have hsame := List.getElem_of_eq hread hi
  rw [List.getElem_map, hget, if_pos (show (parseRule lib row).id = row.id.val from rfl)] at hsame
  have hcooldown := congrArg ParsedRule.cooldownMinutes hsame
  rw [received, show body.cooldownMinutes = some n from hn] at hcooldown
  obtain ⟨c, -, hc⟩ := Option.map_eq_some_iff.mp (show row.cooldownMinutes.map SqlInt.val = some n from hcooldown)
  exact hfits (hc ▸ c.fits)

end

/-- **A partial change is exact** just where the request names a field and some rule has the id, or neither, and a
number of minutes that is sent fits 64 bits. -/
theorem exact_iff_plain (lib : JsonLib) (hlib : lib.Lawful) (rules : Rules) (ruleId : ℤ) (body : AlertRuleUpdate ℤ) :
    Exact lib rules ruleId body ↔ Plain rules ruleId body :=
  ⟨plain_of_exact, exact_of_plain hlib⟩

/-- One rule, and texts for the values of this sample. -/
def sampleJson : JsonLib where
  dumps
    | .obj [("threshold", .int 5)] => "\x7b\"threshold\": 5\x7d"
    | .arr [.str "email"] => "[\"email\"]"
    | _ => "null"
  loads s :=
    if s = "\x7b\"threshold\": 5\x7d" then some (.obj [("threshold", .int 5)])
    else if s = "[\"email\"]" then some (.arr [.str "email"])
    else if s = "null" then some .null
    else none

theorem sampleJson_lawful : sampleJson.Lawful where
  nonempty j := by
    simp only [sampleJson]
    split <;> decide
  loadable j := by
    simp only [sampleJson]
    split <;> rfl

def sampleRule : StoredRule where
  id := ⟨1, by decide⟩
  name := "many requests"
  enabled := some (.ofBool true)
  ruleType := "threshold"
  conditions := "\x7b\"threshold\": 5\x7d"
  cooldownMinutes := some ⟨30, by decide⟩
  lastTriggered := none
  notifiers := some "[\"email\"]"

def sampleRules : Rules := ⟨[sampleRule], List.nodup_singleton _⟩

def noFields : AlertRuleUpdate ℤ := ⟨none, none, none, none, none, none⟩

/-- A request that names the notifiers of the rule, and one that names a number of minutes beyond the column. -/
theorem exact_iff_plain_sample :
    Exact sampleJson sampleRules 1 { noFields with notifiers := some ["email"] } ∧
      ¬ Exact sampleJson sampleRules 1 { noFields with cooldownMinutes := some 9223372036854775808 } := by
  constructor
  · refine (exact_iff_plain sampleJson sampleJson_lawful _ _ _).mpr ⟨?_, fun n hn => nomatch hn⟩
    exact iff_of_true rfl ⟨sampleRule, List.mem_singleton.mpr rfl, rfl⟩
  · intro h
    have hfits := ((exact_iff_plain sampleJson sampleJson_lawful _ _ _).mp h).cooldown _ rfl
    exact absurd hfits (by decide)

/-- A request without a field is answered with `Rule not found` though the rule exists, and one to disable a rule that
does not exist with success. -/
theorem not_exact_sample :
    ¬ Exact sampleJson sampleRules 1 noFields ∧
      ¬ Exact sampleJson sampleRules 99 { noFields with enabled := some false } := by
  constructor
  · intro h
    exact h.notFound.mp (by decide) ⟨sampleRule, List.mem_singleton.mpr rfl, rfl⟩
  · intro h
    have hno : ¬ Exists sampleRules 99 := by
      rintro ⟨r, hr, hid⟩
      rw [List.mem_singleton.mp hr] at hid
      exact absurd hid (by decide)
    exact absurd (h.notFound.mpr hno) (by decide)

/-! ## The table of rules and the rules

`Db.updateAlertRule` is the same change over rules whose conditions and notifiers are values. -/

/-- The rule as a reader of the table is shown it. -/
def shown (rule : Db.Rule (List (String × Json))) (lastTriggered : Option String) : ParsedRule where
  id := rule.id
  name := rule.name
  enabled := some (if rule.enabled then 1 else 0)
  ruleType := rule.ruleType
  conditions := .value (.obj rule.conditions)
  cooldownMinutes := some rule.cooldownMinutes
  lastTriggered := lastTriggered
  notifiers := some (.value (.arr (rule.notifiers.map .str)))

/-- The row is that of the rule. When it was last triggered is another matter. -/
def Stores (lib : JsonLib) (row : StoredRule) (rule : Db.Rule (List (String × Json))) : Prop :=
  parseRule lib row = shown rule row.lastTriggered

def AlertRuleUpdate.data (body : AlertRuleUpdate ℤ) : Db.RuleUpdate (List (String × Json)) where
  name := body.name
  enabled := body.enabled
  ruleType := body.ruleType
  conditions := body.conditions
  cooldownMinutes := body.cooldownMinutes
  notifiers := body.notifiers

section
variable {lib : JsonLib} {rules : Rules} {db : Db.AlertDb (List (String × Json))} {body : AlertRuleUpdate ℤ}

theorem received_shown (hsame : ∀ j, lib.loads (lib.dumps j) = some j) (rule : Db.Rule (List (String × Json)))
    (lastTriggered : Option String) :
    received lib body (shown rule lastTriggered) = shown (rule.update body.data) lastTriggered := by
  have htrip : ∀ j, jsonRoundTrip lib j = j := by
    intro j
    rw [jsonRoundTrip, hsame, Option.getD_some]
  obtain ⟨name, enabled, ruleType, conditions, cooldownMinutes, notifiers⟩ := body
  have henabled : (enabled.map fun b => some (if b then (1 : ℤ) else 0)).getD (some (if rule.enabled then 1 else 0)) =
      some (if enabled.getD rule.enabled then 1 else 0) := by
    cases enabled <;> rfl
  have hconditions : (conditions.map fun c => Cell.value (.obj c)).getD (.value (.obj rule.conditions)) =
      .value (.obj (conditions.getD rule.conditions)) := by
    cases conditions <;> rfl
  have hcooldown : (cooldownMinutes.map some).getD (some rule.cooldownMinutes) =
      some (cooldownMinutes.getD rule.cooldownMinutes) := by
    cases cooldownMinutes <;> rfl
  have hnotifiers : (notifiers.map fun n => some (Cell.value (.arr (n.map .str)))).getD
      (some (.value (.arr (rule.notifiers.map .str)))) = some (.value (.arr ((notifiers.getD rule.notifiers).map .str))) := by
    cases notifiers <;> rfl
  simp only [received, shown, AlertRuleUpdate.data, Db.Rule.update, htrip, henabled, hconditions, hcooldown, hnotifiers]
  rfl

theorem updateAlertRule_named (db : Db.AlertDb (List (String × Json))) (ruleId : ℕ) :
    Db.updateAlertRule db ruleId body.data =
      (body.names, if body.names then
        { db with rules := db.rules.modify ruleId (Db.Rule.update body.data) fun _ => rfl } else db) := by
  have hnone : (body.name.isNone && body.enabled.isNone && body.ruleType.isNone && body.cooldownMinutes.isNone &&
      body.conditions.isNone && body.notifiers.isNone) = !body.names := by
    simp only [AlertRuleUpdate.names, Bool.not_or, Option.not_isSome]
  have hcond : (body.data.name.isNone && body.data.enabled.isNone && body.data.ruleType.isNone &&
      body.data.cooldownMinutes.isNone && body.data.conditions.isNone && body.data.notifiers.isNone) = !body.names := hnone
  rw [Db.updateAlertRule, hcond]
  cases body.names <;> rfl

/-- The row of a rule stays the row of it through a change. -/
theorem stores_update (hlib : lib.Lawful) (hsame : ∀ j, lib.loads (lib.dumps j) = some j) {c : Option SqlInt}
    (hc : c.map SqlInt.val = body.cooldownMinutes) {row : StoredRule} {rule : Db.Rule (List (String × Json))}
    (h : Stores lib row rule) : Stores lib (row.update lib (body.withCooldown c)) (rule.update body.data) := by
  have hread : parseRule lib row = shown rule row.lastTriggered := h
  show parseRule lib (row.update lib (body.withCooldown c)) = shown (rule.update body.data) row.lastTriggered
  rw [parseRule_update hlib hc, hread, received_shown hsame]

/-- The table follows the rules: a request of numbers that fit does to it what the abstract change does to them. -/
theorem stores_updateRule (hlib : lib.Lawful) (hsame : ∀ j, lib.loads (lib.dumps j) = some j)
    (h : List.Forall₂ (Stores lib) rules.rows db.rules.rows) (hfits : ∀ n ∈ body.cooldownMinutes, Fits n) {ruleId : ℕ}
    (hid : Fits ruleId) :
    List.Forall₂ (Stores lib) (updateRule lib rules ruleId body).2.rows
      (Db.updateAlertRule db ruleId body.data).2.rules.rows := by
  rw [updateAlertRule_named]
  cases hnames : body.names with
  | false =>
    rw [updateRule_of_nothing_named hnames]
    exact h
  | true =>
    obtain ⟨c, hc, hbind⟩ := bind_of_fits hfits
    rw [show (ruleId : ℤ) = (⟨ruleId, hid⟩ : SqlInt).val from rfl, updateRule_of_named hnames hbind]
    show List.Forall₂ (Stores lib) (rules.rows.map _) (db.rules.rows.map _)
    rw [List.forall₂_map_left_iff, List.forall₂_map_right_iff]
    refine h.imp fun row rule hstores => ?_
    have hkey : row.id = ⟨ruleId, hid⟩ ↔ rule.id = ruleId := by
      have hval : row.id.val = rule.id := congrArg ParsedRule.id hstores
      rw [← SqlInt.val_inj, hval]
      exact Int.natCast_inj
    rw [setRow, setRow]
    by_cases hsel : rule.id = ruleId
    · rw [if_pos (hkey.mpr hsel), if_pos hsel]
      exact stores_update hlib hsame hc hstores
    · rw [if_neg fun he => hsel (hkey.mp he), if_neg hsel]
      exact hstores

end

end Cadsa.RuleUpdates
