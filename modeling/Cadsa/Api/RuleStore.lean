import Cadsa.Api.RuleUpdates
import Cadsa.Lib.JsonDump
import Cadsa.Lib.Paging

/-! The alert rules over many requests: the table of texts that `api/alerts.py` and the engine work on, beside rules
whose conditions and notifiers are values. What the table is read as are these rules, after any requests. -/
namespace Cadsa.RuleStore
open PyJson Tables RuleUpdates JsonDump
set_option autoImplicit false

def pythonJson : JsonLib := ⟨dumps, loads⟩

/-! ## The table -/

structure AlertRuleCreate where
  name : String
  enabled : Bool
  ruleType : String
  conditions : List (String × Json)
  cooldownMinutes : ℤ
  notifiers : List String

/-- The id that SQLite gives to a new row: one more than the largest. -/
def nextRowid (rules : Rules) : ℕ := nextKey (rules.rows.map fun r => r.id.val.toNat)

def createdRow (data : AlertRuleCreate) (id cooldown : SqlInt) : StoredRule where
  id := id
  name := data.name
  enabled := some (.ofBool data.enabled)
  ruleType := data.ruleType
  conditions := dumpConditions pythonJson data.conditions
  cooldownMinutes := some cooldown
  lastTriggered := none
  notifiers := some (dumpNotifiers pythonJson data.notifiers)

def createAlertRule (rules : Rules) (data : AlertRuleCreate) : Except PyError (ℤ × Rules) :=
  match SqlInt.bind data.cooldownMinutes, SqlInt.bind (nextRowid rules) with
  | .ok cooldown, .ok id =>
    match rules.insert (createdRow data id cooldown) with
    | some rules => .ok (id.val, rules)
    | none => .error .valueError
  | _, _ => .error .overflowError

def deleteAlertRule (rules : Rules) (ruleId : ℤ) : Except PyError Rules :=
  (SqlInt.bind ruleId).map fun id => rules.delete id

/-- The column that `record_alert_triggered` changes. -/
def recordAlertTriggered (rules : Rules) (now : String) (ruleId : ℤ) : Except PyError Rules :=
  (SqlInt.bind ruleId).map fun id => rules.modify id (fun r => { r with lastTriggered := some now }) fun _ => rfl

/-- What reaches the table: the requests, and the alerts that the engine has sent. -/
inductive Request
  | createRule (body : AlertRuleCreate)
  | updateRule (ruleId : ℤ) (body : AlertRuleUpdate ℤ)
  | deleteRule (ruleId : ℤ)
  | triggered (ruleId : ℕ) (now : Db.Time) (details : Db.Details)

/-- What raises is answered with 500, and leaves the table as it is. -/
def committed (rules : Rules) : Except PyError Rules → Rules
  | .ok rules => rules
  | .error _ => rules

def Request.run (isoformat : Db.Time → String) (rules : Rules) : Request → Rules
  | .createRule body => committed rules ((RuleStore.createAlertRule rules body).map Prod.snd)
  | .updateRule ruleId body => (RuleUpdates.updateRule pythonJson rules ruleId body).2
  | .deleteRule ruleId => committed rules (RuleStore.deleteAlertRule rules ruleId)
  | .triggered ruleId now _ => committed rules (RuleStore.recordAlertTriggered rules (isoformat now) ruleId)

/-! ## The rules -/

abbrev RuleDb := Db.AlertDb (List (String × Json))

def newRules : Rules := ⟨[], .nil⟩

def newDb : RuleDb where
  rules := ⟨[], .nil⟩
  inserts := 0
  history := []

def AlertRuleCreate.data (body : AlertRuleCreate) : Db.RuleData (List (String × Json)) where
  name := body.name
  enabled := body.enabled
  ruleType := body.ruleType
  conditions := body.conditions
  cooldownMinutes := body.cooldownMinutes
  notifiers := body.notifiers

/-- A number of minutes beyond 64 bits is refused, and no rule has a negative id. -/
def Request.apply (db : RuleDb) : Request → RuleDb
  | .createRule body => if Fits body.cooldownMinutes then Db.createAlertRule db body.data else db
  | .updateRule ruleId body =>
    if (body.cooldownMinutes.all fun n => Fits n) ∧ 0 ≤ ruleId then (Db.updateAlertRule db ruleId.toNat body.data).2
    else db
  | .deleteRule ruleId => if 0 ≤ ruleId then Db.deleteAlertRule db ruleId.toNat else db
  | .triggered ruleId now details => Db.recordAlertTriggered db now ruleId details

/-- Conditions that JSON gives back: their keys are distinct, and no number is a float. -/
def Request.Plain : Request → Prop
  | .createRule body => Dumpable (.obj body.conditions)
  | .updateRule _ body => ∀ conditions ∈ body.conditions, Dumpable (.obj conditions)
  | _ => True

/-! ## Row by row -/

/-- The row is that of the rule. -/
structure RowOf (isoformat : Db.Time → String) (row : StoredRule) (rule : Db.Rule (List (String × Json))) : Prop where
  id : row.id.val = rule.id
  name : row.name = rule.name
  enabled : row.enabled = some (.ofBool rule.enabled)
  ruleType : row.ruleType = rule.ruleType
  conditions : row.conditions = dumpConditions pythonJson rule.conditions
  cooldownMinutes : row.cooldownMinutes.map SqlInt.val = some rule.cooldownMinutes
  lastTriggered : row.lastTriggered = rule.lastTriggered.map isoformat
  notifiers : row.notifiers = some (dumpNotifiers pythonJson rule.notifiers)
  plain : Dumpable (.obj rule.conditions)

section
variable {isoformat : Db.Time → String} {row : StoredRule} {rule : Db.Rule (List (String × Json))}

theorem dumpable_strings (texts : List String) : Dumpable (.arr (texts.map .str)) := by
  refine .arr fun j hj => ?_
  obtain ⟨s, -, rfl⟩ := List.mem_map.mp hj
  exact .str s

theorem parseCell_pythonJson {j : Json} (h : Dumpable j) : parseCell pythonJson (dumps j) = .value j := by
  have hloads : pythonJson.loads (dumps j) = some j := loads_dumps h
  rw [parseCell, if_neg (dumps_ne_empty h), hloads]

theorem RowOf.parse (h : RowOf isoformat row rule) :
    parseRule pythonJson row = shown rule (rule.lastTriggered.map isoformat) := by
  have hconditions : parseCell pythonJson (dumpConditions pythonJson rule.conditions) = .value (.obj rule.conditions) :=
    parseCell_pythonJson h.plain
  have hnotifiers : (some (dumpNotifiers pythonJson rule.notifiers)).map (parseCell pythonJson) =
      some (.value (.arr (rule.notifiers.map .str))) :=
        congrArg some (parseCell_pythonJson (dumpable_strings rule.notifiers))
  rw [parseRule, shown, h.id, h.name, h.enabled, h.ruleType, h.conditions, h.cooldownMinutes, h.lastTriggered,
    h.notifiers, hconditions, Option.map_some, hnotifiers]
  rfl

theorem RowOf.update (h : RowOf isoformat row rule) {body : AlertRuleUpdate ℤ} {c : Option SqlInt}
    (hc : c.map SqlInt.val = body.cooldownMinutes) (hplain : ∀ conditions ∈ body.conditions, Dumpable (.obj conditions)) :
    RowOf isoformat (row.update pythonJson (body.withCooldown c)) (rule.update body.data) where
  id := h.id
  name := congrArg body.name.getD h.name
  enabled := by
    show (body.enabled.map fun b => some (SqlInt.ofBool b)).getD row.enabled =
        some (.ofBool (body.enabled.getD rule.enabled))
    rw [h.enabled]
    cases body.enabled <;> rfl
  ruleType := congrArg body.ruleType.getD h.ruleType
  conditions := by
    show (body.conditions.map (dumpConditions pythonJson)).getD row.conditions =
      dumpConditions pythonJson (body.conditions.getD rule.conditions)
    rw [h.conditions]
    cases body.conditions <;> rfl
  cooldownMinutes := by
    show ((c.map some).getD row.cooldownMinutes).map SqlInt.val = some (body.cooldownMinutes.getD rule.cooldownMinutes)
    rw [← hc]
    cases c with
    | none => exact h.cooldownMinutes
    | some n => rfl
  lastTriggered := h.lastTriggered
  notifiers := by
    show (body.notifiers.map fun n => some (dumpNotifiers pythonJson n)).getD row.notifiers =
      some (dumpNotifiers pythonJson (body.notifiers.getD rule.notifiers))
    rw [h.notifiers]
    cases body.notifiers <;> rfl
  plain := by
    show Dumpable (.obj (body.conditions.getD rule.conditions))
    cases hconditions : body.conditions with
    | none => exact h.plain
    | some conditions => exact hplain conditions hconditions

end

/-! ## Request by request -/

/-- The rows are those of the rules, and no id is above the number of requests. -/
structure Follows (isoformat : Db.Time → String) (requests : ℕ) (rules : Rules) (db : RuleDb) : Prop where
  rows : List.Forall₂ (RowOf isoformat) rules.rows db.rules.rows
  bounded : ∀ rule ∈ db.rules.rows, rule.id ≤ requests

section
variable {isoformat : Db.Time → String} {n : ℕ} {rules : Rules} {db : RuleDb}

theorem ids_of_rows {rows : List StoredRule} {rows' : List (Db.Rule (List (String × Json)))}
    (h : List.Forall₂ (RowOf isoformat) rows rows') :
    rows.map (fun r => r.id.val) = (rows'.map Db.Rule.id).map fun i : ℕ => (i : ℤ) := by
  induction h with
  | nil => rfl
  | cons hrow _ ih => rw [List.map_cons, List.map_cons, List.map_cons, hrow.id, ih]

theorem Follows.nextRowid (h : Follows isoformat n rules db) :
    nextRowid rules = nextKey (db.rules.rows.map Db.Rule.id) := by
  have hids := congrArg (List.map Int.toNat) (ids_of_rows h.rows)
  rw [List.map_map, List.map_map] at hids
  exact congrArg nextKey (hids.trans (List.map_id _))

theorem Follows.nextRowid_le (h : Follows isoformat n rules db) : nextKey (db.rules.rows.map Db.Rule.id) ≤ n + 1 :=
  nextKey_le (List.forall_mem_map.mpr h.bounded)

theorem Follows.later (h : Follows isoformat n rules db) : Follows isoformat (n + 1) rules db :=
  ⟨h.rows, fun rule hrule => Nat.le_succ_of_le (h.bounded rule hrule)⟩

/-- A row and a rule changed alike. -/
theorem Follows.modify (h : Follows isoformat n rules db) {id : SqlInt} {ruleId : ℕ} (hid : id.val = ruleId)
    {f : StoredRule → StoredRule} {g : Db.Rule (List (String × Json)) → Db.Rule (List (String × Json))}
    (hf : ∀ r, (f r).id = r.id) (hg : ∀ r, (g r).id = r.id)
    (hfg : ∀ row rule, RowOf isoformat row rule → RowOf isoformat (f row) (g rule)) :
    Follows isoformat (n + 1) (rules.modify id f hf) { db with rules := db.rules.modify ruleId g hg } where
  rows := by
    show List.Forall₂ _ (rules.rows.map _) (db.rules.rows.map _)
    rw [List.forall₂_map_left_iff, List.forall₂_map_right_iff]
    refine h.rows.imp fun row rule hrow => ?_
    have hkey : row.id = id ↔ rule.id = ruleId := by
      rw [← SqlInt.val_inj, hrow.id, hid]
      exact Int.natCast_inj
    rw [setRow, setRow]
    by_cases hsel : rule.id = ruleId
    · rw [if_pos (hkey.mpr hsel), if_pos hsel]
      exact hfg row rule hrow
    · rw [if_neg fun he => hsel (hkey.mp he), if_neg hsel]
      exact hrow
  bounded rule hrule := by
    obtain ⟨old, hold, rfl⟩ := List.mem_map.mp hrule
    have hsame : (setRow Db.Rule.id ruleId g old).id = old.id := by
      rw [setRow]
      split_ifs
      · exact hg old
      · rfl
    exact hsame ▸ Nat.le_succ_of_le (h.bounded old hold)

/-- No rule has the id. -/
theorem modify_absent {κ ρ : Type} [DecidableEq κ] {key : ρ → κ} (t : Table κ ρ key) {k : κ} (f : ρ → ρ)
    (hf : ∀ r, key (f r) = key r) (h : ∀ r ∈ t.rows, key r ≠ k) : t.modify k f hf = t := by
  have hrows : t.rows.map (setRow key k f) = t.rows := by
    refine (List.map_congr_left fun r hr => if_neg (h r hr)).trans (List.map_id _)
  cases t
  simp only [Table.modify, hrows]

theorem delete_absent {κ ρ : Type} [DecidableEq κ] {key : ρ → κ} (t : Table κ ρ key) {k : κ}
    (h : ∀ r ∈ t.rows, key r ≠ k) : t.delete k = t := by
  have hrows : t.rows.filter (fun r => key r ≠ k) = t.rows := List.filter_eq_self.mpr fun r hr => decide_eq_true (h r hr)
  cases t
  simp only [Table.delete, hrows]

theorem Follows.row_of_id (h : Follows isoformat n rules db) {row : StoredRule} (hrow : row ∈ rules.rows) :
    ∃ rule ∈ db.rules.rows, row.id.val = rule.id := by
  have hmem : row.id.val ∈ rules.rows.map fun r => r.id.val := List.mem_map_of_mem hrow
  rw [ids_of_rows h.rows, List.map_map] at hmem
  obtain ⟨rule, hrule, heq⟩ := List.mem_map.mp hmem
  exact ⟨rule, hrule, heq.symm⟩

theorem Follows.absent (h : Follows isoformat n rules db) {id : SqlInt} (hid : ∀ rule ∈ db.rules.rows, id.val ≠ rule.id) :
    ∀ row ∈ rules.rows, row.id ≠ id := by
  rintro row hrow rfl
  obtain ⟨rule, hrule, heq⟩ := h.row_of_id hrow
  exact hid rule hrule heq

theorem Follows.createRule (h : Follows isoformat n rules db) (hn : n < 9223372036854775807) {body : AlertRuleCreate}
    (hplain : Dumpable (.obj body.conditions)) :
    Follows isoformat (n + 1) (Request.run isoformat rules (.createRule body)) (Request.apply db (.createRule body)) := by
  have hnext := h.nextRowid_le
  have hfits : Fits (nextKey (db.rules.rows.map Db.Rule.id) : ℕ) := ⟨by omega, by omega⟩
  show Follows isoformat (n + 1) (committed rules ((RuleStore.createAlertRule rules body).map Prod.snd))
    (if Fits body.cooldownMinutes then Db.createAlertRule db body.data else db)
  rw [RuleStore.createAlertRule, h.nextRowid]
  by_cases hcooldown : Fits body.cooldownMinutes
  · have hfresh : ∀ row ∈ rules.rows, row.id ≠ ⟨nextKey (db.rules.rows.map Db.Rule.id), hfits⟩ :=
      h.absent fun rule hrule heq =>
        nextKey_fresh (db.rules.rows.map Db.Rule.id) (Int.natCast_inj.mp heq ▸ List.mem_map_of_mem hrule)
    have hkey : (⟨nextKey (db.rules.rows.map Db.Rule.id), hfits⟩ : SqlInt) ∉ rules.rows.map StoredRule.id := by
      intro hmem
      obtain ⟨row, hrow, heq⟩ := List.mem_map.mp hmem
      exact hfresh row hrow heq
    have hinsert : rules.insert (createdRow body ⟨_, hfits⟩ ⟨_, hcooldown⟩) =
        some (rules.push (createdRow body ⟨_, hfits⟩ ⟨_, hcooldown⟩) hkey) := dif_neg hkey
    rw [if_pos hcooldown, SqlInt.bind, SqlInt.bind, dif_pos hcooldown, dif_pos hfits]
    dsimp only
    rw [hinsert]
    refine ⟨List.rel_append h.rows (.cons ?_ .nil), fun rule hrule => ?_⟩
    · exact ⟨rfl, rfl, rfl, rfl, rfl, rfl, rfl, rfl, hplain⟩
    · rcases List.mem_append.mp hrule with hold | hnew
      · exact Nat.le_succ_of_le (h.bounded rule hold)
      · rw [List.mem_singleton.mp hnew]
        exact hnext
  · rw [if_neg hcooldown, SqlInt.bind_of_not_fits hcooldown]
    exact h.later

theorem updateRule_of_id_overflow {lib : JsonLib} {ruleId : ℤ} {body : AlertRuleUpdate ℤ} (h : ¬ Fits ruleId) :
    (RuleUpdates.updateRule lib rules ruleId body).2 = rules := by
  rw [RuleUpdates.updateRule, updateAlertRule, SqlInt.bind_of_not_fits h]
  cases (assignments lib body).isEmpty with
  | true => rfl
  | false => cases body.bind <;> rfl

/-- An id that is not that of any rule: it is negative, or beyond what the table holds. -/
theorem Follows.no_rule (h : Follows isoformat n rules db) (hn : n < 9223372036854775807) {ruleId : ℤ}
    (hid : ¬ Fits ruleId ∧ 0 ≤ ruleId) : ∀ rule ∈ db.rules.rows, rule.id ≠ ruleId.toNat := by
  rintro rule hrule heq
  have hbound := h.bounded rule hrule
  have hbig : ¬ (-9223372036854775808 ≤ ruleId ∧ ruleId < 9223372036854775808) := hid.1
  omega

theorem Follows.no_row (h : Follows isoformat n rules db) {ruleId : ℤ} (hfits : Fits ruleId) (hneg : ¬ 0 ≤ ruleId) :
    ∀ row ∈ rules.rows, row.id ≠ ⟨ruleId, hfits⟩ :=
  h.absent fun rule _ heq => hneg (heq.ge.trans' (Int.natCast_nonneg rule.id))

/-- A change of what has the id, in the table and in the rules, whether or not there is such a rule. -/
theorem Follows.modifyAny (h : Follows isoformat n rules db) (hn : n < 9223372036854775807) (ruleId : ℤ)
    (f : StoredRule → StoredRule) (g : Db.Rule (List (String × Json)) → Db.Rule (List (String × Json)))
    (hf : ∀ r, (f r).id = r.id) (hg : ∀ r, (g r).id = r.id)
    (hfg : ∀ row rule, RowOf isoformat row rule → RowOf isoformat (f row) (g rule)) :
    Follows isoformat (n + 1) (if hfits : Fits ruleId then rules.modify ⟨ruleId, hfits⟩ f hf else rules)
      (if 0 ≤ ruleId then { db with rules := db.rules.modify ruleId.toNat g hg } else db) := by
  by_cases hfits : Fits ruleId
  · rw [dif_pos hfits]
    by_cases hpos : 0 ≤ ruleId
    · rw [if_pos hpos]
      exact h.modify (Int.toNat_of_nonneg hpos).symm hf hg hfg
    · rw [if_neg hpos, modify_absent rules f hf (h.no_row hfits hpos)]
      exact h.later
  · rw [dif_neg hfits]
    by_cases hpos : 0 ≤ ruleId
    · rw [if_pos hpos, modify_absent db.rules g hg (h.no_rule hn ⟨hfits, hpos⟩)]
      exact h.later
    · rw [if_neg hpos]
      exact h.later

theorem Follows.updateRule (h : Follows isoformat n rules db) (hn : n < 9223372036854775807) {ruleId : ℤ}
    {body : AlertRuleUpdate ℤ} (hplain : ∀ conditions ∈ body.conditions, Dumpable (.obj conditions)) :
    Follows isoformat (n + 1) (Request.run isoformat rules (.updateRule ruleId body))
      (Request.apply db (.updateRule ruleId body)) := by
  show Follows isoformat (n + 1) (RuleUpdates.updateRule pythonJson rules ruleId body).2
    (if (body.cooldownMinutes.all fun n => Fits n) = true ∧ 0 ≤ ruleId then
      (Db.updateAlertRule db ruleId.toNat body.data).2 else db)
  rw [updateAlertRule_named]
  cases hnames : body.names with
  | false =>
    rw [updateRule_of_nothing_named hnames]
    simpa using h.later
  | true =>
    cases hminutes : body.cooldownMinutes.all fun n => Fits n with
    | true =>
      have hcooldown : ∀ m ∈ body.cooldownMinutes, Fits m := fun m hm => by
        rw [hm] at hminutes
        exact of_decide_eq_true hminutes
      obtain ⟨c, hc, hbind⟩ := bind_of_fits hcooldown
      have hrules : (RuleUpdates.updateRule pythonJson rules ruleId body).2 = if hfits : Fits ruleId then
          rules.modify ⟨ruleId, hfits⟩ (StoredRule.update pythonJson (body.withCooldown c)) (fun _ => rfl)
          else rules := by
        split_ifs with hfits
        · exact congrArg Prod.snd (updateRule_of_named hnames hbind ⟨ruleId, hfits⟩)
        · exact updateRule_of_id_overflow hfits
      rw [hrules]
      simp only [true_and, if_true]
      exact h.modifyAny hn ruleId (StoredRule.update pythonJson (body.withCooldown c)) (Db.Rule.update body.data)
        (fun _ => rfl)
        (fun _ => rfl) fun row rule hrow => hrow.update hc hplain
    | false =>
      obtain ⟨m, hm, hfits⟩ : ∃ m, body.cooldownMinutes = some m ∧ ¬ Fits m := by
        cases hm : body.cooldownMinutes with
        | none =>
          rw [hm] at hminutes
          cases hminutes
        | some m =>
          rw [hm] at hminutes
          exact ⟨m, rfl, of_decide_eq_false hminutes⟩
      rw [updateRule_of_overflow hm hfits, if_neg fun hand => Bool.false_ne_true hand.1]
      exact h.later

/-- A statement on what has the id: it is not run when the id is beyond 64 bits. -/
theorem committed_bind (rules : Rules) (ruleId : ℤ) (f : SqlInt → Rules) :
    committed rules ((SqlInt.bind ruleId).map f) = if hfits : Fits ruleId then f ⟨ruleId, hfits⟩ else rules := by
  by_cases hfits : Fits ruleId
  · rw [dif_pos hfits, show SqlInt.bind ruleId = .ok ⟨ruleId, hfits⟩ from dif_pos hfits]
    rfl
  · rw [dif_neg hfits, SqlInt.bind_of_not_fits hfits]
    rfl

theorem Follows.triggered (h : Follows isoformat n rules db) (hn : n < 9223372036854775807) (ruleId : ℕ) (now : Db.Time)
    (details : Db.Details) : Follows isoformat (n + 1) (Request.run isoformat rules (.triggered ruleId now details))
      (Request.apply db (.triggered ruleId now details)) := by
  have hany := h.modifyAny hn (ruleId : ℤ) (fun r => { r with lastTriggered := some (isoformat now) })
    (fun r => { r with lastTriggered := some now }) (fun _ => rfl) (fun _ => rfl) fun row rule hrow =>
      ⟨hrow.id, hrow.name, hrow.enabled, hrow.ruleType, hrow.conditions, hrow.cooldownMinutes, rfl, hrow.notifiers,
        hrow.plain⟩
  rw [if_pos (Int.natCast_nonneg ruleId)] at hany
  show Follows isoformat (n + 1) (committed rules ((SqlInt.bind (ruleId : ℤ)).map fun id =>
    rules.modify id (fun r => { r with lastTriggered := some (isoformat now) }) fun _ => rfl)) _
  rw [committed_bind]
  exact ⟨hany.rows, hany.bounded⟩

/-- A row and a rule deleted alike. -/
theorem Follows.delete (h : Follows isoformat n rules db) {id : SqlInt} {ruleId : ℕ} (hid : id.val = ruleId) :
    Follows isoformat (n + 1) (rules.delete id) { db with rules := db.rules.delete ruleId } where
  rows := by
    show List.Forall₂ _ (rules.rows.filter _) (db.rules.rows.filter _)
    refine List.rel_filter (fun row rule hrow => ?_) h.rows
    show decide (row.id ≠ id) = true ↔ decide (rule.id ≠ ruleId) = true
    rw [decide_eq_true_iff, decide_eq_true_iff, ne_eq, ne_eq, ← SqlInt.val_inj, hrow.id, hid, Int.natCast_inj]
  bounded rule hrule := Nat.le_succ_of_le (h.bounded rule (List.mem_of_mem_filter hrule))

theorem Follows.deleteRule (h : Follows isoformat n rules db) (hn : n < 9223372036854775807) (ruleId : ℤ) :
    Follows isoformat (n + 1) (Request.run isoformat rules (.deleteRule ruleId))
      (Request.apply db (.deleteRule ruleId)) := by
  show Follows isoformat (n + 1) (committed rules ((SqlInt.bind ruleId).map fun id => rules.delete id))
    (if 0 ≤ ruleId then Db.deleteAlertRule db ruleId.toNat else db)
  rw [committed_bind, Db.deleteAlertRule]
  by_cases hfits : Fits ruleId
  · rw [dif_pos hfits]
    by_cases hpos : 0 ≤ ruleId
    · rw [if_pos hpos]
      exact h.delete (Int.toNat_of_nonneg hpos).symm
    · rw [if_neg hpos, delete_absent rules (h.no_row hfits hpos)]
      exact h.later
  · rw [dif_neg hfits]
    by_cases hpos : 0 ≤ ruleId
    · rw [if_pos hpos, delete_absent db.rules (h.no_rule hn ⟨hfits, hpos⟩)]
      exact h.later
    · rw [if_neg hpos]
      exact h.later

theorem Follows.run (h : Follows isoformat n rules db) (hn : n < 9223372036854775807) {request : Request}
    (hplain : request.Plain) :
    Follows isoformat (n + 1) (request.run isoformat rules) (request.apply db) := by
  cases request with
  | createRule body => exact h.createRule hn hplain
  | updateRule ruleId body => exact h.updateRule hn hplain
  | deleteRule ruleId => exact h.deleteRule hn ruleId
  | triggered ruleId now details => exact h.triggered hn ruleId now details

end

/-! ## What is read -/

section
variable {isoformat : Db.Time → String} {requests : List Request}

theorem follows_requests (hplain : ∀ request ∈ requests, request.Plain) (hn : requests.length < 9223372036854775807) :
    Follows isoformat requests.length (requests.foldl (fun rules request => request.run isoformat rules) newRules)
      (requests.foldl (fun db request => request.apply db) newDb) := by
  induction requests using List.reverseRecOn with
  | nil => exact ⟨.nil, List.forall_mem_nil _⟩
  | append_singleton before request ih =>
    rw [List.length_append, List.length_singleton] at hn
    rw [List.foldl_append, List.foldl_append, List.length_append]
    refine (ih (fun q hq => hplain q (List.mem_append_left _ hq)) (by omega)).run (by omega) ?_
    exact hplain request (List.mem_append_right _ List.mem_cons_self)

theorem Follows.read {n : ℕ} {rules : Rules} {db : RuleDb} (h : Follows isoformat n rules db) (enabledOnly : Bool) :
    getAlertRules pythonJson rules enabledOnly =
      (Db.getAlertRules db enabledOnly).map fun rule => shown rule (rule.lastTriggered.map isoformat) := by
  have hfilter : List.Forall₂ (RowOf isoformat)
      (rules.rows.filter fun r => !enabledOnly || r.enabled = some (.ofBool true))
      (db.rules.rows.filter fun r => !enabledOnly || r.enabled) := by
    refine List.rel_filter (fun row rule hrow => ?_) h.rows
    show (!enabledOnly || decide (row.enabled = some (.ofBool true))) = true ↔ (!enabledOnly || rule.enabled) = true
    rw [hrow.enabled]
    cases enabledOnly <;> cases rule.enabled <;> decide
  have hsorted := Paging.forall₂_insertionSort (r := fun a b : StoredRule => a.id.val ≤ b.id.val)
    (s := fun a b : Db.Rule (List (String × Json)) => a.id ≤ b.id) (fun {a b c d} hac hbd => by
      rw [hac.id, hbd.id]
      exact Int.ofNat_le) hfilter
  rw [getAlertRules, Db.getAlertRules]
  exact List.forall₂_eq_eq_eq ▸ (List.forall₂_map_left_iff.mpr (List.forall₂_map_right_iff.mpr
    (hsorted.imp fun row rule hrow => hrow.parse)))

/-- After any requests, the rules that are listed are those that the requests describe: each value that was sent is
read back as it was sent, under an id that is that of one rule, whatever failed in between. -/
theorem rules_read_as_sent (hplain : ∀ request ∈ requests, request.Plain)
    (hn : requests.length < 9223372036854775807) (enabledOnly : Bool) :
    getAlertRules pythonJson (requests.foldl (fun rules request => request.run isoformat rules) newRules) enabledOnly =
      (Db.getAlertRules (requests.foldl (fun db request => request.apply db) newDb) enabledOnly).map
        fun rule => shown rule (rule.lastTriggered.map isoformat) :=
  (follows_requests hplain hn).read enabledOnly

end

/-- A rule is created, named again and refused a number of minutes, sends an alert, and another comes and goes. -/
def sampleRequests : List Request :=
  let body (cooldown : ℤ) : AlertRuleCreate :=
    ⟨"spike", true, "traffic_spike", [("minutes", .int 5)], cooldown, ["email"]⟩
  [.createRule (body 30), .createRule (body 100000000000000000000),
    .updateRule 1 ⟨some "surge", none, none, none, none, none⟩,
    .updateRule 1 ⟨none, none, none, some [("minutes", .int (-1))], some 100000000000000000000, none⟩,
    .triggered 1 7 ⟨"hits", 9, 5⟩, .createRule (body 10), .deleteRule 2]

theorem sampleRequests_plain : ∀ request ∈ sampleRequests, request.Plain := by
  have hplain (n : ℤ) : Dumpable (.obj [("minutes", .int n)]) := by
    refine .obj (List.nodup_singleton _) fun m hm => ?_
    rw [List.mem_singleton.mp hm]
    exact .int n
  refine List.forall_mem_cons.mpr ⟨hplain 5, List.forall_mem_cons.mpr ⟨hplain 5, List.forall_mem_cons.mpr ⟨?_,
    List.forall_mem_cons.mpr ⟨?_, List.forall_mem_cons.mpr ⟨trivial, List.forall_mem_cons.mpr ⟨hplain 5,
      List.forall_mem_singleton.mpr trivial⟩⟩⟩⟩⟩⟩
  · intro conditions hnone
    cases hnone
  · intro conditions hsome
    cases hsome
    exact hplain (-1)

theorem rules_read_as_sent_sample :
    getAlertRules pythonJson
        (sampleRequests.foldl (fun rules request => request.run (fun t => toString t) rules) newRules) false =
      (Db.getAlertRules (sampleRequests.foldl (fun db request => request.apply db) newDb) false).map
        fun rule => shown rule (rule.lastTriggered.map fun t => toString t) :=
  rules_read_as_sent sampleRequests_plain (by decide) false

end Cadsa.RuleStore
