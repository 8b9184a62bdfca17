import Cadsa.Db.AlertRules
import Cadsa.Lib.Runs
import Cadsa.Lib.Slots

/-! `get_alert_history` over runs of the alert helpers. The connections leave foreign keys off, so
that `ON DELETE CASCADE` of `alert_history` deletes nothing. -/
namespace Cadsa.AlertLog
open Db Runs
set_option autoImplicit false

variable {κ : Type}

structure HistoryRow where
  id : ℕ
  ruleId : ℕ
  triggeredAt : Time
  resolvedAt : Option Time
  details : Details
  ruleName : Option String

/-- The rows of `alert_history` count up, as none is ever deleted; nothing writes `resolved_at`. -/
def historyRow (db : AlertDb κ) (i : ℕ) (h : AlertHistory) : HistoryRow where
  id := i + 1
  ruleId := h.ruleId
  triggeredAt := h.triggeredAt
  resolvedAt := none
  details := h.details
  ruleName := (db.rules.find h.ruleId).map (·.name)

/-- `alert_history` left-joined with `alert_rules`. -/
def joined (db : AlertDb κ) : List HistoryRow := db.history.mapIdx (historyRow db)

/-- SQLite's `LIMIT`, which takes a negative number for no limit. -/
def limited (limit : ℤ) (rows : List HistoryRow) : List HistoryRow :=
  if limit < 0 then rows else rows.take limit.toNat

def getAlertHistory (db : AlertDb κ) (limit offset : ℤ) : List HistoryRow :=
  limited limit (((joined db).insertionSort fun a b => b.triggeredAt ≤ a.triggeredAt).drop offset.toNat)

theorem mem_joined {db : AlertDb κ} {row : HistoryRow} :
    row ∈ joined db ↔ ∃ i h, db.history[i]? = some h ∧ historyRow db i h = row := by
  rw [joined, List.mem_mapIdx]
  constructor
  · rintro ⟨i, hi, rfl⟩
    exact ⟨i, _, List.getElem?_eq_getElem hi, rfl⟩
  · rintro ⟨i, h, hi, rfl⟩
    obtain ⟨hlt, rfl⟩ := List.getElem?_eq_some_iff.mp hi
    exact ⟨i, hlt, rfl⟩

/-- Some page has the row. -/
theorem mem_getAlertHistory {db : AlertDb κ} {row : HistoryRow} :
    (∃ limit offset, row ∈ getAlertHistory db limit offset) ↔ row ∈ joined db := by
  constructor
  · rintro ⟨limit, offset, hrow⟩
    rw [getAlertHistory, limited] at hrow
    split_ifs at hrow
    · exact (List.mem_insertionSort _).mp (List.mem_of_mem_drop hrow)
    · exact (List.mem_insertionSort _).mp (List.mem_of_mem_drop (List.mem_of_mem_take hrow))
  · intro hrow
    refine ⟨-1, 0, ?_⟩
    rw [getAlertHistory, limited, if_pos (by decide)]
    exact (List.mem_insertionSort _).mpr hrow

/-! ## Runs -/

/-- `firedBy` is no table: for each row of `alert_history` it has the rule that was stored under
the id at the trigger, by the number of its insert. -/
structure State (κ : Type) where
  db : AlertDb κ
  firedBy : List (Option ℕ)

def State.empty : State κ := ⟨⟨⟨[], List.nodup_nil⟩, 0, []⟩, []⟩

inductive Call (κ : Type)
  | create (data : RuleData κ)
  | update (ruleId : ℕ) (data : RuleUpdate κ)
  | delete (ruleId : ℕ)
  | record (now : Time) (ruleId : ℕ) (details : Details)

def step (s : State κ) : Call κ → Option (State κ)
  | .create data => some { s with db := createAlertRule s.db data }
  | .update ruleId data => some { s with db := (updateAlertRule s.db ruleId data).2 }
  | .delete ruleId => some { s with db := deleteAlertRule s.db ruleId }
  | .record now ruleId details => some
      { db := recordAlertTriggered s.db now ruleId details
        firedBy := s.firedBy ++ [(s.db.rules.find ruleId).map (·.created)] }

/-- Every row that a page shows has the name of the rule whose trigger it is of. -/
def Named (s : State κ) : Prop :=
  ∀ limit offset, ∀ row ∈ getAlertHistory s.db limit offset, ∃ r ∈ s.db.rules.rows,
    r.id = row.ruleId ∧ row.ruleName = some r.name ∧ s.firedBy[row.id - 1]? = some (some r.created)

/-- No history of the rule is left behind, and no trigger is of a rule that is gone. -/
def Guard (s : State κ) : Call κ → Prop
  | .create _ => True
  | .update _ _ => True
  | .delete ruleId => ∀ h ∈ s.db.history, h.ruleId ≠ ruleId
  | .record _ ruleId _ => ruleId ∈ s.db.rules.rows.map Rule.id

/-- The entry is of the rule that its id now leads to. -/
def Traced (s : State κ) (i : ℕ) (h : AlertHistory) : Prop :=
  ∃ r, s.db.rules.find h.ruleId = some r ∧ s.firedBy[i]? = some (some r.created)

theorem named_iff {s : State κ} : Named s ↔ ∀ i h, s.db.history[i]? = some h → Traced s i h := by
  constructor
  · intro hn i h hi
    obtain ⟨limit, offset, hrow⟩ := mem_getAlertHistory.mpr (mem_joined.mpr ⟨i, h, hi, rfl⟩)
    obtain ⟨r, hr, hid, -, hfired⟩ := hn limit offset _ hrow
    refine ⟨r, ?_, hfired⟩
    have hfind := Tables.find_of_mem s.db.rules hr
    rwa [hid] at hfind
  · intro ht limit offset row hrow
    obtain ⟨i, h, hi, rfl⟩ := mem_joined.mp (mem_getAlertHistory.mp ⟨limit, offset, hrow⟩)
    obtain ⟨r, hr, hfired⟩ := ht i h hi
    refine ⟨r, Tables.mem_of_findBy _ hr, Tables.find_key _ hr, ?_, hfired⟩
    exact congrArg (Option.map (·.name)) hr

/-! ## One call -/

section
variable {s s' : State κ}

theorem find_update_created (db : AlertDb κ) (ruleId : ℕ) (data : RuleUpdate κ) (id : ℕ) :
    ((updateAlertRule db ruleId data).2.rules.find id).map (·.created) = (db.rules.find id).map (·.created) := by
  unfold updateAlertRule
  split_ifs
  · rfl
  · exact Tables.map_find_modify _ (by intro r; rfl) Rule.created (by intro r; rfl) id

theorem history_update (db : AlertDb κ) (ruleId : ℕ) (data : RuleUpdate κ) :
    (updateAlertRule db ruleId data).2.history = db.history := by
  unfold updateAlertRule
  split_ifs <;> rfl

theorem traced_iff {i : ℕ} {h : AlertHistory} : Traced s i h ↔
    ∃ n, (s.db.rules.find h.ruleId).map (·.created) = some n ∧ s.firedBy[i]? = some (some n) := by
  constructor
  · rintro ⟨r, hr, hfired⟩
    exact ⟨r.created, congrArg (Option.map (·.created)) hr, hfired⟩
  · rintro ⟨n, hn, hfired⟩
    obtain ⟨r, hr, rfl⟩ := Option.map_eq_some_iff.mp hn
    exact ⟨r, hr, hfired⟩

theorem named_create (data : RuleData κ) (hn : Named s) : Named { s with db := createAlertRule s.db data } := by
  rw [named_iff] at hn ⊢
  intro i h hi
  obtain ⟨r, hr, hfired⟩ := hn i h hi
  refine ⟨r, ?_, hfired⟩
  rw [createAlertRule, Tables.find_push, if_neg]
  · exact hr
  · -- the id of a stored rule is not the next one
    intro hid
    refine Tables.nextKey_fresh (s.db.rules.rows.map Rule.id) (List.mem_map.mpr ⟨r, Tables.mem_of_findBy _ hr, ?_⟩)
    rw [Tables.find_key _ hr]
    exact hid.symm

theorem named_update (ruleId : ℕ) (data : RuleUpdate κ) (hn : Named s) :
    Named { s with db := (updateAlertRule s.db ruleId data).2 } := by
  rw [named_iff] at hn ⊢
  intro i h hi
  rw [history_update] at hi
  rw [traced_iff, find_update_created, ← traced_iff]
  exact hn i h hi

theorem named_delete_iff (ruleId : ℕ) (hn : Named s) :
    Named { s with db := deleteAlertRule s.db ruleId } ↔ ∀ h ∈ s.db.history, h.ruleId ≠ ruleId := by
  rw [named_iff] at hn ⊢
  constructor
  · intro hdeleted h hmem hid
    obtain ⟨i, hi⟩ := List.mem_iff_getElem?.mp hmem
    obtain ⟨r, hr, -⟩ := hdeleted i h hi
    rw [deleteAlertRule, Tables.find_delete, if_pos hid] at hr
    cases hr
  · intro hguard i h hi
    obtain ⟨r, hr, hfired⟩ := hn i h hi
    refine ⟨r, ?_, hfired⟩
    rw [deleteAlertRule, Tables.find_delete, if_neg (hguard h (List.mem_of_getElem? hi))]
    exact hr

theorem find_record_created (db : AlertDb κ) (now : Time) (ruleId : ℕ) (details : Details) (id : ℕ) :
    ((recordAlertTriggered db now ruleId details).rules.find id).map (·.created) = (db.rules.find id).map (·.created) :=
  Tables.map_find_modify _ (by intro r; rfl) Rule.created (by intro r; rfl) id

theorem named_record_iff (now : Time) (ruleId : ℕ) (details : Details) (hlen : s.firedBy.length = s.db.history.length)
    (hn : Named s) :
    Named { db := recordAlertTriggered s.db now ruleId details
            firedBy := s.firedBy ++ [(s.db.rules.find ruleId).map (·.created)] } ↔
      ruleId ∈ s.db.rules.rows.map Rule.id := by
  rw [named_iff] at hn ⊢
  simp only [traced_iff, find_record_created] at hn ⊢
  constructor
  · intro hrecorded
    obtain ⟨n, hfound, -⟩ := hrecorded s.db.history.length ⟨ruleId, now, details⟩ List.getElem?_concat_length
    obtain ⟨r, hr, -⟩ := Option.map_eq_some_iff.mp hfound
    exact List.mem_map.mpr ⟨r, Tables.mem_of_findBy _ hr, Tables.find_key _ hr⟩
  · intro hmem i h hi
    rcases Slots.getElem?_concat_eq_some.mp hi with hi | ⟨rfl, rfl⟩
    · obtain ⟨n, hfound, hfired⟩ := hn i h hi
      exact ⟨n, hfound, Slots.getElem?_append_some hfired _⟩
    · obtain ⟨r, hr, hid⟩ := List.mem_map.mp hmem
      have hfound := Tables.find_of_mem s.db.rules hr
      rw [hid] at hfound
      refine ⟨r.created, congrArg (Option.map (·.created)) hfound, ?_⟩
      rw [← hlen, List.getElem?_concat_length, hfound]
      rfl

/-- The state that a call leads to names its rules just where the call meets the guard. -/
theorem named_step_iff {c : Call κ} (hlen : s.firedBy.length = s.db.history.length) (hn : Named s)
    (hs : step s c = some s') : Named s' ↔ Guard s c := by
  cases c with
  | create data =>
    cases hs
    exact iff_of_true (named_create data hn) trivial
  | update ruleId data =>
    cases hs
    exact iff_of_true (named_update ruleId data hn) trivial
  | delete ruleId =>
    cases hs
    exact named_delete_iff ruleId hn
  | record now ruleId details =>
    cases hs
    exact named_record_iff now ruleId details hlen hn

theorem length_step {c : Call κ} (hlen : s.firedBy.length = s.db.history.length) (hs : step s c = some s') :
    s'.firedBy.length = s'.db.history.length := by
  cases c with
  | create data =>
    cases hs
    exact hlen
  | update ruleId data =>
    cases hs
    rw [history_update]
    exact hlen
  | delete ruleId =>
    cases hs
    exact hlen
  | record now ruleId details =>
    cases hs
    rw [recordAlertTriggered, List.length_append, List.length_append, hlen]
    rfl

end

theorem history_names_rules_iff (calls : List (Call κ)) :
    Visited step Named State.empty calls ↔ Along step (fun s c _ => Guard s c) State.empty calls := by
  let Counted (s : State κ) : Prop := s.firedBy.length = s.db.history.length
  have hkeep : ∀ s c s', Counted s → Named s → step s c = some s' → Guard s c → Counted s' ∧ Named s' := by
    intro s c s' hlen hn hs hg
    exact ⟨length_step hlen hs, (named_step_iff hlen hn hs).mpr hg⟩
  refine visited_iff_along hkeep (fun s c s' hlen hn hs hn' => ?_) rfl ?_
  · exact (named_step_iff hlen hn hs).mp hn'
  · refine named_iff.mpr fun i h hi => ?_
    cases hi

def ruleNamed (name : String) : RuleData Unit := ⟨name, true, "error_rate", (), 30, []⟩

/-- The next rule gets the id of the deleted one and its history with it. -/
def reuse : List (Call Unit) :=
  [.create (ruleNamed "Login failures"), .record 5 1 ⟨"error_rate", 1, 1⟩, .delete 1, .create (ruleNamed "Bandwidth")]

theorem reuse_misnames :
    (exec step State.empty reuse).map (fun s => ((getAlertHistory s.db 100 0).map (·.ruleName), s.firedBy)) =
        some ([some "Bandwidth"], [some 0]) ∧
      (exec step State.empty reuse).map (fun s => s.db.rules.rows.map (·.created)) = some [1] ∧
      ¬ Visited step Named State.empty reuse := by
  refine ⟨by decide +kernel, by decide +kernel, fun hv => ?_⟩
  have hn := hv.of_exec (rfl : exec step State.empty reuse = some _)
  obtain ⟨r, hr, hfired⟩ := named_iff.mp hn 0 _ rfl
  cases hr
  exact absurd hfired (by decide)

end Cadsa.AlertLog
