import Mathlib.Data.List.Forall2
import Mathlib.Data.String.Basic
import Cadsa.Db.AlertLog
import Cadsa.Db.TokenLifecycle
import Cadsa.Lib.Paging

/-! The times of `db/sqlite_manager.py` as they are stored: texts, which SQLite compares character by character.
The history of the alerts is read in the order of these texts, and a refresh token expires by them. -/
namespace Cadsa.StoredTimes
open Db IsoTime
set_option autoImplicit false

/-- `_now`, when the clock of the machine says so. -/
def now (clock : Datetime) : String := clock.isoformat

/-- `(datetime.now(timezone.utc) + timedelta(..)).isoformat()`; nothing where the sum is after the year 9999. -/
def hence (clock : Datetime) (wait : ℕ) : Option String := (clock.add wait).map Datetime.isoformat

/-- The texts that the helpers make, with the instant that each is of: the clock, the expiry of a refresh token, the
end of a lock. -/
inductive Written : String → Time → Prop
  | now (clock : Datetime) : Written (now clock) clock.micros
  | expiry {clock : Datetime} {text : String} (h : hence clock (days 7) = some text) :
    Written text (clock.micros + days 7)
  | lock {clock : Datetime} {text : String} (h : hence clock (minutes 15) = some text) :
    Written text (clock.micros + minutes 15)

theorem hence_eq_some {clock : Datetime} {wait : ℕ} {text : String} (h : hence clock wait = some text) :
    ∃ instant : Datetime, instant.isoformat = text ∧ instant.micros = clock.micros + wait := by
  obtain ⟨instant, hadd, htext⟩ := Option.map_eq_some_iff.mp h
  exact ⟨instant, htext, Datetime.add_micros hadd⟩

theorem Written.instant {text : String} {t : Time} (h : Written text t) :
    ∃ instant : Datetime, instant.isoformat = text ∧ instant.micros = t := by
  cases h with
  | now clock => exact ⟨clock, rfl, rfl⟩
  | expiry h => exact hence_eq_some h
  | lock h => exact hence_eq_some h

theorem Written.lt_iff {a b : String} {m n : Time} (ha : Written a m) (hb : Written b n) : a < b ↔ m < n := by
  obtain ⟨s, rfl, rfl⟩ := ha.instant
  obtain ⟨t, rfl, rfl⟩ := hb.instant
  rw [String.lt_iff, isoformat_lt_iff]

theorem Written.le_iff {a b : String} {m n : Time} (ha : Written a m) (hb : Written b n) : a ≤ b ↔ m ≤ n := by
  rw [← not_lt, ← not_lt, hb.lt_iff ha]

theorem Written.compare_eq {a b : String} {m n : Time} (ha : Written a m) (hb : Written b n) :
    compare a b = compare m n := by
  rcases lt_trichotomy m n with hlt | rfl | hgt
  · rw [compare_lt_iff_lt.mpr hlt, compare_lt_iff_lt]
    exact (ha.lt_iff hb).mpr hlt
  · rw [compare_eq_iff_eq.mpr rfl, compare_eq_iff_eq]
    exact le_antisymm ((ha.le_iff hb).mpr le_rfl) ((hb.le_iff ha).mpr le_rfl)
  · rw [compare_gt_iff_gt.mpr hgt, compare_gt_iff_gt]
    exact (hb.lt_iff ha).mpr hgt

/-! ## The expiry of a refresh token -/

theorem validateRefreshToken_isSome {sha256 : String → String} {tokens : Tokens.TokenTable} {token : String}
    {row : Tokens.TokenRow} {expires : Time} (hrow : tokens.find (sha256 token) = some row)
    (hexpires : Written row.expiresAt expires) (clock : Datetime) :
    (Tokens.validateRefreshToken sha256 tokens clock token).isSome = true ↔
      row.revoked = false ∧ clock.micros < expires := by
  rw [Tokens.validateRefreshToken, hrow, Option.isSome_filter, Option.any_some, Bool.and_eq_true, Bool.not_eq_true',
    decide_eq_true_iff]
  exact and_congr_right fun _ => (Written.now clock).lt_iff hexpires

/-! ## The order of the history -/

variable {κ : Type}

structure StoredTrigger where
  ruleId : ℕ
  triggeredAt : String
  details : Details
  deriving DecidableEq

/-- The two tables of the alerts, the history with its times as texts. -/
structure StoredLog (κ : Type) where
  rules : Tables.Table ℕ (Rule κ) Rule.id
  history : List StoredTrigger

/-- A row of the joined tables. -/
structure HistoryText where
  id : ℕ
  ruleId : ℕ
  triggeredAt : String
  resolvedAt : Option String
  details : Details
  ruleName : Option String

def historyText (log : StoredLog κ) (i : ℕ) (h : StoredTrigger) : HistoryText where
  id := i + 1
  ruleId := h.ruleId
  triggeredAt := h.triggeredAt
  resolvedAt := none
  details := h.details
  ruleName := (log.rules.find h.ruleId).map (·.name)

/-- `ORDER BY h.triggered_at DESC LIMIT ? OFFSET ?`. -/
def getAlertHistory (log : StoredLog κ) (limit offset : ℤ) : List HistoryText :=
  let rows := ((log.history.mapIdx (historyText log)).insertionSort fun a b => b.triggeredAt ≤ a.triggeredAt).drop
    offset.toNat
  if limit < 0 then rows else rows.take limit.toNat

def recordAlertTriggered (log : StoredLog κ) (clock : Datetime) (ruleId : ℕ) (details : Details) : StoredLog κ where
  rules := log.rules.modify ruleId (fun r => { r with lastTriggered := some clock.micros }) fun _ => rfl
  history := log.history ++ [⟨ruleId, now clock, details⟩]

/-- The stored trigger is the text of the other. -/
structure TriggerText (stored : StoredTrigger) (h : AlertHistory) : Prop where
  ruleId : stored.ruleId = h.ruleId
  triggeredAt : Written stored.triggeredAt h.triggeredAt
  details : stored.details = h.details

/-- The tables hold the texts of what the database of instants holds. -/
structure Represents (log : StoredLog κ) (db : AlertDb κ) : Prop where
  rules : log.rules = db.rules
  history : List.Forall₂ TriggerText log.history db.history

theorem Represents.record {log : StoredLog κ} {db : AlertDb κ} (h : Represents log db) (clock : Datetime) (ruleId : ℕ)
    (details : Details) :
    Represents (recordAlertTriggered log clock ruleId details) (Db.recordAlertTriggered db clock.micros ruleId details) where
  rules := by rw [recordAlertTriggered, Db.recordAlertTriggered, h.rules]
  history := List.rel_append h.history (.cons ⟨rfl, .now clock, rfl⟩ .nil)

/-- The row shows the text of the instant that the other has. -/
structure RowText (text : HistoryText) (row : AlertLog.HistoryRow) : Prop where
  id : text.id = row.id
  ruleId : text.ruleId = row.ruleId
  triggeredAt : Written text.triggeredAt row.triggeredAt
  details : text.details = row.details
  ruleName : text.ruleName = row.ruleName

theorem rowText_joined {log : StoredLog κ} {db : AlertDb κ} (h : Represents log db) :
    List.Forall₂ RowText (log.history.mapIdx (historyText log)) (AlertLog.joined db) := by
  rw [AlertLog.joined, List.forall₂_iff_get]
  have hlength := h.history.length_eq
  refine ⟨by rw [List.length_mapIdx, List.length_mapIdx, hlength], fun i hi hi' => ?_⟩
  rw [List.length_mapIdx] at hi hi'
  have hrow : TriggerText log.history[i] db.history[i] := (List.forall₂_iff_get.mp h.history).2 i hi hi'
  rw [List.get_eq_getElem, List.get_eq_getElem, List.getElem_mapIdx, List.getElem_mapIdx]
  refine ⟨rfl, hrow.ruleId, hrow.triggeredAt, hrow.details, ?_⟩
  rw [historyText, AlertLog.historyRow, h.rules, hrow.ruleId]

/-- A page in the order of the texts is the page in the order of the instants. -/
theorem rowText_getAlertHistory {log : StoredLog κ} {db : AlertDb κ} (h : Represents log db) (limit offset : ℤ) :
    List.Forall₂ RowText (getAlertHistory log limit offset) (AlertLog.getAlertHistory db limit offset) := by
  have hsorted := Paging.forall₂_insertionSort (r := fun a b : HistoryText => b.triggeredAt ≤ a.triggeredAt)
    (s := fun a b : AlertLog.HistoryRow => b.triggeredAt ≤ a.triggeredAt)
    (fun ha hb => hb.triggeredAt.le_iff ha.triggeredAt) (rowText_joined h)
  have hdrop := List.forall₂_drop offset.toNat hsorted
  rw [getAlertHistory, AlertLog.getAlertHistory, AlertLog.limited]
  split_ifs
  · exact hdrop
  · exact List.forall₂_take limit.toNat hdrop

/-- **The stored times are in the order of time**, and so are the expiry of a refresh token and the history of the
alerts, which are decided by them. -/
theorem stored_times_order :
    (∀ (a b : String) (m n : Time), Written a m → Written b n → compare a b = compare m n) ∧
    (∀ (sha256 : String → String) (tokens : Tokens.TokenTable) (token : String) (row : Tokens.TokenRow)
      (expires : Time) (clock : Datetime), tokens.find (sha256 token) = some row → Written row.expiresAt expires →
      ((Tokens.validateRefreshToken sha256 tokens clock token).isSome = true ↔
        row.revoked = false ∧ clock.micros < expires)) ∧
    ∀ (κ : Type) (log : StoredLog κ) (db : AlertDb κ), Represents log db → ∀ limit offset,
      List.Forall₂ RowText (getAlertHistory log limit offset) (AlertLog.getAlertHistory db limit offset) := by
  refine ⟨fun a b m n ha hb => ha.compare_eq hb, ?_, fun κ log db h => rowText_getAlertHistory h⟩
  intro sha256 tokens token row expires clock hrow hexpires
  exact validateRefreshToken_isSome hrow hexpires clock

/-- The first instant of the year 1000, and the microsecond after it. -/
def millennium : Datetime := ⟨daysBeforeYear 999 * 86400000000, by decide⟩

def afterMillennium : Datetime := ⟨daysBeforeYear 999 * 86400000000 + 1, by decide⟩

/-- The shorter text, without a fraction, comes before the longer one. -/
theorem stored_times_order_millennium :
    now millennium = "1000-01-01T00:00:00+00:00" ∧ now afterMillennium = "1000-01-01T00:00:00.000001+00:00" ∧
      compare (now millennium) (now afterMillennium) = .lt := by
  refine ⟨by decide +kernel, by decide +kernel, ?_⟩
  rw [stored_times_order.1 _ _ _ _ (.now millennium) (.now afterMillennium)]
  decide

end Cadsa.StoredTimes
