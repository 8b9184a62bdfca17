import Mathlib.Data.List.Chain
import Mathlib.Data.List.Nodup
import Mathlib.Tactic.Common
import Cadsa.Alerts.Ticks
import Cadsa.Lib.Slots

/-! The cooldown over ticks, whatever the checks return and wherever the rules are edited. A tick
works on the rules as it read them; the row it writes may have been replaced since by another with
the same id, and that one has not been written before. -/
namespace Cadsa.Alerts
open Db Analytics Runs
set_option autoImplicit false

variable {κ : Type}

def writesTo (n : ℕ) (writes : List (Write κ)) : List (Write κ) := writes.filter (·.row = some n)

/-- From one value to the next at least the cooldown that the later tick has read. -/
def Spaced (a b : Write κ) : Prop := (a.time : ℤ) + b.rule.cooldownMinutes * 60 * 1000000 ≤ b.time

def Write.entry (w : Write κ) : AlertHistory := ⟨w.rule.id, w.time, w.details⟩

structure CooldownKept (s : State κ) : Prop where
  stored : ∀ r ∈ s.db.rules.rows, r.lastTriggered = (writesTo r.created s.writes).getLast?.map (·.time)
  spaced : ∀ n, (writesTo n s.writes).IsChain Spaced
  history : s.db.history = s.writes.map Write.entry
  sentRow : ∀ r ∈ s.db.rules.rows, ∀ channel, s.sent.count ⟨r.created, channel⟩ ≤ (writesTo r.created s.writes).length
  sent : ∀ n channel, s.sent.count ⟨n, channel⟩ ≤ s.writes.countP (·.rule.created = n)
  checked : ∀ p ∈ s.finished, p.2 = p.1
  raising : ∀ t ∈ s.tick, t.now ≠ none → t.stage = .checking → ∀ r rest, t.pending = r :: rest →
    step s (.check (.error ())) = some { s with tick := some { t with checked := t.checked ++ [r], pending := rest } }

/-! ## The invariant -/

/-- What a tick may rely on for a rule that it has read and not yet recorded. -/
structure RuleInv (db : AlertDb κ) (p : Rule κ) : Prop where
  known : p.created < db.inserts
  same : ∀ r ∈ db.rules.rows, r.created = p.created → r.id = p.id
  last : ∀ r ∈ db.rules.rows, r.id = p.id → r.lastTriggered = none ∨ r.lastTriggered = p.lastTriggered

def StageInv (s : State κ) (t : Tick κ) : Prop :=
  match t.stage with
  | .checking => True
  | .recording r _ => RuleInv s.db r ∧ r.id ∉ t.pending.map Rule.id ∧
      ∀ last ∈ r.lastTriggered, (last : ℤ) + r.cooldownMinutes * 60 * 1000000 ≤ s.clock
  | .notifying r _ => ∀ channel, s.sent.count ⟨r.created, channel⟩ + 1 ≤ s.writes.countP (·.rule.created = r.created)

structure TickInv (s : State κ) (t : Tick κ) : Prop where
  loaded : t.loaded = t.checked ++ t.pending
  now : ∀ now ∈ t.now, now ≤ s.clock
  ids : (t.pending.map Rule.id).Nodup
  rules : ∀ p ∈ t.pending, RuleInv s.db p
  stage : StageInv s t

structure Inv (s : State κ) : Prop where
  created : (s.db.rules.rows.map Rule.created).Nodup
  known : ∀ r ∈ s.db.rules.rows, r.created < s.db.inserts
  written : ∀ w ∈ s.writes, w.time ≤ s.clock ∧ w.rule.created < s.db.inserts ∧ ∀ n ∈ w.row, n < s.db.inserts
  own : ∀ r ∈ s.db.rules.rows, ∀ w ∈ s.writes, w.rule.created = r.created → w.row = some r.created
  stored : ∀ r ∈ s.db.rules.rows, r.lastTriggered = (writesTo r.created s.writes).getLast?.map (·.time)
  spaced : ∀ n, (writesTo n s.writes).IsChain Spaced
  history : s.db.history = s.writes.map Write.entry
  sent : ∀ n channel, s.sent.count ⟨n, channel⟩ ≤ s.writes.countP (·.rule.created = n)
  checked : ∀ p ∈ s.finished, p.2 = p.1
  tick : ∀ t ∈ s.tick, TickInv s t

theorem checkRule_raising (now : Time) (r : Rule κ) :
    checkRule (fun _ => (.error () : Except Unit (Option Details))) now r = .ok none ∨
      checkRule (fun _ => (.error () : Except Unit (Option Details))) now r = .error () := by
  unfold checkRule
  split
  · exact .inl rfl
  · split
    · exact .inr rfl
    · exact .inl rfl

/-- A check that raises leads on to the next rule. -/
theorem raising_goes_on {s : State κ} {t : Tick κ} (ht : s.tick = some t) (hnow : t.now ≠ none)
    (hstage : t.stage = .checking) {r : Rule κ} {rest : List (Rule κ)} (hp : t.pending = r :: rest) :
    step s (.check (.error ())) = some { s with tick := some { t with checked := t.checked ++ [r], pending := rest } } := by
  obtain ⟨now, hn⟩ := Option.ne_none_iff_exists'.mp hnow
  have hnext : t.check now (.error ()) r rest = { t with checked := t.checked ++ [r], pending := rest } := by
    unfold Tick.check
    rcases checkRule_raising now r with hc | hc <;> rw [hc, hstage]
  simp only [step, ht, Option.bind_some, stepTick, hn, hstage, hp, hnext]

theorem Inv.kept {s : State κ} (h : Inv s) : CooldownKept s where
  stored := h.stored
  spaced := h.spaced
  history := h.history
  sentRow r hr channel := by
    refine (h.sent r.created channel).trans ?_
    rw [writesTo, ← List.countP_eq_length_filter]
    refine List.countP_mono_left fun w hw hc => ?_
    simp only [decide_eq_true_eq] at hc ⊢
    exact h.own r hr w hw hc
  sent := h.sent
  checked := h.checked
  raising t ht hnow hstage r rest hp := raising_goes_on ht hnow hstage hp

/-! ## Edits of the rules -/

/-- A row is new, or what a row was but for the columns that the engine does not write. -/
structure Edit (db db' : AlertDb κ) : Prop where
  inserts : db.inserts ≤ db'.inserts
  history : db'.history = db.history
  created : (db'.rules.rows.map Rule.created).Nodup
  known : ∀ r ∈ db'.rules.rows, r.created < db'.inserts
  rows : ∀ r ∈ db'.rules.rows, r.created = db.inserts ∧ r.lastTriggered = none ∨
    ∃ q ∈ db.rules.rows, r.id = q.id ∧ r.created = q.created ∧ r.lastTriggered = q.lastTriggered

theorem create_edit {s : State κ} (h : Inv s) (data : RuleData κ) : Edit s.db (createAlertRule s.db data) := by
  refine ⟨Nat.le_succ _, rfl, ?_, fun r hr => ?_, fun r hr => ?_⟩
  · change ((s.db.rules.rows ++ [_]).map Rule.created).Nodup
    rw [List.map_append]
    refine Slots.nodup_concat h.created fun hmem => ?_
    obtain ⟨q, hq, he⟩ := List.mem_map.mp hmem
    have hlt := h.known q hq
    rw [he] at hlt
    exact Nat.lt_irrefl _ hlt
  · rcases List.mem_append.mp hr with hr | hr
    · exact (h.known r hr).trans (Nat.lt_succ_self _)
    · rw [List.mem_singleton.mp hr]
      exact Nat.lt_succ_self _
  · rcases List.mem_append.mp hr with hr | hr
    · exact .inr ⟨r, hr, rfl, rfl, rfl⟩
    · rw [List.mem_singleton.mp hr]
      exact .inl ⟨rfl, rfl⟩

theorem setRow_same {β : Type} (col : Rule κ → β) (f : Rule κ → Rule κ) (hf : ∀ r, col (f r) = col r) (k : ℕ)
    (r : Rule κ) : col (Tables.setRow Rule.id k f r) = col r := by
  unfold Tables.setRow
  split
  · exact hf r
  · rfl

theorem update_edit {s : State κ} (h : Inv s) (ruleId : ℕ) (data : RuleUpdate κ) :
    Edit s.db (updateAlertRule s.db ruleId data).2 := by
  unfold updateAlertRule
  split
  · exact ⟨Nat.le_refl _, rfl, h.created, h.known, fun r hr => .inr ⟨r, hr, rfl, rfl, rfl⟩⟩
  · let row (q : Rule κ) : Rule κ := Tables.setRow Rule.id ruleId (Rule.update data) q
    have hid (q : Rule κ) : (row q).id = q.id := setRow_same Rule.id (Rule.update data) (fun _ => rfl) ruleId q
    have hcreated (q : Rule κ) : (row q).created = q.created := setRow_same Rule.created (Rule.update data) (fun _ => rfl) ruleId q
    have hlast (q : Rule κ) : (row q).lastTriggered = q.lastTriggered :=
      setRow_same Rule.lastTriggered (Rule.update data) (fun _ => rfl) ruleId q
    refine ⟨Nat.le_refl _, rfl, ?_, fun r hr => ?_, fun r hr => ?_⟩
    · change ((s.db.rules.rows.map row).map Rule.created).Nodup
      rw [List.map_map]
      exact (List.map_congr_left fun q _ => hcreated q) ▸ h.created
    · obtain ⟨q, hq, rfl⟩ := List.mem_map.mp hr
      exact (hcreated q).symm ▸ h.known q hq
    · obtain ⟨q, hq, rfl⟩ := List.mem_map.mp hr
      exact .inr ⟨q, hq, hid q, hcreated q, hlast q⟩

theorem delete_edit {s : State κ} (h : Inv s) (ruleId : ℕ) : Edit s.db (deleteAlertRule s.db ruleId) where
  inserts := Nat.le_refl _
  history := rfl
  created := h.created.sublist (List.filter_sublist.map Rule.created)
  known r hr := h.known r (List.mem_of_mem_filter hr)
  rows r hr := .inr ⟨r, List.mem_of_mem_filter hr, rfl, rfl, rfl⟩

theorem writesTo_nil {s : State κ} (h : Inv s) {n : ℕ} (hn : s.db.inserts ≤ n) : writesTo n s.writes = [] := by
  refine List.filter_eq_nil_iff.mpr fun w hw hr => ?_
  have hlt := (h.written w hw).2.2 n (of_decide_eq_true hr)
  exact Nat.lt_irrefl _ (hlt.trans_le hn)

theorem RuleInv.edit {db db' : AlertDb κ} {p : Rule κ} (h : RuleInv db p) (he : Edit db db') : RuleInv db' p := by
  refine ⟨h.known.trans_le he.inserts, fun r hr hc => ?_, fun r hr hid => ?_⟩
  · rcases he.rows r hr with ⟨hnew, -⟩ | ⟨q, hq, hid, hcreated, -⟩
    · exact absurd (hnew.symm.trans hc) (Nat.ne_of_gt h.known)
    · rw [hid]
      exact h.same q hq (hcreated.symm.trans hc)
  · rcases he.rows r hr with ⟨-, hnone⟩ | ⟨q, hq, hqid, -, hlast⟩
    · exact .inl hnone
    · rw [hlast]
      exact h.last q hq (hqid.symm.trans hid)

theorem TickInv.edit {s : State κ} {db : AlertDb κ} {t : Tick κ} (h : TickInv s t) (he : Edit s.db db) :
    TickInv { s with db := db } t := by
  refine ⟨h.loaded, h.now, h.ids, fun p hp => (h.rules p hp).edit he, ?_⟩
  have hs := h.stage
  unfold StageInv at hs ⊢
  split at hs
  · trivial
  · exact ⟨hs.1.edit he, hs.2⟩
  · exact hs

theorem Inv.edit {s : State κ} {db : AlertDb κ} (h : Inv s) (he : Edit s.db db) : Inv { s with db := db } := by
  refine ⟨he.created, he.known, fun w hw => ?_, fun r hr w hw hc => ?_, fun r hr => ?_, h.spaced,
    he.history.trans h.history, h.sent, h.checked, fun t ht => (h.tick t ht).edit he⟩
  · obtain ⟨htime, hrule, hrow⟩ := h.written w hw
    exact ⟨htime, hrule.trans_le he.inserts, fun n hn => (hrow n hn).trans_le he.inserts⟩
  · rcases he.rows r hr with ⟨hnew, -⟩ | ⟨q, hq, -, hcreated, -⟩
    · exact absurd (hc.trans hnew) (Nat.ne_of_lt (h.written w hw).2.1)
    · rw [hcreated]
      exact h.own q hq w hw (hc.trans hcreated)
  · change r.lastTriggered = (writesTo r.created s.writes).getLast?.map (·.time)
    rcases he.rows r hr with ⟨hnew, hnone⟩ | ⟨q, hq, -, hcreated, hlast⟩
    · rw [hnone, writesTo_nil h (Nat.le_of_eq hnew.symm)]
      rfl
    · rw [hlast, hcreated]
      exact h.stored q hq

/-! ## A tick -/

theorem Inv.advance {s : State κ} (h : Inv s) (n : ℕ) : Inv { s with clock := s.clock + n } := by
  refine ⟨h.created, h.known, fun w hw => ?_, h.own, h.stored, h.spaced, h.history, h.sent, h.checked, fun t ht => ?_⟩
  · obtain ⟨htime, hrest⟩ := h.written w hw
    exact ⟨htime.trans (Nat.le_add_right ..), hrest⟩
  · have ht := h.tick t ht
    refine ⟨ht.loaded, fun now hn => (ht.now now hn).trans (Nat.le_add_right ..), ht.ids,
      ht.rules, ?_⟩
    have hs := ht.stage
    unfold StageInv at hs ⊢
    split at hs
    · trivial
    · obtain ⟨hr, hid, hc⟩ := hs
      refine ⟨hr, hid, fun last hl => (hc last hl).trans ?_⟩
      push_cast
      exact Int.le_add_of_nonneg_right (Int.natCast_nonneg n)
    · exact hs

/-- The tick moves on and nothing else does. -/
theorem Inv.withTick {s : State κ} (h : Inv s) {t : Option (Tick κ)} (ht : ∀ t' ∈ t, TickInv s t') :
    Inv { s with tick := t } :=
  ⟨h.created, h.known, h.written, h.own, h.stored, h.spaced, h.history, h.sent, h.checked, fun t' h' =>
    ⟨(ht t' h').loaded, (ht t' h').now, (ht t' h').ids, (ht t' h').rules, (ht t' h').stage⟩⟩

theorem TickInv.next {s : State κ} {t : Tick κ} (h : TickInv s t) : TickInv s t.next :=
  ⟨h.loaded, h.now, h.ids, h.rules, trivial⟩

theorem load_inv {s : State κ} (h : Inv s) : TickInv s ⟨getAlertRules s.db true, none, [], getAlertRules s.db true, .checking⟩ := by
  have hmem {p : Rule κ} (hp : p ∈ getAlertRules s.db true) : p ∈ s.db.rules.rows :=
    List.mem_of_mem_filter ((List.mem_insertionSort _).mp hp)
  refine ⟨rfl, by simp, ?_, fun p hp => ⟨h.known p (hmem hp), fun r hr hc => ?_, fun r hr hid => ?_⟩, trivial⟩
  · refine ((List.perm_insertionSort _ _).map Rule.id).nodup_iff.mpr ?_
    exact s.db.rules.nodup.sublist (List.filter_sublist.map Rule.id)
  · rw [List.inj_on_of_nodup_map h.created hr (hmem hp) hc]
  · rw [List.inj_on_of_nodup_map s.db.rules.nodup hr (hmem hp) hid]
    exact .inr rfl

/-- A rule that triggers is out of its cooldown. -/
theorem out_of_cooldown {check : Rule κ → Except Unit (Option Details)} {now : Time} {r : Rule κ} {details : Details}
    (h : checkRule check now r = .ok (some details)) :
    ∀ last ∈ r.lastTriggered, (last : ℤ) + r.cooldownMinutes * 60 * 1000000 ≤ now := by
  intro last hl
  unfold checkRule at h
  split at h
  · cases h
  · rename_i hc
    rw [inCooldown, Option.mem_def.mp hl] at hc
    simp only [decide_eq_true_eq] at hc
    omega

theorem check_inv {s : State κ} {t : Tick κ} (h : TickInv s t) {now : Time} (hn : t.now = some now) {r : Rule κ}
    {rest : List (Rule κ)} (hp : t.pending = r :: rest) (outcome : Except Unit (Option Details)) :
    TickInv s (t.check now outcome r rest) := by
  have hids := h.ids
  rw [hp, List.map_cons, List.nodup_cons] at hids
  have hrule : ∀ p ∈ rest, RuleInv s.db p := fun p hr => h.rules p (hp ▸ List.mem_cons_of_mem r hr)
  refine ⟨?_, h.now, hids.2, hrule, ?_⟩
  · change t.loaded = (t.checked ++ [r]) ++ rest
    rw [h.loaded, hp, List.append_assoc]
    rfl
  · unfold StageInv Tick.check
    dsimp only
    cases hc : checkRule (fun _ => outcome) now r with
    | error => trivial
    | ok details =>
      cases details with
      | none => trivial
      | some details =>
        refine ⟨h.rules r (hp ▸ List.mem_cons_self), hids.1, fun last hl => ?_⟩
        have hnow : (now : ℤ) ≤ s.clock := by exact_mod_cast h.now now hn
        exact (out_of_cooldown hc last hl).trans hnow

/-! ## Recording and notifying -/

theorem find_row {db : AlertDb κ} {ruleId : ℕ} {n : ℕ} (h : rowOf db ruleId = some n) :
    ∃ r ∈ db.rules.rows, r.id = ruleId ∧ r.created = n := by
  obtain ⟨r, hr, rfl⟩ := Option.map_eq_some_iff.mp h
  exact ⟨r, Tables.mem_of_findBy _ hr, Tables.find_key _ hr, rfl⟩

theorem rowOf_mem {db : AlertDb κ} {r : Rule κ} (h : r ∈ db.rules.rows) : rowOf db r.id = some r.created := by
  rw [rowOf, Tables.find_of_mem _ h]
  rfl

theorem writesTo_append (n : ℕ) (writes : List (Write κ)) (w : Write κ) :
    writesTo n (writes ++ [w]) = writesTo n writes ++ if w.row = some n then [w] else [] := by
  rw [writesTo, List.filter_append]
  by_cases h : w.row = some n <;> simp [writesTo, h]

/-- The rows once the engine has recorded a rule. -/
theorem mem_recorded {db : AlertDb κ} {now : Time} {ruleId : ℕ} {details : Details} {q : Rule κ}
    (h : q ∈ (recordAlertTriggered db now ruleId details).rules.rows) :
    ∃ r ∈ db.rules.rows, q.id = r.id ∧ q.created = r.created ∧
      (r.id = ruleId ∧ q.lastTriggered = some now ∨ r.id ≠ ruleId ∧ q.lastTriggered = r.lastTriggered) := by
  obtain ⟨r, hr, rfl⟩ := List.mem_map.mp h
  unfold Tables.setRow
  by_cases hid : r.id = ruleId
  · rw [if_pos hid]
    exact ⟨r, hr, rfl, rfl, .inl ⟨hid, rfl⟩⟩
  · rw [if_neg hid]
    exact ⟨r, hr, rfl, rfl, .inr ⟨hid, rfl⟩⟩

theorem created_recorded (db : AlertDb κ) (now : Time) (ruleId : ℕ) (details : Details) :
    (recordAlertTriggered db now ruleId details).rules.rows.map Rule.created = db.rules.rows.map Rule.created := by
  let write (r : Rule κ) : Rule κ := { r with lastTriggered := some now }
  change (db.rules.rows.map (Tables.setRow Rule.id ruleId write)).map Rule.created = _
  rw [Tables.map_setRow Rule.created (f := write) fun _ => rfl]

/-- A rule that is still pending has another id, so its row is as the tick has read it. -/
theorem RuleInv.recorded {db : AlertDb κ} {p : Rule κ} (h : RuleInv db p) {ruleId : ℕ} (hne : p.id ≠ ruleId) (now : Time)
    (details : Details) : RuleInv (recordAlertTriggered db now ruleId details) p := by
  refine ⟨h.known, fun q hq hc => ?_, fun q hq hid => ?_⟩
  · obtain ⟨r, hr, hqid, hqc, -⟩ := mem_recorded hq
    rw [hqid]
    exact h.same r hr (hqc.symm.trans hc)
  · obtain ⟨r, hr, hqid, -, ⟨hrid, -⟩ | ⟨-, hlast⟩⟩ := mem_recorded hq
    · exact absurd (hid.symm.trans (hqid.trans hrid)) hne
    · rw [hlast]
      exact h.last r hr (hqid.symm.trans hid)

theorem record_spaced {s : State κ} (h : Inv s) {r : Rule κ} (hr : RuleInv s.db r)
    (hc : ∀ last ∈ r.lastTriggered, (last : ℤ) + r.cooldownMinutes * 60 * 1000000 ≤ s.clock) (details : Details) (n : ℕ) :
    (writesTo n (s.writes ++ [⟨r, rowOf s.db r.id, s.clock, details⟩])).IsChain Spaced := by
  rw [writesTo_append]
  by_cases hn : rowOf s.db r.id = some n
  · rw [if_pos hn]
    refine (h.spaced n).append (List.isChain_singleton _) fun w hw v hv => ?_
    obtain rfl := Option.some.inj hv
    obtain ⟨q, hq, hid, rfl⟩ := find_row hn
    have hstored := h.stored q hq
    rw [Option.mem_def.mp hw, Option.map_some] at hstored
    -- The row has been written before, so it is the one that the tick has read.
    rcases hr.last q hq hid with hnone | hsame
    · cases hnone.symm.trans hstored
    · exact hc w.time (Option.mem_def.mpr (hsame.symm.trans hstored))
  · rw [if_neg hn, List.append_nil]
    exact h.spaced n

theorem record_stored {s : State κ} (h : Inv s) (r : Rule κ) (details : Details) {q : Rule κ}
    (hq : q ∈ (recordAlertTriggered s.db s.clock r.id details).rules.rows) :
    q.lastTriggered =
      (writesTo q.created (s.writes ++ [⟨r, rowOf s.db r.id, s.clock, details⟩])).getLast?.map (·.time) := by
  obtain ⟨p, hp, -, hcreated, ⟨hid, hlast⟩ | ⟨hid, hlast⟩⟩ := mem_recorded hq
  · have hrow : rowOf s.db r.id = some q.created := by
      rw [← hid, hcreated]
      exact rowOf_mem hp
    rw [hlast, writesTo_append, if_pos hrow, List.getLast?_concat]
    rfl
  · have hrow : rowOf s.db r.id ≠ some q.created := by
      intro hrow
      obtain ⟨p', hp', hid', hc'⟩ := find_row hrow
      obtain rfl := List.inj_on_of_nodup_map h.created hp' hp (hc'.trans hcreated)
      exact hid hid'
    rw [hlast, writesTo_append, if_neg hrow, List.append_nil, hcreated]
    exact h.stored p hp

theorem record_inv {s : State κ} (h : Inv s) {t : Tick κ} (ht : TickInv s t) {r : Rule κ} {details : Details}
    (hstage : t.stage = .recording r details) : Inv (record r details t s) := by
  have hs := ht.stage
  rw [StageInv, hstage] at hs
  obtain ⟨hr, hid, hc⟩ := hs
  refine ⟨?_, fun q hq => ?_, fun w hw => ?_, fun q hq w hw he => ?_, fun q hq => record_stored h r details hq,
    record_spaced h hr hc details, ?_, fun n channel => ?_, h.checked, fun t' ht' => ?_⟩
  · rw [record, created_recorded]
    exact h.created
  · obtain ⟨p, hp, -, hcreated, -⟩ := mem_recorded hq
    exact hcreated ▸ h.known p hp
  · rcases List.mem_append.mp hw with hw | hw
    · exact h.written w hw
    · obtain rfl := List.mem_singleton.mp hw
      refine ⟨Nat.le_refl _, hr.known, fun n hn => ?_⟩
      obtain ⟨q, hq, -, rfl⟩ := find_row hn
      exact h.known q hq
  · obtain ⟨p, hp, -, hcreated, -⟩ := mem_recorded hq
    rw [hcreated] at he ⊢
    rcases List.mem_append.mp hw with hw | hw
    · exact h.own p hp w hw he
    · obtain rfl := List.mem_singleton.mp hw
      rw [← rowOf_mem hp, hr.same p hp he.symm]
  · rw [record, recordAlertTriggered, List.map_append, h.history]
    rfl
  · refine (h.sent n channel).trans ?_
    rw [record, List.countP_append]
    exact Nat.le_add_right ..
  · obtain rfl := Option.mem_some.mp ht'
    refine ⟨ht.loaded, ht.now, ht.ids, fun p hp => (ht.rules p hp).recorded (fun he => ?_) s.clock details, fun channel => ?_⟩
    · exact hid (he ▸ List.mem_map_of_mem hp)
    · change s.sent.count _ + 1 ≤ (s.writes ++ [_]).countP _
      rw [List.countP_append, List.countP_singleton]
      simpa using h.sent r.created channel

theorem notifications_once (cfg : AlertsConfig) (r : Rule κ) (details : Details) (n : ℕ) (channel : Channel) :
    ((fireNotifications cfg r details).map fun m => (⟨r.created, m.channel⟩ : Sent)).count ⟨n, channel⟩ ≤
      if n = r.created then 1 else 0 := by
  unfold fireNotifications
  by_cases hn : n = r.created
  · subst hn
    cases channel <;> split <;> split <;> simp
  · have hne (c : Channel) : (⟨r.created, c⟩ : Sent) ≠ ⟨n, channel⟩ := fun he => hn (Sent.mk.inj he).1.symm
    split <;> split <;> simp [hne]

theorem notify_inv {s : State κ} (h : Inv s) {t : Tick κ} (ht : TickInv s t) {r : Rule κ} {details : Details}
    (hstage : t.stage = .notifying r details) (cfg : AlertsConfig) :
    Inv { s with
      sent := s.sent ++ (fireNotifications cfg r details).map fun n => ⟨r.created, n.channel⟩
      tick := some t.next } := by
  have hs := ht.stage
  rw [StageInv, hstage] at hs
  refine ⟨h.created, h.known, h.written, h.own, h.stored, h.spaced, h.history, fun n channel => ?_, h.checked,
    fun t' ht' => ?_⟩
  · rw [List.count_append]
    have hone := notifications_once cfg r details n channel
    by_cases hn : n = r.created
    · subst hn
      rw [if_pos rfl] at hone
      exact (Nat.add_le_add_left hone _).trans (hs channel)
    · rw [if_neg hn] at hone
      exact (Nat.add_le_add_left hone _).trans (h.sent n channel)
  · obtain rfl := Option.mem_some.mp ht'
    exact ⟨ht.loaded, ht.now, ht.ids, ht.rules, trivial⟩

/-! ## Runs -/

theorem stepTick_inv {s s' : State κ} (h : Inv s) {t : Tick κ} (ht : TickInv s t) {a : Action κ}
    (hs : stepTick s t a = some s') : Inv s' := by
  cases a with
  | start =>
    obtain ⟨-, hs⟩ := Option.ite_none_right_eq_some.mp hs
    obtain rfl := Option.some.inj hs
    refine h.withTick fun t' ht' => ?_
    obtain rfl := Option.mem_some.mp ht'
    refine ⟨ht.loaded, fun now hn => ?_, ht.ids, ht.rules, ht.stage⟩
    obtain rfl := Option.mem_some.mp hn
    exact Nat.le_refl _
  | check outcome =>
    simp only [stepTick] at hs
    split at hs
    · rename_i now r rest hn hstage hp
      obtain rfl := Option.some.inj hs
      refine h.withTick fun t' ht' => ?_
      obtain rfl := Option.mem_some.mp ht'
      exact check_inv ht hn hp outcome
    · cases hs
  | record ok =>
    simp only [stepTick] at hs
    split at hs
    · rename_i r details hstage
      obtain rfl := Option.some.inj hs
      cases ok with
      | true => exact record_inv h ht hstage
      | false =>
        refine h.withTick fun t' ht' => ?_
        obtain rfl := Option.mem_some.mp ht'
        exact ht.next
    · cases hs
  | notify cfg =>
    simp only [stepTick] at hs
    split at hs
    · rename_i r details hstage
      obtain rfl := Option.some.inj hs
      exact notify_inv h ht hstage cfg
    · cases hs
  | finish =>
    simp only [stepTick] at hs
    split at hs
    · rename_i hstage hp
      obtain rfl := Option.some.inj hs
      refine ⟨h.created, h.known, h.written, h.own, h.stored, h.spaced, h.history, h.sent, fun p hf => ?_,
        fun t' ht' => by cases ht'⟩
      rcases List.mem_append.mp hf with hf | hf
      · exact h.checked p hf
      · obtain rfl := List.mem_singleton.mp hf
        rw [ht.loaded, hp, List.append_nil]
    · cases hs
  | create | update | delete | advance | load | restart => cases hs

theorem step_inv {s s' : State κ} (h : Inv s) {a : Action κ} (hs : step s a = some s') : Inv s' := by
  cases a with
  | create data =>
    obtain rfl := Option.some.inj hs
    exact h.edit (create_edit h data)
  | update ruleId data =>
    obtain rfl := Option.some.inj hs
    exact h.edit (update_edit h ruleId data)
  | delete ruleId =>
    obtain rfl := Option.some.inj hs
    exact h.edit (delete_edit h ruleId)
  | advance n =>
    obtain rfl := Option.some.inj hs
    exact h.advance n
  | load =>
    simp only [step] at hs
    split at hs
    · cases hs
    · split at hs
      · obtain rfl := Option.some.inj hs
        exact h
      · obtain rfl := Option.some.inj hs
        refine h.withTick fun t ht => ?_
        obtain rfl := Option.mem_some.mp ht
        exact load_inv h
  | restart =>
    obtain rfl := Option.some.inj hs
    exact h.withTick fun t ht => by cases ht
  | start | check | record | notify | finish =>
    obtain ⟨t, ht, hs⟩ := Option.bind_eq_some_iff.mp hs
    exact stepTick_inv h (h.tick t ht) hs

theorem boot_inv : Inv (boot : State κ) := by
  refine ⟨List.nodup_nil, ?_, ?_, ?_, ?_, fun n => .nil, rfl, ?_, ?_, ?_⟩ <;> simp [boot]

/-- **The cooldown is kept** in every run: the values written to a row are spaced by the cooldown that
the later tick has read, its notifications are sent at most once for each of them, and a tick that ends
has checked every rule. -/
theorem cooldown_kept (as : List (Action κ)) : Visited step CooldownKept boot as :=
  visited_of_invariant (fun _ => Inv.kept) (fun _ _ _ h _ hs => step_inv h hs) boot_inv
    (along_of_mem (fun _ _ _ _ => trivial) boot)

/-! ## A rule deleted within a tick -/

def emailRule : RuleData Unit := ⟨"busy", true, "threshold", (), 30, ["email"]⟩

/-- The rule is deleted between its check and the record. -/
def deletedMeanwhile : List (Action Unit) :=
  [.create emailRule, .load, .start, .check (.ok (some ⟨"request_rate", 1, 0⟩)), .delete 1, .record true,
    .notify ⟨true, true⟩]

theorem notified_without_write :
    ¬ Visited step (fun s => ∀ n channel, s.sent.count ⟨n, channel⟩ ≤ (writesTo n s.writes).length) boot
      deletedMeanwhile := by
  intro hv
  have hle := hv.of_exec rfl 0 .email
  revert hle
  decide

end Cadsa.Alerts
