import Cadsa.Db.Timeseries
import Cadsa.Lib.IsoTime

/-! A day of the calendar on its way from the page to the rows of a query: `modeToApiParam` sends local midnight
with the offset it has, `resolve_time_range` adds 24 hours, and the range of `build_where` has both its ends. -/
namespace Cadsa.CustomDay
open IsoTime Analytics
set_option autoImplicit false

/-- Instants and local times are microseconds since the year 1. -/
structure Zone where
  /-- The minutes that clocks are ahead of UTC. -/
  offset : ℤ → ℤ
  bounded : ∀ t, (offset t).natAbs < 1440
  /-- The instant that a browser makes of a local time, one that occurs twice or never included. -/
  utc : ℤ → ℤ

def Zone.clock (z : Zone) (t : ℤ) : ℤ := t + z.offset t * 60000000

/-- The number of the calendar day. -/
def Zone.date (z : Zone) (t : ℤ) : ℤ := z.clock t / 86400000000

/-! ## The page -/

inductive DateMode where
  | preset (preset : String)
  | custom (date : ℤ)

def Zone.midnight (z : Zone) (date : ℤ) : ℤ := z.utc (z.date date * 86400000000)

def dateText (date : Date) : List Char :=
  Nat.toDigits 10 (date.year + 1) ++ '-' :: (pad 2 (date.month + 1) ++ '-' :: pad 2 (date.day + 1))

/-- What stands before the equals sign, and after it. -/
def modeToApiParam (z : Zone) : DateMode → String × String
  | .preset preset => ("period", preset)
  | .custom date =>
    let midnight := z.midnight date
    ("date", String.ofList (dateText (dateOf (z.date midnight).toNat) ++
      ("T00:00:00".toList ++ offsetText (z.offset midnight))))

/-! ## The server -/

structure TimeRange where
  fromTs : Db.Time
  toTs : Db.Time
  bucket : String
  granularity : String

def periodCfg : List (String × ℕ × String × String) :=
  [("l15m", Db.minutes 15, "1 minute", "minute"), ("l1h", Db.minutes 60, "1 minute", "minute"),
    ("l6h", Db.minutes 360, "15 minutes", "15min"), ("l24h", Db.minutes 1440, "1 hour", "hour"),
    ("l7d", Db.minutes 10080, "8 hours", "8hour"), ("l30d", Db.minutes 43200, "1 day", "day")]

def l24h : ℕ × String × String := (Db.minutes 1440, "1 hour", "hour")

/-- Nothing where Python raises, outside the years 1 to 9999. -/
def astimezone (t : Aware) : Option Datetime :=
  let utc := (t.clock - t.offset * 60000000).toNat
  if h : 0 ≤ t.clock - t.offset * 60000000 ∧ utc < daysBeforeYear 9999 * 86400000000 then some ⟨utc, h.2⟩ else none

def dayRange (fromisoformat : String → Option Aware) (date : String) : Option TimeRange := do
  let localMidnight ← fromisoformat date
  let fromTs ← astimezone localMidnight
  let toTs ← fromTs.add (Db.minutes 1440)
  pure ⟨fromTs.micros, toTs.micros, "1 hour", "hour"⟩

def resolveTimeRange (fromisoformat : String → Option Aware) (now : Datetime) (period date : Option String) : TimeRange :=
  let (delta, bucket, granularity) := (periodCfg.lookup (if period.getD "" = "" then "l24h" else period.getD "")).getD l24h
  let recent : TimeRange := ⟨now.micros - delta, now.micros, bucket, granularity⟩
  if date.getD "" = "" then recent else (dayRange fromisoformat (date.getD "")).getD recent

/-- The parameter in the query string. -/
def requested (fromisoformat : String → Option Aware) (now : Datetime) (param : String × String) : TimeRange :=
  resolveTimeRange fromisoformat now (if param.1 = "period" then some param.2 else none)
    (if param.1 = "date" then some param.2 else none)

def rangeOf (fromisoformat : String → Option Aware) (z : Zone) (now : Datetime) (date : ℤ) : TimeRange :=
  requested fromisoformat now (modeToApiParam z (.custom date))

/-- The row meets the conditions of a query without filters. -/
def TimeRange.selects (range : TimeRange) (r : Request) : Bool :=
  (conditionsOf range.fromTs range.toTs none).all (·.holds r)

/-! ## Days and windows -/

/-- Midnight, as the browser has it, is in a year of four digits, and not in the last two days of these. -/
def Sendable (z : Zone) (date : ℤ) : Prop :=
  daysBeforeYear 999 ≤ z.date (z.midnight date) ∧ z.date (z.midnight date) + 2 ≤ daysBeforeYear 9999

/-- The instant that stands in the request. -/
def opening (z : Zone) (date : ℤ) : ℤ :=
  z.date (z.midnight date) * 86400000000 - z.offset (z.midnight date) * 60000000

def elapsed (z : Zone) (date t : ℤ) : ℤ := t - opening z date

/-- How far clocks are ahead of one that shows the midnight of the day at the opening and is never put forward
or back. -/
def lead (z : Zone) (date t : ℤ) : ℤ := z.clock t - z.date date * 86400000000 - elapsed z date t

/-- With an even clock only the closing instant is wrong; else as much of both ends as it was put forward or back. -/
structure InStep (lead elapsed : ℤ) : Prop where
  even : lead = 0 → elapsed ≠ 86400000000
  ahead : 0 < lead → ¬ (-lead ≤ elapsed ∧ elapsed < min 0 (86400000000 - lead)) ∧
    ¬ (max 0 (86400000000 - lead) ≤ elapsed ∧ elapsed ≤ 86400000000)
  behind : lead < 0 → ¬ (0 ≤ elapsed ∧ elapsed < -lead ∧ elapsed ≤ 86400000000) ∧
    ¬ (86400000000 < elapsed ∧ -lead ≤ elapsed ∧ elapsed < 86400000000 - lead)

def TimeRange.contains (range : TimeRange) (t : ℕ) : Prop := range.fromTs ≤ t ∧ t ≤ range.toTs

/-- No instant is in both ranges, and none between them is in neither. -/
def Tile (a b : TimeRange) : Prop :=
  (∀ t, ¬ (a.contains t ∧ b.contains t)) ∧
    ∀ t, min a.fromTs b.fromTs ≤ t → t ≤ max a.toTs b.toTs → a.contains t ∨ b.contains t

section
variable {fromisoformat : String → Option Aware} {z : Zone} {date : ℤ}

theorem dateText_eq {day : ℕ} (h : daysBeforeYear 999 ≤ day) (hday : day < daysBeforeYear 9999) (offset : ℤ) :
    dateText (dateOf day) ++ ("T00:00:00".toList ++ offsetText offset) = midnightText day offset := by
  have hyear : 999 ≤ (dateOf day).year := Nat.le_findGreatest (P := fun k => daysBeforeYear k ≤ day) (by decide) h
  have hlast := (dateOf_bounds hday).1
  have htime : "T00:00:00".toList = 'T' :: (pad 2 0 ++ ':' :: (pad 2 0 ++ ':' :: pad 2 0)) := by decide
  rw [midnightText, dateText, ← pad_four (by omega) (by omega), htime]
  simp only [render, layout, List.append_assoc, List.cons_append, List.nil_append]

theorem midnightText_ne_empty (day : ℕ) (offset : ℤ) : String.ofList (midnightText day offset) ≠ "" := by
  intro h
  have hlist := congrArg String.toList h
  rw [String.toList_ofList, midnightText] at hlist
  simp [render, layout, pad] at hlist

/-- The day that is read back: 24 hours from the instant that its midnight denotes. -/
theorem dayRange_midnight (hread : ReadsMidnight fromisoformat) {day start : ℕ} {offset : ℤ}
    (hday : day < daysBeforeYear 9999) (hoffset : offset.natAbs < 1440)
    (hstart : (day : ℤ) * 86400000000 - offset * 60000000 = start)
    (hupper : start + 86400000000 < daysBeforeYear 9999 * 86400000000) :
    dayRange fromisoformat (String.ofList (midnightText day offset)) =
      some ⟨start, Db.minutes 1440 + start, "1 hour", "hour"⟩ := by
  have hlast : start < daysBeforeYear 9999 * 86400000000 := Nat.lt_of_le_of_lt (Nat.le_add_right _ _) hupper
  have hutc : astimezone ⟨day * 86400000000, offset⟩ = some ⟨start, hlast⟩ := by
    simp only [astimezone, hstart, Int.toNat_natCast]
    exact dif_pos ⟨Int.natCast_nonneg start, hlast⟩
  have hadd : Db.minutes 1440 + start < daysBeforeYear 9999 * 86400000000 := by
    rw [Nat.add_comm]
    exact hupper
  rw [dayRange, hread day offset hday hoffset]
  simp only [Option.bind_eq_bind, Option.bind_some, hutc, Datetime.add, dif_pos hadd]
  rfl

theorem rangeOf_custom (now : Datetime) {day : ℕ} {range : TimeRange} (hday : z.date (z.midnight date) = day)
    (hfirst : daysBeforeYear 999 ≤ day) (hlast : day < daysBeforeYear 9999)
    (hrange : dayRange fromisoformat (String.ofList (midnightText day (z.offset (z.midnight date)))) = some range) :
    rangeOf fromisoformat z now date = range := by
  have htext : (modeToApiParam z (.custom date)).2 = String.ofList (midnightText day (z.offset (z.midnight date))) := by
    simp only [modeToApiParam, hday, Int.toNat_natCast, dateText_eq hfirst hlast]
  have hkey : (modeToApiParam z (.custom date)).1 = "date" := rfl
  rw [rangeOf, requested, hkey, if_neg (by decide), if_pos rfl, htext, resolveTimeRange]
  simp only [Option.getD_some, if_neg (midnightText_ne_empty day _), hrange]

/-- The window of a day: 24 hours from the opening. -/
theorem rangeOf_spec (now : Datetime) (hread : ReadsMidnight fromisoformat) (hdate : Sendable z date) :
    ((rangeOf fromisoformat z now date).fromTs : ℤ) = opening z date ∧
      ((rangeOf fromisoformat z now date).toTs : ℤ) = opening z date + 86400000000 := by
  obtain ⟨hearliest, hlatest⟩ := hdate
  obtain ⟨day, hday⟩ : ∃ day : ℕ, z.date (z.midnight date) = day := ⟨(z.date (z.midnight date)).toNat, by omega⟩
  rw [hday] at hearliest hlatest
  have hfirst : daysBeforeYear 999 ≤ day := by omega
  have hlast : day < daysBeforeYear 9999 := by omega
  have hoffset := z.bounded (z.midnight date)
  have hfour : daysBeforeYear 999 = 364877 := by decide
  have hopening : opening z date = (day : ℤ) * 86400000000 - z.offset (z.midnight date) * 60000000 := by
    rw [opening, hday]
  obtain ⟨start, hstart⟩ : ∃ start : ℕ, opening z date = start := ⟨(opening z date).toNat, by omega⟩
  have hrange := dayRange_midnight hread hlast hoffset (hopening.symm.trans hstart) (by omega)
  have hday24 : Db.minutes 1440 = 86400000000 := by decide
  rw [rangeOf_custom now hday hfirst hlast hrange, hday24, hstart]
  constructor
  · rfl
  · rw [Nat.cast_add]
    omega

theorem selects_iff (range : TimeRange) (r : Request) :
    range.selects r = true ↔ (range.fromTs : ℤ) ≤ r.ts ∧ (r.ts : ℤ) ≤ range.toTs := by
  simp [TimeRange.selects, conditionsOf, Condition.holds]

/-- Clocks show the day while they are less than a day past its midnight. -/
theorem date_eq_iff (t : ℤ) : z.date t = z.date date ↔
    0 ≤ elapsed z date t + lead z date t ∧ elapsed z date t + lead z date t < 86400000000 := by
  have hclock : elapsed z date t + lead z date t = z.clock t - z.date date * 86400000000 := by
    rw [lead]
    omega
  rw [hclock, Zone.date]
  omega

theorem inStep_iff (lead elapsed : ℤ) : InStep lead elapsed ↔
    ((0 ≤ elapsed ∧ elapsed ≤ 86400000000) ↔ (0 ≤ elapsed + lead ∧ elapsed + lead < 86400000000)) := by
  constructor
  · rintro ⟨heven, hahead, hbehind⟩
    rcases lt_trichotomy lead 0 with h | h | h
    · have := hbehind h
      omega
    · have := heven h
      omega
    · have := hahead h
      omega
  · intro h
    exact ⟨by omega, by omega, by omega⟩

/-- A window opens at a whole minute. -/
theorem opening_mod (z : Zone) (date : ℤ) : opening z date % 60000000 = 0 := by
  rw [opening]
  omega

theorem Tile.symm {a b : TimeRange} (h : Tile a b) : Tile b a := by
  obtain ⟨hdisjoint, hcover⟩ := h
  refine ⟨fun t ht => hdisjoint t ht.symm, fun t hmin hmax => (hcover t ?_ ?_).symm⟩
  · rwa [min_comm]
  · rwa [max_comm]

/-- The second range begins in the first, or there is a gap behind the first, which ends at a whole minute too. -/
theorem overlap_or_gap (a a' b b' : ℕ) (ha : a % 60000000 = 0) (hb : b % 60000000 = 0) (hto : a' = a + 86400000000)
    (hto' : b' = b + 86400000000) (hle : a ≤ b) :
    (a ≤ b ∧ b ≤ a' ∧ b ≤ b') ∨ (a ≤ a' + 1 ∧ a' + 1 ≤ b' ∧ ¬ a' + 1 ≤ a' ∧ ¬ b ≤ a' + 1) := by
  omega

theorem not_tile_of_le {a b : TimeRange} (ha : (a.fromTs : ℤ) % 60000000 = 0) (hb : (b.fromTs : ℤ) % 60000000 = 0)
    (hto : (a.toTs : ℤ) = a.fromTs + 86400000000) (hto' : (b.toTs : ℤ) = b.fromTs + 86400000000)
    (hle : (a.fromTs : ℤ) ≤ b.fromTs) : ¬ Tile a b := by
  rintro ⟨hdisjoint, hcover⟩
  have hle' : a.fromTs ≤ b.fromTs := Int.ofNat_le.mp hle
  rcases overlap_or_gap a.fromTs a.toTs b.fromTs b.toTs (by omega) (by omega) (by omega) (by omega) hle' with
    ⟨h₁, h₂, h₃⟩ | ⟨h₁, h₂, h₃, h₄⟩
  · exact hdisjoint b.fromTs ⟨⟨h₁, h₂⟩, Nat.le_refl _, h₃⟩
  · rcases hcover (a.toTs + 1) ((min_le_left _ _).trans h₁) (h₂.trans (le_max_right _ _)) with h | h
    · exact h₃ h.2
    · exact h₄ h.1

theorem not_tile (now : Datetime) {next : ℤ} (hread : ReadsMidnight fromisoformat) (hdate : Sendable z date) (hnext : Sendable z next) :
    ¬ Tile (rangeOf fromisoformat z now date) (rangeOf fromisoformat z now next) := by
  obtain ⟨hfrom, hto⟩ := rangeOf_spec now hread hdate
  obtain ⟨hfrom', hto'⟩ := rangeOf_spec now hread hnext
  have hmod := opening_mod z date
  have hmod' := opening_mod z next
  rw [← hfrom] at hmod hto
  rw [← hfrom'] at hmod' hto'
  rcases le_total ((rangeOf fromisoformat z now date).fromTs : ℤ) (rangeOf fromisoformat z now next).fromTs with hle | hle
  · exact not_tile_of_le hmod hmod' hto hto' hle
  · exact fun h => not_tile_of_le hmod' hmod hto' hto hle h.symm

/-- **A custom day.** A row of the day is selected, and one of another day is not, if and only if clocks are in
step; and the windows of two days never fit together. -/
theorem custom_day_iff (now : Datetime) (hread : ReadsMidnight fromisoformat) (hdate : Sendable z date) :
    (∀ r : Request, ((rangeOf fromisoformat z now date).selects r = true ↔ z.date r.ts = z.date date) ↔
      InStep (lead z date r.ts) (elapsed z date r.ts)) ∧
    ∀ next, Sendable z next → ¬ Tile (rangeOf fromisoformat z now date) (rangeOf fromisoformat z now next) := by
  refine ⟨fun r => ?_, fun next hnext => not_tile now hread hdate hnext⟩
  obtain ⟨hfrom, hto⟩ := rangeOf_spec now hread hdate
  have hwindow : (rangeOf fromisoformat z now date).selects r = true ↔
      0 ≤ elapsed z date r.ts ∧ elapsed z date r.ts ≤ 86400000000 := by
    rw [selects_iff, elapsed]
    omega
  rw [hwindow, date_eq_iff, inStep_iff]

end

def greenwich : Zone where
  offset _ := 0
  bounded _ := by decide
  utc t := t

/-- Noon of the thirteenth of January 2024. -/
def thirteenth : ℤ := 738897 * 86400000000 + 43200000000

def someNow : Datetime := ⟨0, by decide⟩

def requestAt (ts : Db.Time) : Request := ⟨ts, "a.example", "10.0.0.1", none, none, none, none, none, none, none, none⟩

theorem sendable_thirteenth : Sendable greenwich thirteenth := by
  constructor <;> decide

theorem noon_selected :
    (rangeOf readMidnight greenwich someNow thirteenth).selects (requestAt (738897 * 86400000000 + 43200000000)) = true :=
  (((custom_day_iff someNow readsMidnight_readMidnight sendable_thirteenth).1 _).mpr
    ⟨by decide, by decide, by decide⟩).mpr rfl

/-- The first instant of the fourteenth belongs to the thirteenth too. -/
theorem next_midnight_selected : Sendable greenwich thirteenth ∧
    (rangeOf readMidnight greenwich someNow thirteenth).selects (requestAt (738898 * 86400000000)) = true ∧
    greenwich.date (738898 * 86400000000) ≠ greenwich.date thirteenth := by
  refine ⟨sendable_thirteenth, ?_, ?_⟩ <;> decide +kernel

end Cadsa.CustomDay
