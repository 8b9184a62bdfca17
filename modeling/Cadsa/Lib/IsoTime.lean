import Mathlib.Algebra.Order.Group.Nat
import Mathlib.Algebra.Group.Nat.Defs
import Mathlib.Data.List.Forall2
import Mathlib.Data.Nat.Find
import Mathlib.Tactic.IntervalCases

/-! Times in UTC as `datetime.isoformat` writes them: a date of the Gregorian calendar, the time of day, and
the microseconds unless there are none. Comparing the texts compares the times. -/
namespace IsoTime
set_option autoImplicit false

/-! ## Numbers of a fixed width -/

/-- The last `width` decimal digits. -/
def pad : ℕ → ℕ → List Char
  | 0, _ => []
  | width + 1, n => Nat.digitChar (n / 10 ^ width) :: pad width (n % 10 ^ width)

theorem length_pad (width n : ℕ) : (pad width n).length = width := by
  induction width generalizing n with
  | zero => rfl
  | succ width ih => rw [pad, List.length_cons, ih]

/-- Reading the digits gives the number. -/
theorem ofDigitChars_pad {width n : ℕ} (h : n < 10 ^ width) (init : ℕ) :
    Nat.ofDigitChars 10 (pad width n) init = 10 ^ width * init + n := by
  induction width generalizing n init with
  | zero =>
    rw [pad, Nat.ofDigitChars_nil]
    omega
  | succ width ih =>
    have hpos : 0 < 10 ^ width := Nat.pow_pos (by decide)
    have hten : n / 10 ^ width < 10 := by
      rw [Nat.div_lt_iff_lt_mul hpos, ← Nat.pow_succ']
      exact h
    rw [pad, Nat.ofDigitChars_cons_digitChar_of_lt_ten hten, ih (Nat.mod_lt n hpos), Nat.mul_add, Nat.add_assoc,
      Nat.div_add_mod, Nat.pow_succ, Nat.mul_assoc]

/-- Four digits are those of the number itself when none in front is a zero. -/
theorem pad_four {n : ℕ} (h : 1000 ≤ n) (hn : n < 10000) : pad 4 n = Nat.toDigits 10 n := by
  rw [Nat.toDigits_of_base_le (by decide) (show 10 ≤ n by omega),
    Nat.toDigits_of_base_le (by decide) (show 10 ≤ n / 10 by omega),
    Nat.toDigits_of_base_le (by decide) (show 10 ≤ n / 10 / 10 by omega),
    Nat.toDigits_of_lt_base (show n / 10 / 10 / 10 < 10 by omega)]
  have h1 : n / 10 ^ 3 = n / 10 / 10 / 10 := by omega
  have h2 : n % 10 ^ 3 / 10 ^ 2 = n / 10 / 10 % 10 := by omega
  have h3 : n % 10 ^ 3 % 10 ^ 2 / 10 ^ 1 = n / 10 % 10 := by omega
  have h4 : n % 10 ^ 3 % 10 ^ 2 % 10 ^ 1 / 10 ^ 0 = n % 10 := by omega
  simp only [pad, h1, h2, h3, h4]
  rfl

theorem digitChar_lt {a b : ℕ} (h : a < b) (hb : b < 10) : Nat.digitChar a < Nat.digitChar b := by
  have ha : a < 10 := h.trans hb
  interval_cases b <;> interval_cases a <;> decide

theorem pad_lt {width m n : ℕ} (h : m < n) (hn : n < 10 ^ width) : pad width m < pad width n := by
  induction width generalizing m n with
  | zero => omega
  | succ width ih =>
    have hpos : 0 < 10 ^ width := Nat.pow_pos (by decide)
    have hten : n / 10 ^ width < 10 := by
      rw [Nat.div_lt_iff_lt_mul hpos, ← Nat.pow_succ']
      exact hn
    rw [pad, pad, List.cons_lt_cons_iff]
    rcases Nat.lt_or_eq_of_le (Nat.div_le_div_right (c := 10 ^ width) h.le) with hlt | heq
    · exact .inl (digitChar_lt hlt hten)
    · refine .inr ⟨by rw [heq], ih ?_ (Nat.mod_lt _ hpos)⟩
      have hm := Nat.div_add_mod m (10 ^ width)
      have hn := Nat.div_add_mod n (10 ^ width)
      rw [heq] at hm
      omega

/-! ## Texts made of fields -/

theorem append_lt_append {a b : List Char} (hlen : a.length = b.length) (h : a < b) (s t : List Char) :
    a ++ s < b ++ t := by
  induction a generalizing b with
  | nil =>
    obtain rfl := List.length_eq_zero_iff.mp hlen.symm
    exact absurd h (List.lt_irrefl _)
  | cons c a ih =>
    cases b with
    | nil => cases hlen
    | cons d b =>
      rw [List.cons_append, List.cons_append, List.cons_lt_cons_iff]
      rcases List.cons_lt_cons_iff.mp h with hlt | ⟨heq, hlt⟩
      · exact .inl hlt
      · exact .inr ⟨heq, ih (Nat.succ.inj hlen) hlt⟩

/-- Each field with so many digits, and what stands after it. -/
def render : List (ℕ × List Char) → List ℕ → List Char
  | (width, separator) :: layout, v :: values => pad width v ++ (separator ++ render layout values)
  | _, _ => []

def Fits (layout : List (ℕ × List Char)) (values : List ℕ) : Prop := List.Forall₂ (fun l v => v < 10 ^ l.1) layout values

theorem render_lt {layout : List (ℕ × List Char)} {values values' : List ℕ} (hv : Fits layout values)
    (hv' : Fits layout values') (h : values < values') (s t : List Char) :
    render layout values ++ s < render layout values' ++ t := by
  induction hv generalizing values' with
  | nil =>
    cases hv'
    exact absurd h (List.lt_irrefl _)
  | @cons l v layout values hfit hv ih =>
    cases hv' with
    | @cons _ v' _ values' hfit' hv' =>
      simp only [render, List.append_assoc]
      rcases List.cons_lt_cons_iff.mp h with hlt | ⟨rfl, hlt⟩
      · exact append_lt_append (by rw [length_pad, length_pad]) (pad_lt hlt hfit') _ _
      · exact List.append_left_lt (List.append_left_lt (ih hv' hlt))

/-! ## The calendar -/

/-- The greatest index whose start is not after `n`. -/
def indexOf (start : ℕ → ℕ) (last n : ℕ) : ℕ := Nat.findGreatest (fun k => start k ≤ n) last

theorem indexOf_le (start : ℕ → ℕ) (last n : ℕ) : indexOf start last n ≤ last := Nat.findGreatest_le last

theorem start_indexOf (start : ℕ → ℕ) (h0 : start 0 = 0) (last n : ℕ) : start (indexOf start last n) ≤ n :=
  Nat.findGreatest_spec (P := fun k => start k ≤ n) (Nat.zero_le last) (by rw [h0]; exact Nat.zero_le n)

theorem lt_start_succ {start : ℕ → ℕ} {last n : ℕ} (h : indexOf start last n < last) :
    n < start (indexOf start last n + 1) :=
  Nat.lt_of_not_le (Nat.findGreatest_is_greatest (P := fun k => start k ≤ n) (Nat.lt_succ_self _) h)

theorem indexOf_mono (start : ℕ → ℕ) (last : ℕ) {m n : ℕ} (h : m ≤ n) : indexOf start last m ≤ indexOf start last n :=
  Nat.findGreatest_mono_left (fun _ hk => hk.trans h) last

/-- The days before a year, the first one being 0. -/
def daysBeforeYear (y : ℕ) : ℕ := 365 * y + y / 4 - y / 100 + y / 400

def isLeap (y : ℕ) : Bool := 4 ∣ y + 1 ∧ (¬ 100 ∣ y + 1 ∨ 400 ∣ y + 1)

def daysBeforeMonth (leap : Bool) (m : ℕ) : ℕ :=
  [0, 31, 59, 90, 120, 151, 181, 212, 243, 273, 304, 334, 365].getD m 365 + if leap && 2 ≤ m then 1 else 0

/-- Years, months and days of a date count from 0. -/
structure Date where
  year : ℕ
  month : ℕ
  day : ℕ

def dateOf (day : ℕ) : Date :=
  let y := indexOf daysBeforeYear 9998 day
  let dayOfYear := day - daysBeforeYear y
  let m := indexOf (daysBeforeMonth (isLeap y)) 11 dayOfYear
  ⟨y, m, dayOfYear - daysBeforeMonth (isLeap y) m⟩

/-- The number of the date in the calendar. -/
def dayOf (date : Date) : ℕ := daysBeforeYear date.year + (daysBeforeMonth (isLeap date.year) date.month + date.day)

theorem daysBeforeYear_succ (y : ℕ) :
    daysBeforeYear (y + 1) = daysBeforeYear y + 365 + if isLeap y then 1 else 0 := by
  have hle : y / 100 ≤ y / 4 := Nat.div_le_div_left (by decide) (by decide)
  rw [daysBeforeYear, daysBeforeYear, Nat.succ_div, Nat.succ_div, Nat.succ_div]
  by_cases h400 : 400 ∣ y + 1
  · have h100 : 100 ∣ y + 1 := Nat.dvd_trans (by decide) h400
    have h4 : 4 ∣ y + 1 := Nat.dvd_trans (by decide) h400
    have hleap : isLeap y = true := decide_eq_true ⟨h4, .inr h400⟩
    rw [if_pos h4, if_pos h100, if_pos h400, if_pos hleap]
    generalize y / 4 = q at hle ⊢
    omega
  · by_cases h100 : 100 ∣ y + 1
    · have h4 : 4 ∣ y + 1 := Nat.dvd_trans (by decide) h100
      have hleap : ¬ isLeap y = true := by simp [isLeap, h100, h400]
      rw [if_pos h4, if_pos h100, if_neg h400, if_neg hleap]
      generalize y / 4 = q at hle ⊢
      omega
    · by_cases h4 : 4 ∣ y + 1
      · have hleap : isLeap y = true := decide_eq_true ⟨h4, .inl h100⟩
        rw [if_pos h4, if_neg h100, if_neg h400, if_pos hleap]
        generalize y / 4 = q at hle ⊢
        omega
      · have hleap : ¬ isLeap y = true := by simp [isLeap, h4]
        rw [if_neg h4, if_neg h100, if_neg h400, if_neg hleap]
        generalize y / 4 = q at hle ⊢
        omega

theorem daysBeforeMonth_zero (leap : Bool) : daysBeforeMonth leap 0 = 0 := by cases leap <;> rfl

theorem daysBeforeMonth_twelve (leap : Bool) : daysBeforeMonth leap 12 = 365 + if leap then 1 else 0 := by
  cases leap <;> rfl

theorem daysBeforeMonth_succ (leap : Bool) {m : ℕ} (h : m < 12) :
    daysBeforeMonth leap (m + 1) ≤ daysBeforeMonth leap m + 31 := by
  interval_cases m <;> cases leap <;> decide

/-- Later days have later dates. -/
theorem dateOf_lt {a b : ℕ} (h : a < b) : (dateOf a).year < (dateOf b).year ∨ (dateOf a).year = (dateOf b).year ∧
    ((dateOf a).month < (dateOf b).month ∨ (dateOf a).month = (dateOf b).month ∧ (dateOf a).day < (dateOf b).day) := by
  simp only [dateOf]
  have hyear := indexOf_mono daysBeforeYear 9998 h.le
  have hstart := start_indexOf daysBeforeYear rfl 9998 a
  rcases Nat.lt_or_eq_of_le hyear with hlt | heq
  · exact .inl hlt
  · rw [heq] at hstart ⊢
    generalize indexOf daysBeforeYear 9998 b = y at hstart ⊢
    refine .inr ⟨rfl, ?_⟩
    have hday : a - daysBeforeYear y < b - daysBeforeYear y := by omega
    have hmonth := indexOf_mono (daysBeforeMonth (isLeap y)) 11 hday.le
    have hfirst := start_indexOf (daysBeforeMonth (isLeap y)) (daysBeforeMonth_zero _) 11 (a - daysBeforeYear y)
    rcases Nat.lt_or_eq_of_le hmonth with hlt | heq
    · exact .inl hlt
    · rw [heq] at hfirst ⊢
      exact .inr ⟨rfl, by omega⟩

theorem dayOf_dateOf (day : ℕ) : dayOf (dateOf day) = day := by
  have hyear := start_indexOf daysBeforeYear rfl 9998 day
  have hmonth := start_indexOf (daysBeforeMonth (isLeap (indexOf daysBeforeYear 9998 day))) (daysBeforeMonth_zero _) 11
    (day - daysBeforeYear (indexOf daysBeforeYear 9998 day))
  simp only [dayOf, dateOf]
  rw [Nat.add_sub_cancel' hmonth, Nat.add_sub_cancel' hyear]

/-- In a date of the years up to 9999 every number has its two digits, and the year its four. -/
theorem dateOf_bounds {day : ℕ} (h : day < daysBeforeYear 9999) :
    (dateOf day).year ≤ 9998 ∧ (dateOf day).month ≤ 11 ∧ (dateOf day).day < 31 := by
  simp only [dateOf]
  have hyear := indexOf_le daysBeforeYear 9998 day
  have hnext : day < daysBeforeYear (indexOf daysBeforeYear 9998 day + 1) := by
    rcases Nat.lt_or_eq_of_le hyear with hlt | heq
    · exact lt_start_succ hlt
    · rw [heq]
      exact h
  rw [daysBeforeYear_succ] at hnext
  generalize indexOf daysBeforeYear 9998 day = y at hyear hnext ⊢
  refine ⟨hyear, indexOf_le .., ?_⟩
  have hmonth := indexOf_le (daysBeforeMonth (isLeap y)) 11 (day - daysBeforeYear y)
  have hafter : day - daysBeforeYear y < daysBeforeMonth (isLeap y) (indexOf (daysBeforeMonth (isLeap y)) 11
      (day - daysBeforeYear y) + 1) := by
    rcases Nat.lt_or_eq_of_le hmonth with hlt | heq
    · exact lt_start_succ hlt
    · rw [heq, daysBeforeMonth_twelve]
      omega
  have hlength := daysBeforeMonth_succ (isLeap y) (Nat.lt_succ_of_le hmonth)
  omega

/-! ## `isoformat` -/

/-- A `datetime` in UTC: the microseconds since the first of January of the year 1. -/
structure Datetime where
  micros : ℕ
  lt : micros < daysBeforeYear 9999 * 86400000000
  deriving DecidableEq

/-- Nothing where the sum is after the year 9999, and Python raises. -/
def Datetime.add (t : Datetime) (micros : ℕ) : Option Datetime :=
  if h : micros + t.micros < daysBeforeYear 9999 * 86400000000 then some ⟨micros + t.micros, h⟩ else none

theorem Datetime.add_micros {t t' : Datetime} {micros : ℕ} (h : t.add micros = some t') :
    t'.micros = t.micros + micros := by
  rw [Datetime.add] at h
  split_ifs at h
  cases h
  exact Nat.add_comm ..

def layout : List (ℕ × List Char) := [(4, ['-']), (2, ['-']), (2, ['T']), (2, [':']), (2, [':']), (2, [])]

def Datetime.values (t : Datetime) : List ℕ :=
  let seconds := t.micros / 1000000
  let date := dateOf (seconds / 86400)
  let time := seconds % 86400
  [date.year + 1, date.month + 1, date.day + 1, time / 3600, time / 60 % 60, time % 60]

def fraction (micros : ℕ) : List Char := if micros = 0 then [] else '.' :: pad 6 micros

def offset : List Char := ['+', '0', '0', ':', '0', '0']

def Datetime.isoformat (t : Datetime) : String :=
  String.ofList (render layout t.values ++ (fraction (t.micros % 1000000) ++ offset))

theorem Datetime.fits (t : Datetime) : Fits layout t.values := by
  have hday : t.micros / 1000000 / 86400 < daysBeforeYear 9999 := by
    have := t.lt
    omega
  obtain ⟨hyear, hmonth, hdate⟩ := dateOf_bounds hday
  have htime := Nat.mod_lt (t.micros / 1000000) (show 0 < 86400 by decide)
  refine .cons ?_ (.cons ?_ (.cons ?_ (.cons ?_ (.cons ?_ (.cons ?_ .nil)))))
  all_goals
    dsimp only
    omega

/-- Without microseconds there is a plus sign where there else is a point, and it comes first. -/
theorem fraction_lt {m n : ℕ} (h : m < n) (hn : n < 1000000) : fraction m ++ offset < fraction n ++ offset := by
  rw [fraction, fraction, if_neg (show ¬ n = 0 by omega)]
  split_ifs with hm
  · exact List.cons_lt_cons_iff.mpr (.inl (by decide))
  · exact List.cons_lt_cons_iff.mpr
      (.inr ⟨rfl, append_lt_append (by rw [length_pad, length_pad]) (pad_lt h hn) _ _⟩)

theorem Datetime.values_lt {a b : Datetime} (h : a.micros / 1000000 < b.micros / 1000000) : a.values < b.values := by
  simp only [Datetime.values, List.cons_lt_cons_iff]
  generalize a.micros / 1000000 = m at h ⊢
  generalize b.micros / 1000000 = n at h ⊢
  rcases Nat.lt_or_eq_of_le (Nat.div_le_div_right (c := 86400) h.le) with hlt | heq
  · have hdate := dateOf_lt hlt
    omega
  · rw [heq]
    omega

theorem isoformat_lt {a b : Datetime} (h : a.micros < b.micros) : a.isoformat.toList < b.isoformat.toList := by
  rw [Datetime.isoformat, Datetime.isoformat, String.toList_ofList, String.toList_ofList]
  rcases Nat.lt_or_eq_of_le (Nat.div_le_div_right (c := 1000000) h.le) with hlt | heq
  · exact render_lt a.fits b.fits (Datetime.values_lt hlt) _ _
  · have hvalues : a.values = b.values := by simp only [Datetime.values, heq]
    rw [hvalues]
    exact List.append_left_lt (fraction_lt (by omega) (Nat.mod_lt _ (by decide)))

/-- **The texts are in the order of the times.** -/
theorem isoformat_lt_iff {a b : Datetime} : a.isoformat.toList < b.isoformat.toList ↔ a.micros < b.micros := by
  constructor
  · intro h
    by_contra hn
    rcases Nat.lt_or_eq_of_le (Nat.le_of_not_lt hn) with hlt | heq
    · exact List.lt_asymm h (isoformat_lt hlt)
    · obtain rfl : a = b := by
        cases a
        cases b
        cases heq
        rfl
      exact List.lt_irrefl _ h
  · exact isoformat_lt

/-! ## Offsets -/

/-- The text of an offset of whole minutes. -/
def offsetText (minutes : ℤ) : List Char :=
  (if 0 ≤ minutes then '+' else '-') :: (pad 2 (minutes.natAbs / 60) ++ ':' :: pad 2 (minutes.natAbs % 60))

/-- A time of some zone: the microseconds since the year 1 on its clock, and the minutes it is ahead of UTC. -/
structure Aware where
  clock : ℤ
  offset : ℤ

/-- The first minute of a day. -/
def midnightText (day : ℕ) (offset : ℤ) : List Char :=
  let date := dateOf day
  render layout [date.year + 1, date.month + 1, date.day + 1, 0, 0, 0] ++ offsetText offset

/-- What reads times in ISO 8601 reads the first minute of a day in any zone. -/
def ReadsMidnight (fromisoformat : String → Option Aware) : Prop :=
  ∀ (day : ℕ) (offset : ℤ), day < daysBeforeYear 9999 → offset.natAbs < 1440 →
    fromisoformat (String.ofList (midnightText day offset)) = some ⟨day * 86400000000, offset⟩

/-- A reader of the first minutes of days. -/
def readMidnight (s : String) : Option Aware :=
  match s.toList with
  | [y₁, y₂, y₃, y₄, '-', m₁, m₂, '-', d₁, d₂, 'T', '0', '0', ':', '0', '0', ':', '0', '0', sign, h₁, h₂, ':', n₁, n₂] =>
    let number (digits : List Char) : ℕ := Nat.ofDigitChars 10 digits 0
    let date : Date := ⟨number [y₁, y₂, y₃, y₄] - 1, number [m₁, m₂] - 1, number [d₁, d₂] - 1⟩
    let minutes : ℤ := number [h₁, h₂] * 60 + number [n₁, n₂]
    some ⟨dayOf date * 86400000000, if sign = '-' then -minutes else minutes⟩
  | _ => none

theorem readMidnight_fields {y m d h n : ℕ} (hy : y < 10000) (hm : m < 100) (hd : d < 100) (hh : h < 100) (hn : n < 100)
    (sign : Char) : readMidnight (String.ofList (render layout [y, m, d, 0, 0, 0] ++
      (sign :: (pad 2 h ++ ':' :: pad 2 n)))) =
      some ⟨dayOf ⟨y - 1, m - 1, d - 1⟩ * 86400000000, if sign = '-' then -(h * 60 + n : ℤ) else h * 60 + n⟩ := by
  have hread : ∀ width k : ℕ, k < 10 ^ width → Nat.ofDigitChars 10 (pad width k) 0 = k := by
    intro width k hk
    rw [ofDigitChars_pad hk, Nat.mul_zero, Nat.zero_add]
  have htwo : ∀ k < 100, ∃ a b, pad 2 k = [a, b] ∧ Nat.ofDigitChars 10 [a, b] 0 = k := by
    intro k hk
    exact ⟨_, _, rfl, hread 2 k hk⟩
  obtain ⟨y₁, y₂, y₃, y₄, hyear, hy⟩ : ∃ a b c e, pad 4 y = [a, b, c, e] ∧ Nat.ofDigitChars 10 [a, b, c, e] 0 = y :=
    ⟨_, _, _, _, rfl, hread 4 y hy⟩
  obtain ⟨m₁, m₂, hmonth, hm⟩ := htwo m hm
  obtain ⟨d₁, d₂, hday, hd⟩ := htwo d hd
  obtain ⟨h₁, h₂, hhours, hh⟩ := htwo h hh
  obtain ⟨n₁, n₂, hminutes, hn⟩ := htwo n hn
  have hzero : pad 2 0 = ['0', '0'] := rfl
  rw [readMidnight, String.toList_ofList]
  simp only [render, layout, hyear, hmonth, hday, hhours, hminutes, hzero, List.cons_append, List.nil_append, hy, hm, hd,
    hh, hn]

theorem readsMidnight_readMidnight : ReadsMidnight readMidnight := by
  intro day offset hday hoffset
  obtain ⟨hyear, hmonth, hdate⟩ := dateOf_bounds hday
  have hdayOf : dayOf ⟨(dateOf day).year + 1 - 1, (dateOf day).month + 1 - 1, (dateOf day).day + 1 - 1⟩ = day :=
    dayOf_dateOf day
  have hsign : (if (if 0 ≤ offset then '+' else '-') = '-' then -((offset.natAbs / 60 : ℕ) * 60 + (offset.natAbs % 60 : ℕ) : ℤ)
      else (offset.natAbs / 60 : ℕ) * 60 + (offset.natAbs % 60 : ℕ)) = offset := by
    by_cases h : 0 ≤ offset
    · rw [if_pos h, if_neg (by decide)]
      omega
    · rw [if_neg h, if_pos rfl]
      omega
  rw [midnightText, offsetText, readMidnight_fields (by omega) (by omega) (by omega) (by omega) (by omega), hdayOf, hsign]

end IsoTime
