import Mathlib.Algebra.Group.Int.Defs
import Mathlib.Data.Int.SuccPred
import Mathlib.Data.Nat.SuccPred
import Mathlib.Tactic.Common
import Mathlib.Tactic.IntervalCases

/-!
The Gregorian calendar, extended to all years.

A date is counted in days from the first of January 1970. The count is computed for years
that begin in March, whose leap day is their last day.

* `Date.equivDays` — dates and days are in bijection.
-/

namespace Calendar

def isLeap (year : Int) : Bool :=
  year % 4 = 0 && (year % 100 ≠ 0 || year % 400 = 0)

def daysInMonth (year : Int) (month : Nat) : Nat :=
  match month with
  | 2 => if isLeap year then 29 else 28
  | 4 | 6 | 9 | 11 => 30
  | _ => 31

/-- A day of the calendar. -/
@[ext] structure Date where
  year : Int
  month : Nat
  day : Nat
  month_pos : 1 ≤ month
  month_le : month ≤ 12
  day_pos : 1 ≤ day
  day_le : day ≤ daysInMonth year month
deriving DecidableEq

/-- The intervals between the values of a monotone function do not meet. -/
theorem eq_of_between {ι α : Type} [LinearOrder ι] [Add ι] [One ι] [SuccAddOrder ι]
    [LinearOrder α] {f : ι → α} (mono : Monotone f) {x : α} {i j : ι} (hi : f i ≤ x)
    (hi' : x < f (i + 1)) (hj : f j ≤ x) (hj' : x < f (j + 1)) : i = j := by
  rcases lt_trichotomy i j with h | h | h
  · exact absurd (mono (Order.add_one_le_of_lt h)) (not_le.mpr (lt_of_le_of_lt hj hi'))
  · exact h
  · exact absurd (mono (Order.add_one_le_of_lt h)) (not_le.mpr (lt_of_le_of_lt hi hj'))

/-! ### Years from March to February -/

/-- The days of the years from March of year 0 on. -/
def marchDays (year : Int) : Int :=
  365 * year + year / 4 - year / 100 + year / 400

/-- The days of a year that begins in March. -/
def marchYearLength (year : Int) : Int :=
  if isLeap (year + 1) then 366 else 365

theorem marchDays_succ (year : Int) :
    marchDays (year + 1) = marchDays year + marchYearLength year := by
  have hleap : isLeap (year + 1) = true ↔
      (year + 1) % 4 = 0 ∧ ((year + 1) % 100 ≠ 0 ∨ (year + 1) % 400 = 0) := by
    simp [isLeap]
  unfold marchDays marchYearLength
  split <;> rename_i h <;> rw [hleap] at h <;> omega

/-- The year a day from the first of March of year 0 is in, in turns of 400, 100, 4 and 1
years; the last century and the last year of a turn are one day longer. -/
def marchYear (days : Int) : Int :=
  let ofEra := days % 146097
  let century := min 3 (ofEra / 36524)
  let ofCentury := ofEra - 36524 * century
  let ofTurn := ofCentury % 1461
  400 * (days / 146097) + 100 * century + 4 * (ofCentury / 1461) + min 3 (ofTurn / 365)

/-- A year by the turns it is in. -/
theorem marchDays_turns {era century turn year : Int} (hcentury : 0 ≤ century ∧ century ≤ 3)
    (hturn : 0 ≤ turn ∧ turn ≤ 24) (hyear : 0 ≤ year ∧ year ≤ 3) :
    marchDays (400 * era + 100 * century + 4 * turn + year) =
      146097 * era + 36524 * century + 1461 * turn + 365 * year := by
  unfold marchDays
  omega

theorem marchYearLength_turns {era century turn year : Int}
    (hcentury : 0 ≤ century ∧ century ≤ 3) (hturn : 0 ≤ turn ∧ turn ≤ 24)
    (hyear : 0 ≤ year ∧ year ≤ 3) :
    marchYearLength (400 * era + 100 * century + 4 * turn + year) =
      if year = 3 ∧ (turn ≠ 24 ∨ century = 3) then 366 else 365 := by
  have hleap : isLeap (400 * era + 100 * century + 4 * turn + year + 1) = true ↔
      year = 3 ∧ (turn ≠ 24 ∨ century = 3) := by
    simp only [isLeap, ne_eq, decide_not, Bool.and_eq_true, decide_eq_true_eq, Bool.or_eq_true,
      Bool.not_eq_true', decide_eq_false_iff_not]
    omega
  simp only [marchYearLength, hleap]

theorem marchYear_spec (days : Int) : marchDays (marchYear days) ≤ days ∧
    days < marchDays (marchYear days) + marchYearLength (marchYear days) := by
  unfold marchYear
  extract_lets ofEra century ofCentury ofTurn
  have hcentury : 0 ≤ century ∧ century ≤ 3 := by omega
  have hturn : 0 ≤ ofCentury / 1461 ∧ ofCentury / 1461 ≤ 24 := by omega
  have hyear : 0 ≤ min 3 (ofTurn / 365) ∧ min 3 (ofTurn / 365) ≤ 3 := by omega
  rw [marchDays_turns hcentury hturn hyear, marchYearLength_turns hcentury hturn hyear]
  constructor
  · omega
  · split <;> omega

theorem marchDays_mono {year year' : Int} (h : year ≤ year') :
    marchDays year ≤ marchDays year' := by
  unfold marchDays
  omega

/-- The year of a day is the only one the day can be in. -/
theorem marchYear_unique {days year : Int} (hle : marchDays year ≤ days)
    (hlt : days < marchDays year + marchYearLength year) : marchYear days = year := by
  obtain ⟨hle', hlt'⟩ := marchYear_spec days
  rw [← marchDays_succ] at hlt hlt'
  exact eq_of_between (fun _ _ => marchDays_mono) hle' hlt' hle hlt

/-! ### Dates and days -/

/-- Months from March on: the year a month counts into, and its place there. -/
def marchOf (year : Int) (month : Nat) : Int × Nat :=
  if month ≤ 2 then (year - 1, month + 9) else (year, month - 3)

/-- The days of a year from March up to a month. -/
def daysBeforeMonth (month : Nat) : Nat :=
  (153 * month + 2) / 5

/-- Days from the first of March of year 0 to the first of January 1970. -/
def epochDays : Int := 719468

/-- Days since the first of January 1970; the day of the month may be out of range. -/
def daysOf (year : Int) (month : Nat) (day : Int) : Int :=
  marchDays (marchOf year month).1 + daysBeforeMonth (marchOf year month).2 + (day - 1) - epochDays

namespace Date

/-- Days since the first of January 1970. -/
def toDays (d : Date) : Int :=
  daysOf d.year d.month d.day

/-- The day of its year, for years from March on. -/
def ofMarchYear (d : Date) : Nat :=
  daysBeforeMonth (marchOf d.year d.month).2 + (d.day - 1)

theorem toDays_eq (d : Date) :
    d.toDays = marchDays (marchOf d.year d.month).1 + d.ofMarchYear - epochDays := by
  have := d.day_pos
  unfold toDays daysOf ofMarchYear
  omega

end Date

/-- The month of a year from March on, by its usual number. -/
def monthOf (month : Nat) : Nat :=
  if month < 10 then month + 3 else month - 9

/-- The month of a day of a year that begins in March, from March on. -/
def marchMonth (ofYear : Nat) : Nat :=
  (5 * ofYear + 2) / 153

theorem marchMonth_spec (ofYear : Nat) : daysBeforeMonth (marchMonth ofYear) ≤ ofYear ∧
    ofYear < daysBeforeMonth (marchMonth ofYear + 1) := by
  unfold daysBeforeMonth marchMonth
  omega

theorem daysBeforeMonth_mono : Monotone daysBeforeMonth := by
  intro month month' h
  unfold daysBeforeMonth
  omega

theorem marchMonth_unique {ofYear month : Nat} (hle : daysBeforeMonth month ≤ ofYear)
    (hlt : ofYear < daysBeforeMonth (month + 1)) : marchMonth ofYear = month :=
  eq_of_between daysBeforeMonth_mono (marchMonth_spec ofYear).1 (marchMonth_spec ofYear).2 hle hlt

theorem marchOf_monthOf {month : Nat} (h : month < 12) (year : Int) :
    marchOf (if monthOf month ≤ 2 then year + 1 else year) (monthOf month) = (year, month) := by
  unfold monthOf marchOf
  split
  · rw [if_neg (by omega), if_neg (by omega)]
    rfl
  · rw [if_pos (by omega), if_pos (by omega)]
    exact Prod.ext (by omega) (by omega)

/-- All months but February have a fixed length. -/
theorem daysBeforeMonth_succ {month : Nat} (h : month < 11) (year : Int) :
    daysBeforeMonth (month + 1) = daysBeforeMonth month + daysInMonth year (monthOf month) := by
  interval_cases month <;> rfl

/-- February ends the year. -/
theorem daysBeforeMonth_last (year : Int) : (daysBeforeMonth 11 : Int) +
    daysInMonth (if monthOf 11 ≤ 2 then year + 1 else year) (monthOf 11) =
      marchYearLength year := by
  have hfebruary : daysInMonth (if monthOf 11 ≤ 2 then year + 1 else year) (monthOf 11) =
      if isLeap (year + 1) then 29 else 28 := rfl
  rw [hfebruary]
  unfold marchYearLength
  split <;> rfl

namespace Date

theorem marchOf_cases (d : Date) : (marchOf d.year d.month).2 < 12 ∧
    monthOf (marchOf d.year d.month).2 = d.month ∧
    (if d.month ≤ 2 then (marchOf d.year d.month).1 + 1 else (marchOf d.year d.month).1) =
      d.year := by
  have := d.month_pos
  have := d.month_le
  unfold marchOf monthOf
  split
  · refine ⟨by dsimp only; omega, ?_, by dsimp only; omega⟩
    rw [if_neg (by dsimp only; omega)]
    dsimp only
    omega
  · refine ⟨by dsimp only; omega, ?_, rfl⟩
    rw [if_pos (by dsimp only; omega)]
    dsimp only
    omega

theorem ofMarchYear_spec (d : Date) :
    daysBeforeMonth (marchOf d.year d.month).2 ≤ d.ofMarchYear ∧
      d.ofMarchYear < daysBeforeMonth ((marchOf d.year d.month).2 + 1) ∧
      (d.ofMarchYear : Int) < marchYearLength (marchOf d.year d.month).1 := by
  obtain ⟨hmonth, hmonthOf, hyear⟩ := d.marchOf_cases
  have hpos := d.day_pos
  have hday := d.day_le
  unfold ofMarchYear
  generalize marchOf d.year d.month = place at *
  obtain ⟨year, month⟩ := place
  dsimp only at *
  rw [← hyear, ← hmonthOf] at hday
  have hlength : 365 ≤ marchYearLength year ∧ marchYearLength year ≤ 366 := by
    unfold marchYearLength
    split <;> omega
  refine ⟨by omega, ?_⟩
  by_cases hlast : month < 11
  · have hsucc := daysBeforeMonth_succ hlast (if monthOf month ≤ 2 then year + 1 else year)
    have hend : daysBeforeMonth (month + 1) ≤ 337 :=
      daysBeforeMonth_mono (show month + 1 ≤ 11 by omega)
    omega
  · obtain rfl : month = 11 := by omega
    have hlast := daysBeforeMonth_last year
    have hend : daysBeforeMonth (11 + 1) = 367 := rfl
    omega

theorem marchMonth_lt {year : Int} {ofYear : Nat} (h : (ofYear : Int) < marchYearLength year) :
    marchMonth ofYear < 12 := by
  unfold marchYearLength at h
  unfold marchMonth
  split at h <;> omega

/-- The date of a day of a year that begins in March. -/
def ofMarch (year : Int) (ofYear : Nat) (h : (ofYear : Int) < marchYearLength year) : Date where
  year := if monthOf (marchMonth ofYear) ≤ 2 then year + 1 else year
  month := monthOf (marchMonth ofYear)
  day := ofYear - daysBeforeMonth (marchMonth ofYear) + 1
  month_pos := by
    unfold monthOf
    split <;> omega
  month_le := by
    have := marchMonth_lt h
    unfold monthOf
    split <;> omega
  day_pos := Nat.succ_pos _
  day_le := by
    have hmonth := marchMonth_lt h
    obtain ⟨hle, hlt⟩ := marchMonth_spec ofYear
    generalize marchMonth ofYear = month at *
    by_cases hlast : month < 11
    · have := daysBeforeMonth_succ hlast (if monthOf month ≤ 2 then year + 1 else year)
      omega
    · obtain rfl : month = 11 := by omega
      have hlast := daysBeforeMonth_last year
      omega

theorem ofMarch_congr {year year' : Int} {ofYear ofYear' : Nat} (hyear : year = year')
    (hofYear : ofYear = ofYear') (h : (ofYear : Int) < marchYearLength year)
    (h' : (ofYear' : Int) < marchYearLength year') :
    ofMarch year ofYear h = ofMarch year' ofYear' h' := by
  subst hyear hofYear
  rfl

/-- The date so many days after the first of January 1970. -/
def ofDays (days : Int) : Date :=
  ofMarch (marchYear (days + epochDays))
    (days + epochDays - marchDays (marchYear (days + epochDays))).toNat
    (by
      have := marchYear_spec (days + epochDays)
      omega)

theorem marchOf_ofMarch {year : Int} {ofYear : Nat} (h : (ofYear : Int) < marchYearLength year) :
    marchOf (ofMarch year ofYear h).year (ofMarch year ofYear h).month =
      (year, marchMonth ofYear) :=
  marchOf_monthOf (marchMonth_lt h) year

theorem toDays_ofMarch {year : Int} {ofYear : Nat} (h : (ofYear : Int) < marchYearLength year) :
    (ofMarch year ofYear h).toDays = marchDays year + ofYear - epochDays := by
  rw [toDays_eq, ofMarchYear, marchOf_ofMarch]
  have := (marchMonth_spec ofYear).1
  simp only [ofMarch]
  omega

theorem toDays_ofDays (days : Int) : (ofDays days).toDays = days := by
  have := marchYear_spec (days + epochDays)
  rw [ofDays, toDays_ofMarch]
  omega

theorem ofMarch_eq (d : Date) :
    ofMarch (marchOf d.year d.month).1 d.ofMarchYear d.ofMarchYear_spec.2.2 = d := by
  obtain ⟨hmonth, hmonthOf, hyear⟩ := d.marchOf_cases
  obtain ⟨hle, hlt, -⟩ := d.ofMarchYear_spec
  have hplace := marchMonth_unique hle hlt
  have hpos := d.day_pos
  ext
  · simp only [ofMarch, hplace, hmonthOf, hyear]
  · simp only [ofMarch, hplace, hmonthOf]
  · simp only [ofMarch, hplace]
    unfold ofMarchYear
    omega

theorem ofDays_toDays (d : Date) : ofDays d.toDays = d := by
  have hdays : d.toDays + epochDays = marchDays (marchOf d.year d.month).1 + d.ofMarchYear := by
    rw [toDays_eq]
    omega
  obtain ⟨-, -, hlt⟩ := d.ofMarchYear_spec
  have hyear : marchYear (d.toDays + epochDays) = (marchOf d.year d.month).1 :=
    marchYear_unique (by omega) (by omega)
  have hofYear : (d.toDays + epochDays - marchDays (marchYear (d.toDays + epochDays))).toNat =
      d.ofMarchYear := by
    rw [hyear]
    omega
  exact (ofMarch_congr hyear hofYear _ _).trans d.ofMarch_eq

/-- **Dates and days are in bijection.** -/
def equivDays : Date ≃ Int where
  toFun := toDays
  invFun := ofDays
  left_inv := ofDays_toDays
  right_inv := toDays_ofDays

end Date

end Calendar
