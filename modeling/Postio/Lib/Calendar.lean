import Mathlib.Logic.Function.Iterate
import Mathlib.Tactic.IntervalCases

set_option autoImplicit false

namespace Postio.Calendar

/-! The proleptic Gregorian calendar: dates, and how many days and months apart they are. -/

variable (year : Int) (month : Nat)

def isLeap : Bool := decide (year % 4 = 0 ∧ (year % 100 ≠ 0 ∨ year % 400 = 0))

/-- The days of a month, none where there is no such month. -/
def daysIn : Nat -> Nat
  | 1 | 3 | 5 | 7 | 8 | 10 | 12 => 31
  | 4 | 6 | 9 | 11 => 30
  | 2 => if isLeap year then 29 else 28
  | _ => 0

structure Date where
  year : Int
  month : Nat
  day : Nat
  valid : 1 ≤ day ∧ day ≤ daysIn year month
  deriving DecidableEq

def ofYmd (day : Nat) : Option Date :=
  if valid : 1 ≤ day ∧ day ≤ daysIn year month then some { year, month, day, valid } else none

/-- The days of a year before a month. -/
def daysBefore : Nat -> Nat
  | 2 => 31
  | 3 => 59 + (isLeap year).toNat
  | 4 => 90 + (isLeap year).toNat
  | 5 => 120 + (isLeap year).toNat
  | 6 => 151 + (isLeap year).toNat
  | 7 => 181 + (isLeap year).toNat
  | 8 => 212 + (isLeap year).toNat
  | 9 => 243 + (isLeap year).toNat
  | 10 => 273 + (isLeap year).toNat
  | 11 => 304 + (isLeap year).toNat
  | 12 => 334 + (isLeap year).toNat
  | _ => 0

def daysTo : Int := 365 * (year - 1) + (year - 1) / 4 - (year - 1) / 100 + (year - 1) / 400

namespace Date

variable (date : Date)

def number : Int := daysTo date.year + daysBefore date.year date.month + date.day

theorem ofYmd_self : ofYmd date.year date.month date.day = some date := by
  unfold ofYmd
  rw [dif_pos date.valid]

theorem month_bounds : 1 ≤ date.month ∧ date.month ≤ 12 := by
  obtain ⟨year, month, day, valid⟩ := date
  simp only
  by_contra outside
  have none : daysIn year month = 0 := by
    unfold daysIn
    split <;> first | rfl | omega
  omega

end Date

theorem daysTo_succ : daysTo (year + 1) = daysTo year + 365 + (isLeap year).toNat := by
  unfold daysTo isLeap
  by_cases leap : year % 4 = 0 ∧ (year % 100 ≠ 0 ∨ year % 400 = 0)
  case pos =>
    rw [decide_eq_true leap]
    simp only [Bool.toNat_true]
    omega
  case neg =>
    rw [decide_eq_false leap]
    simp only [Bool.toNat_false]
    omega

theorem daysTo_mono (later : Int) (before : year < later) : daysTo year + 365 + (isLeap year).toNat ≤ daysTo later := by
  rw [← daysTo_succ]
  unfold daysTo
  omega

theorem daysBefore_next (inside : 1 ≤ month ∧ month ≤ 12) :
    (month < 12 → daysBefore year (month + 1) = daysBefore year month + daysIn year month) ∧
      (month = 12 → daysBefore year month + daysIn year month = 365 + (isLeap year).toNat) := by
  obtain ⟨low, high⟩ := inside
  cases leap : isLeap year <;> interval_cases month <;> simp [daysBefore, daysIn, leap]

theorem daysBefore_mono (later : Nat) (low : 1 ≤ month) (before : month < later) (high : later ≤ 12) :
    daysBefore year month + daysIn year month ≤ daysBefore year later := by
  induction later with
  | zero => omega
  | succ later ih =>
    have step := (daysBefore_next year later ⟨by omega, by omega⟩).1 (by omega)
    by_cases adjacent : month = later
    case pos =>
      subst adjacent
      omega
    case neg =>
      have further := ih (by omega) (by omega)
      omega

namespace Date

variable (date : Date)

theorem day_of_year :
    1 ≤ daysBefore date.year date.month + date.day ∧
      daysBefore date.year date.month + date.day ≤ 365 + (isLeap date.year).toNat := by
  have inside := date.month_bounds
  have valid := date.valid
  obtain ⟨-, last⟩ := daysBefore_next date.year 12 ⟨by omega, by omega⟩
  have final := last rfl
  refine ⟨by omega, ?_⟩
  by_cases december : date.month = 12
  case pos =>
    rw [december] at valid ⊢
    omega
  case neg =>
    have before := daysBefore_mono date.year date.month 12 inside.1 (by omega) (by omega)
    omega

theorem number_inj (other : Date) (same : date.number = other.number) : date = other := by
  have inside := date.day_of_year
  have also := other.day_of_year
  unfold number at same
  have years : date.year = other.year := by
    rcases Int.lt_trichotomy date.year other.year with less | equal | more
    next =>
      have apart := daysTo_mono date.year other.year less
      omega
    next => exact equal
    next =>
      have apart := daysTo_mono other.year date.year more
      omega
  obtain ⟨year, month, day, valid⟩ := date
  obtain ⟨_, monthOf, dayOf, validOf⟩ := other
  obtain rfl : year = _ := years
  have bounds := Date.month_bounds { year, month, day, valid }
  have boundsOf := Date.month_bounds { year, month := monthOf, day := dayOf, valid := validOf }
  simp only at same bounds boundsOf
  have months : month = monthOf := by
    rcases Nat.lt_trichotomy month monthOf with less | equal | more
    next =>
      have apart := daysBefore_mono year month monthOf bounds.1 less boundsOf.2
      omega
    next => exact equal
    next =>
      have apart := daysBefore_mono year monthOf month boundsOf.1 more bounds.2
      omega
  subst months
  obtain rfl : day = dayOf := by omega
  rfl

/-- The day before. -/
def pred : Date :=
  if first : date.day = 1 then
    if january : date.month = 1 then { year := date.year - 1, month := 12, day := 31, valid := by simp [daysIn] }
    else
      { year := date.year
        month := date.month - 1
        day := daysIn date.year (date.month - 1)
        valid := by
          have bounds := date.month_bounds
          refine ⟨?_, Nat.le_refl _⟩
          obtain ⟨year, month, day, valid⟩ := date
          simp only at bounds january ⊢
          obtain ⟨low, high⟩ := bounds
          interval_cases month <;> first | omega | (simp only [daysIn]; first | omega | (split <;> omega)) }
  else { date with day := date.day - 1, valid := ⟨by have := date.valid; omega, by have := date.valid; omega⟩ }

theorem number_pred : date.pred.number = date.number - 1 := by
  have valid := date.valid
  have bounds := date.month_bounds
  unfold pred number
  split
  next first =>
    split
    next january =>
      have years := daysTo_succ (date.year - 1)
      rw [Int.sub_add_cancel] at years
      simp only [first, january]
      simp only [daysBefore]
      omega
    next january =>
      have step := (daysBefore_next date.year (date.month - 1) ⟨by omega, by omega⟩).1 (by omega)
      rw [Nat.sub_add_cancel (by omega)] at step
      simp only [first, step]
      omega
  next =>
    simp only
    omega

def back (days : Nat) (date : Date) : Date := pred^[days] date

theorem number_back (days : Nat) (date : Date) : (date.back days).number = date.number - days := by
  unfold back
  induction days generalizing date with
  | zero => simp
  | succ days ih =>
    rw [Function.iterate_succ_apply, ih, number_pred]
    omega

theorem back_number (earlier : Date) (days : Nat) (apart : date.number - earlier.number = days) :
    date.back days = earlier := by
  apply number_inj
  rw [number_back]
  omega

end Date

theorem daysIn_some (inside : 1 ≤ month ∧ month ≤ 12) : 28 ≤ daysIn year month := by
  obtain ⟨low, high⟩ := inside
  unfold daysIn
  interval_cases month <;> simp only <;> first | omega | (split <;> omega)

namespace Date

/-- So many months on or back, on the last day of the month where there is no such day. -/
def shift (months : Int) (date : Date) : Date :=
  let total := date.year * 12 + (date.month - 1 : Nat) + months
  { year := total / 12
    month := (total % 12).toNat + 1
    day := min date.day (daysIn (total / 12) ((total % 12).toNat + 1))
    valid := by
      have valid := date.valid
      have some_day := daysIn_some (total / 12) ((total % 12).toNat + 1) ⟨by omega, by omega⟩
      omega }

end Date

end Postio.Calendar
