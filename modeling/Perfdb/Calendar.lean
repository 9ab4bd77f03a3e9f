import Mathlib

set_option autoImplicit false

namespace Perfdb

/-- A date of the Gregorian calendar. -/
structure CivilDate where
  year : Nat
  month : Nat
  day : Nat
  deriving DecidableEq

def isLeap (year : Nat) : Bool := year % 4 = 0 && (year % 100 ≠ 0 || year % 400 = 0)

def monthLength (year : Nat) : Nat → Nat
  | 2 => if isLeap year then 29 else 28
  | 4 | 6 | 9 | 11 => 30
  | _ => 31

namespace CivilDate

def next (date : CivilDate) : CivilDate :=
  if date.day < monthLength date.year date.month then { date with day := date.day + 1 }
  else if date.month < 12 then ⟨date.year, date.month + 1, 1⟩
  else ⟨date.year + 1, 1, 1⟩

def ofDays : Nat → CivilDate
  | 0 => ⟨1970, 1, 1⟩
  | days + 1 => (ofDays days).next

def number (date : CivilDate) : Nat := date.year * 10000 + date.month * 100 + date.day

structure Valid (date : CivilDate) : Prop where
  positive : 1 ≤ date.year
  first : 1 ≤ date.month
  last : date.month ≤ 12
  begins : 1 ≤ date.day
  ends : date.day ≤ monthLength date.year date.month

theorem isLeap_iff (year : Nat) :
    isLeap year = true ↔ year % 4 = 0 ∧ (year % 100 ≠ 0 ∨ year % 400 = 0) := by
  simp [isLeap]

theorem le_monthLength (year month : Nat) : 28 ≤ monthLength year month := by
  unfold monthLength
  split
  · split <;> omega
  all_goals omega

theorem monthLength_le (year month : Nat) : monthLength year month ≤ 31 := by
  unfold monthLength
  split
  · split <;> omega
  all_goals omega

theorem Valid.next {date : CivilDate} (valid : date.Valid) : date.next.Valid := by
  obtain ⟨positive, first, last, begins, ends⟩ := valid
  unfold CivilDate.next
  split
  · exact ⟨positive, first, last, by simp, by assumption⟩
  · split
    · rename_i before
      exact ⟨positive, by simp, before, le_rfl, le_trans (by simp) (le_monthLength _ _)⟩
    · exact ⟨by simp, le_rfl, by simp, le_rfl, le_trans (by simp) (le_monthLength _ _)⟩

theorem ofDays_valid (days : Nat) : (ofDays days).Valid := by
  induction days with
  | zero => exact ⟨by decide, by decide, by decide, by decide, by decide⟩
  | succ days ih => exact ih.next

theorem number_lt_next {date : CivilDate} (valid : date.Valid) :
    date.number < date.next.number := by
  have short := monthLength_le date.year date.month
  have ends := valid.ends
  have last := valid.last
  unfold number CivilDate.next
  split
  · simp
  · split
    · dsimp only
      omega
    · dsimp only
      omega

theorem number_strictMono : StrictMono fun days => (ofDays days).number :=
  strictMono_nat_of_lt_succ fun days => number_lt_next (ofDays_valid days)

/-- Years begin with March here, so that a leap day comes last. -/
def marchYear (date : CivilDate) : Nat := if date.month ≤ 2 then date.year - 1 else date.year

def marchMonth (date : CivilDate) : Nat := if date.month ≤ 2 then date.month + 9 else date.month - 3

def dayOfYear (date : CivilDate) : Nat := (153 * date.marchMonth + 2) / 5 + date.day - 1

def leapDays (year : Nat) : Nat := year / 4 - year / 100 + year / 400

def dayNumber (date : CivilDate) : Nat :=
  365 * date.marchYear + leapDays date.marchYear + date.dayOfYear

theorem leapDays_succ (year : Nat) :
    leapDays (year + 1) = leapDays year + if isLeap (year + 1) then 1 else 0 := by
  have four := @Nat.succ_div year 4
  have hundred := @Nat.succ_div year 100
  have fourHundred := @Nat.succ_div year 400
  have fewer : year / 100 ≤ year / 4 := Nat.div_le_div_left (by decide) (by decide)
  have century : 100 ∣ year + 1 → 4 ∣ year + 1 := (by decide : 4 ∣ 100).trans
  have era : 400 ∣ year + 1 → 100 ∣ year + 1 := (by decide : 100 ∣ 400).trans
  have leap : isLeap (year + 1) = true ↔ 4 ∣ year + 1 ∧ (¬ 100 ∣ year + 1 ∨ 400 ∣ year + 1) := by
    rw [isLeap_iff]
    omega
  unfold leapDays
  rw [four, hundred, fourHundred]
  by_cases h4 : 4 ∣ year + 1 <;> by_cases h100 : 100 ∣ year + 1 <;>
    by_cases h400 : 400 ∣ year + 1 <;> simp_all <;> omega

theorem twelve_months {month : Nat} (first : 1 ≤ month) (last : month ≤ 12) :
    month = 1 ∨ month = 2 ∨ month = 3 ∨ month = 4 ∨ month = 5 ∨ month = 6 ∨ month = 7 ∨
      month = 8 ∨ month = 9 ∨ month = 10 ∨ month = 11 ∨ month = 12 := by
  omega

theorem dayNumber_month {year month : Nat} (positive : 1 ≤ year) (first : 1 ≤ month)
    (before : month < 12) : dayNumber ⟨year, month + 1, 1⟩ =
      dayNumber ⟨year, month, monthLength year month⟩ + 1 := by
  have february : month = 2 ∨ month ≠ 2 := by omega
  rcases february with rfl | other
  · -- March begins a year, and whether there was a 29 February depends on the one before.
    obtain ⟨previous, rfl⟩ : ∃ previous, year = previous + 1 := ⟨year - 1, by omega⟩
    have length : monthLength (previous + 1) 2 = if isLeap (previous + 1) then 29 else 28 := rfl
    have leap := leapDays_succ previous
    simp only [dayNumber, dayOfYear, marchYear, marchMonth, length]
    norm_num
    split at leap <;> rename_i leaps <;> simp only [leaps] <;> norm_num <;> omega
  · rcases twelve_months first before.le with rfl | rfl | rfl | rfl | rfl | rfl | rfl | rfl | rfl |
      rfl | rfl | rfl <;>
      first
        | omega
        | simp [dayNumber, dayOfYear, marchYear, marchMonth, monthLength]

theorem dayNumber_next {date : CivilDate} (valid : date.Valid) :
    date.next.dayNumber = date.dayNumber + 1 := by
  obtain ⟨year, month, day⟩ := date
  obtain ⟨positive, first, last, begins, ends⟩ := valid
  dsimp only at positive first last begins ends
  unfold CivilDate.next
  split
  · simp only [dayNumber, dayOfYear, marchYear, marchMonth]
    omega
  · rename_i whole
    have length : day = monthLength year month := by
      dsimp only at whole
      omega
    subst length
    split
    · rename_i before
      exact dayNumber_month positive first before
    · rename_i after
      have december : month = 12 := by
        dsimp only at after
        omega
      subst december
      simp [dayNumber, dayOfYear, marchYear, marchMonth, monthLength]

theorem epoch_dayNumber : (ofDays 0).dayNumber = 719468 := by
  simp [ofDays, dayNumber, dayOfYear, marchYear, marchMonth, leapDays]

theorem ofDays_dayNumber (days : Nat) : (ofDays days).dayNumber = 719468 + days := by
  induction days with
  | zero => exact epoch_dayNumber
  | succ days ih =>
      rw [ofDays, dayNumber_next (ofDays_valid days), ih, Nat.add_assoc]

section Eras

/-- The correction that makes days of an era into whole years of 365 days. -/
theorem year_of_era {yoe doy doe : Nat} (inside : yoe < 400) (short : doy ≤ 365)
    (leap : doy = 365 → yoe % 4 = 3 ∧ (yoe % 100 ≠ 99 ∨ yoe = 399))
    (day : doe = 365 * yoe + yoe / 4 - yoe / 100 + doy) :
    doe < 146097 ∧ (doe - doe / 1460 + doe / 36524 - doe / 146096) / 365 = yoe := by
  obtain ⟨c, century⟩ : ∃ c, c = yoe / 100 := ⟨_, rfl⟩
  obtain ⟨q, olympiad⟩ : ∃ q, q = yoe % 100 / 4 := ⟨_, rfl⟩
  obtain ⟨p, rest⟩ : ∃ p, p = yoe % 4 := ⟨_, rfl⟩
  have whole : yoe = 100 * c + 4 * q + p := by omega
  have fours : yoe / 4 = 25 * c + q := by omega
  rw [fours, ← century] at day
  have days : doe = 36524 * c + 1461 * q + 365 * p + doy := by omega
  have low : c < 4 ∧ q < 25 ∧ p < 4 := by omega
  have last : doy = 365 → p = 3 ∧ (q < 24 ∨ c = 3) := by
    intro full
    obtain ⟨three, exempt⟩ := leap full
    clear leap day fours
    refine ⟨rest.trans three, ?_⟩
    omega
  clear leap fours century olympiad rest day
  obtain ⟨c4, q25, p4⟩ := low
  by_cases final : doe = 146096
  · have third : c = 3 := by omega
    have end' : q = 24 := by omega
    have leaps : p = 3 := by omega
    subst third end' leaps final
    exact ⟨by decide, whole.symm⟩
  · have before : 1461 * q + 365 * p + doy < 36524 := by
      clear whole
      rcases Nat.lt_or_ge q 24 with early | late
      · omega
      · omega
    have centuries : doe / 36524 = c := by omega
    have eras : doe / 146096 = 0 := by omega
    refine ⟨by omega, ?_⟩
    rw [centuries, eras]
    by_cases late : 1460 ≤ 24 * c + q + 365 * p + doy
    · have fourths : doe / 1460 = 25 * c + q + 1 := by omega
      rw [fourths]
      omega
    · have fourths : doe / 1460 = 25 * c + q := by omega
      rw [fourths]
      omega

/-- The months from March on take 153 days in every five. -/
theorem Valid.month_of_year {date : CivilDate} (valid : date.Valid) :
    (5 * date.dayOfYear + 2) / 153 = date.marchMonth ∧ date.dayOfYear ≤ 365 ∧
      (date.dayOfYear = 365 → isLeap date.year = true ∧ date.month = 2) := by
  obtain ⟨year, month, day⟩ := date
  obtain ⟨positive, first, last, begins, ends⟩ := valid
  dsimp only at positive first last begins ends
  rcases twelve_months first last with rfl | rfl | rfl | rfl | rfl | rfl | rfl | rfl | rfl |
    rfl | rfl | rfl <;>
    simp only [dayOfYear, marchMonth, monthLength] at ends ⊢ <;> norm_num
  case inr.inl =>
    split at ends
    · rename_i leaps
      exact ⟨by omega, by omega, fun _ => leaps⟩
    · exact ⟨by omega, by omega, fun full => by omega⟩
  all_goals omega

theorem Valid.monthFound {date : CivilDate} (valid : date.Valid) :
    (if date.marchMonth < 10 then date.marchMonth + 3 else date.marchMonth - 9) = date.month := by
  have first := valid.first
  have december := valid.last
  unfold marchMonth
  split <;> split <;> omega

theorem Valid.yearFound {date : CivilDate} (valid : date.Valid) :
    (if date.month ≤ 2 then date.marchYear + 1 else date.marchYear) = date.year := by
  have positive := valid.positive
  unfold marchYear
  split <;> omega

/-- What the divisions find in the day of a date. -/
theorem Valid.divided {date : CivilDate} (valid : date.Valid) : ∃ yoe doe : Nat,
    yoe < 400 ∧ date.marchYear = 400 * (date.marchYear / 400) + yoe ∧ doe < 146097 ∧
      date.dayNumber = 146097 * (date.marchYear / 400) + doe ∧
      doe = 365 * yoe + yoe / 4 - yoe / 100 + date.dayOfYear ∧
      (doe - doe / 1460 + doe / 36524 - doe / 146096) / 365 = yoe := by
  obtain ⟨-, short, leap⟩ := valid.month_of_year
  obtain ⟨yoe, years⟩ : ∃ yoe, yoe = date.marchYear % 400 := ⟨_, rfl⟩
  obtain ⟨doe, days⟩ : ∃ doe, doe = 365 * yoe + yoe / 4 - yoe / 100 + date.dayOfYear := ⟨_, rfl⟩
  have whole : date.marchYear = 400 * (date.marchYear / 400) + yoe := by omega
  have split : date.dayNumber = 146097 * (date.marchYear / 400) + doe := by
    unfold dayNumber leapDays
    omega
  have last : date.dayOfYear = 365 → yoe % 4 = 3 ∧ (yoe % 100 ≠ 99 ∨ yoe = 399) := by
    intro full
    obtain ⟨leaps, february⟩ := leap full
    have rule := (isLeap_iff date.year).mp leaps
    have before : date.year = date.marchYear + 1 := by
      have positive := valid.positive
      rw [marchYear, if_pos february.le]
      omega
    rw [before] at rule
    omega
  obtain ⟨inside, found⟩ := year_of_era (by omega) short last days
  exact ⟨yoe, doe, by omega, whole, inside, split, days, found⟩

end Eras

end CivilDate

end Perfdb
