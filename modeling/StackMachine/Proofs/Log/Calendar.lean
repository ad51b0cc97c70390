import Mathlib.Algebra.GroupWithZero.Nat
import Mathlib.Tactic.IntervalCases
import StackMachine.Log.Calendar

/-!
# The days of the calendar

The Gregorian calendar is given by its leap years, the lengths of its months and the day that
follows each day.  Counting days from the first of January 1970 and splitting the count into
cycles, years that start in March and months leads to the same dates.

A day of a March year is settled by where the year starts: the years start in increasing order,
so that every day lies in one of them, and the next day is in the same year or the first of the
next.  The months of a March year follow each other in the same way.

Main definitions:

- `IsLeap`, `monthDays`, `Valid` and `next`, the calendar;
- `calendarDay`, the days of the calendar one after the other;
- `ofDays?`, the date of a day with every difference checked.

Main results:

- Theorem `march_split`: the year of a day, counted from March, and the day in it.
- Theorems `ofMarch_valid`, `ofMarch_succ`, `ofMarch_last`: the dates of a March year.
- Theorem `ofDays_eq`: the date of a day is the day of the calendar, up to the range of years.
- Theorem `ofDays_calendar`: days one after the other have dates one after the other.
-/

namespace StackMachine.Date

/-! ## The calendar -/

/-- Every fourth year is a leap year, but of the centuries only every fourth. -/
def IsLeap (year : Nat) : Prop := year % 4 = 0 ∧ (year % 100 ≠ 0 ∨ year % 400 = 0)

instance (year : Nat) : Decidable (IsLeap year) := inferInstanceAs (Decidable (_ ∧ _))

/-- The number of days of a month. -/
def monthDays (year month : Nat) : Nat :=
  match month with
  | 2 => if IsLeap year then 29 else 28
  | 4 | 6 | 9 | 11 => 30
  | _ => 31

/-- The calendar has the date. -/
structure Valid (d : Date) : Prop where
  month_pos : 1 ≤ d.month
  month_le : d.month ≤ 12
  day_pos : 1 ≤ d.day
  day_le : d.day ≤ monthDays d.year d.month

/-- The day after a day. -/
def next (d : Date) : Date :=
  if d.day < monthDays d.year d.month then { d with day := d.day + 1 }
  else if d.month < 12 then ⟨d.year, d.month + 1, 1⟩
  else ⟨d.year + 1, 1, 1⟩

/-- The days of the calendar, from the first of January 1970 on. -/
def calendarDay : Nat → Date
  | 0 => ⟨1970, 1, 1⟩
  | n + 1 => (calendarDay n).next

/-! ## Cycles -/

/-- A day of a cycle lies in one of its four centuries, there in one of the groups of four
years, and there in one of the four years.  Only the last year of a group has a 366th day, and
only if the century is the last or the group is not. -/
theorem exists_parts {day : Nat} (hday : day < cycleDays) : ∃ c q s r : Nat,
    day = 36524 * c + 1461 * q + 365 * s + r ∧ c ≤ 3 ∧ q ≤ 24 ∧ s ≤ 3 ∧
      (r < 365 ∨ r = 365 ∧ s = 3 ∧ (q < 24 ∨ c = 3)) := by
  unfold cycleDays at hday
  obtain ⟨c, hc⟩ : ∃ c, c = min 3 (day / 36524) := ⟨_, rfl⟩
  obtain ⟨q, hq⟩ : ∃ q, q = (day - 36524 * c) / 1461 := ⟨_, rfl⟩
  obtain ⟨s, hs⟩ : ∃ s, s = min 3 ((day - 36524 * c - 1461 * q) / 365) := ⟨_, rfl⟩
  refine ⟨c, q, s, day - 36524 * c - 1461 * q - 365 * s, ?_, ?_, ?_, ?_, ?_⟩ <;> omega

/-- The days before a year, from its centuries, its quadrennia in the last one, and the years left.
-/
theorem daysBefore_parts (c : Nat) {q s : Nat} (hq : q ≤ 24) (hs : s ≤ 3) :
    daysBefore (100 * c + 4 * q + s) = 36524 * c + 1461 * q + 365 * s := by
  unfold daysBefore
  omega

/-- The corrections of the quotient make up for the leap days before a day. -/
theorem yearOfCycle_parts {c q s r : Nat} (hc : c ≤ 3) (hq : q ≤ 24) (hs : s ≤ 3)
    (hr : r < 365 ∨ r = 365 ∧ s = 3 ∧ (q < 24 ∨ c = 3)) :
    yearOfCycle (36524 * c + 1461 * q + 365 * s + r) = 100 * c + 4 * q + s := by
  obtain ⟨day, hday⟩ : ∃ day, day = 36524 * c + 1461 * q + 365 * s + r := ⟨_, rfl⟩
  rw [← hday]
  by_cases hlast : day = 146096
  · obtain ⟨rfl, rfl, rfl⟩ : c = 3 ∧ q = 24 ∧ s = 3 := by omega
    rw [hlast]
    decide
  · have hfours : day / 1460 = 25 * c + q + (24 * c + q + 365 * s + r) / 1460 := by omega
    have hcenturies : day / 36524 = c := by omega
    have hcycles : day / 146096 = 0 := by omega
    unfold yearOfCycle
    rw [hfours, hcenturies, hcycles]
    omega

/-! ## Years from March to March -/

/-- The days from the first of March of year 0 to the first of March of a year. -/
def yearStart (year : Nat) : Nat := 365 * year + year / 4 - year / 100 + year / 400

/-- The number of days from the first of March of a year to the next one. -/
def yearLength (year : Nat) : Nat := if IsLeap (year + 1) then 366 else 365

section YearParts

variable (a c : Nat) {q s : Nat} (hq : q ≤ 24) (hs : s ≤ 3)
include hq hs

/-- The first day of a year, from its cycles, centuries, quadrennia and the years left. -/
theorem yearStart_parts (hc : c ≤ 3) :
    yearStart (400 * a + 100 * c + 4 * q + s) =
      cycleDays * a + 36524 * c + 1461 * q + 365 * s := by
  have hfours : (400 * a + 100 * c + 4 * q + s) / 4 = 100 * a + 25 * c + q := by omega
  have hcenturies : (400 * a + 100 * c + 4 * q + s) / 100 = 4 * a + c := by omega
  have hcycles : (400 * a + 100 * c + 4 * q + s) / 400 = a := by omega
  unfold yearStart cycleDays
  rw [hfours, hcenturies, hcycles]
  omega

/-- A March year ends with a leap day if it is the last of a group of four, but for the last of
the first three centuries. -/
theorem yearLength_parts (hc : c ≤ 3) :
    yearLength (400 * a + 100 * c + 4 * q + s) =
      if s = 3 ∧ (q < 24 ∨ c = 3) then 366 else 365 := by
  have hleap : IsLeap (400 * a + 100 * c + 4 * q + s + 1) ↔ s = 3 ∧ (q < 24 ∨ c = 3) := by
    unfold IsLeap
    omega
  simp only [yearLength, hleap]

end YearParts

/-- One more year adds its length: each quotient grows by one exactly where its divisor divides
the year that is reached. -/
theorem yearStart_succ (year : Nat) : yearStart (year + 1) = yearStart year + yearLength year := by
  have hfours : (year + 1) / 4 = year / 4 + if 4 ∣ year + 1 then 1 else 0 := Nat.succ_div ..
  have hcenturies : (year + 1) / 100 = year / 100 + if 100 ∣ year + 1 then 1 else 0 :=
    Nat.succ_div ..
  have hcycles : (year + 1) / 400 = year / 400 + if 400 ∣ year + 1 then 1 else 0 :=
    Nat.succ_div ..
  have hless : year / 100 ≤ year / 4 := Nat.div_le_div_left (by decide) (by decide)
  have hleap : IsLeap (year + 1) ↔ 4 ∣ year + 1 ∧ (¬ 100 ∣ year + 1 ∨ 400 ∣ year + 1) := by
    unfold IsLeap
    omega
  simp only [yearStart, yearLength, hfours, hcenturies, hcycles, hleap]
  clear hfours hcenturies hcycles hleap
  generalize year / 4 = fours at hless ⊢
  generalize year / 100 = centuries at hless ⊢
  generalize year / 400 = cycles
  split_ifs <;> omega

/-- Later years start later. -/
theorem yearStart_mono {year year' : Nat} (hle : year ≤ year') :
    yearStart year ≤ yearStart year' := by
  induction hle with
  | refl => exact Nat.le_refl _
  | step _ ih =>
    rw [yearStart_succ]
    exact Nat.le_add_right_of_le ih

/-- The year of a day, counted from March, and the day in it. -/
theorem march_split (days : Nat) :
    yearStart (marchYear days) + dayOfMarchYear days = days ∧
      dayOfMarchYear days < yearLength (marchYear days) := by
  obtain ⟨c, q, s, r, hday, hc, hq, hs, hr⟩ :=
    exists_parts (Nat.mod_lt days (by decide : 0 < cycleDays))
  have hcycles : cycleDays * (days / cycleDays) + days % cycleDays = days :=
    Nat.div_add_mod days cycleDays
  have hyear : marchYear days = 400 * (days / cycleDays) + 100 * c + 4 * q + s := by
    rw [marchYear, hday, yearOfCycle_parts hc hq hs hr]
    omega
  have hrest : dayOfMarchYear days = r := by
    rw [dayOfMarchYear, hday, yearOfCycle_parts hc hq hs hr, daysBefore_parts c hq hs]
    omega
  rw [hyear, hrest, yearStart_parts _ c hq hs hc, yearLength_parts _ c hq hs hc]
  constructor
  · omega
  · split <;> omega

/-- A day lies in one March year only. -/
theorem march_unique {days year day : Nat} (hsplit : yearStart year + day = days)
    (hday : day < yearLength year) : marchYear days = year ∧ dayOfMarchYear days = day := by
  obtain ⟨hstart, hlength⟩ := march_split days
  have hnext := yearStart_succ year
  have hnext' := yearStart_succ (marchYear days)
  rcases Nat.lt_trichotomy (marchYear days) year with hlt | heq | hgt
  · have hlate := yearStart_mono (show marchYear days + 1 ≤ year from hlt)
    omega
  · refine ⟨heq, ?_⟩
    rw [heq] at hstart
    omega
  · have hlate := yearStart_mono (show year + 1 ≤ marchYear days from hgt)
    omega

/-! ## Months from March to February -/

/-- The days of a March year before a month, the months counted from March. -/
def monthStart (month : Nat) : Nat := (153 * month + 2) / 5

/-- The number of days of a month, counted from March, of a March year. -/
def monthLength (year month : Nat) : Nat :=
  if month = 11 then yearLength year - monthStart 11 else monthStart (month + 1) - monthStart month

/-- The date of a day of a month, both counted from zero, of a March year. -/
def ofMonth (year month day : Nat) : Date :=
  ⟨if month < 10 then year else year + 1, if month < 10 then month + 3 else month - 9, day + 1⟩

/-- The months of a March year have the lengths that the calendar gives them. -/
theorem monthDays_ofMonth (year day : Nat) {month : Nat} (hmonth : month ≤ 11) :
    monthDays (ofMonth year month day).year (ofMonth year month day).month =
      monthLength year month := by
  interval_cases month <;> simp [ofMonth, monthDays, monthLength, monthStart, yearLength]
  split <;> rfl

/-- No month is longer than there is room for before the next one. -/
theorem monthLength_le (year : Nat) {month : Nat} (hmonth : month ≤ 11) :
    monthLength year month ≤ monthStart (month + 1) - monthStart month := by
  unfold monthLength
  split
  · rename_i hlast
    subst hlast
    unfold yearLength
    split <;> decide
  · exact Nat.le_refl _

/-- The quotient that gives the month of a day is right for every month. -/
theorem monthStart_le_lt (day : Nat) :
    monthStart ((5 * day + 2) / 153) ≤ day ∧ day < monthStart ((5 * day + 2) / 153 + 1) := by
  have hlow := Nat.div_mul_le_self (5 * day + 2) 153
  have hhigh := Nat.lt_div_mul_add (a := 5 * day + 2) (b := 153) (by decide)
  generalize (5 * day + 2) / 153 = month at hlow hhigh ⊢
  unfold monthStart
  omega

/-- A day of a year is in one month only. -/
theorem monthStart_inj {month month' day : Nat} (hlow : monthStart month ≤ day)
    (hhigh : day < monthStart (month + 1)) (hlow' : monthStart month' ≤ day)
    (hhigh' : day < monthStart (month' + 1)) : month = month' := by
  unfold monthStart at *
  omega

/-- Every day of a March year lies in one of its months. -/
theorem exists_month {year day : Nat} (hday : day < yearLength year) :
    ∃ month rest, month ≤ 11 ∧ day = monthStart month + rest ∧ rest < monthLength year month := by
  have hle : yearLength year ≤ 366 := by
    unfold yearLength
    split <;> omega
  obtain ⟨hlow, hhigh⟩ := monthStart_le_lt day
  refine ⟨(5 * day + 2) / 153, day - monthStart ((5 * day + 2) / 153), by omega, by omega, ?_⟩
  unfold monthLength
  split
  · rename_i hlast
    rw [hlast] at hlow ⊢
    omega
  · omega

/-- The month of a day is the one that it lies in. -/
theorem ofMarch_month {year month rest : Nat} (hmonth : month ≤ 11)
    (hrest : rest < monthLength year month) :
    ofMarch year (monthStart month + rest) = ofMonth year month rest := by
  have hlength := Nat.lt_of_lt_of_le hrest (monthLength_le year hmonth)
  have hquotient : (5 * (monthStart month + rest) + 2) / 153 = month := by
    obtain ⟨hlow, hhigh⟩ := monthStart_le_lt (monthStart month + rest)
    exact monthStart_inj hlow hhigh (by omega) (by omega)
  have hday : monthStart month + rest - (153 * month + 2) / 5 = rest :=
    Nat.add_sub_cancel_left (n := monthStart month) (m := rest)
  simp only [ofMarch, ofMonth, hquotient, hday]
  interval_cases month <;> rfl

/-- The days of a March year are dates of the calendar. -/
theorem ofMarch_valid {year day : Nat} (hday : day < yearLength year) :
    (ofMarch year day).Valid := by
  obtain ⟨month, rest, hmonth, rfl, hrest⟩ := exists_month hday
  rw [ofMarch_month hmonth hrest]
  refine ⟨?_, ?_, Nat.succ_pos rest, ?_⟩
  · unfold ofMonth
    dsimp only
    split <;> omega
  · unfold ofMonth
    dsimp only
    split <;> omega
  · rw [monthDays_ofMonth year rest hmonth]
    exact hrest

/-- The day after a day is in the same month, the next month or the next March year. -/
theorem next_ofMonth (year rest : Nat) {month : Nat} (hmonth : month ≤ 11) :
    (ofMonth year month rest).next =
      if rest + 1 < monthLength year month then ofMonth year month (rest + 1)
      else if month < 11 then ofMonth year (month + 1) 0 else ofMonth (year + 1) 0 0 := by
  have hday : (ofMonth year month rest).day = rest + 1 := rfl
  rw [next, monthDays_ofMonth year rest hmonth, hday]
  by_cases hinner : rest + 1 < monthLength year month
  · rw [if_pos hinner, if_pos hinner]
    rfl
  · rw [if_neg hinner, if_neg hinner]
    interval_cases month <;> rfl

theorem monthLength_pos (year month : Nat) : 0 < monthLength year month := by
  unfold monthLength yearLength
  split
  · split <;> decide
  · unfold monthStart
    omega

/-- A month starts where the one before it ends. -/
theorem monthStart_succ (year : Nat) {month : Nat} (hmonth : month < 11) :
    monthStart (month + 1) = monthStart month + monthLength year month := by
  unfold monthLength monthStart
  rw [if_neg (by omega)]
  omega

/-- A year ends with its last month, February. -/
theorem yearLength_eq (year : Nat) : yearLength year = monthStart 11 + monthLength year 11 := by
  unfold monthLength yearLength
  split <;> rfl

/-- The day after a day of a March year that is not its last one. -/
theorem ofMarch_succ {year day : Nat} (hday : day + 1 < yearLength year) :
    ofMarch year (day + 1) = (ofMarch year day).next := by
  obtain ⟨month, rest, hmonth, rfl, hrest⟩ := exists_month (Nat.lt_of_succ_lt hday)
  rw [ofMarch_month hmonth hrest, next_ofMonth year rest hmonth]
  by_cases hinner : rest + 1 < monthLength year month
  · rw [if_pos hinner, Nat.add_assoc, ofMarch_month hmonth hinner]
  · have hlength := yearLength_eq year
    have hbefore : month < 11 := by
      by_contra hlast
      obtain rfl : month = 11 := by omega
      omega
    have hstart : monthStart month + rest + 1 = monthStart (month + 1) + 0 := by
      rw [monthStart_succ year hbefore]
      omega
    rw [if_neg hinner, if_pos hbefore, hstart,
      ofMarch_month hbefore (monthLength_pos year _)]

/-- The day after the last day of a March year. -/
theorem ofMarch_last {year day : Nat} (hday : day + 1 = yearLength year) :
    ofMarch (year + 1) 0 = (ofMarch year day).next := by
  have hlength := yearLength_eq year
  have hpos : 0 < monthLength year 11 := monthLength_pos year 11
  have hrest : day = monthStart 11 + (monthLength year 11 - 1) := by omega
  rw [hrest, ofMarch_month (Nat.le_refl 11) (by omega), next_ofMonth year _ (Nat.le_refl 11),
    if_neg (by omega), if_neg (by omega)]
  rfl

/-! ## Days -/

/-- The date of a day counted from the first of March of year 0. -/
def ofMarchDays (days : Nat) : Date := ofMarch (marchYear days) (dayOfMarchYear days)

/-- Every day count has a valid date. -/
theorem ofMarchDays_valid (days : Nat) : (ofMarchDays days).Valid :=
  ofMarch_valid (march_split days).2

/-- The next day has the next date. -/
theorem ofMarchDays_succ (days : Nat) : ofMarchDays (days + 1) = (ofMarchDays days).next := by
  obtain ⟨hsplit, hday⟩ := march_split days
  rcases Nat.lt_or_ge (dayOfMarchYear days + 1) (yearLength (marchYear days)) with hinner | hlast
  · obtain ⟨hyear, hnext⟩ := march_unique (show _ = days + 1 by omega) hinner
    rw [ofMarchDays, hyear, hnext]
    exact ofMarch_succ hinner
  · have hfull : dayOfMarchYear days + 1 = yearLength (marchYear days) := by omega
    have hstart : yearStart (marchYear days + 1) + 0 = days + 1 := by
      rw [yearStart_succ]
      omega
    obtain ⟨hyear, hnext⟩ := march_unique hstart (by unfold yearLength; split <;> decide)
    rw [ofMarchDays, hyear, hnext]
    exact ofMarch_last hfull

/-- The calendar counts its days from another epoch. -/
theorem calendarDay_eq (days : Nat) : calendarDay days = ofMarchDays (days + epochShift) := by
  induction days with
  | zero => decide
  | succ days ih =>
    rw [calendarDay, ih, Nat.add_right_comm]
    exact (ofMarchDays_succ _).symm

/-- Every date of the calendar is valid. -/
theorem calendarDay_valid (days : Nat) : (calendarDay days).Valid := by
  rw [calendarDay_eq]
  exact ofMarchDays_valid _

/-- The date of a day is the day of the calendar, with its year as a word. -/
theorem ofDays_eq (days : Nat) :
    ofDays days = { calendarDay days with year := (calendarDay days).year % yearValues } := by
  rw [calendarDay_eq]
  rfl

/-- The year does not fall from one day to the next. -/
theorem year_le_succ (days : Nat) : (calendarDay days).year ≤ (calendarDay (days + 1)).year := by
  rw [calendarDay, next]
  split_ifs
  · exact Nat.le_refl _
  · exact Nat.le_refl _
  · exact Nat.le_succ _

/-- Dates are those of the calendar as long as their year fits into a word. -/
theorem ofDays_of_year_lt {days : Nat} (hyear : (calendarDay days).year < yearValues) :
    ofDays days = calendarDay days := by
  rw [ofDays_eq, Nat.mod_eq_of_lt hyear]

/-! ## Checked differences -/

/-- The difference of two numbers that are not negative, unless it is. -/
def sub? (a b : Nat) : Option Nat := if b ≤ a then some (a - b) else none

theorem sub?_of_le {a b : Nat} (hle : b ≤ a) : sub? a b = some (a - b) := if_pos hle

/-- `yearOfCycle` with checked differences. -/
def yearOfCycle? (day : Nat) : Option Nat := do
  let common ← sub? day (day / 1460)
  let corrected ← sub? (common + day / 36524) (day / 146096)
  return corrected / 365

/-- `daysBefore` with a checked difference. -/
def daysBefore? (year : Nat) : Option Nat := sub? (365 * year + year / 4) (year / 100)

/-- `ofMarch` with checked differences. -/
def ofMarch? (year dayOfYear : Nat) : Option Date := do
  let marchMonth := (5 * dayOfYear + 2) / 153
  let day ← sub? dayOfYear ((153 * marchMonth + 2) / 5)
  let month ← (if marchMonth < 10 then some (marchMonth + 3) else sub? marchMonth 9)
  return ⟨if month ≤ 2 then year + 1 else year, month, day + 1⟩

/-- `ofMarchDays` with checked differences. -/
def ofMarchDays? (days : Nat) : Option Date := do
  let year ← yearOfCycle? (days % cycleDays)
  let before ← daysBefore? year
  let dayOfYear ← sub? (days % cycleDays) before
  ofMarch? (year + days / cycleDays * 400) dayOfYear

/-- `ofDays` with checked differences: there is no date as soon as a difference is negative. -/
def ofDays? (days : Nat) : Option Date := do
  let date ← ofMarchDays? (days + epochShift)
  return { date with year := date.year % yearValues }

/-- No difference in the year of a cycle is negative. -/
theorem yearOfCycle?_eq (day : Nat) : yearOfCycle? day = some (yearOfCycle day) := by
  have hcommon : day / 1460 ≤ day := Nat.div_le_self day 1460
  have hcorrected : day / 146096 ≤ day - day / 1460 + day / 36524 := by omega
  simp only [yearOfCycle?, sub?_of_le hcommon, Option.bind_eq_bind, Option.bind_some,
    sub?_of_le hcorrected]
  rfl

theorem daysBefore?_eq (year : Nat) : daysBefore? year = some (daysBefore year) :=
  sub?_of_le (by omega)

theorem ofMarch?_eq (year dayOfYear : Nat) :
    ofMarch? year dayOfYear = some (ofMarch year dayOfYear) := by
  have hday : (153 * ((5 * dayOfYear + 2) / 153) + 2) / 5 ≤ dayOfYear := by omega
  have hmonth : (if (5 * dayOfYear + 2) / 153 < 10 then some ((5 * dayOfYear + 2) / 153 + 3)
      else sub? ((5 * dayOfYear + 2) / 153) 9) =
      some (if (5 * dayOfYear + 2) / 153 < 10 then (5 * dayOfYear + 2) / 153 + 3
        else (5 * dayOfYear + 2) / 153 - 9) := by
    split
    · rfl
    · exact sub?_of_le (by omega)
  simp only [ofMarch?, sub?_of_le hday, hmonth, Option.bind_eq_bind, Option.bind_some]
  rfl

/-- Nor is one in a date from a day count. -/
theorem ofMarchDays?_eq (days : Nat) : ofMarchDays? days = some (ofMarchDays days) := by
  have hbefore : daysBefore (yearOfCycle (days % cycleDays)) ≤ days % cycleDays := by
    obtain ⟨c, q, s, r, hday, hc, hq, hs, hr⟩ :=
      exists_parts (Nat.mod_lt days (by decide : 0 < cycleDays))
    rw [hday, yearOfCycle_parts hc hq hs hr, daysBefore_parts c hq hs]
    omega
  simp only [ofMarchDays?, yearOfCycle?_eq, daysBefore?_eq, Option.bind_eq_bind, Option.bind_some,
    sub?_of_le hbefore, ofMarch?_eq]
  rfl

/-- No difference that the date of a day is computed with is negative. -/
theorem ofDays?_eq (days : Nat) : ofDays? days = some (ofDays days) := by
  rw [ofDays?, ofMarchDays?_eq]
  rfl

/-- Dates are those of the calendar while their year fits a word: the count starts at the first
of January 1970, each day is followed by the day that follows it in the calendar, and no
difference on the way to a date is negative. -/
theorem ofDays_calendar :
    ofDays 0 = ⟨1970, 1, 1⟩ ∧
      ∀ d, (calendarDay (d + 1)).year < 2 ^ 32 →
        ofDays d = calendarDay d ∧ (ofDays d).Valid ∧ ofDays (d + 1) = (ofDays d).next ∧
          ofDays? d = some (ofDays d) := by
  refine ⟨by decide, fun d hyear => ?_⟩
  have hdate : ofDays d = calendarDay d :=
    ofDays_of_year_lt (Nat.lt_of_le_of_lt (year_le_succ d) hyear)
  refine ⟨hdate, ?_, ?_, ofDays?_eq d⟩
  · rw [hdate]
    exact calendarDay_valid d
  · rw [hdate, ofDays_of_year_lt hyear]
    rfl

/-- The day after the 28th of February of a leap year is the 29th. -/
theorem ofDays_leapDay :
    (calendarDay (788 + 1)).year < 2 ^ 32 ∧ ofDays 788 = ⟨1972, 2, 28⟩ ∧
      ofDays (788 + 1) = ⟨1972, 2, 29⟩ ∧ (ofDays 788).Valid := by
  have hyear : (calendarDay (788 + 1)).year < 2 ^ 32 := by decide +kernel
  obtain ⟨_, hvalid, hnext, _⟩ := ofDays_calendar.2 788 hyear
  have hdate : ofDays 788 = ⟨1972, 2, 28⟩ := by decide +kernel
  refine ⟨hyear, hdate, ?_, hvalid⟩
  rw [hnext, hdate]
  decide

end StackMachine.Date
