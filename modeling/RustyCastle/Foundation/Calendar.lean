import Mathlib.Algebra.Order.Ring.Int

/-!
The proleptic Gregorian calendar. A date carries its validity, every date has a
successor, and the ordinal of a date counts the days from the first of January
of the year one. The ordinal grows by one from a date to its successor and orders
the dates as the calendar does.
-/

namespace Foundation.Calendar

def IsLeap (year : Int) : Prop :=
  year % 4 = 0 ∧ (year % 100 ≠ 0 ∨ year % 400 = 0)

instance (year : Int) : Decidable (IsLeap year) :=
  inferInstanceAs (Decidable (_ ∧ _))

def daysInYear (year : Int) : Nat :=
  if IsLeap year then 366 else 365

def daysInMonth (year : Int) : Nat → Nat
  | 2 => if IsLeap year then 29 else 28
  | 4 | 6 | 9 | 11 => 30
  | _ => 31

@[ext] structure Date where
  year : Int
  month : Nat
  day : Nat
  month_pos : 1 ≤ month
  month_le : month ≤ 12
  day_pos : 1 ≤ day
  day_le : day ≤ daysInMonth year month
  deriving DecidableEq

theorem daysInMonth_bounds (year : Int) (month : Nat) :
    1 ≤ daysInMonth year month ∧ daysInMonth year month ≤ 31 := by
  unfold daysInMonth
  split
  · split <;> decide
  all_goals decide

/-- The first of January. -/
def Date.newYear (year : Int) : Date :=
  ⟨year, 1, 1, Nat.le_refl 1, by decide, Nat.le_refl 1, (daysInMonth_bounds _ _).1⟩

/-- The day after: the next of the month, else the first of the next month. -/
def Date.next (date : Date) : Date :=
  if h : date.day < daysInMonth date.year date.month then
    { date with day := date.day + 1, day_pos := Nat.le_add_left 1 _, day_le := h }
  else if h : date.month < 12 then
    ⟨date.year, date.month + 1, 1, Nat.le_add_left 1 _, h, Nat.le_refl 1, (daysInMonth_bounds _ _).1⟩
  else .newYear (date.year + 1)

/-! Counting days -/

/-- The days of the years from the year one up to the given year. -/
def daysBeforeYear (year : Int) : Int :=
  365 * (year - 1) + (year - 1) / 4 - (year - 1) / 100 + (year - 1) / 400

/-- The days of the months in front of the given month. -/
def daysBeforeMonth (year : Int) : Nat → Nat
  | 0 | 1 => 0
  | month + 2 => daysBeforeMonth year (month + 1) + daysInMonth year (month + 1)

/-- The first of January of the year one has the ordinal one. -/
def Date.ordinal (date : Date) : Int :=
  daysBeforeYear date.year + daysBeforeMonth date.year date.month + date.day

theorem daysBeforeYear_succ (year : Int) :
    daysBeforeYear (year + 1) = daysBeforeYear year + daysInYear year := by
  unfold daysBeforeYear daysInYear
  split
  all_goals
    rename_i h
    unfold IsLeap at h
    omega

theorem daysBeforeYear_mono {a b : Int} (h : a ≤ b) : daysBeforeYear a ≤ daysBeforeYear b := by
  unfold daysBeforeYear
  omega

theorem daysBeforeMonth_succ (year : Int) {month : Nat} (h : 1 ≤ month) :
    daysBeforeMonth year (month + 1) = daysBeforeMonth year month + daysInMonth year month := by
  obtain ⟨m, rfl⟩ := Nat.exists_eq_add_of_le' h
  rfl

theorem daysBeforeMonth_mono (year : Int) {a b : Nat} (ha : 1 ≤ a) (h : a ≤ b) :
    daysBeforeMonth year a ≤ daysBeforeMonth year b := by
  induction b, h using Nat.le_induction with
  | base => exact Nat.le_refl _
  | succ b hab ih =>
      rw [daysBeforeMonth_succ year (Nat.le_trans ha hab)]
      exact Nat.le_add_right_of_le ih

/-- The months fill the year. -/
theorem daysBeforeMonth_all (year : Int) :
    daysBeforeMonth year 13 = daysInYear year := by
  simp only [daysBeforeMonth, daysInMonth, daysInYear]
  split <;> rfl

theorem ordinal_next (date : Date) : date.next.ordinal = date.ordinal + 1 := by
  have hpos := date.month_pos
  have hle := date.month_le
  have hday := date.day_le
  unfold Date.next
  split
  · simp only [Date.ordinal]
    omega
  · rename_i hlast
    split
    · simp only [Date.ordinal, daysBeforeMonth_succ date.year hpos]
      omega
    · rename_i hmonth
      have hdec : date.month = 12 := by omega
      have hall := daysBeforeMonth_all date.year
      rw [daysBeforeMonth_succ date.year (by decide)] at hall
      rw [hdec] at hlast hday
      have hfirst : daysBeforeMonth (date.year + 1) 1 = 0 := rfl
      simp only [Date.ordinal, Date.newYear, daysBeforeYear_succ, hdec, hfirst]
      omega

/-! The calendar repeats after four hundred years. -/

theorem isLeap_add_eras (year eras : Int) : IsLeap (year + 400 * eras) ↔ IsLeap year := by
  have hfour : (year + 400 * eras) % 4 = year % 4 := by omega
  have hhundred : (year + 400 * eras) % 100 = year % 100 := by omega
  have hera : (year + 400 * eras) % 400 = year % 400 := by omega
  rw [IsLeap, IsLeap, hfour, hhundred, hera]

theorem daysBeforeYear_add_eras (year eras : Int) :
    daysBeforeYear (year + 400 * eras) = daysBeforeYear year + 146097 * eras := by
  have hfour : (year + 400 * eras - 1) / 4 = (year - 1) / 4 + 100 * eras := by omega
  have hhundred : (year + 400 * eras - 1) / 100 = (year - 1) / 100 + 4 * eras := by omega
  have hera : (year + 400 * eras - 1) / 400 = (year - 1) / 400 + eras := by omega
  rw [daysBeforeYear, daysBeforeYear, hfour, hhundred, hera]
  omega

theorem daysBeforeYear_in_era {year : Int} (h : 0 ≤ year) (hlt : year < 400) :
    daysBeforeYear (year + 1) = 365 * year + year / 4 - year / 100 := by
  have hera : year / 400 = 0 := Int.ediv_eq_zero_of_lt h hlt
  rw [daysBeforeYear, Int.add_sub_cancel, hera, Int.add_zero]

/-! Order -/

theorem ordinal_le (date : Date) : date.ordinal ≤ daysBeforeYear (date.year + 1) := by
  have hday := date.day_le
  have hmonth := daysBeforeMonth_mono date.year (Nat.le_add_left 1 date.month)
    (Nat.succ_le_succ date.month_le)
  rw [daysBeforeMonth_succ _ date.month_pos, daysBeforeMonth_all] at hmonth
  rw [Date.ordinal, daysBeforeYear_succ]
  omega

theorem ordinal_lt_of_year_lt {a b : Date} (h : a.year < b.year) : a.ordinal < b.ordinal := by
  have hday := b.day_pos
  calc a.ordinal ≤ daysBeforeYear (a.year + 1) := ordinal_le a
    _ ≤ daysBeforeYear b.year := daysBeforeYear_mono h
    _ < b.ordinal := by rw [Date.ordinal]; omega

theorem ordinal_lt_of_month_lt {a b : Date} (hy : a.year = b.year) (h : a.month < b.month) :
    a.ordinal < b.ordinal := by
  have hday := a.day_le
  have hpos := b.day_pos
  have hmonth := daysBeforeMonth_mono b.year (Nat.le_add_left 1 a.month) h
  rw [daysBeforeMonth_succ _ a.month_pos] at hmonth
  rw [Date.ordinal, Date.ordinal, hy]
  rw [hy] at hday
  omega

theorem ordinal_injective {a b : Date} (h : a.ordinal = b.ordinal) : a = b := by
  have hyear : a.year = b.year := by
    rcases lt_trichotomy a.year b.year with hlt | heq | hgt
    · exact absurd h (ordinal_lt_of_year_lt hlt).ne
    · exact heq
    · exact absurd h (ordinal_lt_of_year_lt hgt).ne'
  have hmonth : a.month = b.month := by
    rcases lt_trichotomy a.month b.month with hlt | heq | hgt
    · exact absurd h (ordinal_lt_of_month_lt hyear hlt).ne
    · exact heq
    · exact absurd h (ordinal_lt_of_month_lt hyear.symm hgt).ne'
  rw [Date.ordinal, Date.ordinal, hyear, hmonth] at h
  exact Date.ext hyear hmonth (by omega)

end Foundation.Calendar
