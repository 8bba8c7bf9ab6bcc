import Mathlib.Tactic.IntervalCases
import Mathlib.Tactic.Linarith
import RustyCastle.Foundation.Calendar
import RustyCastle.Foundation.Decimal
import RustyCastle.Ssdp.Basic

/-!
The timestamp of a log line: the calendar date of a day number, and an instant as
its date and time of day. Every signed 64-bit operation of the date is checked, so
no date means that one of them overflows.
-/

namespace RustyCastle.Server
open Foundation Foundation.Calendar Foundation.Decimal RustyCastle.Ssdp

/-- A number of 64 signed bits, where it is one. -/
def i64 (n : Int) : Option Int :=
  if -2 ^ 63 ≤ n ∧ n < 2 ^ 63 then some n else none

def civilFromDays (daysSinceEpoch : Int64) : Option (Int × UInt32 × UInt32) := do
  let days ← i64 (daysSinceEpoch.toInt + 719468)
  let eraDays ← (if days ≥ 0 then some days else i64 (days - 146096))
  let era := eraDays.tdiv 146097
  let dayOfEra ← i64 (days - (← i64 (era * 146097)))
  let yearDays ← i64 (dayOfEra - dayOfEra.tdiv 1460)
  let yearDays ← i64 (yearDays + dayOfEra.tdiv 36524)
  let yearDays ← i64 (yearDays - dayOfEra.tdiv 146096)
  let yearOfEra := yearDays.tdiv 365
  let year ← i64 (yearOfEra + (← i64 (era * 400)))
  let yearStart ← i64 ((← i64 (365 * yearOfEra)) + yearOfEra.tdiv 4)
  let yearStart ← i64 (yearStart - yearOfEra.tdiv 100)
  let dayOfYear ← i64 (dayOfEra - yearStart)
  let monthPart := (← i64 ((← i64 (5 * dayOfYear)) + 2)).tdiv 153
  let monthStart := (← i64 ((← i64 (153 * monthPart)) + 2)).tdiv 5
  let day ← i64 ((← i64 (dayOfYear - monthStart)) + 1)
  let month ← i64 (monthPart + if monthPart < 10 then 3 else -9)
  let year ← (if month ≤ 2 then i64 (year + 1) else some year)
  some (year, .ofInt month, .ofInt day)

/-- An instant of the system clock, in nanoseconds from the epoch. Its distance to
the epoch is a duration. -/
structure SystemTime where
  nanos : Int
  bounded : nanos.natAbs ≤ Duration.max

/-- The duration since the epoch, or as an error the duration up to it. -/
def SystemTime.durationSinceEpoch (now : SystemTime) : Except Duration Duration :=
  if 0 ≤ now.nanos then .ok now.nanos.natAbs else .error now.nanos.natAbs

/-- A number of 128 signed bits, cut off at the ends of the range. -/
def saturateI128 (n : Int) : Int :=
  max (-2 ^ 127) (min n (2 ^ 127 - 1))

def durationToMillis (duration : Duration) : Int :=
  saturateI128 (saturateI128 (duration.asSecs * 1000) + duration.subsecMillis)

def formatTimestamp (now : SystemTime) : Option Str := do
  let millisSinceEpoch := match now.durationSinceEpoch with
    | .ok duration => durationToMillis duration
    | .error duration => -durationToMillis duration
  let secondsSinceEpoch := millisSinceEpoch / 1000
  let milliseconds := millisSinceEpoch % 1000
  let daysSinceEpoch := secondsSinceEpoch / 86400
  let secondsOfDay := secondsSinceEpoch % 86400
  let (year, month, day) ← civilFromDays (.ofInt daysSinceEpoch)
  let hour := secondsOfDay.tdiv 3600
  let minute := (secondsOfDay.tmod 3600).tdiv 60
  let second := secondsOfDay.tmod 60
  some (paddedInt 4 year ++ '-' :: padded 2 month.toNat ++ '-' :: padded 2 day.toNat ++
    'T' :: paddedInt 2 hour ++ ':' :: paddedInt 2 minute ++ ':' :: paddedInt 2 second ++
    '.' :: paddedInt 3 milliseconds ++ ['Z'])

/-! Years of an era

A day of the era is split into its century, the cycle of four years in the century
and the year in the cycle. The corrections of the quotient by 365 take the leap
days off. -/

theorem yearOfEra_spec {dayOfEra : Int} (h : 0 ≤ dayOfEra) (hlt : dayOfEra < 146097) :
    ∃ yearOfEra dayOfYear,
      (dayOfEra - dayOfEra / 1460 + dayOfEra / 36524 - dayOfEra / 146096) / 365 = yearOfEra ∧
      dayOfEra - (365 * yearOfEra + yearOfEra / 4 - yearOfEra / 100) = dayOfYear ∧
      0 ≤ yearOfEra ∧ yearOfEra < 400 ∧ 0 ≤ dayOfYear ∧ dayOfYear ≤ 365 ∧
      (dayOfYear = 365 → IsLeap (yearOfEra + 1)) := by
  rcases eq_or_ne dayOfEra 146096 with rfl | hne
  · exact ⟨399, 365, by decide⟩
  · have hc := Int.mul_ediv_add_emod dayOfEra 36524
    have hclt := Int.emod_lt_of_pos dayOfEra (show (0 : Int) < 36524 by decide)
    have hf := Int.mul_ediv_add_emod (dayOfEra % 36524) 1461
    have hflt := Int.emod_lt_of_pos (dayOfEra % 36524) (show (0 : Int) < 1461 by decide)
    have hcpos : 0 ≤ dayOfEra / 36524 ∧ dayOfEra / 36524 ≤ 3 := by omega
    have hfpos : 0 ≤ dayOfEra % 36524 / 1461 ∧ dayOfEra % 36524 / 1461 ≤ 24 := by omega
    have htpos : 0 ≤ dayOfEra % 36524 % 1461 := by omega
    have hlast : dayOfEra % 36524 / 1461 = 24 → dayOfEra % 36524 % 1461 < 1460 := by omega
    have hera : dayOfEra / 146096 = 0 := by omega
    rw [hera]
    generalize dayOfEra / 36524 = century at *
    generalize dayOfEra % 36524 / 1461 = cycle at *
    generalize dayOfEra % 36524 % 1461 = day at *
    have hday : dayOfEra = 36524 * century + 1461 * cycle + day := by omega
    obtain ⟨year, hyear, hyle, hylt, hyleap⟩ : ∃ year, 0 ≤ year ∧ year ≤ 3 ∧
        (0 ≤ day - 365 * year ∧ day - 365 * year ≤ 365) ∧
        (day - 365 * year = 365 → year = 3 ∧ day = 1460) := by
      rcases eq_or_ne day 1460 with rfl | hne
      · exact ⟨3, by decide⟩
      · exact ⟨day / 365, by omega, by omega, by omega, by omega⟩
    refine ⟨100 * century + 4 * cycle + year, day - 365 * year, ?_, ?_, by omega, by omega,
      hylt.1, hylt.2, fun he => ?_⟩
    · -- the quotient by 1460 is one more than its cycles towards their end
      have hquot : dayOfEra / 1460 = 25 * century + cycle + (24 * century + cycle + day) / 1460 := by
        omega
      have hover : (24 * century + cycle + day) / 1460 = 0 ∨
          (24 * century + cycle + day) / 1460 = 1 ∧ 1095 ≤ day - 1 := by omega
      omega
    · have hfour : (100 * century + 4 * cycle + year) / 4 = 25 * century + cycle := by omega
      have hhundred : (100 * century + 4 * cycle + year) / 100 = century := by omega
      omega
    · obtain ⟨rfl, rfl⟩ := hyleap he
      have hcycle : cycle ≠ 24 := fun h24 => absurd (hlast h24) (by decide)
      unfold IsLeap
      omega

/-! Months of a year that begins in March

The quotient `(153 * m + 2) / 5` counts the days from the first of March to the
first of the month `m` months later. -/

theorem daysInMonth_march (year : Int) {m : Nat} (h : m < 10) :
    daysInMonth year (m + 3) = (153 * (m + 1) + 2) / 5 - (153 * m + 2) / 5 := by
  interval_cases m <;> rfl

theorem daysBeforeMonth_march (year : Int) {m : Nat} (h : m < 10) :
    daysBeforeMonth year (m + 3) = daysBeforeMonth year 3 + (153 * m + 2) / 5 := by
  induction m with
  | zero => rfl
  | succ m ih =>
      have hdays := daysInMonth_march year (m := m) (by omega)
      rw [show m + 1 + 3 = m + 3 + 1 from rfl, daysBeforeMonth_succ year (Nat.le_add_left 1 _),
        ih (by omega), hdays]
      omega

/-- The year that begins in March of the given year, day by day. -/
theorem date_of_dayOfYear (year : Int) {dayOfYear : Int} (h : 0 ≤ dayOfYear) (hle : dayOfYear ≤ 365)
    (hleap : dayOfYear = 365 → IsLeap (year + 1)) :
    ∃ date : Date, date.month =
        (5 * dayOfYear + 2) / 153 + (if (5 * dayOfYear + 2) / 153 < 10 then 3 else -9) ∧
      date.day = dayOfYear - (153 * ((5 * dayOfYear + 2) / 153) + 2) / 5 + 1 ∧
      date.year = (if date.month ≤ 2 then year + 1 else year) ∧
      date.ordinal = daysBeforeYear (year + 1) - 305 + dayOfYear := by
  obtain ⟨m, hm⟩ := Int.eq_ofNat_of_zero_le (show 0 ≤ (5 * dayOfYear + 2) / 153 by omega)
  obtain ⟨d, rfl⟩ := Int.eq_ofNat_of_zero_le h
  have hmle : m ≤ 11 := by omega
  have hfirst : (153 * m + 2) / 5 ≤ d := by omega
  have hnext : d < (153 * (m + 1) + 2) / 5 := by omega
  rw [hm]
  by_cases hm10 : m < 10
  · have hday : d - (153 * m + 2) / 5 + 1 ≤ daysInMonth year (m + 3) := by
      rw [daysInMonth_march year hm10]
      omega
    refine ⟨⟨year, m + 3, d - (153 * m + 2) / 5 + 1, by omega, by omega, by omega, hday⟩, ?_⟩
    have hmarch : daysBeforeMonth year 3 + 306 = daysInYear year := by
      simp only [daysBeforeMonth, daysInMonth, daysInYear]
      split <;> rfl
    simp only [Date.ordinal, daysBeforeMonth_march year hm10, daysBeforeYear_succ]
    omega
  · -- January and February end the year that began in March
    rcases (show m = 10 ∨ m = 11 by omega) with rfl | rfl
    · have hday : d - 306 + 1 ≤ daysInMonth (year + 1) 1 := by
        rw [show daysInMonth (year + 1) 1 = 31 from rfl]
        omega
      refine ⟨⟨year + 1, 1, d - 306 + 1, by decide, by decide, by omega, hday⟩, ?_⟩
      have hbefore : daysBeforeMonth (year + 1) 1 = 0 := rfl
      simp only [Date.ordinal, hbefore]
      omega
    · have hday : d - 337 + 1 ≤ daysInMonth (year + 1) 2 := by
        simp only [daysInMonth]
        split
        · omega
        · rename_i hshort
          have hne : (d : Int) ≠ 365 := fun he => hshort (hleap he)
          omega
      refine ⟨⟨year + 1, 2, d - 337 + 1, by decide, by decide, by omega, hday⟩, ?_⟩
      have hbefore : daysBeforeMonth (year + 1) 2 = 31 := rfl
      simp only [Date.ordinal, hbefore]
      omega

/-! Days -/

theorem bind_of_eq_some {α β : Type} {x : Option α} {k : α → Option β} {r : Option β} {a : α}
    (h : x = some a) (hk : k a = r) : x.bind k = r := by
  rw [h]
  exact hk

/-- A checked operation in range hands its result on. -/
theorem bind_i64 {α : Type} {n : Int} {k : Int → Option α} {r : Option α} (m : Int) (h : n = m)
    (hr : -2 ^ 63 ≤ m ∧ m < 2 ^ 63) (hk : k m = r) : (i64 n).bind k = r :=
  bind_of_eq_some (by rw [i64, h, if_pos hr]) hk

/-- A day in front of the era of the year zero is moved down to the start of its era. -/
theorem tdiv_era {days : Int} :
    (if days ≥ 0 then days else days - 146096).tdiv 146097 = days / 146097 := by
  split
  · rename_i h
    exact Int.tdiv_eq_ediv_of_nonneg h
  · rename_i h
    rw [show days - 146096 = -(146096 - days) by omega, Int.neg_tdiv,
      Int.tdiv_eq_ediv_of_nonneg (by omega)]
    omega

/-- The checked operations of a day whose quotients are known. -/
theorem civilFromDays_eq {d : Int64} {days era dayOfEra yearOfEra dayOfYear monthPart : Int}
    (hd₀ : d.toInt + 719468 = days) (h : days < 2 ^ 63) (hera : days / 146097 = era)
    (hdoe : days - era * 146097 = dayOfEra)
    (hyear : (dayOfEra - dayOfEra / 1460 + dayOfEra / 36524 - dayOfEra / 146096) / 365 = yearOfEra)
    (hday : dayOfEra - (365 * yearOfEra + yearOfEra / 4 - yearOfEra / 100) = dayOfYear)
    (hy : 0 ≤ yearOfEra ∧ yearOfEra < 400) (hd : 0 ≤ dayOfYear ∧ dayOfYear ≤ 365)
    (hpart : (5 * dayOfYear + 2) / 153 = monthPart) :
    civilFromDays d =
      some (if monthPart + (if monthPart < 10 then 3 else -9) ≤ 2 then yearOfEra + era * 400 + 1
          else yearOfEra + era * 400,
        .ofInt (monthPart + if monthPart < 10 then 3 else -9),
        .ofInt (dayOfYear - (153 * monthPart + 2) / 5 + 1)) := by
  have hlow : -2 ^ 63 ≤ d.toInt := d.le_toInt
  have hdoe0 : 0 ≤ dayOfEra ∧ dayOfEra < 146097 := by omega
  have hcycles : 0 ≤ dayOfEra / 1460 ∧ dayOfEra / 1460 ≤ dayOfEra ∧ dayOfEra / 1460 ≤ 101 := by omega
  have hcenturies : 0 ≤ dayOfEra / 36524 ∧ dayOfEra / 36524 ≤ 4 := by omega
  have hlast : 0 ≤ dayOfEra / 146096 ∧ dayOfEra / 146096 ≤ dayOfEra / 36524 := by omega
  have hcycles' : dayOfEra.tdiv 1460 = dayOfEra / 1460 := Int.tdiv_eq_ediv_of_nonneg hdoe0.1
  have hcenturies' : dayOfEra.tdiv 36524 = dayOfEra / 36524 := Int.tdiv_eq_ediv_of_nonneg hdoe0.1
  have hlast' : dayOfEra.tdiv 146096 = dayOfEra / 146096 := Int.tdiv_eq_ediv_of_nonneg hdoe0.1
  generalize dayOfEra / 1460 = cycles at *
  generalize dayOfEra / 36524 = centuries at *
  generalize dayOfEra / 146096 = last at *
  have hyear' : (dayOfEra - cycles + centuries - last).tdiv 365 = yearOfEra := by
    rw [Int.tdiv_eq_ediv_of_nonneg (by omega), hyear]
  have hy4 : 0 ≤ yearOfEra / 4 ∧ yearOfEra / 4 ≤ 99 := by omega
  have hy100 : 0 ≤ yearOfEra / 100 ∧ yearOfEra / 100 ≤ 3 := by omega
  have hy4' : yearOfEra.tdiv 4 = yearOfEra / 4 := Int.tdiv_eq_ediv_of_nonneg hy.1
  have hy100' : yearOfEra.tdiv 100 = yearOfEra / 100 := Int.tdiv_eq_ediv_of_nonneg hy.1
  have hm : 0 ≤ monthPart ∧ monthPart ≤ 11 := by omega
  have hm5 : 0 ≤ (153 * monthPart + 2) / 5 ∧ (153 * monthPart + 2) / 5 ≤ 337 := by omega
  have hpart' : (5 * dayOfYear + 2).tdiv 153 = monthPart := by
    rw [Int.tdiv_eq_ediv_of_nonneg (by omega), hpart]
  have hm5' : (153 * monthPart + 2).tdiv 5 = (153 * monthPart + 2) / 5 :=
    Int.tdiv_eq_ediv_of_nonneg (by omega)
  generalize yearOfEra / 4 = fours at *
  generalize yearOfEra / 100 = hundreds at *
  generalize (153 * monthPart + 2) / 5 = monthStart at *
  clear hyear hpart
  have hdown : (if days ≥ 0 then some days else i64 (days - 146096)) =
      some (if days ≥ 0 then days else days - 146096) := by
    split
    · rfl
    · exact if_pos (by omega)
  refine bind_i64 days hd₀ (by omega) (bind_of_eq_some hdown ?_)
  refine bind_i64 (era * 146097) (by rw [tdiv_era, hera]) (by omega) ?_
  refine bind_i64 dayOfEra hdoe (by omega) ?_
  refine bind_i64 (dayOfEra - cycles) (by rw [hcycles']) (by omega) ?_
  refine bind_i64 (dayOfEra - cycles + centuries) (by rw [hcenturies']) (by omega) ?_
  refine bind_i64 (dayOfEra - cycles + centuries - last) (by rw [hlast']) (by omega) ?_
  refine bind_i64 (era * 400) (by rw [tdiv_era, hera]) (by omega) ?_
  refine bind_i64 (yearOfEra + era * 400) (by rw [hyear']) (by omega) ?_
  refine bind_i64 (365 * yearOfEra) (by rw [hyear']) (by omega) ?_
  refine bind_i64 (365 * yearOfEra + fours) (by rw [hyear', hy4']) (by omega) ?_
  refine bind_i64 (365 * yearOfEra + fours - hundreds) (by rw [hyear', hy100']) (by omega) ?_
  refine bind_i64 dayOfYear hday (by omega) ?_
  refine bind_i64 (5 * dayOfYear) rfl (by omega) ?_
  refine bind_i64 (5 * dayOfYear + 2) rfl (by omega) ?_
  refine bind_i64 (153 * monthPart) (by rw [hpart']) (by omega) ?_
  refine bind_i64 (153 * monthPart + 2) rfl (by omega) ?_
  refine bind_i64 (dayOfYear - monthStart) (by rw [hm5']) (by omega) ?_
  refine bind_i64 (dayOfYear - monthStart + 1) rfl (by omega) ?_
  refine bind_i64 (monthPart + if monthPart < 10 then 3 else -9) (by rw [hpart']) (by omega) ?_
  generalize monthPart + (if monthPart < 10 then 3 else -9) = month
  refine bind_of_eq_some (a := if month ≤ 2 then yearOfEra + era * 400 + 1
    else yearOfEra + era * 400) ?_ rfl
  split
  · exact if_pos (by omega)
  · rfl

/-- The year, month and day of a date. -/
def civil (date : Date) : Int × UInt32 × UInt32 :=
  (date.year, .ofNat date.month, .ofNat date.day)

def epoch : Date := .newYear 1970

/-- The days from the epoch to a date. -/
def daysSinceEpoch (date : Date) : Int :=
  date.ordinal - epoch.ordinal

theorem ofInt_natCast (n : Nat) : UInt32.ofInt n = UInt32.ofNat n := by
  rw [← UInt32.ofNat_mod_size (x := n)]
  rfl

theorem civilFromDays_spec {d : Int64} (h : d.toInt < 2 ^ 63 - 719468) :
    ∃ date : Date, civilFromDays d = some (civil date) ∧ daysSinceEpoch date = d.toInt := by
  obtain ⟨days, hdays⟩ : ∃ days, d.toInt + 719468 = days := ⟨_, rfl⟩
  have hdoe0 : 0 ≤ days - days / 146097 * 146097 ∧ days - days / 146097 * 146097 < 146097 := by
    omega
  obtain ⟨yearOfEra, dayOfYear, hyear, hday, hy0, hy, hd0, hd, hleap⟩ :=
    yearOfEra_spec hdoe0.1 hdoe0.2
  have hnext : yearOfEra + days / 146097 * 400 + 1 = yearOfEra + 1 + 400 * (days / 146097) := by
    rw [Int.mul_comm]
    exact Int.add_right_comm ..
  obtain ⟨date, hmonth, hdate, hdyear, hordinal⟩ :=
    date_of_dayOfYear (yearOfEra + days / 146097 * 400) hd0 hd fun he => by
      rw [hnext, isLeap_add_eras]
      exact hleap he
  have hle : (date.month : Int) ≤ 2 ↔ date.month ≤ 2 := by omega
  refine ⟨date, ?_, ?_⟩
  · rw [civilFromDays_eq hdays (by omega) rfl rfl hyear hday ⟨hy0, hy⟩ ⟨hd0, hd⟩ rfl, ← hmonth,
      ← hdate, civil, hdyear, ofInt_natCast, ofInt_natCast]
    simp only [hle]
  · have hepoch : epoch.ordinal = 719163 := rfl
    rw [daysSinceEpoch, hordinal, hnext, daysBeforeYear_add_eras, daysBeforeYear_in_era hy0 hy, hepoch]
    linarith only [hday, hdays]

theorem civilFromDays_none {d : Int64} (h : 2 ^ 63 - 719468 ≤ d.toInt) : civilFromDays d = none := by
  have hrange : i64 (d.toInt + 719468) = none := if_neg (by omega)
  rw [civilFromDays, hrange]
  rfl

theorem toNat_month (date : Date) : (UInt32.ofNat date.month).toNat = date.month :=
  UInt32.toNat_ofNat_of_lt' (Nat.lt_of_le_of_lt date.month_le (by decide))

theorem toNat_day (date : Date) : (UInt32.ofNat date.day).toNat = date.day :=
  UInt32.toNat_ofNat_of_lt'
    (Nat.lt_of_le_of_lt (Nat.le_trans date.day_le (daysInMonth_bounds _ _).2) (by decide))

theorem civil_injective {a b : Date} (h : civil a = civil b) : a = b := by
  obtain ⟨hyear, hrest⟩ := Prod.mk.inj h
  obtain ⟨hmonth, hday⟩ := Prod.mk.inj hrest
  refine Date.ext hyear ?_ ?_
  · rw [← toNat_month a, hmonth, toNat_month]
  · rw [← toNat_day a, hday, toNat_day]

theorem daysSinceEpoch_next (date : Date) : daysSinceEpoch date.next = daysSinceEpoch date + 1 := by
  rw [daysSinceEpoch, daysSinceEpoch, ordinal_next]
  exact Int.add_right_comm ..

theorem daysSinceEpoch_injective {a b : Date} (h : daysSinceEpoch a = daysSinceEpoch b) : a = b :=
  ordinal_injective (sub_left_injective h)

/-- A date is found for a day number exactly where it is the date of that day. -/
theorem civilFromDays_eq_some_iff {d : Int64} {date : Date} :
    civilFromDays d = some (civil date) ↔
      daysSinceEpoch date = d.toInt ∧ d.toInt < 2 ^ 63 - 719468 := by
  by_cases h : d.toInt < 2 ^ 63 - 719468
  · obtain ⟨found, hfound, hd⟩ := civilFromDays_spec h
    rw [hfound, Option.some.injEq]
    constructor
    · intro he
      rw [← civil_injective he]
      exact ⟨hd, h⟩
    · rintro ⟨he, -⟩
      rw [daysSinceEpoch_injective (hd.trans he.symm)]
  · rw [civilFromDays_none (Int.not_lt.mp h)]
    exact iff_of_false (fun he => by cases he) fun he => h he.2

/-! Instants -/

/-- The milliseconds from the epoch, whole ones only: a rest is left out on the side
of the epoch. -/
def SystemTime.wholeMillis (now : SystemTime) : Int :=
  now.nanos.tdiv 1000000

def timestampText (date : Date) (hour minute second millis : Nat) : Str :=
  paddedInt 4 date.year ++ '-' :: padded 2 date.month ++ '-' :: padded 2 date.day ++
    'T' :: padded 2 hour ++ ':' :: padded 2 minute ++ ':' :: padded 2 second ++
    '.' :: padded 3 millis ++ ['Z']

/-- No duration is cut off. -/
theorem durationToMillis_eq {duration : Nat} (h : duration ≤ Duration.max) :
    durationToMillis duration = (duration / 1000000 : Nat) := by
  unfold Duration.max at h
  simp only [durationToMillis, Duration.asSecs, Duration.subsecMillis, saturateI128]
  omega

theorem millis_of_durationSinceEpoch (now : SystemTime) :
    (match now.durationSinceEpoch with
      | .ok duration => durationToMillis duration
      | .error duration => -durationToMillis duration) = now.wholeMillis := by
  simp only [SystemTime.durationSinceEpoch, SystemTime.wholeMillis]
  split <;> rename_i h
  · split at h
    · rename_i hnonneg
      cases h
      rw [durationToMillis_eq now.bounded, Int.tdiv_eq_ediv_of_nonneg hnonneg]
      omega
    · cases h
  · split at h
    · cases h
    · rename_i hneg
      cases h
      rw [durationToMillis_eq now.bounded, ← Int.neg_neg now.nanos, Int.neg_tdiv,
        Int.tdiv_eq_ediv_of_nonneg (by omega), Int.neg_neg]
      omega

theorem formatTimestamp_spec (now : SystemTime) :
    ∃ date hour minute second millis,
      formatTimestamp now = some (timestampText date hour minute second millis) ∧
      civilFromDays (.ofInt (daysSinceEpoch date)) = some (civil date) ∧
      hour < 24 ∧ minute < 60 ∧ second < 60 ∧ millis < 1000 ∧
      (((daysSinceEpoch date * 24 + hour) * 60 + minute) * 60 + second) * 1000 + millis =
        now.wholeMillis := by
  have habs : now.wholeMillis.natAbs < 2 ^ 64 * 1000 := by
    have hle := now.bounded
    unfold Duration.max at hle
    rw [SystemTime.wholeMillis, Int.natAbs_tdiv]
    change now.nanos.natAbs / 1000000 < 2 ^ 64 * 1000
    omega
  unfold formatTimestamp
  rw [millis_of_durationSinceEpoch]
  generalize now.wholeMillis = total at *
  obtain ⟨seconds, hseconds⟩ : ∃ seconds, total / 1000 = seconds := ⟨_, rfl⟩
  obtain ⟨ofDay, hofDay⟩ := Int.eq_ofNat_of_zero_le (Int.emod_nonneg seconds (show (86400 : Int) ≠ 0 by decide))
  obtain ⟨millis, hmillis⟩ := Int.eq_ofNat_of_zero_le (Int.emod_nonneg total (show (1000 : Int) ≠ 0 by decide))
  have hday : (Int64.ofInt (seconds / 86400)).toInt = seconds / 86400 :=
    Int64.toInt_ofInt_of_le (by omega) (by omega)
  obtain ⟨date, hdate, hnumber⟩ := civilFromDays_spec (d := .ofInt (seconds / 86400)) (by omega)
  rw [hday] at hnumber
  refine ⟨date, ofDay / 3600, ofDay % 3600 / 60, ofDay % 60, millis, ?_, ?_, by omega, by omega,
    by omega, by omega, by omega⟩
  · simp only [hseconds, hofDay, hmillis, hdate, Option.bind_eq_bind, Option.bind_some, civil,
      toNat_month, toNat_day]
    rfl
  · rw [hnumber]
    exact hdate

example : formatTimestamp ⟨0, by decide⟩ = some "1970-01-01T00:00:00.000Z".toList := by decide

example : formatTimestamp ⟨1704067202345 * 1000000, by decide⟩ =
    some "2024-01-01T00:00:02.345Z".toList := by decide

/-- Day numbers and dates correspond, in the order of the calendar, up to the last day
whose arithmetic stays within 64 bits; and an instant is written as its date and its
time of day. -/
theorem civil_from_days_gregorian :
    (∀ d r, civilFromDays d = some r → ∃ date, r = civil date ∧ daysSinceEpoch date = d.toInt) ∧
      civilFromDays 0 = some (1970, 1, 1) ∧
      (∀ (d e : Int64) (date : Date), e.toInt = d.toInt + 1 → civilFromDays d = some (civil date) →
        ∀ r, civilFromDays e = some r → r = civil date.next) ∧
      (∀ d e r, civilFromDays d = some r → civilFromDays e = some r → d = e) ∧
      (∀ date, -2 ^ 63 ≤ daysSinceEpoch date → daysSinceEpoch date < 2 ^ 63 - 719468 →
        civilFromDays (.ofInt (daysSinceEpoch date)) = some (civil date)) ∧
      (∀ d, civilFromDays d = none ↔ 2 ^ 63 - 719468 ≤ d.toInt) ∧
      ∀ now, ∃ date hour minute second millis,
        formatTimestamp now = some (timestampText date hour minute second millis) ∧
        civilFromDays (.ofInt (daysSinceEpoch date)) = some (civil date) ∧
        hour < 24 ∧ minute < 60 ∧ second < 60 ∧ millis < 1000 ∧
        (((daysSinceEpoch date * 24 + hour) * 60 + minute) * 60 + second) * 1000 + millis =
          now.wholeMillis := by
  have hfound : ∀ d r, civilFromDays d = some r →
      ∃ date, r = civil date ∧ daysSinceEpoch date = d.toInt := fun d r hr => by
    by_cases h : d.toInt < 2 ^ 63 - 719468
    · obtain ⟨date, hdate, hd⟩ := civilFromDays_spec h
      exact ⟨date, Option.some.inj (hr.symm.trans hdate), hd⟩
    · rw [civilFromDays_none (Int.not_lt.mp h)] at hr
      cases hr
  refine ⟨hfound, by decide, fun d e date he hd r hr => ?_, fun d e r hd he => ?_,
    fun date hlow hlt => ?_, fun d => ⟨fun h => ?_, civilFromDays_none⟩, formatTimestamp_spec⟩
  · obtain ⟨after, rfl, hafter⟩ := hfound e r hr
    have hday := (civilFromDays_eq_some_iff.mp hd).1
    have hnext := daysSinceEpoch_next date
    rw [daysSinceEpoch_injective (a := after) (b := date.next) (by omega)]
  · obtain ⟨date, rfl, hdate⟩ := hfound d r hd
    exact Int64.toInt_inj.mp (hdate.symm.trans (civilFromDays_eq_some_iff.mp he).1)
  · have hday := Int64.toInt_ofInt_of_le hlow (by omega)
    exact civilFromDays_eq_some_iff.mpr ⟨hday.symm, by omega⟩
  · by_contra hlt
    obtain ⟨date, hdate, -⟩ := civilFromDays_spec (Int.not_le.mp hlt)
    rw [h] at hdate
    cases hdate

theorem civil_from_days_gregorian_sample :
    (1970, 3, 1) = civil (Date.next ⟨1970, 2, 28, by decide, by decide, by decide, by decide⟩) :=
  civil_from_days_gregorian.2.2.1 58 59 _ (by decide) (by decide) _ (by decide)

end RustyCastle.Server
