import RustyCastle.Foundation.Splitting
import RustyCastle.Server.Mp4

/-!
The duration text of a movie, read back in milliseconds. The sum in front of the
division saturates, so a duration beyond the range of 64 bits is cut off there.
-/

namespace RustyCastle.Server
open Foundation Foundation.Decimal

/-- `H:MM:SS`, with `.mmm` behind it where there are milliseconds. -/
def clockText (hours minutes seconds millis : Nat) : Str :=
  numeral hours ++ ':' :: padded 2 minutes ++ ':' :: padded 2 seconds ++
    if millis = 0 then [] else '.' :: padded 3 millis

/-- The milliseconds of a duration text. -/
def readDuration (text : Str) : Option Nat := do
  let (hours, text) ← Str.cut [':'] text
  let (minutes, text) ← Str.cut [':'] text
  let (seconds, millis) := (Str.cut ['.'] text).getD (text, ['0'])
  let hours ← parseUnsigned 64 hours
  let minutes ← parseUnsigned 64 minutes
  let seconds ← parseUnsigned 64 seconds
  let millis ← parseUnsigned 64 millis
  some (((hours * 60 + minutes) * 60 + seconds) * 1000 + millis)

/-! Reading -/

theorem readDuration_clockText {hours minutes seconds millis : Nat} (hh : hours < 2 ^ 64)
    (hm : minutes < 60) (hs : seconds < 60) (hms : millis < 1000) :
    readDuration (clockText hours minutes seconds millis) =
      some (((hours * 60 + minutes) * 60 + seconds) * 1000 + millis) := by
  have hcolon : ':' ∉ digits := by decide
  have hhours := parseUnsigned_numeral hh
  have hminutes : parseUnsigned 64 (padded 2 minutes) = some minutes :=
    parseUnsigned_padded 2 (by omega)
  have hseconds : parseUnsigned 64 (padded 2 seconds) = some seconds :=
    parseUnsigned_padded 2 (by omega)
  have hmillis : parseUnsigned 64 (padded 3 millis) = some millis :=
    parseUnsigned_padded 3 (by omega)
  have hcut₁ : ∀ rest, Str.cut [':'] (numeral hours ++ ':' :: rest) = some (numeral hours, rest) :=
    fun rest => Str.cut_char rest (notMem_numeral hcolon hours)
  have hcut₂ : ∀ rest, Str.cut [':'] (padded 2 minutes ++ ':' :: rest) =
      some (padded 2 minutes, rest) :=
    fun rest => Str.cut_char rest (notMem_padded hcolon 2 minutes)
  have hfree : '.' ∉ padded 2 seconds := notMem_padded (by decide) 2 seconds
  have hzero : parseUnsigned 64 ['0'] = some 0 := by decide
  simp only [readDuration, clockText, List.append_assoc, List.cons_append, hcut₁, hcut₂,
    Option.bind_eq_bind, Option.bind_some, hhours, hminutes]
  split
  · rename_i h
    have hnone : Str.cut ['.'] (padded 2 seconds) = none := by
      rw [Str.cut, Str.find_char_eq_none.mpr hfree]
      rfl
    simp only [List.append_nil, hnone, Option.getD_none, hseconds, hzero, Option.bind_some, h]
  · have hcut₃ : Str.cut ['.'] (padded 2 seconds ++ '.' :: padded 3 millis) =
        some (padded 2 seconds, padded 3 millis) := Str.cut_char _ hfree
    simp only [hcut₃, Option.getD_some, hseconds, hmillis, Option.bind_some]

/-! Writing -/

/-- Milliseconds as hours, minutes, seconds and a rest. -/
def clockTextOf (totalMs : Nat) : Str :=
  clockText (totalMs / 1000 / 3600) (totalMs / 1000 % 3600 / 60) (totalMs / 1000 % 60) (totalMs % 1000)

theorem readDuration_clockTextOf {totalMs : Nat} (h : totalMs < 2 ^ 64) :
    readDuration (clockTextOf totalMs) = some totalMs := by
  rw [clockTextOf, readDuration_clockText (by omega) (by omega) (by omega) (by omega)]
  congr 1
  omega

/-- The numerator of the rounded quotient. -/
def scaledDuration (duration : UInt64) (timescale : UInt32) : Nat :=
  1000 * duration.toNat + timescale.toNat / 2

theorem formatDlnaDuration_eq (duration : UInt64) (timescale : UInt32) :
    formatDlnaDuration duration timescale =
      clockTextOf (min (scaledDuration duration timescale) (2 ^ 64 - 1) / timescale.toNat) := by
  have hsum : saturate (saturate (duration.toNat * 1000) + timescale.toNat / 2) =
      min (scaledDuration duration timescale) (2 ^ 64 - 1) := by
    simp only [saturate, scaledDuration]
    omega
  rw [← hsum]
  rfl

theorem readDuration_format (duration : UInt64) (timescale : UInt32) :
    readDuration (formatDlnaDuration duration timescale) =
      some (min (scaledDuration duration timescale) (2 ^ 64 - 1) / timescale.toNat) := by
  have hle := Nat.div_le_self (min (scaledDuration duration timescale) (2 ^ 64 - 1)) timescale.toNat
  rw [formatDlnaDuration_eq, readDuration_clockTextOf (by omega)]

/-- A cut at a limit does not change a quotient before the next multiple of the divisor. -/
theorem min_div_eq_iff {n limit d : Nat} (hd : 0 < d) :
    min n limit / d = n / d ↔ n < d * (limit / d + 1) := by
  by_cases h : n ≤ limit
  · rw [Nat.min_eq_left h]
    have hlt : n / d < limit / d + 1 := Nat.lt_succ_of_le (Nat.div_le_div_right h)
    rw [Nat.div_lt_iff_lt_mul hd, Nat.mul_comm] at hlt
    exact iff_of_true rfl hlt
  · have hle := Nat.le_of_not_le h
    rw [Nat.min_eq_right hle, Nat.mul_comm, ← Nat.div_lt_iff_lt_mul hd]
    have := Nat.div_le_div_right (c := d) hle
    omega

/-- The text has minutes and seconds below 60 and the milliseconds where there are some.
It is read as the rounded quotient of the sum cut off at the largest 64-bit number;
that is the rounded quotient of the sum itself exactly before the next multiple of
the time scale. -/
theorem duration_text_rounded (duration : UInt64) {timescale : UInt32} (h : timescale ≠ 0) :
    (∃ hours minutes seconds millis,
      formatDlnaDuration duration timescale = clockText hours minutes seconds millis ∧
        minutes < 60 ∧ seconds < 60 ∧ millis < 1000 ∧ (padded 2 minutes).length = 2 ∧
        (padded 2 seconds).length = 2 ∧ (padded 3 millis).length = 3) ∧
      readDuration (formatDlnaDuration duration timescale) =
        some (min (scaledDuration duration timescale) (2 ^ 64 - 1) / timescale.toNat) ∧
      (readDuration (formatDlnaDuration duration timescale) =
          some (scaledDuration duration timescale / timescale.toNat) ↔
        scaledDuration duration timescale <
          timescale.toNat * ((2 ^ 64 - 1) / timescale.toNat + 1)) := by
  have hpos : 0 < timescale.toNat := Nat.pos_of_ne_zero fun hz => h (UInt32.toNat_inj.mp hz)
  refine ⟨⟨_, _, _, _, formatDlnaDuration_eq duration timescale, ?_⟩,
    readDuration_format duration timescale, ?_⟩
  · generalize min (scaledDuration duration timescale) (2 ^ 64 - 1) / timescale.toNat = totalMs
    exact ⟨by omega, by omega, by omega, length_padded (by decide) (by omega),
      length_padded (by decide) (by omega), length_padded (by decide) (by omega)⟩
  · rw [readDuration_format, Option.some_inj, min_div_eq_iff hpos]

theorem duration_text_rounded_sample : readDuration (formatDlnaDuration 90061500 1000) = some 90061500 :=
  (duration_text_rounded 90061500 (by decide)).2.1

/-- The longest duration, of one tick a second, is not the text of its milliseconds. -/
theorem longest_duration_cut :
    readDuration (formatDlnaDuration (.ofNat (2 ^ 64 - 1)) 1) = some (2 ^ 64 - 1) ∧
      readDuration (formatDlnaDuration (.ofNat (2 ^ 64 - 1)) 1) ≠
        some (scaledDuration (.ofNat (2 ^ 64 - 1)) 1 / (1 : UInt32).toNat) := by
  rw [readDuration_format]
  decide

end RustyCastle.Server
