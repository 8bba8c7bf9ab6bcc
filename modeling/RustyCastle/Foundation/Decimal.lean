import Mathlib.Algebra.Order.Ring.Nat
import RustyCastle.Foundation.Text

/-!
Decimal numerals. Reading follows the checked integer parsers: an optional plus
sign, at least one ASCII digit, and a value that fits the type. Writing is the
digit loop over a fixed number of slots, shown equal to the core numeral.
-/

namespace Foundation.Decimal

/-- The unsigned numeral reader for a type of `bits` bits. -/
def parseUnsigned (bits : Nat) (s : Str) : Option Nat :=
  let digits := match s with
    | '+' :: rest => rest
    | _ => s
  if digits ≠ [] ∧ digits.all Char.isDigit then
    some (Nat.ofDigitChars 10 digits 0) |>.filter (· < 2 ^ bits)
  else none

theorem parseUnsigned_lt {bits n : Nat} {s : Str} (h : parseUnsigned bits s = some n) :
    n < 2 ^ bits := by
  simp only [parseUnsigned] at h
  split at h <;> split at h <;> simp_all

/-- A numeral of `n`: digits with at most one plus sign before them. -/
def IsNumeral (s : Str) (n : Nat) : Prop :=
  ∃ ds, (s = ds ∨ s = '+' :: ds) ∧ ds ≠ [] ∧ (∀ c ∈ ds, c.isDigit) ∧ n = Nat.ofDigitChars 10 ds 0

/-- The reader accepts exactly the numerals of the numbers of the type. -/
theorem parseUnsigned_eq_some_iff {bits n : Nat} {s : Str} :
    parseUnsigned bits s = some n ↔ IsNumeral s n ∧ n < 2 ^ bits := by
  have hread : ∀ ds : Str, (if ds ≠ [] ∧ ds.all Char.isDigit then
      (some (Nat.ofDigitChars 10 ds 0)).filter (· < 2 ^ bits) else none) = some n ↔
        (ds ≠ [] ∧ (∀ c ∈ ds, c.isDigit) ∧ n = Nat.ofDigitChars 10 ds 0) ∧ n < 2 ^ bits := by
    intro ds
    rw [← List.all_eq_true]
    split
    · rename_i h
      rw [Option.filter_eq_some_iff, Option.some.injEq, decide_eq_true_eq]
      exact and_congr_left fun _ => ⟨fun he => ⟨h.1, h.2, he.symm⟩, fun he => he.2.2.symm⟩
    · rename_i h
      exact iff_of_false (fun he => by cases he) fun he => h ⟨he.1.1, he.1.2.1⟩
  have hplus : ¬ ('+').isDigit = true := by decide
  simp only [parseUnsigned]
  split
  · rename_i rest
    rw [hread]
    refine and_congr_left fun _ => ⟨fun h => ⟨rest, .inr rfl, h⟩, ?_⟩
    rintro ⟨ds, rfl | he, hne, hall, hn⟩
    · exact absurd (hall '+' (List.mem_cons_self ..)) hplus
    · obtain rfl := (List.cons.inj he).2
      exact ⟨hne, hall, hn⟩
  · rename_i hno
    rw [hread]
    refine and_congr_left fun _ => ⟨fun h => ⟨s, .inl rfl, h⟩, ?_⟩
    rintro ⟨ds, rfl | he, hne, hall, hn⟩
    · exact ⟨hne, hall, hn⟩
    · exact absurd he (hno ds)

/-- The decimal numeral of a number. -/
abbrev numeral (n : Nat) : Str := Nat.toDigits 10 n

/-- The numeral with zeros before it up to a width. -/
def padded (width n : Nat) : Str := List.leftpad width '0' (numeral n)

/-- The numeral of a signed number. The sign counts to the width. -/
def paddedInt (width : Nat) : Int → Str
  | .ofNat n => padded width n
  | .negSucc n => '-' :: padded (width - 1) (n + 1)

theorem numeral_isDigit {n : Nat} {c : Char} (h : c ∈ numeral n) : c.isDigit :=
  Nat.isDigit_of_mem_toDigits (by decide) (by decide) h

theorem isDigit_range {c : Char} (h : c.isDigit) : 48 ≤ c.toNat ∧ c.toNat ≤ 57 := by
  simp only [Char.isDigit, Bool.and_eq_true, decide_eq_true_eq] at h
  exact ⟨h.1, h.2⟩

theorem isDigit_not_whitespace {c : Char} (h : c.isDigit) : Str.isWhitespace c = false := by
  obtain ⟨hl, hr⟩ := isDigit_range h
  simp only [Str.isWhitespace, Bool.or_eq_false_iff, Bool.and_eq_false_iff,
    decide_eq_false_iff_not, beq_eq_false_iff_ne]
  omega

def digits : Str := "0123456789".toList

theorem mem_digits {c : Char} (h : c.isDigit) : c ∈ digits := by
  obtain ⟨hl, hr⟩ := isDigit_range h
  have hmem : ∀ k < 58, 48 ≤ k → Char.ofNat k ∈ digits := by decide
  rw [← Char.ofNat_toNat c]
  exact hmem c.toNat (Nat.lt_succ_of_le hr) hl

theorem isDigit_of_mem_padded {width n : Nat} {c : Char} (h : c ∈ padded width n) : c.isDigit := by
  rw [padded, List.leftpad] at h
  rcases List.mem_append.mp h with h | h
  · rw [List.eq_of_mem_replicate h]
    decide
  · exact numeral_isDigit h

theorem numeral_subset (n : Nat) : numeral n ⊆ digits := fun _ hc => mem_digits (numeral_isDigit hc)

theorem padded_subset (width n : Nat) : padded width n ⊆ digits := fun _ hc =>
  mem_digits (isDigit_of_mem_padded hc)

theorem notMem_numeral {c : Char} (h : c ∉ digits) (n : Nat) : c ∉ numeral n := fun hm =>
  h (numeral_subset n hm)

theorem notMem_padded {c : Char} (h : c ∉ digits) (width n : Nat) : c ∉ padded width n := fun hm =>
  h (padded_subset width n hm)

theorem length_bytes_numeral (n : Nat) : (Str.bytes (numeral n)).length = (numeral n).length :=
  Str.length_bytes_of_ascii fun c hc => by
    have := isDigit_range (numeral_isDigit hc)
    omega

theorem length_numeral_le {n k : Nat} (hk : 0 < k) (h : n < 10 ^ k) :
    (numeral n).length ≤ k :=
  (Nat.length_toDigits_le_iff (by decide) hk).mpr h

theorem length_numeral_mono {m n : Nat} (h : m ≤ n) :
    (numeral m).length ≤ (numeral n).length := by
  have hpos : 0 < (numeral n).length := List.length_pos_iff.mpr Nat.toDigits_ne_nil
  have hn := (Nat.length_toDigits_le_iff (n := n) (by decide) hpos).mp (Nat.le_refl _)
  exact length_numeral_le hpos (Nat.lt_of_le_of_lt h hn)

/-- Digits alone are read as their value, where it fits. -/
theorem parseUnsigned_digits {bits : Nat} {ds : Str} (hne : ds ≠ []) (h : ∀ c ∈ ds, c.isDigit) :
    parseUnsigned bits ds = (some (Nat.ofDigitChars 10 ds 0)).filter (· < 2 ^ bits) := by
  have hall : ds.all Char.isDigit = true := List.all_eq_true.mpr h
  have hplus : ∀ rest, ds ≠ '+' :: rest := by
    intro rest hs
    exact absurd (h '+' (by simp [hs])) (by decide)
  simp only [parseUnsigned]
  simp [hne, hall]

theorem parseUnsigned_numeral {bits n : Nat} (h : n < 2 ^ bits) :
    parseUnsigned bits (numeral n) = some n := by
  have hv : Nat.ofDigitChars 10 (numeral n) 0 = n :=
    Nat.ofDigitChars_toDigits (by decide) (by decide)
  rw [parseUnsigned_digits Nat.toDigits_ne_nil fun c hc => numeral_isDigit hc, hv]
  simp [h]

theorem numeral_injective {m n : Nat} (h : numeral m = numeral n) : m = n := by
  have hm : Nat.ofDigitChars 10 (numeral m) 0 = m :=
    Nat.ofDigitChars_toDigits (by decide) (by decide)
  rw [← hm, h, Nat.ofDigitChars_toDigits (by decide) (by decide)]

theorem ofDigitChars_lt {ds : Str} (h : ∀ c ∈ ds, c.isDigit) (acc : Nat) :
    Nat.ofDigitChars 10 ds acc < (acc + 1) * 10 ^ ds.length := by
  induction ds generalizing acc with
  | nil => simp [Nat.ofDigitChars]
  | cons c ds ih =>
      obtain ⟨hl, hr⟩ := isDigit_range (h c (List.mem_cons_self ..))
      have hstep := ih (fun d hd => h d (List.mem_cons_of_mem c hd)) (10 * acc + (c.toNat - '0'.toNat))
      have hz : '0'.toNat = 48 := by decide
      have hnext : (10 * acc + (c.toNat - '0'.toNat) + 1) ≤ (acc + 1) * 10 := by omega
      calc Nat.ofDigitChars 10 (c :: ds) acc
          = Nat.ofDigitChars 10 ds (10 * acc + (c.toNat - '0'.toNat)) := rfl
        _ < (10 * acc + (c.toNat - '0'.toNat) + 1) * 10 ^ ds.length := hstep
        _ ≤ (acc + 1) * 10 * 10 ^ ds.length := Nat.mul_le_mul_right _ hnext
        _ = (acc + 1) * 10 ^ (c :: ds).length := by
          rw [List.length_cons, Nat.pow_succ', Nat.mul_assoc]

/-- Only the numeral of zero starts with a zero. -/
theorem head_numeral {n : Nat} (h : (numeral n).head? = some '0') : n = 0 := by
  induction n using Nat.strongRecOn with
  | ind n ih =>
      by_cases hlt : n < 10
      · have hdigit : ∀ d < 10, Nat.digitChar d = '0' → d = 0 := by decide
        rw [numeral, Nat.toDigits_of_lt_base hlt] at h
        exact hdigit n hlt (Option.some.inj h)
      · have hne : numeral (n / 10) ≠ [] := Nat.toDigits_ne_nil
        rw [numeral, Nat.toDigits_of_base_le (by decide) (Nat.not_lt.mp hlt),
          List.head?_append_of_ne_nil _ hne] at h
        have hzero := ih (n / 10) (by omega) h
        omega

/-- The canonical numeral is no longer than the text it was read from. -/
theorem length_numeral_of_parse {bits n : Nat} {s : Str} (h : parseUnsigned bits s = some n) :
    (numeral n).length ≤ s.length := by
  have key : ∀ ds : Str, ds.length ≤ s.length →
      (if ds ≠ [] ∧ ds.all Char.isDigit then
        (some (Nat.ofDigitChars 10 ds 0)).filter (· < 2 ^ bits) else none) = some n →
      (numeral n).length ≤ s.length := by
    intro ds hlen h
    split at h
    · rename_i hds
      obtain rfl := Option.some.inj (Option.filter_eq_some_iff.mp h).1
      have hlt := ofDigitChars_lt (List.all_eq_true.mp hds.2) 0
      rw [Nat.zero_add, Nat.one_mul] at hlt
      exact (length_numeral_le (List.length_pos_iff.mpr hds.1) hlt).trans hlen
    · cases h
  simp only [parseUnsigned] at h
  split at h
  · exact key _ (by simp) h
  · exact key _ (Nat.le_refl _) h

/-! Padded numerals -/

theorem padded_ne_nil (width n : Nat) : padded width n ≠ [] := by
  rw [padded, List.leftpad]
  exact List.append_ne_nil_of_right_ne_nil _ Nat.toDigits_ne_nil

/-- The zeros do not change the value. -/
theorem ofDigitChars_padded (width n : Nat) : Nat.ofDigitChars 10 (padded width n) 0 = n := by
  rw [padded, List.leftpad, Nat.ofDigitChars_append, Nat.ofDigitChars_replicate_zero, Nat.mul_zero]
  exact Nat.ofDigitChars_ten_toDigits

theorem length_padded {width n : Nat} (hw : 0 < width) (h : n < 10 ^ width) :
    (padded width n).length = width := by
  have hle := length_numeral_le hw h
  rw [padded, List.leftpad, List.length_append, List.length_replicate]
  omega

theorem parseUnsigned_padded {bits n : Nat} (width : Nat) (h : n < 2 ^ bits) :
    parseUnsigned bits (padded width n) = some n := by
  rw [parseUnsigned_digits (padded_ne_nil width n) fun c hc => isDigit_of_mem_padded hc,
    ofDigitChars_padded]
  simp [h]

/-- The digit loop writes from the last slot towards the first. -/
def digitLoop : Nat → Nat → Str → Str
  | 0, _, acc => acc
  | slots + 1, v, acc =>
      if v = 0 then acc else digitLoop slots (v / 10) (Nat.digitChar (v % 10) :: acc)

theorem digitLoop_eq {slots v : Nat} (acc : Str) (hv : 0 < v) (h : v < 10 ^ slots) :
    digitLoop slots v acc = numeral v ++ acc := by
  induction slots generalizing v acc with
  | zero => simp at h; omega
  | succ slots ih =>
      rw [digitLoop, if_neg (by omega)]
      by_cases hlt : v < 10
      · have hz : v / 10 = 0 := by omega
        have hend : ∀ s acc, digitLoop s 0 acc = acc := by
          intro s acc
          cases s <;> simp [digitLoop]
        rw [hz, hend, numeral, Nat.toDigits_of_lt_base hlt, Nat.mod_eq_of_lt hlt]
        rfl
      · rw [ih _ (by omega) (by rw [Nat.pow_succ] at h; omega), numeral, numeral,
          Nat.toDigits_of_base_le (n := v) (by decide) (by omega), List.append_assoc]
        rfl

end Foundation.Decimal
