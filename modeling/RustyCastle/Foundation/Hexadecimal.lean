import RustyCastle.Foundation.Decimal

/-!
Lower-case hexadecimal numerals, padded with zeros to a width. The padding does
not change the value, so a numeral names one number.
-/

namespace Foundation.Hexadecimal

def digits : Str := "0123456789abcdef".toList

/-- The numeral of a number, with zeros in front up to the width. -/
def padded (width n : Nat) : Str := List.leftpad width '0' (Nat.toDigits 16 n)

def value (s : Str) : Nat := s.foldl (fun n c => 16 * n + digits.idxOf c) 0

theorem digitChar_mem {d : Nat} (h : d < 16) : d.digitChar ∈ digits := by
  revert d
  decide

theorem idxOf_digitChar {d : Nat} (h : d < 16) : digits.idxOf d.digitChar = d := by
  revert d
  decide

theorem mem_toDigits {n : Nat} {c : Char} (h : c ∈ Nat.toDigits 16 n) : c ∈ digits := by
  induction n using Nat.strongRecOn with
  | ind n ih =>
      by_cases hlt : n < 16
      · rw [Nat.toDigits_of_lt_base hlt, List.mem_singleton] at h
        exact h ▸ digitChar_mem hlt
      · rw [Nat.toDigits_of_base_le (by decide) (Nat.not_lt.mp hlt), List.mem_append,
          List.mem_singleton] at h
        rcases h with h | rfl
        · exact ih (n / 16) (by omega) h
        · exact digitChar_mem (Nat.mod_lt n (by decide))

theorem value_toDigits (n : Nat) : value (Nat.toDigits 16 n) = n := by
  induction n using Nat.strongRecOn with
  | ind n ih =>
      by_cases hlt : n < 16
      · rw [Nat.toDigits_of_lt_base hlt, value, List.foldl_cons, List.foldl_nil,
          idxOf_digitChar hlt, Nat.mul_zero, Nat.zero_add]
      · have hprev := ih (n / 16) (by omega)
        rw [value] at hprev
        rw [Nat.toDigits_of_base_le (by decide) (Nat.not_lt.mp hlt), value, List.foldl_append,
          hprev, List.foldl_cons, List.foldl_nil, idxOf_digitChar (Nat.mod_lt n (by decide))]
        omega

theorem value_zeros (k : Nat) (s : Str) : value (List.replicate k '0' ++ s) = value s := by
  induction k with
  | zero => rfl
  | succ k ih => exact ih

theorem value_padded (width n : Nat) : value (padded width n) = n := by
  rw [padded, List.leftpad, value_zeros, value_toDigits]

theorem padded_injective {width m n : Nat} (h : padded width m = padded width n) : m = n := by
  rw [← value_padded width m, h, value_padded]

theorem mem_padded {width n : Nat} {c : Char} (h : c ∈ padded width n) : c ∈ digits := by
  rw [padded, List.leftpad, List.mem_append] at h
  rcases h with h | h
  · rw [List.eq_of_mem_replicate h]
    decide
  · exact mem_toDigits h

theorem length_padded {width n : Nat} (hw : 0 < width) (h : n < 16 ^ width) :
    (padded width n).length = width := by
  have hle := (Nat.length_toDigits_le_iff (n := n) (by decide) hw).mpr h
  rw [padded, List.leftpad, List.length_append, List.length_replicate]
  omega

end Foundation.Hexadecimal
