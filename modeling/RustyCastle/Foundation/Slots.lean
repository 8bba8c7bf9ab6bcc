import Mathlib.Data.List.Basic

/-!
Arrays of slots, each empty or holding an entry with a key. Writing an entry
over a slot keeps the keys distinct when no other slot holds the entry's key.
-/

namespace Foundation.Slots
variable {α β κ : Type}

/-- Replace the first element that satisfies `p`. -/
def replaceFirst (p : β → Bool) (b : β) : List β → Option (List β)
  | [] => none
  | x :: xs => if p x then some (b :: xs) else (replaceFirst p b xs).map (x :: ·)

theorem replaceFirst_eq_some {p : β → Bool} {b : β} {l l' : List β}
    (h : replaceFirst p b l = some l') :
    ∃ l₁ x l₂, l = l₁ ++ x :: l₂ ∧ p x = true ∧ l' = l₁ ++ b :: l₂ := by
  induction l generalizing l' with
  | nil => cases h
  | cons y l ih =>
      by_cases hy : p y = true
      · obtain rfl : b :: l = l' := by simpa [replaceFirst, hy] using h
        exact ⟨[], y, l, rfl, hy, rfl⟩
      · obtain ⟨m, hm, rfl⟩ : ∃ m, replaceFirst p b l = some m ∧ y :: m = l' := by
          simpa [replaceFirst, hy] using h
        obtain ⟨l₁, x, l₂, rfl, hx, rfl⟩ := ih hm
        exact ⟨y :: l₁, x, l₂, rfl, hx, rfl⟩

theorem replaceFirst_eq_none {p : β → Bool} {b : β} {l : List β}
    (h : replaceFirst p b l = none) : ∀ x ∈ l, p x = false := by
  induction l with
  | nil => simp
  | cons y l ih =>
      by_cases hy : p y = true
      · simp [replaceFirst, hy] at h
      · have hl : replaceFirst p b l = none := by simpa [replaceFirst, hy] using h
        simpa [hy] using ih hl

/-- Overwrite the last element of the largest rank. -/
def overwriteMax (rank : β → Nat) (b : β) : List β → List β
  | [] => []
  | x :: xs =>
      if xs.any fun y => rank x ≤ rank y then x :: overwriteMax rank b xs else b :: xs

theorem overwriteMax_cases (rank : β → Nat) (b : β) (l : List β) :
    l = [] ∧ overwriteMax rank b l = [] ∨
      ∃ l₁ x l₂, l = l₁ ++ x :: l₂ ∧ overwriteMax rank b l = l₁ ++ b :: l₂ := by
  induction l with
  | nil => exact .inl ⟨rfl, rfl⟩
  | cons y l ih =>
      refine .inr ?_
      by_cases hy : (l.any fun z => rank y ≤ rank z) = true
      · obtain ⟨rfl, -⟩ | ⟨l₁, x, l₂, rfl, ho⟩ := ih
        · simp at hy
        · exact ⟨y :: l₁, x, l₂, rfl, by rw [overwriteMax, if_pos hy, ho]; rfl⟩
      · exact ⟨[], y, l, rfl, by rw [overwriteMax, if_neg hy]; rfl⟩

/-- The keys of the entries, slot by slot. -/
def keys (key : α → κ) (slots : List (Option α)) : List κ := (slots.filterMap id).map key

section
variable {key : α → κ}

@[simp] theorem keys_nil : keys key [] = [] := rfl

@[simp] theorem keys_append (l m : List (Option α)) :
    keys key (l ++ m) = keys key l ++ keys key m := by simp [keys]

@[simp] theorem keys_none (l : List (Option α)) : keys key (none :: l) = keys key l := rfl

@[simp] theorem keys_some (a : α) (l : List (Option α)) :
    keys key (some a :: l) = key a :: keys key l := rfl

theorem mem_keys {k : κ} {l : List (Option α)} :
    k ∈ keys key l ↔ ∃ a, some a ∈ l ∧ key a = k := by
  simp [keys]

theorem nodup_write {l₁ l₂ : List (Option α)} {x : Option α} {a : α}
    (h : (keys key (l₁ ++ x :: l₂)).Nodup) (h₁ : key a ∉ keys key l₁)
    (h₂ : key a ∉ keys key l₂) : (keys key (l₁ ++ some a :: l₂)).Nodup := by
  cases x with
  | none =>
      simp only [keys_append, keys_none, keys_some] at *
      grind
  | some b =>
      simp only [keys_append, keys_some] at *
      grind

/-- Entries with distinct keys are found by their keys. -/
theorem find?_key [DecidableEq κ] {l : List (Option α)} (h : (keys key l).Nodup) {k : κ} {a : α} :
    (l.filterMap id).find? (fun a => key a = k) = some a ↔ some a ∈ l ∧ key a = k := by
  constructor
  · intro hf
    have hm := List.mem_of_find?_eq_some hf
    have hp := List.find?_some hf
    exact ⟨by simpa using hm, by simpa using hp⟩
  · rintro ⟨hm, hk⟩
    induction l with
    | nil => cases hm
    | cons x l ih =>
        cases x with
        | none => exact ih h (by simpa using hm)
        | some b =>
            have hn := List.nodup_cons.mp h
            rcases List.mem_cons.mp hm with hb | hm
            · obtain rfl := Option.some.inj hb
              simp [hk]
            · have hne : key b ≠ k := by
                rintro rfl
                exact hn.1 (mem_keys.mpr ⟨a, hm, hk⟩)
              simpa [hne] using ih hn.2 hm

end
end Foundation.Slots
