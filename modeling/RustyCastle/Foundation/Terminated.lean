import Mathlib.Data.List.Basic

/-!
Lists written one after another, each followed by a terminator. Where no list
holds the terminator, the lists are determined by what is written.
-/

namespace Foundation
variable {α β : Type}

def terminated (t : α) (fields : List (List α)) : List α := fields.flatMap fun field => field ++ [t]

@[simp] theorem terminated_nil (t : α) : terminated t [] = [] := rfl

@[simp] theorem terminated_cons (t : α) (field : List α) (fields : List (List α)) :
    terminated t (field :: fields) = field ++ t :: terminated t fields := by
  simp [terminated]

/-- What stands before the first terminator, and what behind it. -/
theorem cut_terminator_inj {t : α} {a b u v : List α} (ha : t ∉ a) (hb : t ∉ b)
    (h : a ++ t :: u = b ++ t :: v) : a = b ∧ u = v := by
  induction a generalizing b with
  | nil =>
      cases b with
      | nil => exact ⟨rfl, (List.cons.inj h).2⟩
      | cons y b => exact absurd (List.cons.inj h).1 fun ht => hb (ht ▸ List.mem_cons_self ..)
  | cons x a ih =>
      cases b with
      | nil => exact absurd (List.cons.inj h).1 fun ht => ha (ht ▸ List.mem_cons_self ..)
      | cons y b =>
          obtain ⟨rfl, htail⟩ := List.cons.inj h
          obtain ⟨rfl, rfl⟩ := ih (fun hm => ha (List.mem_cons_of_mem x hm))
            (fun hm => hb (List.mem_cons_of_mem x hm)) htail
          exact ⟨rfl, rfl⟩

theorem terminated_injective {t : α} {p q : List (List α)} (hp : ∀ field ∈ p, t ∉ field)
    (hq : ∀ field ∈ q, t ∉ field) (h : terminated t p = terminated t q) : p = q := by
  induction p generalizing q with
  | nil =>
      cases q with
      | nil => rfl
      | cons b q => simp at h
  | cons a p ih =>
      cases q with
      | nil => simp at h
      | cons b q =>
          rw [List.forall_mem_cons] at hp hq
          rw [terminated_cons, terminated_cons] at h
          obtain ⟨rfl, hrest⟩ := cut_terminator_inj hp.1 hq.1 h
          rw [ih hp.2 hq.2 hrest]

/-- A fold over what is written is a fold over the lists. -/
theorem foldl_terminated (f : β → α → β) (t : α) (fields : List (List α)) (b : β) :
    (terminated t fields).foldl f b = fields.foldl (fun b field => f (field.foldl f b) t) b := by
  induction fields generalizing b with
  | nil => rfl
  | cons field fields ih =>
      rw [terminated_cons, List.foldl_append, List.foldl_cons, List.foldl_cons, ih]

end Foundation
