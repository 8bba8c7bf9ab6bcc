import Mathlib.Data.List.Basic

/-!
A list that is put together from pieces of it, in any order and with overlaps. What is not
in a piece is not known.
-/

namespace Foundation

variable {α : Type}

structure Piece (α : Type) where
  start : Nat
  items : List α

namespace Piece

def Covers (p : Piece α) (i : Nat) : Prop := p.start ≤ i ∧ i < p.start + p.items.length

instance (p : Piece α) (i : Nat) : Decidable (p.Covers i) := inferInstanceAs (Decidable (_ ∧ _))

/-- The items are those of a list, at their place. -/
def Of (p : Piece α) (whole : List α) : Prop := p.items <+: whole.drop p.start

/-- What is known after a piece of it came. -/
def write (known : Nat → Option α) (p : Piece α) (i : Nat) : Option α :=
  if p.Covers i then p.items[i - p.start]? else known i

theorem Of.getElem? {p : Piece α} {whole : List α} (h : p.Of whole) {i : Nat} (hi : p.Covers i) :
    p.items[i - p.start]? = whole[i]? := by
  obtain ⟨rest, hrest⟩ := h
  have hlt : i - p.start < p.items.length := by
    obtain ⟨hle, hlt⟩ := hi
    omega
  have hdrop : (whole.drop p.start)[i - p.start]? = whole[i]? := by
    rw [List.getElem?_drop, Nat.add_sub_cancel' hi.1]
  rw [← hdrop, ← hrest, List.getElem?_append_left hlt]

end Piece

open Piece

/-- What is known at a place from the pieces that came. -/
def assemble (pieces : List (Piece α)) : Nat → Option α := pieces.foldl write fun _ => none

theorem foldl_write {whole : List α} {pieces : List (Piece α)} (h : ∀ p ∈ pieces, p.Of whole)
    (known : Nat → Option α) (i : Nat) :
    pieces.foldl write known i = if ∃ p ∈ pieces, p.Covers i then whole[i]? else known i := by
  induction pieces generalizing known with
  | nil => simp
  | cons p pieces ih =>
      obtain ⟨hp, hpieces⟩ := List.forall_mem_cons.mp h
      rw [List.foldl_cons, ih hpieces]
      simp only [List.exists_mem_cons_iff, write]
      by_cases hrest : ∃ p ∈ pieces, p.Covers i
      · rw [if_pos hrest, if_pos (.inr hrest)]
      · rw [if_neg hrest]
        by_cases hi : p.Covers i
        · rw [if_pos hi, if_pos (.inl hi), hp.getElem? hi]
        · rw [if_neg hi, if_neg (not_or.mpr ⟨hi, hrest⟩)]

theorem mapM_eq_some_iff {β : Type} {f : β → Option α} {bs : List β} {as : List α} :
    bs.mapM f = some as ↔ bs.map f = as.map some := by
  induction bs generalizing as with
  | nil => cases as <;> simp
  | cons b bs ih =>
      rw [List.mapM_cons, List.map_cons]
      cases hb : f b with
      | none => cases as <;> simp
      | some a =>
          cases as with
          | nil => cases hbs : bs.mapM f <;> simp
          | cons a' as =>
              rw [List.map_cons, List.cons.injEq, ← ih]
              cases hbs : bs.mapM f <;> simp

theorem exists_mapM {β γ : Type} {f : β → Option α} {g : α → Option γ} {k : β → γ} {bs : List β}
    (h : ∀ b ∈ bs, ∃ a, f b = some a ∧ g a = some (k b)) :
    ∃ as, bs.mapM f = some as ∧ as.mapM g = some (bs.map k) := by
  induction bs with
  | nil => exact ⟨[], rfl, rfl⟩
  | cons b bs ih =>
      obtain ⟨⟨a, ha, hk⟩, hbs⟩ := List.forall_mem_cons.mp h
      obtain ⟨as, has, hks⟩ := ih hbs
      refine ⟨a :: as, ?_, ?_⟩
      · rw [List.mapM_cons, ha, has]
        rfl
      · rw [List.mapM_cons, hk, hks]
        rfl

/-- The list as far as it is known, if it is known at all of its places. -/
def rebuild (len : Nat) (pieces : List (Piece α)) : Option (List α) :=
  (List.range len).mapM (assemble pieces)

/-- The pieces give the whole list back if every place is in one of them, and else nothing. -/
theorem rebuild_pieces {whole : List α} {pieces : List (Piece α)} (h : ∀ p ∈ pieces, p.Of whole) :
    rebuild whole.length pieces =
      if ∀ i < whole.length, ∃ p ∈ pieces, p.Covers i then some whole else none := by
  have hknown : ∀ i, assemble pieces i = if ∃ p ∈ pieces, p.Covers i then whole[i]? else none :=
    foldl_write h fun _ => none
  by_cases hall : ∀ i < whole.length, ∃ p ∈ pieces, p.Covers i
  · rw [if_pos hall, rebuild, mapM_eq_some_iff]
    refine List.ext_getElem (by simp) fun i hi _ => ?_
    have hlt : i < whole.length := by simpa using hi
    rw [List.getElem_map, List.getElem_map, List.getElem_range, hknown, if_pos (hall i hlt),
      List.getElem?_eq_getElem hlt]
  · rw [if_neg hall]
    refine Option.eq_none_iff_forall_ne_some.mpr fun as has => hall fun i hi => ?_
    have hmem : assemble pieces i ∈ as.map some :=
      mapM_eq_some_iff.mp has ▸ List.mem_map_of_mem (List.mem_range.mpr hi)
    obtain ⟨a, -, ha⟩ := List.mem_map.mp hmem
    by_contra hno
    rw [hknown, if_neg hno] at ha
    cases ha

end Foundation
