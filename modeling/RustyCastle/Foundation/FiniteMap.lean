import Mathlib.Data.List.Basic
import Mathlib.Data.List.Nodup
import Mathlib.Order.Basic

/-!
Finite maps of a fixed capacity. `MapOps` are the operations, `LawfulMap` what a
user of them relies on: a new key is refused exactly when the map is full, and
an existing key is replaced. `IndexMap` is such a map, in insertion order with
removal by swapping in the last entry.
-/

namespace Foundation

class MapOps (κ ν : outParam Type) (M : Type) where
  empty : M
  /-- `none` where the map refuses the entry. -/
  insert : M → κ → ν → Option M
  /-- `none` where the key is absent. -/
  remove : M → κ → Option (ν × M)
  get : M → κ → Option ν
  entries : M → List (κ × ν)

/-- A map that holds at most `cap` entries. -/
structure LawfulMap {κ ν : Type} [DecidableEq κ] (M : Type) [MapOps κ ν M] (cap : Nat) :
    Prop where
  entries_empty : MapOps.entries (MapOps.empty : M) = []
  nodup : ∀ m : M, ((MapOps.entries m).map Prod.fst).Nodup
  length_le : ∀ m : M, (MapOps.entries m).length ≤ cap
  get_eq_some : ∀ {m : M} {k : κ} {v : ν}, MapOps.get m k = some v ↔ (k, v) ∈ MapOps.entries m
  insert_eq_none : ∀ {m : M} {k : κ} {v : ν}, MapOps.insert m k v = none ↔
    MapOps.get m k = none ∧ (MapOps.entries m).length = cap
  get_insert : ∀ {m m' : M} {k : κ} {v : ν}, MapOps.insert m k v = some m' → ∀ k',
    MapOps.get m' k' = if k' = k then some v else MapOps.get m k'
  remove_eq_none : ∀ {m : M} {k : κ}, MapOps.remove m k = none ↔ MapOps.get m k = none
  get_remove : ∀ {m m' : M} {k : κ} {v : ν}, MapOps.remove m k = some (v, m') → ∀ k',
    MapOps.get m' k' = if k' = k then none else MapOps.get m k'

namespace LawfulMap
variable {κ ν M : Type} [DecidableEq κ] [MapOps κ ν M] {cap : Nat} (hM : LawfulMap M cap)
include hM

theorem get_empty (k : κ) : MapOps.get (MapOps.empty : M) k = none := by
  cases h : MapOps.get (MapOps.empty : M) k with
  | none => rfl
  | some v =>
      rw [hM.get_eq_some, hM.entries_empty] at h
      cases h

theorem insert_isSome (m : M) (k : κ) (v : ν) : (MapOps.insert m k v).isSome ↔
    (MapOps.get m k).isSome ∨ (MapOps.entries m).length < cap := by
  have hle := hM.length_le m
  rw [Option.isSome_iff_ne_none, Option.isSome_iff_ne_none, ne_eq, hM.insert_eq_none]
  constructor
  · intro h
    by_cases hk : MapOps.get m k = none
    · exact .inr (Nat.lt_of_le_of_ne hle fun hlen => h ⟨hk, hlen⟩)
    · exact .inl hk
  · rintro (hk | hlt) ⟨hnone, hlen⟩
    · exact hk hnone
    · exact Nat.ne_of_lt hlt hlen

theorem entries_nodup (m : M) : (MapOps.entries m).Nodup := (hM.nodup m).of_map _

/-- Entries are distinct, so a new key is one more entry. -/
theorem length_of_get {m m' : M} {k : κ} {v : ν}
    (h : ∀ k', MapOps.get m' k' = if k' = k then some v else MapOps.get m k')
    (hk : MapOps.get m k = none) :
    (MapOps.entries m').length = (MapOps.entries m).length + 1 := by
  have hperm : (MapOps.entries m').Perm ((k, v) :: MapOps.entries m) := by
    refine (List.perm_ext_iff_of_nodup (hM.entries_nodup m') ?_).mpr ?_
    · refine List.nodup_cons.mpr ⟨fun hm => ?_, hM.entries_nodup m⟩
      rw [← hM.get_eq_some, hk] at hm
      cases hm
    · rintro ⟨k', v'⟩
      rw [← hM.get_eq_some, h, List.mem_cons, ← hM.get_eq_some]
      by_cases hkk : k' = k
      · subst hkk
        simp [hk, eq_comm]
      · simp [hkk]
  rw [hperm.length_eq, List.length_cons]

end LawfulMap

/-! A lawful map -/

structure IndexMap (κ ν : Type) (cap : Nat) where
  toList : List (κ × ν)
  nodup : (toList.map Prod.fst).Nodup
  length_le : toList.length ≤ cap

namespace IndexMap
variable {κ ν : Type} [DecidableEq κ] {cap : Nat}

def lookup (l : List (κ × ν)) (k : κ) : Option ν := (l.find? fun e => e.1 = k).map Prod.snd

def assign (k : κ) (v : ν) (l : List (κ × ν)) : List (κ × ν) :=
  l.map fun e => if e.1 = k then (k, v) else e

/-- Remove the entry at an index and put the last entry in its place. -/
def swapRemove (k : κ) : List (κ × ν) → List (κ × ν)
  | [] => []
  | e :: l =>
      if e.1 = k then
        match l.getLast? with
        | none => []
        | some z => z :: l.dropLast
      else e :: swapRemove k l

theorem lookup_eq_some {l : List (κ × ν)} (h : (l.map Prod.fst).Nodup) {k : κ} {v : ν} :
    lookup l k = some v ↔ (k, v) ∈ l := by
  induction l with
  | nil => simp [lookup]
  | cons e l ih =>
      obtain ⟨a, b⟩ := e
      obtain ⟨ha, hl⟩ := List.nodup_cons.mp h
      by_cases hk : a = k
      · subst hk
        have : (a, v) ∉ l := fun hm => ha (List.mem_map.mpr ⟨_, hm, rfl⟩)
        simp [lookup, this, eq_comm]
      · have := ih hl
        simp only [lookup] at this
        simp [lookup, hk, Ne.symm hk, this]

theorem map_fst_assign (k : κ) (v : ν) (l : List (κ × ν)) :
    (assign k v l).map Prod.fst = l.map Prod.fst := by
  simp only [assign, List.map_map]
  refine List.map_congr_left fun e _ => ?_
  by_cases h : e.1 = k <;> simp [h]

theorem swapRemove_perm {k : κ} {v : ν} {l : List (κ × ν)} (h : (l.map Prod.fst).Nodup)
    (hm : (k, v) ∈ l) : l.Perm ((k, v) :: swapRemove k l) := by
  induction l with
  | nil => cases hm
  | cons e l ih =>
      obtain ⟨ha, hl⟩ := List.nodup_cons.mp h
      by_cases hk : e.1 = k
      · have he : e = (k, v) := by
          rcases List.mem_cons.mp hm with rfl | hm
          · rfl
          · exact absurd (List.mem_map.mpr ⟨_, hm, rfl⟩) (hk ▸ ha)
        subst he
        rw [swapRemove, if_pos rfl]
        refine List.Perm.cons _ ?_
        cases hlast : l.getLast? with
        | none => simpa using hlast
        | some z =>
            obtain ⟨r, rfl⟩ := List.getLast?_eq_some_iff.mp hlast
            rw [List.dropLast_concat]
            exact List.perm_append_singleton z r
      · have hm' : (k, v) ∈ l := by
          rcases List.mem_cons.mp hm with rfl | hm
          · exact absurd rfl hk
          · exact hm
        rw [swapRemove, if_neg hk]
        exact ((ih hl hm').cons e).trans (List.Perm.swap _ _ _)

theorem length_assign (k : κ) (v : ν) (l : List (κ × ν)) : (assign k v l).length = l.length := by
  rw [← List.length_map Prod.fst, map_fst_assign, List.length_map]

omit [DecidableEq κ] in
theorem nodup_append {l : List (κ × ν)} {k : κ} (v : ν) (h : (l.map Prod.fst).Nodup)
    (hk : k ∉ l.map Prod.fst) : ((l ++ [(k, v)]).map Prod.fst).Nodup := by
  rw [List.map_append, List.map_singleton, ← List.concat_eq_append]
  exact h.concat hk

def insert (m : IndexMap κ ν cap) (k : κ) (v : ν) : Option (IndexMap κ ν cap) :=
  if hk : k ∈ m.toList.map Prod.fst then
    some ⟨assign k v m.toList, map_fst_assign k v m.toList ▸ m.nodup,
      (length_assign k v m.toList).trans_le m.length_le⟩
  else if hc : m.toList.length < cap then
    some ⟨m.toList ++ [(k, v)], nodup_append v m.nodup hk, List.length_append.trans_le hc⟩
  else none

def remove (m : IndexMap κ ν cap) (k : κ) : Option (ν × IndexMap κ ν cap) :=
  match h : lookup m.toList k with
  | none => none
  | some v =>
      have hp := swapRemove_perm m.nodup ((lookup_eq_some m.nodup).mp h)
      some (v, ⟨swapRemove k m.toList,
        (List.nodup_cons.mp ((hp.map Prod.fst).nodup_iff.mp m.nodup)).2, by
        have := hp.length_eq
        have := m.length_le
        simp at *
        omega⟩)

instance : MapOps κ ν (IndexMap κ ν cap) where
  empty := ⟨[], List.nodup_nil, Nat.zero_le _⟩
  insert := insert
  remove := remove
  get m k := lookup m.toList k
  entries := toList

theorem lookup_eq_none {l : List (κ × ν)} {k : κ} :
    lookup l k = none ↔ k ∉ l.map Prod.fst := by
  simp only [lookup, Option.map_eq_none_iff, List.find?_eq_none, List.mem_map, not_exists, not_and,
    decide_eq_true_eq]

theorem lookup_ext {l : List (κ × ν)} (h : (l.map Prod.fst).Nodup) {k : κ} {o : Option ν}
    (ho : ∀ v, (k, v) ∈ l ↔ o = some v) : lookup l k = o :=
  Option.ext fun v => (lookup_eq_some h).trans (ho v)

theorem lookup_assign (k : κ) (v : ν) (l : List (κ × ν)) (k' : κ) :
    lookup (assign k v l) k' =
      if k' = k ∧ k ∈ l.map Prod.fst then some v else lookup l k' := by
  induction l with
  | nil => simp [lookup, assign]
  | cons e l ih =>
      simp only [lookup, assign] at ih
      by_cases he : e.1 = k
      · by_cases hk : k' = k
        · simp [lookup, assign, he, hk]
        · simpa [lookup, assign, he, hk, Ne.symm hk] using ih
      · by_cases hek : e.1 = k'
        · have hk : k' ≠ k := hek ▸ he
          simp [lookup, assign, hk, hek]
        · have hmem : k ∈ (e :: l).map Prod.fst ↔ k ∈ l.map Prod.fst :=
            List.mem_cons.trans (or_iff_right (Ne.symm he))
          simp only [hmem]
          simpa [lookup, assign, he, hek] using ih

theorem lookup_insert {m m' : IndexMap κ ν cap} {k : κ} {v : ν} (h : m.insert k v = some m')
    (k' : κ) : lookup m'.toList k' = if k' = k then some v else lookup m.toList k' := by
  unfold insert at h
  split at h
  · rename_i hk
    obtain rfl := (Option.some.inj h).symm
    simp only [lookup_assign, hk, and_true]
  · rename_i hk
    split at h
    · obtain rfl := (Option.some.inj h).symm
      have hnone := lookup_eq_none.mpr hk
      simp only [lookup, Option.map_eq_none_iff] at hnone
      by_cases hkk : k' = k
      · subst hkk
        simp [lookup, List.find?_append, hnone]
      · simp [lookup, List.find?_append, hkk, Ne.symm hkk]
    · cases h

theorem lookup_remove {m m' : IndexMap κ ν cap} {k : κ} {v : ν}
    (h : m.remove k = some (v, m')) (k' : κ) :
    lookup m'.toList k' = if k' = k then none else lookup m.toList k' := by
  unfold remove at h
  split at h
  · cases h
  · rename_i w hw
    obtain ⟨rfl, rfl⟩ := Prod.mk.inj (Option.some.inj h)
    have hp := swapRemove_perm m.nodup ((lookup_eq_some m.nodup).mp hw)
    have hn := List.nodup_cons.mp ((hp.map Prod.fst).nodup_iff.mp m.nodup)
    by_cases hk : k' = k
    · rw [if_pos hk, hk]
      exact lookup_eq_none.mpr hn.1
    · rw [if_neg hk]
      refine lookup_ext hn.2 fun u => ?_
      rw [lookup_eq_some m.nodup, hp.mem_iff]
      simp [hk]

theorem insert_eq_none {m : IndexMap κ ν cap} {k : κ} {v : ν} :
    m.insert k v = none ↔ lookup m.toList k = none ∧ m.toList.length = cap := by
  have := m.length_le
  unfold insert
  split
  · rename_i hk
    simp only [reduceCtorEq, lookup_eq_none, hk, not_true, false_and]
  · rename_i hk
    simp only [lookup_eq_none, hk, not_false_eq_true, true_and]
    split
    · simp only [reduceCtorEq, false_iff]
      omega
    · simp only [true_iff]
      omega

theorem remove_eq_none {m : IndexMap κ ν cap} {k : κ} :
    m.remove k = none ↔ lookup m.toList k = none := by
  unfold remove
  split
  · rename_i h
    simp [h]
  · rename_i h
    simp [h]

theorem lawful : LawfulMap (IndexMap κ ν cap) cap where
  entries_empty := rfl
  nodup := nodup
  length_le := length_le
  get_eq_some {m} := lookup_eq_some m.nodup
  insert_eq_none := insert_eq_none
  get_insert := lookup_insert
  remove_eq_none := remove_eq_none
  get_remove := lookup_remove

end IndexMap
end Foundation
