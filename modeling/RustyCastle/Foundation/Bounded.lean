import RustyCastle.Foundation.Text

/-!
Containers of a fixed capacity. A full container refuses an insertion and stays
as it was; the `OrDrop` forms are callers that discard the refusal. The capacity
is part of the value, so no over-full container can be built.
-/

namespace Foundation

structure BoundedVec (α : Type) (cap : Nat) where
  toList : List α
  length_le : toList.length ≤ cap

namespace BoundedVec
variable {α : Type} {cap : Nat}

@[ext] theorem ext {v w : BoundedVec α cap} (h : v.toList = w.toList) : v = w := by
  cases v
  cases w
  simpa using h

def empty : BoundedVec α cap := ⟨[], Nat.zero_le _⟩

@[simp] theorem toList_empty : (empty : BoundedVec α cap).toList = [] := rfl

def isFull (v : BoundedVec α cap) : Bool := v.toList.length == cap

theorem isFull_iff {v : BoundedVec α cap} : v.isFull = true ↔ cap ≤ v.toList.length := by
  have := v.length_le
  simp [isFull]
  omega

def push (v : BoundedVec α cap) (a : α) : Option (BoundedVec α cap) :=
  if h : v.toList.length < cap then
    some ⟨v.toList ++ [a], List.length_append.trans_le h⟩
  else none

def pushOrDrop (v : BoundedVec α cap) (a : α) : BoundedVec α cap := (v.push a).getD v

theorem toList_pushOrDrop (v : BoundedVec α cap) (a : α) :
    (v.pushOrDrop a).toList =
      if v.toList.length < cap then v.toList ++ [a] else v.toList := by
  by_cases h : v.toList.length < cap <;> simp [pushOrDrop, push, h]

/-- Remove the last element. -/
def pop (v : BoundedVec α cap) : Option (α × BoundedVec α cap) :=
  match v.toList.getLast? with
  | none => none
  | some a => some (a, ⟨v.toList.dropLast,
      List.length_dropLast.trans_le ((Nat.sub_le _ _).trans v.length_le)⟩)

theorem pop_eq_some {v w : BoundedVec α cap} {a : α} (h : v.pop = some (a, w)) :
    v.toList = w.toList ++ [a] := by
  unfold pop at h
  split at h
  · cases h
  · rename_i b hb
    obtain ⟨rfl, rfl⟩ := Prod.mk.inj (Option.some.inj h)
    obtain ⟨l, hl⟩ := List.getLast?_eq_some_iff.mp hb
    simp [hl]

theorem pop_eq_none {v : BoundedVec α cap} : v.pop = none ↔ v.toList = [] := by
  unfold pop
  split
  · rename_i h
    simpa using h
  · rename_i b hb
    have : v.toList ≠ [] := by
      intro hn
      simp [hn] at hb
    simp [this]

/-- Remove the first element. -/
def popFront (v : BoundedVec α cap) : Option (α × BoundedVec α cap) :=
  match h : v.toList with
  | [] => none
  | a :: rest => some (a, ⟨rest, by
      have := v.length_le
      simp [h] at this
      omega⟩)

theorem popFront_eq_none {v : BoundedVec α cap} : v.popFront = none ↔ v.toList = [] := by
  unfold popFront
  split <;> rename_i h <;> simp [h]

theorem popFront_eq_some {v w : BoundedVec α cap} {a : α} (h : v.popFront = some (a, w)) :
    v.toList = a :: w.toList := by
  unfold popFront at h
  split at h
  · cases h
  · rename_i b rest hv
    obtain ⟨rfl, rfl⟩ := Prod.mk.inj (Option.some.inj h)
    exact hv

end BoundedVec

/-- An array of `n` bytes. -/
structure Buffer (n : Nat) where
  toList : List UInt8
  length_eq : toList.length = n

@[irreducible] def Buffer.zero (n : Nat) : Buffer n := ⟨List.replicate n 0, List.length_replicate⟩

/-- A string of at most `cap` bytes of UTF-8. -/
structure BoundedStr (cap : Nat) where
  toStr : Str
  size_le : toStr.bytes.length ≤ cap
  deriving DecidableEq

namespace BoundedStr
variable {cap : Nat}

@[ext] theorem ext {s t : BoundedStr cap} (h : s.toStr = t.toStr) : s = t := by
  cases s
  cases t
  simpa using h

def empty : BoundedStr cap := ⟨[], Nat.zero_le _⟩

@[simp] theorem toStr_empty : (empty : BoundedStr cap).toStr = [] := rfl

def tryFrom (s : Str) : Option (BoundedStr cap) :=
  if h : s.bytes.length ≤ cap then some ⟨s, h⟩ else none

@[simp] theorem tryFrom_eq_some {s : Str} {t : BoundedStr cap} :
    tryFrom s = some t ↔ t.toStr = s := by
  unfold tryFrom
  constructor
  · intro h
    split at h
    · cases h
      rfl
    · cases h
  · rintro rfl
    simp [t.size_le]

theorem tryFrom_toStr (t : BoundedStr cap) : tryFrom t.toStr = some t := by simp

theorem tryFrom_of_le {s : Str} (h : s.bytes.length ≤ cap) : tryFrom s = some ⟨s, h⟩ := dif_pos h

theorem tryFrom_eq_none {s : Str} :
    (tryFrom s : Option (BoundedStr cap)) = none ↔ cap < s.bytes.length := by
  simp [tryFrom]

/-- A text that is too long is replaced by the empty one. -/
theorem toStr_tryFrom_getD (s : Str) :
    ((tryFrom s : Option (BoundedStr cap)).getD empty).toStr =
      if s.bytes.length ≤ cap then s else [] := by
  unfold tryFrom
  split <;> rfl

def pushStr (s : BoundedStr cap) (t : Str) : Option (BoundedStr cap) := tryFrom (s.toStr ++ t)

def pushStrOrDrop (s : BoundedStr cap) (t : Str) : BoundedStr cap := (s.pushStr t).getD s

theorem toStr_pushStrOrDrop (s : BoundedStr cap) (t : Str) :
    (s.pushStrOrDrop t).toStr =
      if (s.toStr ++ t).bytes.length ≤ cap then s.toStr ++ t else s.toStr := by
  unfold pushStrOrDrop pushStr tryFrom
  split <;> rfl

theorem pushStrOrDrop_of_fits {s : BoundedStr cap} {t : Str}
    (h : (s.toStr ++ t).bytes.length ≤ cap) : (s.pushStrOrDrop t).toStr = s.toStr ++ t := by
  rw [toStr_pushStrOrDrop, if_pos h]

theorem pushStrOrDrop_of_not_fits {s : BoundedStr cap} {t : Str}
    (h : cap < (s.toStr ++ t).bytes.length) : s.pushStrOrDrop t = s := by
  apply ext
  rw [toStr_pushStrOrDrop, if_neg (by omega)]

/-- Pieces that fit together are all pushed. -/
theorem foldl_pushStrOrDrop {pieces : List Str} {s : BoundedStr cap}
    (h : (s.toStr ++ pieces.flatten).bytes.length ≤ cap) :
    (pieces.foldl pushStrOrDrop s).toStr = s.toStr ++ pieces.flatten := by
  induction pieces generalizing s with
  | nil => simp
  | cons t pieces ih =>
      have ht : (s.pushStrOrDrop t).toStr = s.toStr ++ t := by
        apply pushStrOrDrop_of_fits
        simp at h ⊢
        omega
      rw [List.foldl_cons, ih (by simpa [ht] using h), ht, List.flatten_cons, List.append_assoc]

/-- Pushes leave what is there already. -/
theorem prefix_foldl_pushStrOrDrop (pieces : List Str) (s : BoundedStr cap) :
    ∃ rest, (pieces.foldl pushStrOrDrop s).toStr = s.toStr ++ rest := by
  induction pieces generalizing s with
  | nil => exact ⟨[], by simp⟩
  | cons t pieces ih =>
      obtain ⟨rest, hrest⟩ := ih (s.pushStrOrDrop t)
      rw [List.foldl_cons, hrest, toStr_pushStrOrDrop]
      split
      · exact ⟨t ++ rest, List.append_assoc ..⟩
      · exact ⟨rest, rfl⟩

end BoundedStr
end Foundation
