import Mathlib.Algebra.Order.BigOperators.Group.List
import Mathlib.Algebra.Order.Ring.Nat
import Mathlib.Data.List.Perm.Basic
import Mathlib.Data.List.Nodup
import Mathlib.Data.List.Count
import Mathlib.Data.List.Induction

/-!
Entries that name their parent. A client that asks for the children of an entry,
and then for those of each child with a key of its own, meets every entry once
where keys are distinct and every parent is the root or the key of an entry
before it.
-/

namespace Foundation.ParentLinks

variable {α κ : Type}

/-- What a client is given that asks for the children of `p` and of what it finds, to a depth. -/
def explore (children : κ → List α) (key : α → Option κ) : Nat → κ → List α
  | 0, _ => []
  | depth + 1, p =>
      children p ++ ((children p).filterMap key).flatMap (explore children key depth)

/-- The client runs out of questions before the depth is used up. -/
def Finishes (children : κ → List α) (key : α → Option κ) : Nat → κ → Prop
  | 0, _ => False
  | depth + 1, p => ∀ k ∈ (children p).filterMap key, Finishes children key depth k

/-- Every parent is known before, or the key of an entry before it. -/
def Grows (parent : α → κ) (key : α → Option κ) : (κ → Prop) → List α → Prop
  | _, [] => True
  | known, a :: l => known (parent a) ∧ Grows parent key (fun k => known k ∨ key a = some k) l

variable {parent : α → κ} {key : α → Option κ}

theorem Grows.mono {known known' : κ → Prop} {l : List α} (h : Grows parent key known l)
    (hk : ∀ k, known k → known' k) : Grows parent key known' l := by
  induction l generalizing known known' with
  | nil => trivial
  | cons a l ih => exact ⟨hk _ h.1, ih h.2 fun k => Or.imp_left (hk k)⟩

theorem grows_append {known : κ → Prop} {l l' : List α} :
    Grows parent key known (l ++ l') ↔ Grows parent key known l ∧
      Grows parent key (fun k => known k ∨ k ∈ l.filterMap key) l' := by
  induction l generalizing known with
  | nil => simp [Grows]
  | cons a l ih =>
      have hsame : (fun k => (known k ∨ key a = some k) ∨ k ∈ l.filterMap key) =
          fun k => known k ∨ k ∈ (a :: l).filterMap key := by
        funext k
        cases hka : key a with
        | none => simp [hka]
        | some b => simp [hka, or_assoc, eq_comm (a := b)]
      rw [List.cons_append, Grows, Grows, ih, hsame, and_assoc]

theorem grows_iff {known : κ → Prop} {l : List α} :
    Grows parent key known l ↔ ∀ before a after, l = before ++ a :: after →
      known (parent a) ∨ parent a ∈ before.filterMap key := by
  constructor
  · rintro h before a after rfl
    exact (grows_append.mp h).2.1
  · intro h
    induction l using List.reverseRecOn with
    | nil => trivial
    | append_singleton l a ih =>
        refine grows_append.mpr ⟨ih fun before b after hl => ?_, h l a [] rfl, trivial⟩
        exact h before b (after ++ [a]) (by rw [hl, List.append_assoc, List.cons_append])

theorem Grows.parent_mem {known : κ → Prop} {l : List α} (h : Grows parent key known l) {a : α}
    (ha : a ∈ l) : known (parent a) ∨ parent a ∈ l.filterMap key := by
  obtain ⟨before, after, rfl⟩ := List.append_of_mem ha
  refine (grows_iff.mp h before a after rfl).imp_right fun hm => ?_
  rw [List.filterMap_append]
  exact List.mem_append_left _ hm

/-- A list grows along any reading of its keys. -/
theorem Grows.map_keys {κ' : Type} {g : κ → κ'} {known : κ → Prop} {known' : κ' → Prop} {l : List α}
    (h : Grows parent key known l) (hk : ∀ k, known k → known' (g k)) :
    Grows (g ∘ parent) (fun a => (key a).map g) known' l := by
  rw [grows_iff] at h ⊢
  intro before a after hl
  refine (h before a after hl).imp (hk _) fun hm => ?_
  obtain ⟨b, hb, hkey⟩ := List.mem_filterMap.mp hm
  exact List.mem_filterMap.mpr ⟨b, hb, by rw [hkey]; rfl⟩

theorem grows_map {β : Type} {f : β → α} {known : κ → Prop} {l : List β} :
    Grows parent key known (l.map f) ↔ Grows (parent ∘ f) (key ∘ f) known l := by
  induction l generalizing known with
  | nil => rfl
  | cons b l ih =>
      rw [List.map_cons, Grows, Grows, ih]
      rfl

/-! Copies of one entry -/

variable {l : List α} {a : α}

theorem mem_key_of_mem_replicate {n : Nat} {k : κ} (h : k ∈ (List.replicate n a).filterMap key) :
    k ∈ key a := by
  obtain ⟨b, hb, hk⟩ := List.mem_filterMap.mp h
  rwa [List.eq_of_mem_replicate hb] at hk

theorem flatMap_append_replicate {f : κ → List α} {n : κ → Nat} (ks : List κ) :
    (ks.flatMap fun k => f k ++ List.replicate (n k) a).Perm
      (ks.flatMap f ++ List.replicate (ks.map n).sum a) := by
  induction ks with
  | nil => rfl
  | cons k ks ih =>
      rw [List.flatMap_cons, List.flatMap_cons, List.map_cons, List.sum_cons, List.replicate_add]
      simp only [List.append_assoc]
      refine List.Perm.append_left _ ((List.Perm.append_left _ ih).trans ?_)
      rw [← List.append_assoc, ← List.append_assoc]
      exact List.Perm.append_right _ List.perm_append_comm

section
variable [DecidableEq κ]

def childrenIn (parent : α → κ) (l : List α) (p : κ) : List α := l.filter fun a => parent a = p

/-! An entry at the end that is nobody's parent -/

theorem childrenIn_concat (p : κ) :
    childrenIn parent (l ++ [a]) p =
      childrenIn parent l p ++ List.replicate (if p = parent a then 1 else 0) a := by
  rw [childrenIn, List.filter_append, childrenIn, List.filter_singleton]
  by_cases h : p = parent a
  · simp [h]
  · simp [h, Ne.symm h]

theorem finishes_concat (hleaf : ∀ k ∈ key a, childrenIn parent (l ++ [a]) k = []) {depth : Nat}
    {p : κ} (h : Finishes (childrenIn parent l) key depth p) :
    Finishes (childrenIn parent (l ++ [a])) key (depth + 1) p := by
  induction depth generalizing p with
  | zero => exact h.elim
  | succ depth ih =>
      intro k hk
      rw [childrenIn_concat, List.filterMap_append, List.mem_append] at hk
      rcases hk with hk | hk
      · exact ih (h k hk)
      · intro k' hk'
        rw [hleaf k (mem_key_of_mem_replicate hk)] at hk'
        cases hk'

/-- How often the client asks for the children of the new entry's parent. -/
theorem count_asked (depth : Nat) (p x : κ) (children : κ → List α) :
    (p :: (explore children key (depth + 1) p).filterMap key).count x =
      (if p = x then 1 else 0) +
        (((children p).filterMap key).map fun k =>
          (k :: (explore children key depth k).filterMap key).count x).sum := by
  rw [List.count_cons, explore, List.filterMap_append, List.count_append, Nat.add_comm]
  congr 1
  · simp
  · generalize (children p).filterMap key = ks
    induction ks with
    | nil => rfl
    | cons k ks ih =>
        rw [List.flatMap_cons, List.filterMap_append, List.count_append, List.map_cons,
          List.sum_cons, ← ih, List.count_cons, List.count_cons]
        omega

/-- The new entry is met each time its parent is asked for, and nothing else changes. -/
theorem explore_concat (hleaf : ∀ k ∈ key a, childrenIn parent (l ++ [a]) k = []) {depth : Nat}
    {p : κ} (h : Finishes (childrenIn parent l) key depth p) :
    (explore (childrenIn parent (l ++ [a])) key (depth + 1) p).Perm
      (explore (childrenIn parent l) key depth p ++
        List.replicate
          ((p :: (explore (childrenIn parent l) key depth p).filterMap key).count (parent a)) a) := by
  induction depth generalizing p with
  | zero => exact h.elim
  | succ depth ih =>
      rw [count_asked, List.replicate_add]
      conv_lhs => rw [explore, childrenIn_concat, List.filterMap_append, List.flatMap_append]
      rw [explore]
      have hnew : ((List.replicate (if p = parent a then 1 else 0) a).filterMap key).flatMap
          (explore (childrenIn parent (l ++ [a])) key (depth + 1)) = [] := by
        rw [List.flatMap_eq_nil_iff]
        intro k hk
        rw [explore, hleaf k (mem_key_of_mem_replicate hk)]
        rfl
      rw [hnew, List.append_nil, List.append_assoc, List.append_assoc]
      refine List.Perm.append_left _ ?_
      refine (List.Perm.append_left _ (List.Perm.flatMap_left _ fun k hk => ih (h k hk))).trans ?_
      refine (List.Perm.append_left _ (flatMap_append_replicate _)).trans ?_
      rw [← List.append_assoc, ← List.append_assoc]
      exact List.Perm.append_right _ List.perm_append_comm

/-- The client finishes, and meets every entry once. -/
theorem explore_perm {root : κ} (hgrows : Grows parent key (· = root) l)
    (hnodup : (root :: l.filterMap key).Nodup) {depth : Nat} (hdepth : l.length < depth) :
    Finishes (childrenIn parent l) key depth root ∧
      (explore (childrenIn parent l) key depth root).Perm l := by
  induction l using List.reverseRecOn generalizing depth with
  | nil =>
      obtain ⟨depth, rfl⟩ := Nat.exists_eq_add_of_lt hdepth
      exact ⟨nofun, List.Perm.refl _⟩
  | append_singleton l a ih =>
      obtain ⟨depth, rfl⟩ : ∃ d, depth = d + 1 := ⟨depth - 1, by omega⟩
      obtain ⟨hgl, hga⟩ := grows_append.mp hgrows
      have hparent : parent a ∈ root :: l.filterMap key := by
        rw [List.mem_cons]
        exact hga.1
      rw [List.filterMap_append] at hnodup
      have hnodupl : (root :: l.filterMap key).Nodup := by
        rw [← List.cons_append] at hnodup
        exact (List.nodup_append.mp hnodup).1
      have hdepthl : l.length < depth := by simpa using hdepth
      obtain ⟨hfin, hperm⟩ := ih hgl hnodupl hdepthl
      have hleaf : ∀ k ∈ key a, childrenIn parent (l ++ [a]) k = [] := by
        intro k hk
        rw [childrenIn, List.filter_eq_nil_iff]
        intro b hb hbk
        have hfresh : k ∉ root :: l.filterMap key := by
          intro hm
          rw [← List.cons_append] at hnodup
          exact (List.nodup_append.mp hnodup).2.2 k hm k (List.mem_filterMap.mpr ⟨a, by simp, hk⟩) rfl
        rw [decide_eq_true_eq] at hbk
        rw [← hbk] at hfresh
        rcases List.mem_append.mp hb with hb | hb
        · exact hfresh (List.mem_cons.mpr (hgl.parent_mem hb))
        · rw [List.mem_singleton.mp hb] at hfresh
          exact hfresh hparent
      refine ⟨finishes_concat hleaf hfin, (explore_concat hleaf hfin).trans ?_⟩
      have hcount : (root :: (explore (childrenIn parent l) key depth root).filterMap key).count
          (parent a) = 1 := by
        rw [List.Perm.count_eq ((hperm.filterMap key).cons root)]
        exact List.count_eq_one_of_mem hnodupl hparent
      rw [hcount]
      exact List.Perm.append_right _ hperm

end

end Foundation.ParentLinks
