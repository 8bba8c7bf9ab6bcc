import Mathlib.Data.List.Perm.Basic

/-!
The books of a machine that takes items in and gives them out: the items it
accepted, the items it returned, and the machine itself. They balance when
everything accepted was returned or still waits, once each. A machine that is
polled for the last of what waits is emptied by polling it.
-/

namespace Foundation

structure Ledger (σ β : Type) where
  state : σ
  accepted : List β
  returned : List β

namespace Ledger
variable {σ β : Type}

def start (s : σ) : Ledger σ β := ⟨s, [], []⟩

/-- A step to `s` that accepts and returns. -/
def enter (l : Ledger σ β) (s : σ) (accepted returned : List β) : Ledger σ β :=
  ⟨s, l.accepted ++ accepted, l.returned ++ returned⟩

def Balanced (waiting : σ → List β) (l : Ledger σ β) : Prop :=
  (l.returned ++ waiting l.state).Perm l.accepted

variable {waiting : σ → List β}

/-- Balanced books stay balanced exactly when the step loses and adds nothing. -/
theorem balanced_enter_iff {l : Ledger σ β} (h : l.Balanced waiting) {s : σ}
    {accepted returned : List β} : (l.enter s accepted returned).Balanced waiting ↔
      (returned ++ waiting s).Perm (waiting l.state ++ accepted) := by
  have hbooks : (l.accepted ++ accepted).Perm
      (l.returned ++ (waiting l.state ++ accepted)) := by
    rw [← List.append_assoc]
    exact (h.append_right accepted).symm
  rw [Balanced, enter, List.append_assoc]
  exact ⟨fun hp => (List.perm_append_left_iff l.returned).mp (hp.trans hbooks),
    fun hp => (hp.append_left l.returned).trans hbooks.symm⟩

/-! Polling -/

/-- What polling returns until it returns nothing. -/
def drain (poll : σ → Option β × σ) : Nat → σ → List β
  | 0, _ => []
  | fuel + 1, s =>
      match poll s with
      | (none, _) => []
      | (some x, s') => x :: drain poll fuel s'

/-- In the states of `Inv` a poll takes the last of what waits. -/
structure TakesLast (waiting : σ → List β) (poll : σ → Option β × σ) (Inv : σ → Prop) : Prop where
  empty : ∀ s, Inv s → waiting s = [] → poll s = (none, s)
  last : ∀ s q x, Inv s → waiting s = q ++ [x] →
    ∃ s', poll s = (some x, s') ∧ waiting s' = q ∧ Inv s'

variable {poll : σ → Option β × σ} {Inv : σ → Prop}

theorem TakesLast.perm (h : TakesLast waiting poll Inv) {s : σ} (hs : Inv s) :
    ((poll s).1.toList ++ waiting (poll s).2).Perm (waiting s) := by
  rcases List.eq_nil_or_concat (waiting s) with hnil | ⟨q, x, hq⟩
  · rw [h.empty s hs hnil]
    exact List.Perm.refl _
  · rw [List.concat_eq_append] at hq
    obtain ⟨s', hpoll, hrest, -⟩ := h.last s q x hs hq
    rw [hpoll, hrest, hq]
    exact List.perm_append_comm

theorem TakesLast.inv (h : TakesLast waiting poll Inv) {s : σ} (hs : Inv s) : Inv (poll s).2 := by
  rcases List.eq_nil_or_concat (waiting s) with hnil | ⟨q, x, hq⟩
  · rw [h.empty s hs hnil]
    exact hs
  · rw [List.concat_eq_append] at hq
    obtain ⟨s', hpoll, -, hs'⟩ := h.last s q x hs hq
    rw [hpoll]
    exact hs'

/-- Polling empties the machine from the end. -/
theorem TakesLast.drain_eq (h : TakesLast waiting poll Inv) {fuel : Nat} {s : σ} (hs : Inv s)
    (hfuel : (waiting s).length ≤ fuel) : drain poll fuel s = (waiting s).reverse := by
  induction fuel generalizing s with
  | zero =>
      rw [List.length_eq_zero_iff.mp (Nat.le_zero.mp hfuel)]
      rfl
  | succ fuel ih =>
      rw [drain]
      rcases List.eq_nil_or_concat (waiting s) with hnil | ⟨q, x, hq⟩
      · rw [h.empty s hs hnil, hnil]
        rfl
      · rw [List.concat_eq_append] at hq
        obtain ⟨s', hpoll, hrest, hs'⟩ := h.last s q x hs hq
        rw [hq, List.length_append, List.length_singleton] at hfuel
        have htail := ih hs' (by rw [hrest]; omega)
        rw [hpoll, hq, List.reverse_append]
        dsimp only
        rw [htail, hrest]
        rfl

/-- The books balance when what a drain would return completes them. -/
theorem TakesLast.balanced_iff (h : TakesLast waiting poll Inv) {fuel : Nat} {l : Ledger σ β}
    (hs : Inv l.state) (hfuel : (waiting l.state).length ≤ fuel) :
    (l.returned ++ drain poll fuel l.state).Perm l.accepted ↔ l.Balanced waiting := by
  have hperm := ((waiting l.state).reverse_perm).append_left l.returned
  rw [h.drain_eq hs hfuel]
  exact ⟨hperm.symm.trans, hperm.trans⟩

end Ledger
end Foundation
