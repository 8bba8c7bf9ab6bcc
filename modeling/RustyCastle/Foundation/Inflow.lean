import Mathlib.Data.List.TakeWhile
import Mathlib.Tactic.Common

/-!
Input that comes in pieces, and its readers. An inflow is what has come so far and
how it goes on. A reader takes a value off the front, fails, or waits for more. What
a settled reader has read is not changed by what comes later, so it does not depend
on the pieces; a reader that ends does not wait for what cannot come.
-/

namespace Foundation

inductive Ending (ε : Type) where
  | pending
  | finished
  | broken (error : ε)
  deriving DecidableEq

structure Inflow (β ε : Type) where
  arrived : List β
  ending : Ending ε
  deriving DecidableEq

inductive Reading (β ε α : Type) where
  | done (value : α) (rest : List β)
  | failed (error : ε)
  | waits
  deriving DecidableEq

def Reader (β ε α : Type) : Type := Inflow β ε → Reading β ε α

namespace Reader
variable {β ε α γ : Type}

def bind (r : Reader β ε α) (f : α → Reader β ε γ) : Reader β ε γ := fun s =>
  match r s with
  | .done a rest => f a { s with arrived := rest }
  | .failed e => .failed e
  | .waits => .waits

instance : Monad (Reader β ε) where
  pure a := fun s => .done a s.arrived
  bind := bind

def ofExcept : Except ε α → Reader β ε α
  | .ok a => pure a
  | .error e => fun _ => .failed e

/-- What a reader does where the input that it needs is not there. -/
def atEnd (s : Inflow β ε) (finished : Reading β ε α) : Reading β ε α :=
  match s.ending with
  | .pending => .waits
  | .finished => finished
  | .broken e => .failed e

/-- The items up to the first delimiter and with it; at the end those that are left. -/
def through [DecidableEq β] (delimiter : β) : Reader β ε (List β) := fun s =>
  match s.arrived.dropWhile (· ≠ delimiter) with
  | [] => atEnd s (.done s.arrived [])
  | _ :: rest => .done (s.arrived.takeWhile (· ≠ delimiter) ++ [delimiter]) rest

/-- Some number of items; `short` is the failure where fewer are left at the end. -/
def exactly (n : Nat) (short : ε) : Reader β ε (List β) := fun s =>
  if n ≤ s.arrived.length then .done (s.arrived.take n) (s.arrived.drop n)
  else atEnd s (.failed short)

def collectFrom (r : Reader β ε (Option α)) : Nat → Reader β ε (List α)
  | 0 => fun _ => .waits
  | fuel + 1 => r >>= fun
      | none => pure []
      | some a => collectFrom r fuel >>= fun as => pure (a :: as)

/-- The values that a reader gives until it gives none. -/
def collect (r : Reader β ε (Option α)) : Reader β ε (List α) := fun s =>
  collectFrom r (s.arrived.length + 1) s

/-! What the readers give -/

theorem bind_eq_done {r : Reader β ε α} {f : α → Reader β ε γ} {s : Inflow β ε} {c : γ}
    {rest : List β} : (r >>= f) s = .done c rest ↔
      ∃ a mid, r s = .done a mid ∧ f a { s with arrived := mid } = .done c rest := by
  change bind r f s = _ ↔ _
  unfold bind
  cases r s <;> simp

theorem bind_eq_failed {r : Reader β ε α} {f : α → Reader β ε γ} {s : Inflow β ε} {e : ε} :
    (r >>= f) s = .failed e ↔ r s = .failed e ∨
      ∃ a mid, r s = .done a mid ∧ f a { s with arrived := mid } = .failed e := by
  change bind r f s = _ ↔ _
  unfold bind
  cases r s <;> simp

theorem bind_eq_waits {r : Reader β ε α} {f : α → Reader β ε γ} {s : Inflow β ε} :
    (r >>= f) s = .waits ↔ r s = .waits ∨
      ∃ a mid, r s = .done a mid ∧ f a { s with arrived := mid } = .waits := by
  change bind r f s = _ ↔ _
  unfold bind
  cases r s <;> simp

@[simp] theorem pure_apply (a : α) (s : Inflow β ε) :
    (Pure.pure a : Reader β ε α) s = .done a s.arrived := rfl

theorem ofExcept_eq_done {x : Except ε α} {s : Inflow β ε} {a : α} {rest : List β} :
    ofExcept x s = .done a rest ↔ x = .ok a ∧ s.arrived = rest := by
  cases x <;> simp [ofExcept]

section Through
variable [DecidableEq β]

theorem through_append {delimiter : β} {line rest : List β} (h : delimiter ∉ line)
    (ending : Ending ε) : through delimiter ⟨line ++ delimiter :: rest, ending⟩ =
      .done (line ++ [delimiter]) rest := by
  have hp : ∀ b ∈ line, decide (b ≠ delimiter) = true :=
    fun b hb => decide_eq_true fun he => h (he ▸ hb)
  have hd : (line ++ delimiter :: rest).dropWhile (· ≠ delimiter) = delimiter :: rest := by
    rw [List.dropWhile_append_of_pos hp, List.dropWhile_cons_of_neg (by simp)]
  have ht : (line ++ delimiter :: rest).takeWhile (· ≠ delimiter) = line := by
    rw [List.takeWhile_append_of_pos hp, List.takeWhile_cons_of_neg (by simp), List.append_nil]
  simp only [through, hd, ht]

theorem through_of_notMem {delimiter : β} {s : Inflow β ε} (h : delimiter ∉ s.arrived) :
    through delimiter s = atEnd s (.done s.arrived []) := by
  have hd : s.arrived.dropWhile (· ≠ delimiter) = [] :=
    List.dropWhile_eq_nil_iff.mpr fun b hb => decide_eq_true fun he => h (he ▸ hb)
  simp only [through, hd]

/-- Input has a first delimiter or none. -/
theorem through_cases (delimiter : β) (s : Inflow β ε) :
    (∃ line rest, delimiter ∉ line ∧ s.arrived = line ++ delimiter :: rest ∧
      through delimiter s = .done (line ++ [delimiter]) rest) ∨
    delimiter ∉ s.arrived ∧ through delimiter s = atEnd s (.done s.arrived []) := by
  by_cases h : delimiter ∈ s.arrived
  · obtain ⟨line, rest, he, hline⟩ := List.eq_append_cons_of_mem h
    refine .inl ⟨line, rest, hline, he, ?_⟩
    rw [show s = ⟨line ++ delimiter :: rest, s.ending⟩ from by rw [← he], through_append hline]
  · exact .inr ⟨h, through_of_notMem h⟩

end Through
/-- What a reader that collects values gives: its values one after the other. -/
inductive Collects (r : Reader β ε (Option α)) : Inflow β ε → List α → List β → Prop where
  | nil {s rest} (h : r s = .done none rest) : Collects r s [] rest
  | cons {s a mid as rest} (h : r s = .done (some a) mid)
      (hs : Collects r { s with arrived := mid } as rest) : Collects r s (a :: as) rest

theorem collectFrom_succ (r : Reader β ε (Option α)) (fuel : Nat) :
    collectFrom r (fuel + 1) = r >>= fun
      | none => pure []
      | some a => collectFrom r fuel >>= fun as => pure (a :: as) := rfl

theorem collects_of_collectFrom {r : Reader β ε (Option α)} {fuel : Nat} {s : Inflow β ε}
    {as : List α} {rest : List β} (h : collectFrom r fuel s = .done as rest) :
    Collects r s as rest := by
  induction fuel generalizing s as with
  | zero => cases h
  | succ fuel ih =>
      rw [collectFrom_succ] at h
      obtain ⟨_ | a, mid, hr, h⟩ := bind_eq_done.mp h
      · obtain ⟨rfl, rfl⟩ := Reading.done.inj h
        exact .nil hr
      · obtain ⟨as', mid', has, h⟩ := bind_eq_done.mp h
        obtain ⟨rfl, rfl⟩ := Reading.done.inj h
        exact .cons hr (ih has)

/-- A value is not read from nothing. -/
def Consumes (r : Reader β ε (Option α)) : Prop :=
  ∀ s a rest, r s = .done (some a) rest → rest.length < s.arrived.length

theorem collectFrom_of_collects {r : Reader β ε (Option α)} (hr : r.Consumes) {s : Inflow β ε}
    {as : List α} {rest : List β} (h : Collects r s as rest) :
    ∀ fuel, s.arrived.length < fuel → collectFrom r fuel s = .done as rest := by
  induction h with
  | nil h =>
      rintro (_ | fuel) hf
      · cases hf
      · exact bind_eq_done.mpr ⟨none, _, h, rfl⟩
  | cons h _ ih =>
      rintro (_ | fuel) hf
      · cases hf
      · have hlt := hr _ _ _ h
        exact bind_eq_done.mpr ⟨_, _, h, bind_eq_done.mpr
          ⟨_, _, ih fuel (show _ < fuel by dsimp only; omega), rfl⟩⟩

theorem collect_iff {r : Reader β ε (Option α)} (hr : r.Consumes) {s : Inflow β ε} {as : List α}
    {rest : List β} : collect r s = .done as rest ↔ Collects r s as rest :=
  ⟨collects_of_collectFrom, fun h => collectFrom_of_collects hr h _ (Nat.lt_succ_self _)⟩

/-! Settled readers -/

/-- What is read while more may come stays, whatever comes and however it ends. -/
structure Settled (r : Reader β ε α) : Prop where
  done : ∀ {arrived a rest}, r ⟨arrived, .pending⟩ = .done a rest →
    ∀ more ending, r ⟨arrived ++ more, ending⟩ = .done a (rest ++ more)
  failed : ∀ {arrived e}, r ⟨arrived, .pending⟩ = .failed e →
    ∀ more ending, r ⟨arrived ++ more, ending⟩ = .failed e

theorem settled_pure (a : α) : Settled (pure a : Reader β ε α) where
  done h more ending := by
    obtain ⟨rfl, rfl⟩ := Reading.done.inj h
    rfl
  failed h := by cases h

theorem settled_ofExcept (x : Except ε α) : Settled (ofExcept x : Reader β ε α) where
  done h more ending := by
    obtain ⟨rfl, rfl⟩ := ofExcept_eq_done.mp h
    rfl
  failed h more ending := by
    cases x with
    | ok a => cases h
    | error e => exact h

theorem Settled.bind {r : Reader β ε α} {f : α → Reader β ε γ} (hr : Settled r)
    (hf : ∀ a, Settled (f a)) : Settled (r >>= f) where
  done h more ending := by
    obtain ⟨a, mid, ha, hc⟩ := bind_eq_done.mp h
    exact bind_eq_done.mpr ⟨a, mid ++ more, hr.done ha more ending, (hf a).done hc more ending⟩
  failed h more ending := by
    obtain ha | ⟨a, mid, ha, hc⟩ := bind_eq_failed.mp h
    · exact bind_eq_failed.mpr (.inl (hr.failed ha more ending))
    · exact bind_eq_failed.mpr
        (.inr ⟨a, mid ++ more, hr.done ha more ending, (hf a).failed hc more ending⟩)

theorem settled_through [DecidableEq β] (delimiter : β) :
    Settled (through delimiter : Reader β ε (List β)) where
  done {arrived a rest} h more ending := by
    obtain ⟨line, tail, hline, he, hr⟩ | ⟨-, hr⟩ := through_cases delimiter ⟨arrived, .pending⟩
    · obtain ⟨rfl, rfl⟩ := Reading.done.inj (hr.symm.trans h)
      have he : arrived = line ++ delimiter :: tail := he
      rw [he, List.append_assoc, List.cons_append, through_append hline]
    · cases hr.symm.trans h
  failed {arrived e} h := by
    obtain ⟨line, tail, hline, he, hr⟩ | ⟨-, hr⟩ := through_cases delimiter ⟨arrived, .pending⟩
    · cases hr.symm.trans h
    · cases hr.symm.trans h

theorem settled_exactly (n : Nat) (short : ε) :
    Settled (exactly n short : Reader β ε (List β)) where
  done {arrived a rest} h more ending := by
    by_cases hn : n ≤ arrived.length
    · rw [exactly, if_pos (by exact hn)] at h
      obtain ⟨rfl, rfl⟩ := Reading.done.inj h
      rw [exactly, if_pos (show n ≤ (arrived ++ more).length by rw [List.length_append]; omega),
        List.take_append_of_le_length hn, List.drop_append_of_le_length hn]
    · rw [exactly, if_neg (by exact hn)] at h
      cases h
  failed {arrived e} h := by
    by_cases hn : n ≤ arrived.length
    · rw [exactly, if_pos (by exact hn)] at h
      cases h
    · rw [exactly, if_neg (by exact hn)] at h
      cases h

theorem settled_collectFrom {r : Reader β ε (Option α)} (hr : Settled r) (fuel : Nat) :
    Settled (collectFrom r fuel) := by
  induction fuel with
  | zero => exact ⟨nofun, nofun⟩
  | succ fuel ih =>
      refine hr.bind fun x => ?_
      cases x with
      | none => exact settled_pure []
      | some a => exact ih.bind fun as => settled_pure (a :: as)

/-- More fuel changes a wait only. -/
theorem collectFrom_of_ne_waits {r : Reader β ε (Option α)} {fuel fuel' : Nat} (hf : fuel ≤ fuel')
    {s : Inflow β ε} (h : collectFrom r fuel s ≠ .waits) :
    collectFrom r fuel' s = collectFrom r fuel s := by
  induction fuel generalizing fuel' s with
  | zero => exact absurd rfl h
  | succ fuel ih =>
      obtain ⟨fuel', rfl⟩ : ∃ k, fuel' = k + 1 := ⟨fuel' - 1, by omega⟩
      rw [collectFrom_succ, collectFrom_succ] at *
      change bind r _ s ≠ _ at h
      change bind r _ s = bind r _ s
      unfold bind at h ⊢
      cases hx : r s with
      | done x mid =>
          rw [hx] at h
          cases x with
          | none => rfl
          | some a =>
              have hne : collectFrom r fuel { s with arrived := mid } ≠ .waits :=
                fun he => h (bind_eq_waits.mpr (.inl he))
              change bind _ _ _ = bind _ _ _
              unfold bind
              rw [ih (by omega) hne]
      | failed e => rfl
      | waits => rfl

theorem settled_collect {r : Reader β ε (Option α)} (hr : Settled r) : Settled (collect r) where
  done {arrived a rest} h more ending := by
    have hs := (settled_collectFrom hr _).done h more ending
    have hfuel : arrived.length + 1 ≤ (arrived ++ more).length + 1 := by simp
    rw [collect, collectFrom_of_ne_waits hfuel (by simp [hs]), hs]
  failed {arrived e} h more ending := by
    have hs := (settled_collectFrom hr _).failed h more ending
    have hfuel : arrived.length + 1 ≤ (arrived ++ more).length + 1 := by simp
    rw [collect, collectFrom_of_ne_waits hfuel (by simp [hs]), hs]

/-! Broken input -/

/-- What is read before the input breaks is read while more may come. -/
def Firm (r : Reader β ε α) : Prop :=
  ∀ arrived e a rest, r ⟨arrived, .broken e⟩ = .done a rest → r ⟨arrived, .pending⟩ = .done a rest

theorem firm_pure (a : α) : Firm (pure a : Reader β ε α) := fun _ _ _ _ h => h

theorem firm_ofExcept (x : Except ε α) : Firm (ofExcept x : Reader β ε α) := fun _ _ _ _ h => by
  obtain ⟨rfl, rfl⟩ := ofExcept_eq_done.mp h
  rfl

theorem Firm.bind {r : Reader β ε α} {f : α → Reader β ε γ} (hr : Firm r) (hf : ∀ a, Firm (f a)) :
    Firm (r >>= f) := fun _ _ _ _ h => by
  obtain ⟨a, mid, ha, hc⟩ := bind_eq_done.mp h
  exact bind_eq_done.mpr ⟨a, mid, hr _ _ _ _ ha, hf a _ _ _ _ hc⟩

theorem firm_through [DecidableEq β] (delimiter : β) :
    Firm (through delimiter : Reader β ε (List β)) := fun arrived e a rest h => by
  obtain ⟨line, tail, hline, he, hr⟩ | ⟨-, hr⟩ := through_cases delimiter ⟨arrived, .broken e⟩
  · have he : arrived = line ++ delimiter :: tail := he
    rw [he, through_append hline]
    exact hr.symm.trans h
  · cases hr.symm.trans h

theorem firm_exactly (n : Nat) (short : ε) : Firm (exactly n short : Reader β ε (List β)) :=
  fun arrived e a rest h => by
    unfold exactly at h ⊢
    split at h
    · rw [if_pos ‹_›]
      exact h
    · cases h

theorem firm_collect {r : Reader β ε (Option α)} (hr : Firm r) : Firm (collect r) := by
  have hfuel : ∀ fuel, Firm (collectFrom r fuel) := by
    intro fuel
    induction fuel with
    | zero => exact fun _ _ _ _ h => by cases h
    | succ fuel ih =>
        refine hr.bind fun x => ?_
        cases x with
        | none => exact firm_pure []
        | some a => exact Firm.bind ih fun as => firm_pure (a :: as)
  exact fun arrived e a rest h => hfuel _ arrived e a rest h

/-! Readers that end -/

/-- Where no more comes, a reader does not wait. -/
def Ends (r : Reader β ε α) : Prop := ∀ s, s.ending ≠ .pending → r s ≠ .waits

theorem ends_pure (a : α) : Ends (pure a : Reader β ε α) := fun _ _ h => by cases h

theorem ends_ofExcept (x : Except ε α) : Ends (ofExcept x : Reader β ε α) := fun _ _ h => by
  cases x <;> cases h

theorem Ends.bind {r : Reader β ε α} {f : α → Reader β ε γ} (hr : Ends r)
    (hf : ∀ a, Ends (f a)) : Ends (r >>= f) := fun s hs h => by
  obtain h | ⟨a, mid, -, h⟩ := bind_eq_waits.mp h
  · exact hr s hs h
  · exact hf a { s with arrived := mid } hs h

theorem atEnd_ne_waits {s : Inflow β ε} {x : Reading β ε α} (hs : s.ending ≠ .pending)
    (hx : x ≠ .waits) : atEnd s x ≠ .waits := by
  unfold atEnd
  split
  · exact absurd ‹_› hs
  · exact hx
  · simp

theorem ends_through [DecidableEq β] (delimiter : β) :
    Ends (through delimiter : Reader β ε (List β)) := fun s hs => by
  obtain ⟨_, _, -, -, hr⟩ | ⟨-, hr⟩ := through_cases delimiter s
  · simp [hr]
  · rw [hr]
    exact atEnd_ne_waits hs (by simp)

theorem ends_exactly (n : Nat) (short : ε) : Ends (exactly n short : Reader β ε (List β)) :=
  fun s hs => by
    unfold exactly
    split
    · simp
    · exact atEnd_ne_waits hs (by simp)

theorem ends_collect {r : Reader β ε (Option α)} (hc : r.Consumes) (hr : Ends r) :
    Ends (collect r) := by
  have hfuel : ∀ fuel s, s.ending ≠ .pending → s.arrived.length < fuel →
      collectFrom r fuel s ≠ .waits := by
    intro fuel
    induction fuel with
    | zero => exact fun s _ hlen => absurd hlen (Nat.not_lt_zero _)
    | succ fuel ih =>
        intro s hs hlen h
        rw [collectFrom_succ] at h
        obtain h | ⟨_ | a, mid, hx, h⟩ := bind_eq_waits.mp h
        · exact hr s hs h
        · cases h
        · have hlt := hc _ _ _ hx
          obtain h | ⟨as, mid', -, h⟩ := bind_eq_waits.mp h
          · exact ih { s with arrived := mid } hs (show mid.length < fuel by omega) h
          · cases h
  exact fun s hs => hfuel _ s hs (Nat.lt_succ_self _)

end Reader
end Foundation
