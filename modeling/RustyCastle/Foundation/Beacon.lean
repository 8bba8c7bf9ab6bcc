import RustyCastle.Foundation.Runs

/-!
A beacon. It takes turns, one at a time after another, and what it sends besides its own messages
is one round, again and again. The next round is due a bounded time after the last, and it is sent
in the first turn that is not before it. So no turn is later than the bound after a round.
-/

namespace Foundation.Beacon
open Runs
variable {τ μ : Type}

structure State (μ : Type) where
  /-- The time of the next round. -/
  next : Nat
  /-- The turns so far, oldest first, each with its time and what it sent. -/
  history : List (Nat × List μ)

section
variable (time : τ → Nat) (own : τ → List μ) (round : List μ) (shortest longest : Nat)

/-- A turn before the next round, or one that sends it. -/
inductive Step (turn : τ) : State μ → State μ → Prop
  | quiet {s : State μ} (h : time turn < s.next) :
      Step turn s ⟨s.next, s.history ++ [(time turn, own turn)]⟩
  | round {s : State μ} {next : Nat} (h : s.next ≤ time turn)
      (hle : time turn + shortest ≤ next) (hge : next ≤ time turn + longest) :
      Step turn s ⟨next, s.history ++ [(time turn, round ++ own turn)]⟩

end

variable {time : τ → Nat} {own : τ → List μ} {round : List μ} {shortest longest : Nat}

theorem Step.history {turn : τ} {s s' : State μ}
    (h : Step time own round shortest longest turn s s') :
    ∃ sent, s'.history = s.history ++ [(time turn, sent)] ∧ (sent = own turn ∨
      sent = round ++ own turn) := by
  cases h with
  | quiet h => exact ⟨_, rfl, .inl rfl⟩
  | round h hle hge => exact ⟨_, rfl, .inr rfl⟩

/-- The history of a run has one entry for each turn. -/
theorem history_of_steps {turns : List τ} {s s' : State μ}
    (h : Steps (Step time own round shortest longest) turns s s') :
    ∃ history, s'.history = s.history ++ history ∧ List.Forall₂ (fun turn x =>
      x.1 = time turn ∧ (x.2 = own turn ∨ x.2 = round ++ own turn)) turns history := by
  induction h with
  | nil s => exact ⟨[], (List.append_nil _).symm, .nil⟩
  | @cons turn turns s s₁ s' hs _ ih =>
      obtain ⟨sent, hone, hsent⟩ := hs.history
      obtain ⟨history, hrest, hall⟩ := ih
      refine ⟨(time turn, sent) :: history, ?_, .cons ⟨rfl, hsent⟩ hall⟩
      rw [hrest, hone, List.append_assoc, List.singleton_append]

/-- A turn of the history at most the bound before the time sent the round. -/
def Covered (round : List μ) (longest : Nat) (history : List (Nat × List μ)) (now : Nat) : Prop :=
  ∃ x ∈ history, round ⊆ x.2 ∧ now ≤ x.1 + longest

theorem Covered.mono {history history' : List (Nat × List μ)} {now : Nat}
    (h : Covered round longest history now) : Covered round longest (history ++ history') now := by
  obtain ⟨x, hx, hround, hle⟩ := h
  exact ⟨x, List.mem_append_left _ hx, hround, hle⟩

/-- The next round is no later than the bound after one that was sent, or the first. -/
structure Kept (time : τ → Nat) (own : τ → List μ) (round : List μ) (start longest : Nat)
    (s : State μ) : Prop where
  first : s.history = [] → s.next = start
  next : s.history ≠ [] → Covered round longest s.history s.next
  turns : ∀ before x after, s.history = before ++ x :: after →
    Covered round longest (before ++ [x]) x.1

theorem append_singleton_eq {α : Type} {l before after : List α} {a x : α}
    (h : l ++ [a] = before ++ x :: after) :
    (after = [] ∧ l = before ∧ a = x) ∨ ∃ rest, l = before ++ x :: rest := by
  obtain rfl | ⟨init, y, rfl⟩ := List.eq_nil_or_concat' after
  · obtain ⟨hl, ha⟩ := List.append_inj' h rfl
    exact .inl ⟨rfl, hl, List.singleton_inj.mp ha⟩
  · rw [← List.cons_append, ← List.append_assoc] at h
    obtain ⟨hl, -⟩ := List.append_inj' h rfl
    exact .inr ⟨init, hl⟩

theorem Kept.step {start : Nat} {turn : τ} {s s' : State μ} (hstart : start ≤ time turn)
    (h : Kept time own round start longest s)
    (hs : Step time own round shortest longest turn s s') :
    Kept time own round start longest s' := by
  have hnow : Covered round longest s'.history (time turn) ∧ Covered round longest s'.history s'.next := by
    cases hs with
    | quiet hlt =>
        have hne : s.history ≠ [] := fun he => absurd hlt (by rw [h.first he]; omega)
        obtain ⟨x, hx, hround, hle⟩ := h.next hne
        exact ⟨⟨x, List.mem_append_left _ hx, hround, by omega⟩, (h.next hne).mono⟩
    | round hle hshort hlong =>
        have hmem : (time turn, round ++ own turn) ∈ s.history ++ [(time turn, round ++ own turn)] :=
          List.mem_append_right _ (List.mem_singleton_self _)
        have hsub : round ⊆ round ++ own turn := List.subset_append_left ..
        exact ⟨⟨_, hmem, hsub, Nat.le_add_right ..⟩, ⟨_, hmem, hsub, hlong⟩⟩
  obtain ⟨sent, hhist, -⟩ := hs.history
  refine ⟨fun he => ?_, fun _ => hnow.2, fun before x after he => ?_⟩
  · rw [hhist] at he
    simp at he
  · rw [hhist] at he
    obtain ⟨-, rfl, rfl⟩ | ⟨rest, hs⟩ := append_singleton_eq he
    · rw [← hhist]
      exact hnow.1
    · exact h.turns before x rest hs

/-- Every turn of a run is at most the bound after a turn, itself perhaps, that sent the round. -/
theorem covered_of_steps {start : Nat} {turns : List τ} {s : State μ}
    (h : Steps (Step time own round shortest longest) turns ⟨start, []⟩ s)
    (hstart : ∀ t ∈ turns, start ≤ time t) {before after : List (Nat × List μ)}
    {x : Nat × List μ} (hx : s.history = before ++ x :: after) :
    Covered round longest (before ++ [x]) x.1 := by
  have hk : Kept time own round start longest s := by
    refine h.invariant_of (fun t s s' ht hk hs => hk.step ht hs) hstart ⟨fun _ => rfl, ?_, ?_⟩
    · intro hne
      exact absurd rfl hne
    · intro before x after he
      simp at he
  exact hk.turns before x after hx

end Foundation.Beacon
