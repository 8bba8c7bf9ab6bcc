import Mathlib.Data.List.Basic

/-!
Runs of a machine whose operations may fail to return. A property of every
state of a run follows from an invariant of the steps, and where a step keeps
the property exactly when it meets a condition, the property holds in every
state of a run exactly when every step of the run meets the condition.
-/

namespace Foundation.Runs
variable {σ α : Type} (step : α → σ → Option σ)

/-- The state after the operations, when all of them return. -/
def run (ops : List α) (s : σ) : Option σ := ops.foldlM (fun s a => step a s) s

@[simp] theorem run_nil (s : σ) : run step [] s = some s := rfl

@[simp] theorem run_cons (a : α) (ops : List α) (s : σ) :
    run step (a :: ops) s = (step a s).bind (run step ops) := by
  simp [run]
  rfl

theorem run_append (ops ops' : List α) (s : σ) :
    run step (ops ++ ops') s = (run step ops s).bind (run step ops') := by
  simp [run, List.foldlM_append]
  rfl

/-- `P` holds in the first state and in every state the operations reach. -/
def EveryState (P : σ → Prop) : List α → σ → Prop
  | [], s => P s
  | a :: ops, s => P s ∧ ∀ s', step a s = some s' → EveryState P ops s'

/-- Every operation that returns does so from a state it is allowed in. -/
def EveryStep (ok : α → σ → Prop) : List α → σ → Prop
  | [], _ => True
  | a :: ops, s => ∀ s', step a s = some s' → ok a s ∧ EveryStep ok ops s'

variable {step}

theorem everyState_head {P : σ → Prop} {ops : List α} {s : σ}
    (h : EveryState step P ops s) : P s := by
  cases ops with
  | nil => exact h
  | cons a ops => exact h.1

/-- The rule for an invariant of the operations that a run consists of. -/
theorem invariant_run_of {Inv : σ → Prop} {ok : α → Prop}
    (hstep : ∀ a s s', ok a → Inv s → step a s = some s' → Inv s') {ops : List α} {s s' : σ}
    (hops : ∀ a ∈ ops, ok a) (h : Inv s) (hr : run step ops s = some s') : Inv s' := by
  induction ops generalizing s with
  | nil =>
      obtain rfl : s = s' := by simpa using hr
      exact h
  | cons a ops ih =>
      obtain ⟨s₁, hs, hr'⟩ := Option.bind_eq_some_iff.mp (by simpa using hr)
      exact ih (fun b hb => hops b (List.mem_cons_of_mem a hb))
        (hstep a s s₁ (hops a (List.mem_cons_self ..)) h hs) hr'

/-- The rule for an inductive invariant. -/
theorem invariant_run {Inv : σ → Prop} (hstep : ∀ a s s', Inv s → step a s = some s' → Inv s')
    {ops : List α} {s s' : σ} (h : Inv s) (hr : run step ops s = some s') : Inv s' :=
  have hall : ∀ a ∈ ops, (fun _ : α => True) a := fun _ _ => trivial
  invariant_run_of (fun a s s' _ => hstep a s s') hall h hr

/-- The rule for runs that return: every operation returns from a state of `Inv`. -/
theorem exists_run {Inv : σ → Prop} (hstep : ∀ a s, Inv s → ∃ s', step a s = some s' ∧ Inv s')
    (ops : List α) {s : σ} (h : Inv s) : ∃ s', run step ops s = some s' ∧ Inv s' := by
  induction ops generalizing s with
  | nil => exact ⟨s, rfl, h⟩
  | cons a ops ih =>
      obtain ⟨s₁, hs, h₁⟩ := hstep a s h
      obtain ⟨s', hr, h'⟩ := ih h₁
      exact ⟨s', by rw [run_cons, hs, Option.bind_some, hr], h'⟩

/-- The rule for an exact step condition, in runs of operations of a kind. `Inv`
is what the condition's exactness may rest on besides the property. -/
theorem everyState_iff_everyStep_of {Inv P : σ → Prop} {kind : α → Prop} {ok : α → σ → Prop}
    (hinv : ∀ a s s', kind a → Inv s → step a s = some s' → Inv s')
    (hstep : ∀ a s s', kind a → Inv s → P s → step a s = some s' → (P s' ↔ ok a s))
    {ops : List α} {s : σ} (hops : ∀ a ∈ ops, kind a) (hi : Inv s) (hp : P s) :
    EveryState step P ops s ↔ EveryStep step ok ops s := by
  induction ops generalizing s with
  | nil => simpa [EveryState, EveryStep] using hp
  | cons a ops ih =>
      have ha := hops a (List.mem_cons_self ..)
      have hrest : ∀ b ∈ ops, kind b := fun b hb => hops b (List.mem_cons_of_mem a hb)
      constructor
      · intro h s' hs
        have hp' := everyState_head (h.2 s' hs)
        exact ⟨(hstep a s s' ha hi hp hs).mp hp',
          (ih hrest (hinv a s s' ha hi hs) hp').mp (h.2 s' hs)⟩
      · intro h
        refine ⟨hp, fun s' hs => ?_⟩
        obtain ⟨hok, h'⟩ := h s' hs
        exact (ih hrest (hinv a s s' ha hi hs) ((hstep a s s' ha hi hp hs).mpr hok)).mpr h'

/-- The rule for an exact step condition. -/
theorem everyState_iff_everyStep {Inv P : σ → Prop} {ok : α → σ → Prop}
    (hinv : ∀ a s s', Inv s → step a s = some s' → Inv s')
    (hstep : ∀ a s s', Inv s → P s → step a s = some s' → (P s' ↔ ok a s))
    {ops : List α} {s : σ} (hi : Inv s) (hp : P s) :
    EveryState step P ops s ↔ EveryStep step ok ops s :=
  have hall : ∀ a ∈ ops, (fun _ : α => True) a := fun _ _ => trivial
  everyState_iff_everyStep_of (fun a s s' _ => hinv a s s') (fun a s s' _ => hstep a s s') hall hi hp

/-- The rule for an invariant of the steps that meet a condition. -/
theorem everyState_of_everyStep {Inv : σ → Prop} {ok : α → σ → Prop}
    (hstep : ∀ a s s', Inv s → ok a s → step a s = some s' → Inv s') {ops : List α} {s : σ}
    (hi : Inv s) (hops : EveryStep step ok ops s) : EveryState step Inv ops s := by
  induction ops generalizing s with
  | nil => exact hi
  | cons a ops ih =>
      refine ⟨hi, fun s' hs => ?_⟩
      obtain ⟨hok, hrest⟩ := hops s' hs
      exact ih (hstep a s s' hi hok hs) hrest

/-- The rule for such an invariant where the run ends. -/
theorem invariant_run_of_everyStep {Inv : σ → Prop} {ok : α → σ → Prop}
    (hstep : ∀ a s s', Inv s → ok a s → step a s = some s' → Inv s') {ops : List α} {s s' : σ}
    (hi : Inv s) (hops : EveryStep step ok ops s) (hr : run step ops s = some s') : Inv s' := by
  induction ops generalizing s with
  | nil =>
      obtain rfl : s = s' := by simpa using hr
      exact hi
  | cons a ops ih =>
      obtain ⟨s₁, hs, hr'⟩ := Option.bind_eq_some_iff.mp (by simpa using hr)
      obtain ⟨hok, hrest⟩ := hops s₁ hs
      exact ih (hstep a s s₁ hi hok hs) hrest hr'

theorem everyStep_append {ok : α → σ → Prop} {ops ops' : List α} {s s' : σ}
    (hr : run step ops s = some s') : EveryStep step ok (ops ++ ops') s ↔
      EveryStep step ok ops s ∧ EveryStep step ok ops' s' := by
  induction ops generalizing s with
  | nil =>
      obtain rfl : s = s' := by simpa using hr
      exact (iff_of_eq (true_and _)).symm
  | cons a ops ih =>
      obtain ⟨s₁, hs, hr'⟩ := Option.bind_eq_some_iff.mp (by simpa using hr)
      have hone : ∀ {p : σ → Prop}, (∀ s₂, step a s = some s₂ → p s₂) ↔ p s₁ := by
        intro p
        rw [hs]
        simp
      rw [List.cons_append, EveryStep, EveryStep, hone, hone, ih hr', and_assoc]

theorem everyStep_of_forall {ok : α → σ → Prop} {ops : List α} (h : ∀ a ∈ ops, ∀ s, ok a s)
    (s : σ) : EveryStep step ok ops s := by
  induction ops generalizing s with
  | nil => trivial
  | cons a ops ih =>
      obtain ⟨ha, hops⟩ := List.forall_mem_cons.mp h
      exact fun s' _ => ⟨ha s, ih hops s'⟩

theorem EveryState.imp {P Q : σ → Prop} (hpq : ∀ s, P s → Q s) {ops : List α} {s : σ}
    (h : EveryState step P ops s) : EveryState step Q ops s := by
  induction ops generalizing s with
  | nil => exact hpq s h
  | cons a ops ih => exact ⟨hpq s h.1, fun s' hs => ih (h.2 s' hs)⟩

/-- Step conditions that agree where an invariant holds agree on a run. -/
theorem everyStep_congr {Inv : σ → Prop} {ok : α → Prop} {p q : α → σ → Prop}
    (hinv : ∀ a s s', ok a → Inv s → step a s = some s' → Inv s')
    (hiff : ∀ a s s', ok a → Inv s → step a s = some s' → (p a s ↔ q a s))
    {ops : List α} {s : σ} (hops : ∀ a ∈ ops, ok a) (hi : Inv s) :
    EveryStep step p ops s ↔ EveryStep step q ops s := by
  induction ops generalizing s with
  | nil => exact Iff.rfl
  | cons a ops ih =>
      have ha := hops a (List.mem_cons_self ..)
      have hrest : ∀ b ∈ ops, ok b := fun b hb => hops b (List.mem_cons_of_mem a hb)
      refine forall_congr' fun s' => imp_congr_right fun hs => ?_
      exact and_congr (hiff a s s' ha hi hs) (ih hrest (hinv a s s' ha hi hs))

/-- Runs of a machine whose steps are a relation. -/
inductive Steps (R : α → σ → σ → Prop) : List α → σ → σ → Prop
  | nil (s : σ) : Steps R [] s s
  | cons {a : α} {ops : List α} {s s' s'' : σ} :
      R a s s' → Steps R ops s' s'' → Steps R (a :: ops) s s''

/-- The rule for an invariant of the operations that such a run consists of. -/
theorem Steps.invariant_of {R : α → σ → σ → Prop} {Inv : σ → Prop} {kind : α → Prop}
    (hstep : ∀ a s s', kind a → Inv s → R a s s' → Inv s') {ops : List α} {s s' : σ}
    (h : Steps R ops s s') (hops : ∀ a ∈ ops, kind a) (hi : Inv s) : Inv s' := by
  induction h with
  | nil => exact hi
  | @cons a ops s s' s'' hs _ ih =>
      exact ih (fun b hb => hops b (List.mem_cons_of_mem a hb))
        (hstep a s s' (hops a (List.mem_cons_self ..)) hi hs)

/-- A run of the machine is the view of a run of the steps that refine it. -/
theorem exists_steps_of_run {τ : Type} {R : α → τ → τ → Prop} {view : τ → σ}
    (hstep : ∀ a t s', step a (view t) = some s' → ∃ t', R a t t' ∧ view t' = s') {ops : List α}
    {t : τ} {s' : σ} (h : run step ops (view t) = some s') :
    ∃ t', Steps R ops t t' ∧ view t' = s' := by
  induction ops generalizing t with
  | nil => exact ⟨t, .nil t, by simpa using h⟩
  | cons a ops ih =>
      obtain ⟨s₁, hs, hr⟩ := Option.bind_eq_some_iff.mp (by simpa using h)
      obtain ⟨t₁, hR, rfl⟩ := hstep a t s₁ hs
      obtain ⟨t', ht', hview⟩ := ih hr
      exact ⟨t', .cons hR ht', hview⟩

end Foundation.Runs
