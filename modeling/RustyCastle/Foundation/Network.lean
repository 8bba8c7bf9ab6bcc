import Mathlib.Logic.Function.Basic
import RustyCastle.Foundation.Runs

/-!
Parties that exchange messages over a network that promises nothing. Whatever was sent stays in
the network, so a message is delivered late, more than once, out of order or not at all, and
the parties act in any order. What the parties come to believe is grounded, that is, some
party vouches for it, where no party sends a claim that it does not vouch for.
-/

namespace Foundation.Network
open Runs

/-- What a party does of itself, with what it sends, and what it does with a message. -/
structure Party (ι σ α β μ : Type) where
  act : ι → α → σ → Option (σ × List μ)
  receive : ι → β → ι → μ → σ → Option σ

structure World (ι σ μ : Type) where
  nodes : ι → σ
  /-- Everything that was sent so far, with its sender. -/
  sent : List (ι × μ)

inductive Event (ι α β : Type) where
  | act (i : ι) (a : α)
  /-- The message of a position in the network reaches a party. -/
  | deliver (i : ι) (b : β) (n : Nat)

section
variable {ι σ α β μ : Type} [DecidableEq ι] (P : Party ι σ α β μ)

def World.set (w : World ι σ μ) (i : ι) (s : σ) (out : List μ) : World ι σ μ where
  nodes := Function.update w.nodes i s
  sent := w.sent ++ out.map (i, ·)

def step : Event ι α β → World ι σ μ → Option (World ι σ μ)
  | .act i a, w => do
      let (s, out) ← P.act i a (w.nodes i)
      some (w.set i s out)
  | .deliver i b n, w => do
      let (j, m) ← w.sent[n]?
      let s ← P.receive i b j m (w.nodes i)
      some (w.set i s [])

/-- Every act of the event is one that the party may do. -/
def Event.Within (ok : ι → α → Prop) : Event ι α β → Prop
  | .act i a => ok i a
  | .deliver .. => True

variable {P}

theorem step_act {i : ι} {a : α} {w w' : World ι σ μ} (h : step P (.act i a) w = some w') :
    ∃ s out, P.act i a (w.nodes i) = some (s, out) ∧ w' = w.set i s out := by
  obtain ⟨⟨s, out⟩, hs, hw⟩ := Option.bind_eq_some_iff.mp h
  exact ⟨s, out, hs, (Option.some.inj hw).symm⟩

theorem step_deliver {i : ι} {b : β} {n : Nat} {w w' : World ι σ μ}
    (h : step P (.deliver i b n) w = some w') :
    ∃ j m s, (j, m) ∈ w.sent ∧ P.receive i b j m (w.nodes i) = some s ∧ w' = w.set i s [] := by
  obtain ⟨⟨j, m⟩, hm, h⟩ := Option.bind_eq_some_iff.mp h
  obtain ⟨s, hs, hw⟩ := Option.bind_eq_some_iff.mp h
  exact ⟨j, m, s, List.mem_of_getElem? hm, hs, (Option.some.inj hw).symm⟩

@[simp] theorem nodes_set_self (w : World ι σ μ) (i : ι) (s : σ) (out : List μ) :
    (w.set i s out).nodes i = s := by
  simp only [World.set, Function.update_self]

theorem nodes_set_of_ne (w : World ι σ μ) {i j : ι} (h : j ≠ i) (s : σ) (out : List μ) :
    (w.set i s out).nodes j = w.nodes j := by
  simp only [World.set, Function.update_of_ne h]

theorem step_act_of {i : ι} {a : α} {w : World ι σ μ} {s : σ} {out : List μ}
    (h : P.act i a (w.nodes i) = some (s, out)) : step P (.act i a) w = some (w.set i s out) := by
  simp only [step, h]
  rfl

theorem step_deliver_of {i j : ι} {b : β} {n : Nat} {m : μ} {w : World ι σ μ} {s : σ}
    (hm : w.sent[n]? = some (j, m)) (h : P.receive i b j m (w.nodes i) = some s) :
    step P (.deliver i b n) w = some (w.set i s []) := by
  simp only [step, hm]
  exact congrArg (fun o => o.bind fun s => some (w.set i s [])) h

/-- What a step does to one of the parties. -/
theorem step_node {e : Event ι α β} {w w' : World ι σ μ} (h : step P e w = some w') (j : ι) :
    w'.nodes j = w.nodes j ∨
    (∃ a out, e = .act j a ∧ P.act j a (w.nodes j) = some (w'.nodes j, out)) ∨
    ∃ b n i m, e = .deliver j b n ∧ w.sent[n]? = some (i, m) ∧
      P.receive j b i m (w.nodes j) = some (w'.nodes j) := by
  cases e with
  | act i a =>
      obtain ⟨s, out, hs, rfl⟩ := step_act h
      by_cases hj : j = i
      · subst hj
        exact .inr (.inl ⟨a, out, rfl, by rw [nodes_set_self, hs]⟩)
      · exact .inl (nodes_set_of_ne w hj ..)
  | deliver i b n =>
      obtain ⟨⟨k, m⟩, hm, h⟩ := Option.bind_eq_some_iff.mp h
      obtain ⟨s, hs, hw⟩ := Option.bind_eq_some_iff.mp h
      obtain rfl := Option.some.inj hw
      by_cases hj : j = i
      · subst hj
        exact .inr (.inr ⟨b, n, k, m, rfl, hm, by rw [nodes_set_self, hs]⟩)
      · exact .inl (nodes_set_of_ne w hj ..)

/-- A property of the nodes holds after one of them changed. -/
theorem forall_set {p : ι → σ → Prop} {w : World ι σ μ} (h : ∀ i, p i (w.nodes i)) {i : ι} {s : σ}
    (hs : p i s) (out : List μ) : ∀ j, p j ((w.set i s out).nodes j) := by
  intro j
  by_cases hj : j = i
  · subst hj
    simpa only [World.set, Function.update_self] using hs
  · simpa only [World.set, Function.update_of_ne hj] using h j

/-! Beliefs -/

variable {φ : Type}

/-- The rules for a party that only sends claims that it vouches for. `Sound` is what a party
keeps of its own, `Believes Q` that all it believes is in `Q`. -/
structure Provenance (P : Party ι σ α β μ) (ok : ι → α → Prop) (claims : ι → μ → φ → Prop)
    (vouches : ι → σ → φ → Prop) (Sound : ι → σ → Prop)
    (Believes : (φ → Prop) → ι → σ → Prop) : Prop where
  mono : ∀ {Q Q' : φ → Prop} {i s}, (∀ f, Q f → Q' f) → Believes Q i s → Believes Q' i s
  act_sound : ∀ {i a s s' out}, ok i a → Sound i s → P.act i a s = some (s', out) → Sound i s'
  act_keeps : ∀ {i a s s' out f}, ok i a → Sound i s → P.act i a s = some (s', out) →
    vouches i s f → vouches i s' f
  act_sends : ∀ {i a s s' out m f}, ok i a → Sound i s → P.act i a s = some (s', out) → m ∈ out →
    claims i m f → vouches i s f
  act_believes : ∀ {Q : φ → Prop} {i a s s' out}, ok i a → Sound i s → Believes Q i s →
    P.act i a s = some (s', out) → Believes Q i s'
  receive_sound : ∀ {i b j m s s'}, Sound i s → P.receive i b j m s = some s' → Sound i s'
  receive_keeps : ∀ {i b j m s s' f}, Sound i s → P.receive i b j m s = some s' →
    vouches i s f → vouches i s' f
  receive_believes : ∀ {Q : φ → Prop} {i b j m s s'}, Sound i s → Believes Q i s →
    (∀ f, claims j m f → Q f) → P.receive i b j m s = some s' → Believes Q i s'

/-- Some party vouches for it. -/
def Vouched (vouches : ι → σ → φ → Prop) (w : World ι σ μ) (f : φ) : Prop :=
  ∃ i, vouches i (w.nodes i) f

/-- The parties are sound, and what they sent or believe is vouched for. -/
structure Grounded (claims : ι → μ → φ → Prop) (vouches : ι → σ → φ → Prop) (Sound : ι → σ → Prop)
    (Believes : (φ → Prop) → ι → σ → Prop) (w : World ι σ μ) : Prop where
  sound : ∀ i, Sound i (w.nodes i)
  sent : ∀ x ∈ w.sent, ∀ f, claims x.1 x.2 f → Vouched vouches w f
  believes : ∀ i, Believes (Vouched vouches w) i (w.nodes i)

section
variable {ok : ι → α → Prop} {claims : ι → μ → φ → Prop} {vouches : ι → σ → φ → Prop}
  {Sound : ι → σ → Prop} {Believes : (φ → Prop) → ι → σ → Prop}

theorem vouched_set {w : World ι σ μ} {i : ι} {s : σ} {out : List μ}
    (h : ∀ f, vouches i (w.nodes i) f → vouches i s f) {f : φ} (hf : Vouched vouches w f) :
    Vouched vouches (w.set i s out) f := by
  obtain ⟨j, hj⟩ := hf
  refine ⟨j, ?_⟩
  by_cases hji : j = i
  · subst hji
    simpa only [World.set, Function.update_self] using h f hj
  · simpa only [World.set, Function.update_of_ne hji] using hj

theorem Provenance.grounded_step (hP : Provenance P ok claims vouches Sound Believes)
    (e : Event ι α β) (w w' : World ι σ μ) (he : e.Within ok)
    (hw : Grounded claims vouches Sound Believes w) (h : step P e w = some w') :
    Grounded claims vouches Sound Believes w' := by
  cases e with
  | act i a =>
      obtain ⟨s, out, hs, rfl⟩ := step_act h
      have hv : ∀ f, Vouched vouches w f → Vouched vouches (w.set i s out) f :=
        fun f => vouched_set fun f => hP.act_keeps he (hw.sound i) hs
      refine ⟨forall_set hw.sound (hP.act_sound he (hw.sound i) hs) out, ?_, ?_⟩
      · intro x hx f hf
        rcases List.mem_append.mp hx with hx | hx
        · exact hv f (hw.sent x hx f hf)
        · obtain ⟨m, hm, rfl⟩ := List.mem_map.mp hx
          exact hv f ⟨i, hP.act_sends he (hw.sound i) hs hm hf⟩
      · refine forall_set (fun j => hP.mono hv (hw.believes j)) ?_ out
        exact hP.act_believes he (hw.sound i) (hP.mono hv (hw.believes i)) hs
  | deliver i b n =>
      obtain ⟨j, m, s, hm, hs, rfl⟩ := step_deliver h
      have hv : ∀ f, Vouched vouches w f → Vouched vouches (w.set i s []) f :=
        fun f => vouched_set fun f => hP.receive_keeps (hw.sound i) hs
      refine ⟨forall_set hw.sound (hP.receive_sound (hw.sound i) hs) [], ?_, ?_⟩
      · intro x hx f hf
        exact hv f (hw.sent x (by simpa [World.set] using hx) f hf)
      · refine forall_set (fun j => hP.mono hv (hw.believes j)) ?_ []
        exact hP.receive_believes (hw.sound i) (hP.mono hv (hw.believes i))
          (fun f hf => hv f (hw.sent (j, m) hm f hf)) hs

/-- The rule for beliefs: over any run, nothing is believed that no party vouches for. -/
theorem Provenance.grounded_run (hP : Provenance P ok claims vouches Sound Believes)
    {events : List (Event ι α β)} {w w' : World ι σ μ} (hok : ∀ e ∈ events, e.Within ok)
    (hsound : ∀ i, Sound i (w.nodes i)) (hbelieves : ∀ i, Believes (fun _ => False) i (w.nodes i))
    (hsent : w.sent = []) (h : run (step P) events w = some w') :
    Grounded claims vouches Sound Believes w' := by
  refine invariant_run_of hP.grounded_step hok ⟨hsound, ?_, fun i => ?_⟩ h
  · rw [hsent]
    nofun
  · exact hP.mono (fun _ => False.elim) (hbelieves i)

end
end
end Foundation.Network
