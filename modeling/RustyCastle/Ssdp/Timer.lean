import Mathlib.Data.List.Perm.Subperm
import RustyCastle.Foundation.Slots
import RustyCastle.Ssdp.Basic

/-!
The timer queue of the state machines. Its slots hold at most one timer of a
kind, so the queue is read as a map from kinds to fire times, `armed`; every
operation has one equation for it.
-/

namespace RustyCastle.Ssdp
open Foundation

inductive TimerKind where
  | aliveRefresh
  | initialAlive
  | searchResponse
  | searchRetransmit
  | cacheExpiry
  deriving DecidableEq, Repr

structure Timer where
  fireAt : Instant
  kind : TimerKind
  deriving DecidableEq, Repr

structure TimerQueue (N : Nat) where
  entries : List (Option Timer)
  length_eq : entries.length = N
  nodup : (Slots.keys Timer.kind entries).Nodup

namespace TimerQueue
variable {N : Nat}

def new : TimerQueue N where
  entries := List.replicate N none
  length_eq := List.length_replicate
  nodup := by
    have : Slots.keys Timer.kind (List.replicate N none) = [] := by simp [Slots.keys]
    rw [this]
    exact List.nodup_nil

/-- `Option<Instant>` as the key of `max_by_key`: an empty slot is the smallest. -/
def rank : Option Timer → Nat
  | none => 0
  | some e => e.fireAt + 1

/-- The slots after `set`: the slot of the same kind, else the first empty slot,
else the slot of the furthest timer is overwritten. -/
def setEntries (entries : List (Option Timer)) (t : Timer) : List (Option Timer) :=
  match Slots.replaceFirst (fun s => s.any fun e => e.kind = t.kind) (some t) entries with
  | some es => es
  | none =>
      match Slots.replaceFirst Option.isNone (some t) entries with
      | some es => es
      | none => Slots.overwriteMax rank (some t) entries

theorem setEntries_cases {entries : List (Option Timer)} (t : Timer)
    (hn : (Slots.keys Timer.kind entries).Nodup) :
    entries = [] ∧ setEntries entries t = [] ∨
      ∃ l₁ x l₂, entries = l₁ ++ x :: l₂ ∧ setEntries entries t = l₁ ++ some t :: l₂ ∧
        t.kind ∉ Slots.keys Timer.kind l₁ ∧ t.kind ∉ Slots.keys Timer.kind l₂ ∧
        (x = none ∨ (∃ e, x = some e ∧ e.kind = t.kind) ∨
          none ∉ entries ∧ t.kind ∉ Slots.keys Timer.kind entries) := by
  unfold setEntries
  cases hkind : Slots.replaceFirst (fun s => s.any fun e => e.kind = t.kind) (some t) entries with
  | some es =>
      obtain ⟨l₁, x, l₂, rfl, hx, rfl⟩ := Slots.replaceFirst_eq_some hkind
      obtain ⟨e, rfl, he⟩ := (Option.any_eq_true _ _).mp hx
      have hek : e.kind = t.kind := by simpa using he
      simp only [Slots.keys_append, Slots.keys_some, hek] at hn
      exact .inr ⟨l₁, some e, l₂, rfl, rfl, by grind, by grind, .inr (.inl ⟨e, rfl, hek⟩)⟩
  | none =>
      have hno := Slots.replaceFirst_eq_none hkind
      have habs : t.kind ∉ Slots.keys Timer.kind entries := by
        rw [Slots.mem_keys]
        rintro ⟨e, he, hk⟩
        simpa [hk] using hno _ he
      cases hempty : Slots.replaceFirst Option.isNone (some t) entries with
      | some es =>
          obtain ⟨l₁, x, l₂, rfl, hx, rfl⟩ := Slots.replaceFirst_eq_some hempty
          obtain rfl : x = none := by simpa using hx
          simp only [Slots.keys_append, Slots.keys_none, List.mem_append, not_or] at habs
          exact .inr ⟨l₁, none, l₂, rfl, rfl, habs.1, habs.2, .inl rfl⟩
      | none =>
          have hfull := Slots.replaceFirst_eq_none hempty
          have hnone : none ∉ entries := fun h => by simpa using hfull _ h
          obtain ⟨rfl, h⟩ | ⟨l₁, x, l₂, rfl, h⟩ := Slots.overwriteMax_cases rank (some t) entries
          · exact .inl ⟨rfl, h⟩
          · refine .inr ⟨l₁, x, l₂, rfl, h, ?_, ?_, .inr (.inr ⟨hnone, habs⟩)⟩
            · intro hk
              simp [hk] at habs
            · intro hk
              obtain ⟨e, he, hek⟩ := Slots.mem_keys.mp hk
              exact habs (Slots.mem_keys.mpr ⟨e, by simp [he], hek⟩)

def set (q : TimerQueue N) (t : Timer) : TimerQueue N where
  entries := setEntries q.entries t
  length_eq := by
    obtain ⟨he, hs⟩ | ⟨l₁, x, l₂, he, hs, -⟩ := setEntries_cases t q.nodup
    · rw [hs, ← q.length_eq, he]
    · rw [hs, ← q.length_eq, he]
      simp
  nodup := by
    obtain ⟨-, hs⟩ | ⟨l₁, x, l₂, he, hs, h₁, h₂, -⟩ := setEntries_cases t q.nodup
    · rw [hs]
      exact List.nodup_nil
    · rw [hs]
      exact Slots.nodup_write (he ▸ q.nodup) h₁ h₂

theorem keys_map_filter_sublist (p : Timer → Bool) (entries : List (Option Timer)) :
    (Slots.keys Timer.kind (entries.map (Option.filter p))).Sublist
      (Slots.keys Timer.kind entries) := by
  induction entries with
  | nil => exact List.Sublist.refl _
  | cons s entries ih =>
      cases s with
      | none => exact ih
      | some e =>
          by_cases hp : p e = true
          · simpa [Option.filter_some, hp] using ih.cons_cons e.kind
          · simpa [Option.filter_some, hp] using ih.cons e.kind

/-- The queue without the timers that fail `p`. -/
def keep (q : TimerQueue N) (p : Timer → Bool) : TimerQueue N where
  entries := q.entries.map (Option.filter p)
  length_eq := by simp [q.length_eq]
  nodup := q.nodup.sublist (keys_map_filter_sublist p q.entries)

def cancel (q : TimerQueue N) (kind : TimerKind) : TimerQueue N := q.keep fun e => e.kind ≠ kind

def nextTimeout (q : TimerQueue N) : Option Instant :=
  ((q.entries.filterMap id).map Timer.fireAt).min?

/-- `TimerDrain::next`: the kind of the first due slot, and the slots after. -/
def drainNext (now : Instant) : List (Option Timer) → Option (TimerKind × List (Option Timer))
  | [] => none
  | none :: es => (drainNext now es).map fun (k, es') => (k, none :: es')
  | some e :: es =>
      if e.fireAt ≤ now then some (e.kind, none :: es)
      else (drainNext now es).map fun (k, es') => (k, some e :: es')

/-- Collecting the drain: `next` until it returns nothing. -/
def drainLoop (now : Instant) : Nat → List (Option Timer) → List TimerKind × List (Option Timer)
  | 0, es => ([], es)
  | fuel + 1, es =>
      match drainNext now es with
      | none => ([], es)
      | some (k, es') =>
          let (ks, es'') := drainLoop now fuel es'
          (k :: ks, es'')

def dueKinds (now : Instant) (es : List (Option Timer)) : List TimerKind :=
  Slots.keys Timer.kind (es.map (Option.filter fun e => e.fireAt ≤ now))

theorem drainNext_none {now : Instant} {es : List (Option Timer)} (h : drainNext now es = none) :
    dueKinds now es = [] ∧ es.map (Option.filter fun e => ¬ e.fireAt ≤ now) = es := by
  induction es with
  | nil => exact ⟨rfl, rfl⟩
  | cons s es ih =>
      cases s with
      | none =>
          obtain ⟨hd, hk⟩ := ih (by simpa [drainNext] using h)
          exact ⟨hd, by simpa using hk⟩
      | some e =>
          by_cases he : e.fireAt ≤ now
          · simp [drainNext, he] at h
          · obtain ⟨hd, hk⟩ := ih (by simpa [drainNext, he] using h)
            have hlt : now < e.fireAt := Nat.lt_of_not_le he
            exact ⟨by simpa [dueKinds, Option.filter_some, he] using hd,
              by simpa [Option.filter_some, hlt] using hk⟩

theorem drainNext_some {now : Instant} {es es' : List (Option Timer)} {k : TimerKind}
    (h : drainNext now es = some (k, es')) :
    dueKinds now es = k :: dueKinds now es' ∧
      es.map (Option.filter fun e => ¬ e.fireAt ≤ now) =
        es'.map (Option.filter fun e => ¬ e.fireAt ≤ now) := by
  induction es generalizing es' with
  | nil => cases h
  | cons s es ih =>
      cases s with
      | none =>
          obtain ⟨⟨k', r⟩, hr, he⟩ := Option.map_eq_some_iff.mp h
          obtain ⟨rfl, rfl⟩ := Prod.mk.inj he
          obtain ⟨hd, hk⟩ := ih hr
          exact ⟨hd, by simpa using hk⟩
      | some e =>
          by_cases hdue : e.fireAt ≤ now
          · obtain ⟨rfl, rfl⟩ : e.kind = k ∧ none :: es = es' := by
              simpa [drainNext, hdue] using h
            exact ⟨by simp [dueKinds, Option.filter_some, hdue],
              by simp [Option.filter_some, hdue]⟩
          · rw [drainNext, if_neg hdue] at h
            obtain ⟨⟨k', r⟩, hr, he⟩ := Option.map_eq_some_iff.mp h
            obtain ⟨rfl, rfl⟩ := Prod.mk.inj he
            obtain ⟨hd, hk⟩ := ih hr
            exact ⟨by simpa [dueKinds, Option.filter_some, hdue] using hd,
              by simpa [Option.filter_some, hdue] using hk⟩

theorem drainLoop_eq {now : Instant} {fuel : Nat} {es : List (Option Timer)}
    (h : (dueKinds now es).length ≤ fuel) :
    drainLoop now fuel es =
      (dueKinds now es, es.map (Option.filter fun e => ¬ e.fireAt ≤ now)) := by
  induction fuel generalizing es with
  | zero =>
      cases hn : drainNext now es with
      | none =>
          obtain ⟨hd, hk⟩ := drainNext_none hn
          rw [drainLoop, hd, hk]
      | some r =>
          have := (drainNext_some hn).1
          simp [this] at h
  | succ fuel ih =>
      rw [drainLoop]
      cases hn : drainNext now es with
      | none =>
          obtain ⟨hd, hk⟩ := drainNext_none hn
          rw [hd, hk]
      | some r =>
          obtain ⟨hd, hk⟩ := drainNext_some hn
          have hl : (dueKinds now r.2).length ≤ fuel := by
            simpa [hd] using h
          simp only [ih hl, hd, hk]

theorem length_dueKinds_le (now : Instant) (es : List (Option Timer)) :
    (dueKinds now es).length ≤ es.length := by
  have h := (keys_map_filter_sublist (fun e => e.fireAt ≤ now) es).length_le
  refine h.trans ?_
  simpa [Slots.keys] using List.length_filterMap_le id es

/-- `drain_expired(now).collect()`: the drained kinds and the queue left behind. -/
def drainExpired (q : TimerQueue N) (now : Instant) : List TimerKind × TimerQueue N :=
  ((drainLoop now N q.entries).1, {
    entries := (drainLoop now N q.entries).2
    length_eq := by
      rw [drainLoop_eq ((length_dueKinds_le now _).trans_eq q.length_eq)]
      simp [q.length_eq]
    nodup := by
      rw [drainLoop_eq ((length_dueKinds_le now _).trans_eq q.length_eq)]
      exact q.nodup.sublist (keys_map_filter_sublist _ _) })

theorem drainExpired_eq (q : TimerQueue N) (now : Instant) :
    q.drainExpired now = (dueKinds now q.entries, q.keep fun e => ¬ e.fireAt ≤ now) := by
  simp only [drainExpired, keep, drainLoop_eq ((length_dueKinds_le now _).trans_eq q.length_eq)]

/-! The queue as a map from kinds to fire times -/

/-- When the timer of a kind fires, if one is armed. -/
def armed (q : TimerQueue N) (kind : TimerKind) : Option Instant :=
  ((q.entries.filterMap id).find? fun e => e.kind = kind).map Timer.fireAt

theorem armed_eq_some {q : TimerQueue N} {kind : TimerKind} {t : Instant} :
    q.armed kind = some t ↔ some ⟨t, kind⟩ ∈ q.entries := by
  rw [armed, Option.map_eq_some_iff]
  constructor
  · rintro ⟨e, he, rfl⟩
    obtain ⟨hm, rfl⟩ := (Slots.find?_key q.nodup).mp he
    exact hm
  · exact fun h => ⟨⟨t, kind⟩, (Slots.find?_key q.nodup).mpr ⟨h, rfl⟩, rfl⟩

theorem armed_ext {q : TimerQueue N} {kind : TimerKind} {o : Option Instant}
    (h : ∀ t, some ⟨t, kind⟩ ∈ q.entries ↔ o = some t) : q.armed kind = o :=
  Option.ext fun t => armed_eq_some.trans (h t)

@[simp] theorem armed_new (kind : TimerKind) : (new : TimerQueue N).armed kind = none :=
  armed_ext fun t => by simp [new]

/-- A timer of this kind can be set without dropping another. -/
def HasRoom (q : TimerQueue N) (kind : TimerKind) : Prop :=
  (q.armed kind).isSome ∨ none ∈ q.entries

theorem armed_set {q : TimerQueue N} {t : Timer} (h : q.HasRoom t.kind) (kind : TimerKind) :
    (q.set t).armed kind = if kind = t.kind then some t.fireAt else q.armed kind := by
  have hkey : ∀ {u : Instant} {l : List (Option Timer)}, t.kind ∉ Slots.keys Timer.kind l →
      some ⟨u, t.kind⟩ ∉ l := fun hl he => hl (Slots.mem_keys.mpr ⟨_, he, rfl⟩)
  obtain ⟨he, -⟩ | ⟨l₁, x, l₂, he, hs, h₁, h₂, hx⟩ := setEntries_cases t q.nodup
  · exfalso
    rcases h with h | h
    · obtain ⟨u, hu⟩ := Option.isSome_iff_exists.mp h
      simpa [he] using armed_eq_some.mp hu
    · simp [he] at h
  apply armed_ext
  intro u
  rw [show (q.set t).entries = l₁ ++ some t :: l₂ from hs]
  by_cases hk : kind = t.kind
  · subst hk
    simp only [if_true, List.mem_append, List.mem_cons, Option.some.injEq]
    constructor
    · rintro (hm | hm | hm)
      · exact absurd hm (hkey h₁)
      · rw [← hm]
      · exact absurd hm (hkey h₂)
    · rintro rfl
      exact .inr (.inl rfl)
  · rw [if_neg hk, armed_eq_some, he]
    have ht : (⟨u, kind⟩ : Timer) ≠ t := fun hu => hk (by rw [← hu])
    have hxne : x ≠ some ⟨u, kind⟩ := by
      rintro rfl
      rcases hx with hx | ⟨e, hx, hek⟩ | ⟨hnone, habs⟩
      · cases hx
      · obtain rfl := Option.some.inj hx
        exact hk hek
      · rcases h with h | h
        · obtain ⟨v, hv⟩ := Option.isSome_iff_exists.mp h
          exact habs (Slots.mem_keys.mpr ⟨_, armed_eq_some.mp hv, rfl⟩)
        · exact hnone h
    simp [ht, hxne.symm]

theorem armed_keep (q : TimerQueue N) (p : Timer → Bool) (kind : TimerKind) :
    (q.keep p).armed kind = (q.armed kind).filter fun t => p ⟨t, kind⟩ := by
  apply armed_ext
  intro t
  simp [keep, Option.filter_eq_some_iff, armed_eq_some]

theorem armed_cancel (q : TimerQueue N) (kind' kind : TimerKind) :
    (q.cancel kind').armed kind = if kind = kind' then none else q.armed kind := by
  rw [cancel, armed_keep]
  by_cases h : kind = kind'
  · cases hq : q.armed kind <;> simp [h]
  · cases hq : q.armed kind <;> simp [h]

theorem armed_drain (q : TimerQueue N) (now : Instant) (kind : TimerKind) :
    (q.drainExpired now).2.armed kind = (q.armed kind).filter fun t => now < t := by
  rw [drainExpired_eq, armed_keep]
  simp

theorem mem_drain {q : TimerQueue N} {now : Instant} {kind : TimerKind} :
    kind ∈ (q.drainExpired now).1 ↔ ∃ t, q.armed kind = some t ∧ t ≤ now := by
  rw [drainExpired_eq, dueKinds, Slots.mem_keys]
  constructor
  · rintro ⟨⟨t, k⟩, hm, rfl⟩
    obtain ⟨s, hs, hf⟩ := List.mem_map.mp hm
    obtain ⟨rfl, ht⟩ := Option.filter_eq_some_iff.mp hf
    exact ⟨t, armed_eq_some.mpr hs, by simpa using ht⟩
  · rintro ⟨t, ht, hle⟩
    refine ⟨⟨t, kind⟩, List.mem_map.mpr ⟨_, armed_eq_some.mp ht, ?_⟩, rfl⟩
    simpa using hle

theorem nodup_drain (q : TimerQueue N) (now : Instant) : (q.drainExpired now).1.Nodup := by
  rw [drainExpired_eq]
  exact q.nodup.sublist (keys_map_filter_sublist _ _)

/-- A due kind is drained once, between kinds that differ from it. -/
theorem drain_split {q : TimerQueue N} {now : Instant} {kind : TimerKind}
    (h : ∃ t, q.armed kind = some t ∧ t ≤ now) :
    ∃ before after, (q.drainExpired now).1 = before ++ kind :: after ∧
      kind ∉ before ∧ kind ∉ after := by
  obtain ⟨before, after, hsplit⟩ := List.append_of_mem (mem_drain.mpr h)
  have hnodup := hsplit ▸ q.nodup_drain now
  rw [List.nodup_append] at hnodup
  exact ⟨before, after, hsplit, fun hm => hnodup.2.2 _ hm _ (List.mem_cons_self ..) rfl,
    (List.nodup_cons.mp hnodup.2.1).1⟩

theorem nextTimeout_le {q : TimerQueue N} {kind : TimerKind} {t : Instant}
    (h : q.armed kind = some t) : ∃ m, q.nextTimeout = some m ∧ m ≤ t := by
  have hm : t ∈ (q.entries.filterMap id).map Timer.fireAt :=
    List.mem_map.mpr ⟨⟨t, kind⟩, by simpa using armed_eq_some.mp h, rfl⟩
  obtain ⟨m, hmin⟩ := Option.isSome_iff_exists.mp
    (List.isSome_min?_iff.mpr (List.ne_nil_of_mem hm))
  exact ⟨m, hmin, (List.min?_eq_some_iff.mp hmin).2 t hm⟩

/-- A queue whose timers are of few enough kinds has room for each of them. -/
theorem hasRoom_of_kinds {q : TimerQueue N} {kinds : List TimerKind} {kind : TimerKind}
    (hk : ∀ k, (q.armed k).isSome → k ∈ kinds) (hmem : kind ∈ kinds) (hlen : kinds.length ≤ N) :
    q.HasRoom kind := by
  by_cases hnone : none ∈ q.entries
  · exact .inr hnone
  have hall : ∀ s ∈ q.entries, s.isSome := by
    intro s hs
    cases s with
    | none => exact absurd hs hnone
    | some e => rfl
  have hlength : (Slots.keys Timer.kind q.entries).length = N := by
    rw [Slots.keys, List.length_map]
    exact (List.filterMap_length_eq_length.mpr hall).trans q.length_eq
  have hsub : Slots.keys Timer.kind q.entries ⊆ kinds := by
    intro k hk'
    obtain ⟨e, he, rfl⟩ := Slots.mem_keys.mp hk'
    exact hk _ (by rw [armed_eq_some.mpr he]; rfl)
  have hperm := (q.nodup.subperm hsub).perm_of_length_le (by omega)
  obtain ⟨e, he, rfl⟩ := Slots.mem_keys.mp (hperm.mem_iff.mpr hmem)
  exact .inl (by rw [armed_eq_some.mpr he]; rfl)

def allKinds : List TimerKind :=
  [.aliveRefresh, .initialAlive, .searchResponse, .searchRetransmit, .cacheExpiry]

/-- A queue with a slot for every kind never drops a timer. -/
theorem hasRoom_of_five (h : 5 ≤ N) (q : TimerQueue N) (kind : TimerKind) : q.HasRoom kind :=
  have hall : ∀ k, k ∈ allKinds := fun k => by cases k <;> decide
  hasRoom_of_kinds (fun k _ => hall k) (hall kind) h

end TimerQueue
end RustyCastle.Ssdp
