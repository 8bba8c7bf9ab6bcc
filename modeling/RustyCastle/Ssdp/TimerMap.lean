import Mathlib.Data.List.Dedup
import RustyCastle.Ssdp.Timer

/-!
The timer queue over whole runs. A run leaves a log of what was set, cancelled and
drained; while the kinds that are set are no more than the slots, the queue is the
map from kinds to deadlines that the log determines.
-/

namespace RustyCastle.Ssdp
open Foundation

/-! The map -/

abbrev Deadlines := TimerKind → Option Instant

inductive TimerEvent where
  | set (t : Timer)
  | cancelled (kind : TimerKind)
  | drained (kind : TimerKind)

def TimerEvent.apply : TimerEvent → Deadlines → Deadlines
  | .set t, m => Function.update m t.kind (some t.fireAt)
  | .cancelled kind, m => Function.update m kind none
  | .drained kind, m => Function.update m kind none

/-- The deadlines after the events of a log: the last one set for a kind, unless it
was cancelled or drained since. -/
def pendingAfter (log : List TimerEvent) (m : Deadlines) : Deadlines :=
  log.foldl (fun m e => e.apply m) m

theorem pendingAfter_cons (e : TimerEvent) (log : List TimerEvent) (m : Deadlines) :
    pendingAfter (e :: log) m = pendingAfter log (e.apply m) := rfl

theorem pendingAfter_append (log log' : List TimerEvent) (m : Deadlines) :
    pendingAfter (log ++ log') m = pendingAfter log' (pendingAfter log m) := List.foldl_append

/-- Only what was set is pending. -/
theorem pendingAfter_isSome {log : List TimerEvent} {m : Deadlines} {kind : TimerKind}
    (h : (pendingAfter log m kind).isSome) :
    (m kind).isSome ∨ ∃ t, .set t ∈ log ∧ t.kind = kind := by
  induction log generalizing m with
  | nil => exact .inl h
  | cons e log ih =>
      rw [pendingAfter_cons] at h
      rcases ih h with h | ⟨t, ht, hk⟩
      · cases e with
        | set t =>
            by_cases hk : kind = t.kind
            · exact .inr ⟨t, List.mem_cons_self .., hk.symm⟩
            · rw [TimerEvent.apply, Function.update_of_ne hk] at h
              exact .inl h
        | cancelled k | drained k =>
            by_cases hk : kind = k
            · rw [hk, TimerEvent.apply, Function.update_self] at h
              cases h
            · rw [TimerEvent.apply, Function.update_of_ne hk] at h
              exact .inl h
      · exact .inr ⟨t, List.mem_cons_of_mem e ht, hk⟩

theorem pendingAfter_drained (ks : List TimerKind) (m : Deadlines) (kind : TimerKind) :
    pendingAfter (ks.map .drained) m kind = if kind ∈ ks then none else m kind := by
  induction ks generalizing m with
  | nil => rfl
  | cons k ks ih =>
      rw [List.map_cons, pendingAfter_cons, ih, TimerEvent.apply]
      by_cases hk : kind = k
      · simp [hk]
      · simp [hk]

namespace TimerQueue
variable {N : Nat}

/-! One step of a drain -/

theorem drainNext_split {now : Instant} {es es' : List (Option Timer)} {k : TimerKind}
    (h : drainNext now es = some (k, es')) :
    ∃ l₁ e l₂, es = l₁ ++ some e :: l₂ ∧ es' = l₁ ++ none :: l₂ ∧ e.kind = k ∧ e.fireAt ≤ now := by
  induction es generalizing es' with
  | nil => cases h
  | cons s es ih =>
      -- a slot that is passed over stays in front
      have hpass : ∀ {s : Option Timer},
          (drainNext now es).map (fun r => (r.1, s :: r.2)) = some (k, es') →
          ∃ l₁ e l₂, s :: es = l₁ ++ some e :: l₂ ∧ es' = l₁ ++ none :: l₂ ∧ e.kind = k ∧
            e.fireAt ≤ now := by
        intro s h
        obtain ⟨⟨k', r⟩, hr, he⟩ := Option.map_eq_some_iff.mp h
        obtain ⟨rfl, rfl⟩ := Prod.mk.inj he
        obtain ⟨l₁, e, l₂, rfl, rfl, hk, hdue⟩ := ih hr
        exact ⟨s :: l₁, e, l₂, rfl, rfl, hk, hdue⟩
      cases s with
      | none => exact hpass h
      | some e =>
          by_cases hdue : e.fireAt ≤ now
          · rw [drainNext, if_pos hdue] at h
            obtain ⟨hk, rfl⟩ := Prod.mk.inj (Option.some.inj h)
            exact ⟨[], e, es, rfl, rfl, hk, hdue⟩
          · rw [drainNext, if_neg hdue] at h
            exact hpass h

/-- `next` on a drain of the queue. -/
def next (q : TimerQueue N) (now : Instant) : Option (TimerKind × TimerQueue N) :=
  match h : drainNext now q.entries with
  | none => none
  | some (kind, es) => some (kind,
      { entries := es
        length_eq := by
          obtain ⟨l₁, e, l₂, he, rfl, -⟩ := drainNext_split h
          rw [← q.length_eq, he]
          simp
        nodup := by
          obtain ⟨l₁, e, l₂, he, rfl, -⟩ := drainNext_split h
          have hn := he ▸ q.nodup
          simp only [Slots.keys_append, Slots.keys_some, Slots.keys_none] at hn ⊢
          exact hn.sublist ((List.sublist_cons_self _ _).append_left _) })

theorem next_eq_none {q : TimerQueue N} {now : Instant} :
    q.next now = none ↔ drainNext now q.entries = none := by
  unfold next
  split
  · rename_i h
    simp [h]
  · rename_i h
    simp [h]

/-- A call of `next` takes out the timer of a kind that is due. -/
theorem armed_next {q q' : TimerQueue N} {now : Instant} {k : TimerKind}
    (h : q.next now = some (k, q')) :
    (∃ t, q.armed k = some t ∧ t ≤ now) ∧ q'.armed = Function.update q.armed k none := by
  unfold next at h
  split at h
  · cases h
  · rename_i k' es hes
    obtain ⟨rfl, rfl⟩ := Prod.mk.inj (Option.some.inj h)
    obtain ⟨l₁, e, l₂, he, rfl, rfl, hdue⟩ := drainNext_split hes
    have harmed : q.armed e.kind = some e.fireAt := armed_eq_some.mpr (by simp [he])
    refine ⟨⟨e.fireAt, harmed, hdue⟩, funext fun kind => armed_ext fun t => ?_⟩
    have hn := he ▸ q.nodup
    simp only [Slots.keys_append, Slots.keys_some, List.nodup_append, List.nodup_cons] at hn
    by_cases hk : kind = e.kind
    · subst hk
      rw [Function.update_self]
      have hl₁ : some ⟨t, e.kind⟩ ∉ l₁ := fun hm =>
        hn.2.2 _ (Slots.mem_keys.mpr ⟨_, hm, rfl⟩) _ (List.mem_cons_self ..) rfl
      have hl₂ : some ⟨t, e.kind⟩ ∉ l₂ := fun hm => hn.2.1.1 (Slots.mem_keys.mpr ⟨_, hm, rfl⟩)
      simp [hl₁, hl₂]
    · have hne : (⟨t, kind⟩ : Timer) ≠ e := fun ht => hk (congrArg Timer.kind ht)
      rw [Function.update_of_ne hk, armed_eq_some]
      simp [he, hne]

end TimerQueue

/-! Runs -/

/-- A use of the queue. A drain that is dropped early is as many single steps. -/
inductive TimerOp where
  | set (t : Timer)
  | cancel (kind : TimerKind)
  | next (now : Instant)
  | drain (now : Instant)

namespace TimerOp
variable {N : Nat}

/-- The events of an operation, and the queue after it. -/
def step : TimerOp → TimerQueue N → List TimerEvent × TimerQueue N
  | .set t, q => ([.set t], q.set t)
  | .cancel kind, q => ([.cancelled kind], q.cancel kind)
  | .next now, q =>
      match q.next now with
      | none => ([], q)
      | some (kind, q') => ([.drained kind], q')
  | .drain now, q => ((q.drainExpired now).1.map .drained, (q.drainExpired now).2)

def run : List TimerOp → TimerQueue N → List TimerEvent × TimerQueue N
  | [], q => ([], q)
  | op :: ops, q =>
      let (log, q') := op.step q
      let (log', q'') := run ops q'
      (log ++ log', q'')

/-- The kinds that the operations set. -/
def setKinds (ops : List TimerOp) : List TimerKind :=
  ops.filterMap fun
    | .set t => some t.kind
    | _ => none

theorem mem_setKinds {ops : List TimerOp} {t : Timer} (h : .set t ∈ ops) : t.kind ∈ setKinds ops :=
  List.mem_filterMap.mpr ⟨.set t, h, rfl⟩

/-- An operation changes the queue as its events change the map, where a timer that is
set has room. -/
theorem armed_step (op : TimerOp) {q : TimerQueue N} (hroom : ∀ t, op = .set t → q.HasRoom t.kind) :
    (op.step q).2.armed = pendingAfter (op.step q).1 q.armed := by
  funext kind
  cases op with
  | set t =>
      rw [step, TimerQueue.armed_set (hroom t rfl)]
      by_cases hk : kind = t.kind
      · simp [pendingAfter, TimerEvent.apply, hk]
      · simp [pendingAfter, TimerEvent.apply, hk]
  | cancel k =>
      rw [step, TimerQueue.armed_cancel]
      by_cases hk : kind = k
      · simp [pendingAfter, TimerEvent.apply, hk]
      · simp [pendingAfter, TimerEvent.apply, hk]
  | next now =>
      rw [step]
      cases hn : q.next now with
      | none => rfl
      | some r => exact congrFun (TimerQueue.armed_next hn).2 kind
  | drain now =>
      rw [step, pendingAfter_drained, TimerQueue.armed_drain]
      cases hq : q.armed kind with
      | none => simp
      | some t =>
          have hmem : kind ∈ (q.drainExpired now).1 ↔ t ≤ now := by
            rw [TimerQueue.mem_drain, hq]
            simp
          by_cases ht : t ≤ now
          · simp [hmem, ht]
          · simp [hmem, ht, Option.filter_some, Nat.lt_of_not_le ht]

theorem set_mem_step {op : TimerOp} {q : TimerQueue N} {t : Timer} (h : .set t ∈ (op.step q).1) :
    op = .set t := by
  cases op with
  | set u =>
      obtain rfl : t = u := by simpa [step] using h
      rfl
  | cancel k => simp [step] at h
  | next now =>
      rw [step] at h
      cases hn : q.next now with
      | none => simp [hn] at h
      | some r => simp [hn] at h
  | drain now => simp [step] at h

/-- In a run that sets timers of few enough kinds the queue is the map of its log. -/
theorem armed_run {kinds : List TimerKind} (hlen : kinds.length ≤ N) {ops : List TimerOp}
    {q : TimerQueue N} (hset : ∀ t, .set t ∈ ops → t.kind ∈ kinds)
    (hq : ∀ k, (q.armed k).isSome → k ∈ kinds) :
    (run ops q).2.armed = pendingAfter (run ops q).1 q.armed ∧
      ∀ k, ((run ops q).2.armed k).isSome → k ∈ kinds := by
  induction ops generalizing q with
  | nil => exact ⟨rfl, hq⟩
  | cons op ops ih =>
      have hroom : ∀ t, op = .set t → q.HasRoom t.kind := fun t ht =>
        TimerQueue.hasRoom_of_kinds hq (hset t (ht ▸ List.mem_cons_self ..)) hlen
      have hstep := armed_step op hroom
      have hq' : ∀ k, ((op.step q).2.armed k).isSome → k ∈ kinds := by
        intro k hk
        rw [hstep] at hk
        rcases pendingAfter_isSome hk with hk | ⟨t, ht, rfl⟩
        · exact hq k hk
        · exact hset t (set_mem_step ht ▸ List.mem_cons_self ..)
      obtain ⟨hrun, hkinds⟩ := ih (fun t ht => hset t (List.mem_cons_of_mem op ht)) hq'
      refine ⟨?_, hkinds⟩
      rw [run, pendingAfter_append, ← hstep]
      exact hrun

end TimerOp

namespace TimerQueue
variable {N : Nat}

/-- The next timeout is the least of the pending deadlines. -/
theorem nextTimeout_eq_some {q : TimerQueue N} {m : Instant} :
    q.nextTimeout = some m ↔
      (∃ kind, q.armed kind = some m) ∧ ∀ kind t, q.armed kind = some t → m ≤ t := by
  have hmem : ∀ t, t ∈ (q.entries.filterMap id).map Timer.fireAt ↔ ∃ kind, q.armed kind = some t := by
    intro t
    simp only [armed_eq_some, List.mem_map, List.mem_filterMap, id, exists_eq_right]
    constructor
    · rintro ⟨e, he, rfl⟩
      exact ⟨e.kind, he⟩
    · rintro ⟨kind, he⟩
      exact ⟨_, he, rfl⟩
  rw [nextTimeout, List.min?_eq_some_iff, hmem]
  refine and_congr_right fun _ => ?_
  constructor
  · exact fun h kind t ht => h t ((hmem t).mpr ⟨kind, ht⟩)
  · intro h t ht
    obtain ⟨kind, ht⟩ := (hmem t).mp ht
    exact h kind t ht

/-- A drain is over when no deadline is reached. -/
theorem next_eq_none_iff {q : TimerQueue N} {now : Instant} :
    q.next now = none ↔ ∀ kind t, q.armed kind = some t → now < t := by
  constructor
  · intro h kind t ht
    have hnil : (q.drainExpired now).1 = [] := by
      rw [drainExpired_eq]
      exact (drainNext_none (next_eq_none.mp h)).1
    by_contra hle
    have hmem : kind ∈ (q.drainExpired now).1 := mem_drain.mpr ⟨t, ht, Nat.le_of_not_lt hle⟩
    rw [hnil] at hmem
    cases hmem
  · intro h
    cases hn : q.next now with
    | none => rfl
    | some r =>
        obtain ⟨t, ht, hle⟩ := (armed_next hn).1
        exact absurd (h _ t ht) (Nat.not_lt.mpr hle)

/-- The slots hold the deadlines of a map, one slot for each kind. -/
structure Represents (q : TimerQueue N) (m : Deadlines) : Prop where
  distinct : (Slots.keys Timer.kind q.entries).Nodup
  entries : ∀ kind t, some ⟨t, kind⟩ ∈ q.entries ↔ m kind = some t
  nextTimeout : ∀ t, q.nextTimeout = some t ↔
    (∃ kind, m kind = some t) ∧ ∀ kind u, m kind = some u → t ≤ u

theorem represents_iff {q : TimerQueue N} {m : Deadlines} : q.Represents m ↔ q.armed = m := by
  constructor
  · exact fun h => funext fun kind => armed_ext (h.entries kind)
  · rintro rfl
    exact
      { distinct := q.nodup
        entries := fun _ _ => armed_eq_some.symm
        nextTimeout := fun _ => nextTimeout_eq_some }

/-- What a full drain of a queue with the deadlines `m` returns and leaves. -/
structure Drains (q : TimerQueue N) (m : Deadlines) (now : Instant) : Prop where
  once : (q.drainExpired now).1.Nodup
  due : ∀ kind, kind ∈ (q.drainExpired now).1 ↔ ∃ t, m kind = some t ∧ t ≤ now
  ended : q.next now = none ↔ ∀ kind t, m kind = some t → now < t
  left : (q.drainExpired now).2.Represents fun kind => (m kind).filter (now < ·)

theorem drains_armed (q : TimerQueue N) (now : Instant) : q.Drains q.armed now where
  once := q.nodup_drain now
  due _ := mem_drain
  ended := next_eq_none_iff
  left := represents_iff.mpr (funext fun kind => armed_drain q now kind)

/-- In every run that sets timers of no more kinds than there are slots, the queue is
the map of the deadlines last set and not since cancelled or drained. A further
timer of such a kind drops no other, and a full drain takes out what is due. -/
theorem queue_is_map {ops : List TimerOp} (h : (TimerOp.setKinds ops).dedup.length ≤ N)
    {log : List TimerEvent} {q : TimerQueue N} (hrun : TimerOp.run ops .new = (log, q)) :
    q.Represents (pendingAfter log fun _ => none) ∧
      (∀ t, (TimerOp.setKinds (ops ++ [.set t])).dedup.length ≤ N →
        (q.set t).Represents
          (Function.update (pendingAfter log fun _ => none) t.kind (some t.fireAt))) ∧
      ∀ now, q.Drains (pendingAfter log fun _ => none) now := by
  have hnew : (new : TimerQueue N).armed = fun _ => none := funext armed_new
  have hrun' : ∀ {kinds : List TimerKind}, kinds.length ≤ N → TimerOp.setKinds ops ⊆ kinds →
      q.armed = pendingAfter log (fun _ => none) ∧ ∀ k, (q.armed k).isSome → k ∈ kinds := by
    intro kinds hlen hsub
    have := TimerOp.armed_run hlen (q := (new : TimerQueue N))
      (fun t ht => hsub (TimerOp.mem_setKinds ht)) (by simp)
    rwa [hrun, hnew] at this
  obtain ⟨hmap, -⟩ := hrun' h (List.subset_dedup _)
  rw [← hmap]
  refine ⟨represents_iff.mpr rfl, fun t ht => represents_iff.mpr ?_, fun now => q.drains_armed now⟩
  have hkinds : TimerOp.setKinds (ops ++ [.set t]) = TimerOp.setKinds ops ++ [t.kind] :=
    List.filterMap_append
  have hall := List.subset_dedup (TimerOp.setKinds (ops ++ [.set t]))
  rw [hkinds] at hall ht
  rw [List.append_subset] at hall
  obtain ⟨-, hq⟩ := hrun' ht hall.1
  have hroom := hasRoom_of_kinds hq (hall.2 (List.mem_singleton_self _)) ht
  funext kind
  rw [armed_set hroom, Function.update_apply]

def sampleOps : List TimerOp :=
  [.set ⟨5, .aliveRefresh⟩, .set ⟨3, .initialAlive⟩, .next 4, .set ⟨9, .aliveRefresh⟩]

theorem queue_is_map_sample :
    (TimerOp.run sampleOps (.new : TimerQueue 2)).2.Represents
      (Function.update (fun _ => none) .aliveRefresh (some 9)) := by
  have hlog : pendingAfter (TimerOp.run sampleOps (.new : TimerQueue 2)).1 (fun _ => none) =
      Function.update (fun _ => none) .aliveRefresh (some 9) := by
    funext kind
    cases kind <;> decide
  rw [← hlog]
  have hkinds : (TimerOp.setKinds sampleOps).dedup.length ≤ 2 := by decide
  exact (queue_is_map hkinds rfl).1

end TimerQueue

end RustyCastle.Ssdp
