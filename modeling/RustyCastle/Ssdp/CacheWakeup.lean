import RustyCastle.Ssdp.CacheFill

/-!
When the expiry timer covers the cache. A step keeps the cover exactly when the
entry it stores does not expire at once, or the timer is overdue anyway: with
the new minimum at the current time the timer is left as it was.
-/

namespace RustyCastle.Ssdp
open Foundation Foundation.HeaderBlock Foundation.Runs

namespace ControlPoint
variable {M : Type} [MapOps (BoundedStr cacheUsn) CpEntry M]

/-- A non-empty cache has its expiry timer armed, no later than the first expiry. -/
def WakeupArmed (cp : ControlPoint M) : Prop :=
  ∀ m, cp.cache.nextExpiry = some m → ∃ t, cp.timers.armed .cacheExpiry = some t ∧ t ≤ m

theorem SameCache.wakeupArmed {cp cp' : ControlPoint M} (h : SameCache cp cp')
    (hw : cp.WakeupArmed) : cp'.WakeupArmed := by
  intro m hm
  rw [h.expiry]
  exact hw m (h.cache ▸ hm)

/-- Rescheduling arms the timer for a minimum in the future and leaves it else. -/
theorem wakeupArmed_reschedule {cp : ControlPoint M} (ho : cp.OwnTimers) (now : Instant) :
    (cp.rescheduleCacheExpiry now).WakeupArmed ↔
      ∀ m, cp.cache.nextExpiry = some m → m ≤ now →
        ∃ t, cp.timers.armed .cacheExpiry = some t ∧ t ≤ m := by
  simp only [WakeupArmed, reschedule_cache, reschedule_armed ho]
  refine forall_congr' fun m => imp_congr_right fun hm => ?_
  simp only [hm]
  by_cases hlt : now < m
  · simp only [hlt, if_true, Option.some.injEq, exists_eq_left', le_refl, true_iff]
    lia
  · simp only [hlt, if_false, Nat.le_of_not_lt hlt, true_imp_iff]

section Laws
variable (hM : LawfulMap M cacheCap)
include hM

theorem wakeupArmed_iff {cp : ControlPoint M} :
    cp.WakeupArmed ↔ ∀ k e, cp.cache.find k = some e →
      ∃ t, cp.timers.armed .cacheExpiry = some t ∧ t ≤ e.expiresAt := by
  constructor
  · intro h k e he
    obtain ⟨m, hm, hle⟩ := ServiceCache.nextExpiry_le hM he
    obtain ⟨t, ht, htm⟩ := h m hm
    exact ⟨t, ht, htm.trans hle⟩
  · intro h m hm
    obtain ⟨k, e, he, rfl⟩ := ServiceCache.find_of_nextExpiry hM hm
    exact h k e he

theorem wakeupArmed_departed {cp : ControlPoint M} (hw : cp.WakeupArmed) (usn : UsnRef) :
    (cp.departed usn).WakeupArmed := by
  rw [departed_eq, wakeupArmed_iff hM]
  intro k e he
  dsimp only at he
  rw [ServiceCache.find_remove hM] at he
  split at he
  · cases he
  · exact (wakeupArmed_iff hM).mp hw k e he

theorem wakeupArmed_announced {cp cp' : ControlPoint M} {now : Instant} {usn : UsnRef}
    {loc : Str} {age : Duration} (ho : cp.OwnTimers) (hw : cp.WakeupArmed)
    (h : cp.announced now usn loc age = some cp') :
    cp'.WakeupArmed ↔
      (cp.cache.Accepts (usnToString usn) loc → 0 < age ∨ cp.ExpiryDue now) := by
  obtain ⟨b, cache, hc, rfl⟩ := announced_eq_some h
  have hold := (wakeupArmed_iff hM).mp hw
  rw [wakeupArmed_reschedule (by exact ho)]
  dsimp only
  obtain ⟨hacc, l, -, hfind⟩ | ⟨hacc, rfl⟩ := ServiceCache.insert_eq_some hM hc
  · have hnew : cache.find (usnToString usn) = some ⟨l, usnToString usn, now + age⟩ := by
      rw [hfind, if_pos rfl]
    obtain ⟨m, hm, hmle⟩ := ServiceCache.nextExpiry_le hM hnew
    constructor
    · intro h' _
      by_cases hnow : m ≤ now
      · obtain ⟨t, ht, htm⟩ := h' m hm hnow
        exact .inr ⟨t, ht, htm.trans hnow⟩
      · dsimp only at hmle
        exact .inl (by lia)
    · intro h' m' hm' hnow
      obtain ⟨k, e, he, rfl⟩ := ServiceCache.find_of_nextExpiry hM hm'
      rw [hfind] at he
      split at he
      · obtain rfl := Option.some.inj he
        dsimp only at hnow ⊢
        rcases h' hacc with hpos | ⟨t, ht, htn⟩
        · lia
        · exact ⟨t, ht, by lia⟩
      · exact hold k e he
  · simp only [hacc, false_imp_iff, iff_true]
    exact fun m hm _ => hw m hm

end Laws
end ControlPoint

namespace CpOp
variable (httparse : List UInt8 → Nat → Outcome) {M : Type}
  [MapOps (BoundedStr cacheUsn) CpEntry M]

/-- The message an operation receives, with the time it is received at. -/
def message : CpOp → Option (Instant × MessageRef)
  | .handleDatagram now _ payload =>
      match parseDatagram httparse payload with
      | .ok msg => some (now, msg)
      | .error _ => none
  | _ => none

/-- An entry that the operation stores does not expire at the time it is stored,
or the expiry timer is due by then. -/
def ExpiresLater (op : CpOp) (cp : ControlPoint M) : Prop :=
  ∀ now msg usn loc age, op.message httparse = some (now, msg) →
    msg.announcement = some (usn, loc, age) → cp.cache.Accepts (usnToString usn) loc →
    0 < age ∨ cp.ExpiryDue now

end CpOp

namespace ControlPoint
variable {httparse : List UInt8 → Nat → Outcome} {M : Type}
  [MapOps (BoundedStr cacheUsn) CpEntry M]

theorem ownTimers_new (ua : Option Str) : (new ua : ControlPoint M).OwnTimers := by
  intro k hk
  simp [new] at hk

theorem ownTimers_announced {cp cp' : ControlPoint M} {now : Instant} {usn : UsnRef}
    {loc : Str} {age : Duration} (ho : cp.OwnTimers)
    (h : cp.announced now usn loc age = some cp') : cp'.OwnTimers := by
  obtain ⟨b, cache, -, rfl⟩ := announced_eq_some h
  exact reschedule_ownTimers (by exact ho) now

theorem ownTimers_handleMessage {cp cp' : ControlPoint M} {now : Instant} {msg : MessageRef}
    (ho : cp.OwnTimers) (h : cp.handleMessage now msg = some cp') : cp'.OwnTimers := by
  rw [handleMessage_eq] at h
  split at h
  · exact ownTimers_announced ho h
  · cases h
    rw [departed_eq]
    exact ho
  · cases h
    exact ho

section Laws
variable (hM : LawfulMap M cacheCap)
include hM

theorem ownTimers_handleTimeout {cp cp' : ControlPoint M} {now : Instant} (ho : cp.OwnTimers)
    (h : cp.handleTimeout now = some cp') : cp'.OwnTimers := by
  by_cases hdue : cp.ExpiryDue now
  · exact (handleTimeout_due hM ho hdue h).1
  · exact (handleTimeout_notDue ho hdue h).1

theorem ownTimers_step (op : CpOp) (cp cp' : ControlPoint M) (ho : cp.OwnTimers)
    (h : op.step httparse cp = some cp') : cp'.OwnTimers := by
  cases op with
  | search target mx now => exact (search_same ho h).1
  | handleDatagram now source payload =>
      simp only [CpOp.step, handleDatagram] at h
      split at h
      · cases h
        exact ho
      · exact ownTimers_handleMessage ho h
  | handleTimeout now => exact ownTimers_handleTimeout hM ho h
  | pollTransmit n =>
      cases h
      intro k
      rw [pollTransmit_timers]
      exact ho k
  | pollEvent =>
      cases h
      intro k
      rw [(pollEvent_timers cp).1]
      exact ho k
  | pollTimeout =>
      cases h
      exact ho

theorem wakeupArmed_handleTimeout {cp cp' : ControlPoint M} {now : Instant} (ho : cp.OwnTimers)
    (hw : cp.WakeupArmed) (h : cp.handleTimeout now = some cp') : cp'.WakeupArmed := by
  by_cases hdue : cp.ExpiryDue now
  · intro m hm
    exact ⟨m, (handleTimeout_due hM ho hdue h).2.2.2.trans hm, le_refl m⟩
  · exact (handleTimeout_notDue ho hdue h).2.wakeupArmed hw

theorem wakeupArmed_handleMessage {cp cp' : ControlPoint M} {now : Instant} {msg : MessageRef}
    (ho : cp.OwnTimers) (hw : cp.WakeupArmed) (h : cp.handleMessage now msg = some cp') :
    cp'.WakeupArmed ↔ ∀ usn loc age, msg.announcement = some (usn, loc, age) →
      cp.cache.Accepts (usnToString usn) loc → 0 < age ∨ cp.ExpiryDue now := by
  rw [handleMessage_eq] at h
  split at h
  · rename_i usn loc age ha
    rw [wakeupArmed_announced hM ho hw h, ha]
    constructor
    · rintro h' _ _ _ ⟨⟩
      exact h'
    · intro h'
      exact h' usn loc age rfl
  · rename_i usn ha _
    cases h
    simp only [ha, reduceCtorEq, false_imp_iff, implies_true, iff_true]
    exact wakeupArmed_departed hM hw usn
  · rename_i ha _
    cases h
    simp only [ha, reduceCtorEq, false_imp_iff, implies_true, iff_true]
    exact hw

/-- What a step needs for the cover to be kept, exactly. -/
theorem wakeupArmed_step (op : CpOp) (cp cp' : ControlPoint M) (ho : cp.OwnTimers)
    (hw : cp.WakeupArmed) (h : op.step httparse cp = some cp') :
    cp'.WakeupArmed ↔ op.ExpiresLater httparse cp := by
  have hsilent : op.message httparse = none → cp'.WakeupArmed →
      (cp'.WakeupArmed ↔ op.ExpiresLater httparse cp) := by
    intro hn hw'
    simp [CpOp.ExpiresLater, hn, hw']
  cases op with
  | search target mx now => exact hsilent rfl ((search_same ho h).2.wakeupArmed hw)
  | handleDatagram now source payload =>
      simp only [CpOp.step, handleDatagram] at h
      cases hp : parseDatagram httparse payload with
      | error e =>
          rw [hp] at h
          cases h
          exact hsilent (by simp only [CpOp.message, hp]) hw
      | ok msg =>
          rw [hp] at h
          rw [wakeupArmed_handleMessage hM ho hw h]
          simp only [CpOp.ExpiresLater, CpOp.message, hp, Option.some.injEq, Prod.mk.injEq]
          constructor
          · rintro h' _ _ usn loc age ⟨rfl, rfl⟩
            exact h' usn loc age
          · intro h' usn loc age
            exact h' now msg usn loc age ⟨rfl, rfl⟩
  | handleTimeout now => exact hsilent rfl (wakeupArmed_handleTimeout hM ho hw h)
  | pollTransmit n =>
      cases h
      exact hsilent rfl ((pollTransmit_same cp n).wakeupArmed hw)
  | pollEvent =>
      cases h
      refine hsilent rfl fun m hm => ?_
      rw [(pollEvent_timers cp).1]
      exact hw m ((pollEvent_timers cp).2 ▸ hm)
  | pollTimeout =>
      cases h
      exact hsilent rfl hw

theorem wakeupArmed_new (ua : Option Str) : (new ua : ControlPoint M).WakeupArmed := by
  rw [wakeupArmed_iff hM]
  intro k e he
  rw [show (new ua : ControlPoint M).cache = .new from rfl, ServiceCache.find_new hM] at he
  cases he

end Laws
end ControlPoint

/-- In a run from the start the expiry timer covers the cache in every state
exactly when every step of the run stores entries that expire later. -/
theorem wakeup_armed_iff (httparse : List UInt8 → Nat → Outcome) {M : Type}
    [MapOps (BoundedStr cacheUsn) CpEntry M] (hM : LawfulMap M cacheCap) (ua : Option Str)
    (ops : List CpOp) :
    EveryState (CpOp.step httparse) ControlPoint.WakeupArmed ops
        (ControlPoint.new ua : ControlPoint M) ↔
      EveryStep (CpOp.step httparse) (CpOp.ExpiresLater httparse) ops
        (ControlPoint.new ua : ControlPoint M) :=
  everyState_iff_everyStep (fun op cp cp' ho => ControlPoint.ownTimers_step hM op cp cp' ho)
    (fun op cp cp' ho hw => ControlPoint.wakeupArmed_step hM op cp cp' ho hw)
    (ControlPoint.ownTimers_new ua) (ControlPoint.wakeupArmed_new hM ua)

def zeroAgeRun : List CpOp := [.handleDatagram 0 samplePeer (sampleResponse 0 0).wire]

/-- A response whose max-age is zero leaves an entry behind that nothing wakes for. -/
theorem wakeup_lost_at_zero_age :
    NonDecreasing zeroAgeRun ∧ ∃ cp : ControlPoint CpIndexMap,
      run (CpOp.step splitBlock) zeroAgeRun (ControlPoint.new none) = some cp ∧
      cp.cache.isEmpty = false ∧ cp.timers.armed .cacheExpiry = none ∧ ¬ cp.WakeupArmed := by
  have hM : LawfulMap CpIndexMap cacheCap := IndexMap.lawful
  let start : ControlPoint CpIndexMap := ControlPoint.new none
  obtain ⟨cp, h⟩ := start.announced_returns (sampleUsn 0) sampleLocation
    (by decide : (0 : Instant) + Duration.fromSecs 0 ≤ Duration.max)
  obtain ⟨b, cache, hc, rfl⟩ := ControlPoint.announced_eq_some h
  have hacc : start.cache.Accepts (usnToString (sampleUsn 0)) sampleLocation := by decide
  obtain ⟨-, l, -, hfind⟩ | ⟨hno, -⟩ := ServiceCache.insert_eq_some hM hc
  swap
  · exact absurd hacc hno
  have hnew : cache.find (usnToString (sampleUsn 0)) = some _ := (hfind _).trans (if_pos rfl)
  obtain ⟨m, hm, hle⟩ := ServiceCache.nextExpiry_le hM hnew
  obtain rfl : m = 0 := Nat.le_zero.mp hle
  let x : ControlPoint CpIndexMap := { start with
    cache, events := ControlPoint.pushSearchHit start.events (usnToString (sampleUsn 0)).toStr
      sampleLocation (Duration.fromSecs 0) }
  have hox : x.OwnTimers := (ControlPoint.ownTimers_new none : start.OwnTimers)
  have hnone : (x.rescheduleCacheExpiry 0).timers.armed .cacheExpiry = none := by
    rw [ControlPoint.reschedule_armed hox, show x.cache = cache from rfl, hm]
    exact TimerQueue.armed_new _
  refine ⟨List.pairwise_singleton _ _, x.rescheduleCacheExpiry 0, ?_, ?_, hnone, ?_⟩
  · simp only [zeroAgeRun, run_cons, CpOp.step,
      ControlPoint.handleDatagram_sample splitBlock_splitsBlock]
    exact congrArg (fun o => o.bind (run (CpOp.step splitBlock) [])) h
  · rw [ControlPoint.reschedule_cache, ServiceCache.isEmpty, List.isEmpty_eq_false_iff]
    exact List.ne_nil_of_mem (hM.get_eq_some.mp hnew)
  · intro hw
    obtain ⟨t, ht, -⟩ := hw 0 ((ControlPoint.reschedule_cache x 0).symm ▸ hm)
    rw [hnone] at ht
    cases ht

theorem wakeup_armed_iff_sample :
    EveryState (CpOp.step splitBlock) ControlPoint.WakeupArmed (fillOps 2)
        (ControlPoint.new none : ControlPoint CpIndexMap) ↔
      EveryStep (CpOp.step splitBlock) (CpOp.ExpiresLater splitBlock) (fillOps 2)
        (ControlPoint.new none : ControlPoint CpIndexMap) :=
  wakeup_armed_iff splitBlock IndexMap.lawful none (fillOps 2)

end RustyCastle.Ssdp
