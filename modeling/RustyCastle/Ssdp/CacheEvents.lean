import RustyCastle.Ssdp.CacheFill
import RustyCastle.Ssdp.CacheWakeup

/-!
When the events of the control point tell the truth about its cache: for the
entries that expire in one timeout, and for an announcement. Both hold up to the
capacity of a container, and fail past it.
-/

namespace RustyCastle.Ssdp
open Foundation Foundation.HeaderBlock Foundation.Runs

def CpEvent.expiredUsn : CpEvent → Option (BoundedStr cacheUsn)
  | .expired usn => some usn
  | _ => none

namespace ControlPoint
variable {M : Type} [MapOps (BoundedStr cacheUsn) CpEntry M]

/-- The names reported by the `Expired` events, in order. -/
def expiredUsns (cp : ControlPoint M) : List (BoundedStr cacheUsn) :=
  cp.events.toList.filterMap CpEvent.expiredUsn

/-- Between the two states the entry of the key was removed. -/
def Removed (cp cp' : ControlPoint M) (k : BoundedStr cacheUsn) : Prop :=
  (cp.cache.find k).isSome ∧ cp'.cache.find k = none

/-- What a timeout removed is reported, each name once, and a due expiry removes
exactly what has expired. -/
structure ExpiryReported (cp cp' : ControlPoint M) (now : Instant) : Prop where
  nodup : cp'.expiredUsns.Nodup
  reported : ∀ k, k ∈ cp'.expiredUsns ↔ cp.Removed cp' k
  removed : cp.ExpiryDue now →
    ∀ k, cp.Removed cp' k ↔ ∃ e, cp.cache.find k = some e ∧ e.expiresAt ≤ now

/-- The number of entries that have expired by `now`. -/
def dueCount (cp : ControlPoint M) (now : Instant) : Nat :=
  ((MapOps.entries cp.cache.entries).filter fun e => e.2.expiresAt ≤ now).length

theorem toList_foldl_pushExpired (ks : List (BoundedStr cacheUsn)) (events : BoundedVec CpEvent 8) :
    (ks.foldl (fun t k => pushExpired k.toStr t) events).toList =
      events.toList ++ (ks.take (8 - events.toList.length)).map CpEvent.expired := by
  induction ks generalizing events with
  | nil => simp
  | cons k ks ih =>
      have hpush : pushExpired k.toStr events = events.pushOrDrop (.expired k) := by
        rw [pushExpired, BoundedStr.tryFrom_toStr]
      rw [List.foldl_cons, ih, hpush, BoundedVec.toList_pushOrDrop]
      by_cases h : events.toList.length < 8
      · obtain ⟨room, hr⟩ : ∃ n, 8 - events.toList.length = n + 1 := ⟨7 - events.toList.length, by omega⟩
        have hr' : 8 - (events.toList ++ [CpEvent.expired k]).length = room := by
          simp
          omega
        rw [if_pos h, hr', hr]
        simp
      · have h0 : 8 - events.toList.length = 0 := by omega
        rw [if_neg h, h0]
        simp

section Laws
variable (hM : LawfulMap M cacheCap)
include hM

theorem length_toRemove (cp : ControlPoint M) (now : Instant) :
    (cp.cache.toRemove now).toList.length = cp.dueCount now := by
  rw [ServiceCache.toList_toRemove hM, List.length_map, dueCount]

theorem removed_of_due {cp cp' : ControlPoint M} {now : Instant} (ho : cp.OwnTimers)
    (hdue : cp.ExpiryDue now) (h : cp.handleTimeout now = some cp') (k : BoundedStr cacheUsn) :
    cp.Removed cp' k ↔ k ∈ (cp.cache.toRemove now).toList := by
  rw [Removed, (handleTimeout_due hM ho hdue h).2.1, ServiceCache.find_expire hM,
    ServiceCache.mem_toRemove hM]
  cases cp.cache.find k with
  | none => simp
  | some e => simp [Option.filter_some]

theorem expiredUsns_of_due {cp cp' : ControlPoint M} {now : Instant} (ho : cp.OwnTimers)
    (hdue : cp.ExpiryDue now) (hempty : cp.events.toList = [])
    (h : cp.handleTimeout now = some cp') :
    cp'.expiredUsns = (cp.cache.toRemove now).toList.take 8 := by
  have hev := (handleTimeout_due hM ho hdue h).2.2.1
  rw [ServiceCache.snd_expire hM] at hev
  rw [expiredUsns, hev, toList_foldl_pushExpired, hempty, List.nil_append, List.filterMap_map]
  exact List.filterMap_some

theorem expiryReported_iff {cp cp' : ControlPoint M} {now : Instant} (ho : cp.OwnTimers)
    (hempty : cp.events.toList = []) (h : cp.handleTimeout now = some cp') :
    cp.ExpiryReported cp' now ↔ (cp.ExpiryDue now → cp.dueCount now ≤ 8) := by
  by_cases hdue : cp.ExpiryDue now
  · have hrem := removed_of_due hM ho hdue h
    have hexp := expiredUsns_of_due hM ho hdue hempty h
    have hnodup := ServiceCache.nodup_toRemove hM cp.cache now
    simp only [hdue, true_imp_iff, ← length_toRemove hM]
    constructor
    · intro hr
      have hsub : (cp.cache.toRemove now).toList ⊆ (cp.cache.toRemove now).toList.take 8 := by
        intro k hk
        rw [← hexp, hr.reported, hrem]
        exact hk
      have hle := (hnodup.subperm hsub).length_le
      simp only [List.length_take] at hle
      omega
    · intro hle
      have htake : (cp.cache.toRemove now).toList.take 8 = (cp.cache.toRemove now).toList :=
        List.take_of_length_le hle
      refine ⟨by rw [hexp, htake]; exact hnodup, fun k => ?_, fun _ k => ?_⟩
      · rw [hexp, htake, hrem]
      · rw [hrem, ServiceCache.mem_toRemove hM]
  · have hs := (handleTimeout_notDue ho hdue h).2
    have hnone : ∀ k, ¬ cp.Removed cp' k := by
      intro k hk
      rw [Removed, hs.cache] at hk
      rw [hk.2] at hk
      cases hk.1
    have hexp : cp'.expiredUsns = [] := by rw [expiredUsns, hs.events, hempty]; rfl
    simp only [hdue, false_imp_iff, iff_true]
    refine ⟨by rw [hexp]; exact List.nodup_nil, fun k => ?_, fun hd => absurd hd hdue⟩
    simp [hexp, hnone]

end Laws

/-! Announcements -/

/-- A `SearchHit` for the key is waiting. -/
def EmitsHit (cp : ControlPoint M) (k : BoundedStr cacheUsn) : Prop :=
  ∃ loc age, CpEvent.searchHit k loc age ∈ cp.events.toList

/-- The announcement is reported exactly when the cache holds it afterwards, and
a cache that changed has a report. -/
structure HitMatches (cp cp' : ControlPoint M) (now : Instant) (usn : UsnRef) (loc : Str)
    (age : Duration) : Prop where
  hit : cp'.EmitsHit (usnToString usn) ↔ ∃ e, cp'.cache.find (usnToString usn) = some e ∧
    e.location.toStr = loc ∧ e.expiresAt = now + age
  silent : ¬ cp'.EmitsHit (usnToString usn) → cp'.cache = cp.cache

theorem events_announced {cp cp' : ControlPoint M} {now : Instant} {usn : UsnRef} {loc : Str}
    {age : Duration} (hempty : cp.events.toList = [])
    (h : cp.announced now usn loc age = some cp') :
    cp'.events.toList = (BoundedStr.tryFrom loc).elim []
      fun l => [CpEvent.searchHit (usnToString usn) l age] := by
  obtain ⟨b, cache, -, rfl⟩ := announced_eq_some h
  rw [reschedule_events, pushSearchHit_eq]
  cases (BoundedStr.tryFrom loc : Option (BoundedStr cacheLoc)) with
  | none => exact hempty
  | some l =>
      rw [Option.elim, Option.elim, BoundedVec.toList_pushOrDrop, hempty]
      rfl

/-- The event is decided by the length of the location alone. -/
theorem emitsHit_announced {cp cp' : ControlPoint M} {now : Instant} {usn : UsnRef} {loc : Str}
    {age : Duration} (hempty : cp.events.toList = [])
    (h : cp.announced now usn loc age = some cp') :
    cp'.EmitsHit (usnToString usn) ↔ loc.bytes.length ≤ cacheLoc := by
  rw [EmitsHit, events_announced hempty h]
  cases hl : (BoundedStr.tryFrom loc : Option (BoundedStr cacheLoc)) with
  | none =>
      have := BoundedStr.tryFrom_eq_none.mp hl
      simp only [Option.elim, List.not_mem_nil, exists_false, false_iff]
      omega
  | some l =>
      have hsize : loc.bytes.length ≤ cacheLoc := BoundedStr.tryFrom_eq_some.mp hl ▸ l.size_le
      simp only [Option.elim, List.mem_singleton, hsize, iff_true]
      exact ⟨l, age, rfl⟩

section Laws
variable (hM : LawfulMap M cacheCap)
include hM

theorem hitMatches_announced {cp cp' : ControlPoint M} {now : Instant} {usn : UsnRef} {loc : Str}
    {age : Duration} (hempty : cp.events.toList = [])
    (h : cp.announced now usn loc age = some cp') :
    cp.HitMatches cp' now usn loc age ↔
      cacheLoc < loc.bytes.length ∨ (cp.cache.find (usnToString usn)).isSome ∨
        cp.cache.len < cacheCap := by
  have hemit := emitsHit_announced hempty h
  obtain ⟨b, cache, hc, rfl⟩ := announced_eq_some h
  have hcache := reschedule_cache { cp with
    cache, events := pushSearchHit cp.events (usnToString usn).toStr loc age } now
  obtain ⟨hacc, l, hl, hfind⟩ | ⟨hacc, rfl⟩ := ServiceCache.insert_eq_some hM hc
  · refine iff_of_true ⟨iff_of_true (hemit.mpr hacc.1) ?_, fun hno => ?_⟩ (.inr hacc.2)
    · refine ⟨⟨l, usnToString usn, now + age⟩, ?_, hl, rfl⟩
      rw [hcache]
      exact (hfind _).trans (if_pos rfl)
    · exact absurd (hemit.mpr hacc.1) hno
  · by_cases hsize : loc.bytes.length ≤ cacheLoc
    · have hfull := fun hor => hacc ⟨hsize, hor⟩
      refine iff_of_false (fun hm => ?_) (not_or.mpr ⟨by omega, hfull⟩)
      obtain ⟨e, he, -⟩ := hm.hit.mp (hemit.mpr hsize)
      rw [hcache] at he
      exact hfull (.inl (Option.isSome_of_eq_some he))
    · have hno := mt hemit.mp hsize
      refine iff_of_true ⟨iff_of_false hno ?_, fun _ => hcache⟩ (.inl (by omega))
      rintro ⟨e, -, rfl, -⟩
      exact hsize e.location.size_le

end Laws
end ControlPoint

namespace ControlPoint
variable {M : Type} [MapOps (BoundedStr cacheUsn) CpEntry M]

theorem foldlM_onTimer_expiry {now : Instant} {ks : List TimerKind} (cp : ControlPoint M)
    (hk : ∀ k ∈ ks, k = .cacheExpiry) : ∃ cp', ks.foldlM (onTimer now) cp = some cp' := by
  induction ks generalizing cp with
  | nil => exact ⟨cp, rfl⟩
  | cons k ks ih =>
      obtain rfl := hk k (List.mem_cons_self ..)
      rw [List.foldlM_cons]
      exact ih _ fun k' hk' => hk k' (List.mem_cons_of_mem _ hk')

theorem Filled.handleTimeout {n : Nat} {cp : ControlPoint M} (hf : cp.Filled n) (now : Instant) :
    ∃ cp', cp.handleTimeout now = some cp' := by
  refine foldlM_onTimer_expiry _ fun k hk => hf.timers k ?_
  obtain ⟨t, ht, -⟩ := TimerQueue.mem_drain.mp hk
  exact Option.isSome_of_eq_some ht

theorem Filled.dueCount {n : Nat} {cp : ControlPoint M} (hM : LawfulMap M cacheCap)
    (hf : cp.Filled n) : cp.dueCount (Duration.fromSecs 1) = n := by
  rw [ControlPoint.dueCount, List.filter_eq_self.mpr, ← hf.len]
  · rfl
  · rintro ⟨k, e⟩ hm
    have := hf.expiresAt k e (hM.get_eq_some.mpr hm)
    simp [this]

end ControlPoint

/-! The laws over reachable states -/

section
variable (httparse : List UInt8 → Nat → Outcome) {M : Type}
  [MapOps (BoundedStr cacheUsn) CpEntry M]

/-- From a reachable state with no event waiting, a timeout reports its removals
exactly when a due expiry finds at most as many entries as there is room for. -/
theorem expiry_reported_iff (hM : LawfulMap M cacheCap) (ua : Option Str) (ops : List CpOp)
    (cp cp' : ControlPoint M) (now : Instant)
    (hr : run (CpOp.step httparse) ops (ControlPoint.new ua) = some cp)
    (hempty : cp.events.toList = []) (h : cp.handleTimeout now = some cp') :
    cp.ExpiryReported cp' now ↔ (cp.ExpiryDue now → cp.dueCount now ≤ 8) :=
  ControlPoint.expiryReported_iff hM
    (invariant_run (fun op cp cp' ho => ControlPoint.ownTimers_step hM op cp cp' ho)
      (ControlPoint.ownTimers_new ua) hr) hempty h

/-- Nine devices expire at once, and one of them is not reported. -/
theorem expiry_lost_at_nine : ∃ cp cp' : ControlPoint CpIndexMap,
    run (CpOp.step splitBlock) (fillOps 9) (ControlPoint.new none) = some cp ∧
      cp.events.toList = [] ∧ cp.handleTimeout (Duration.fromSecs 1) = some cp' ∧
      ¬ cp.ExpiryReported cp' (Duration.fromSecs 1) := by
  have hM : LawfulMap CpIndexMap cacheCap := IndexMap.lawful
  obtain ⟨cp, hr, hf⟩ := ControlPoint.exists_filled hM splitBlock_splitsBlock
    (by decide : 9 ≤ cacheCap)
  obtain ⟨cp', h⟩ := hf.handleTimeout (Duration.fromSecs 1)
  refine ⟨cp, cp', hr, hf.events, h, fun hrep => ?_⟩
  have hle := (ControlPoint.expiryReported_iff hM hf.ownTimers hf.events h).mp hrep
    ⟨_, hf.armed (by decide), le_refl _⟩
  rw [hf.dueCount hM] at hle
  omega

theorem expiry_reported_iff_sample : ∃ cp cp' : ControlPoint CpIndexMap,
    run (CpOp.step splitBlock) (fillOps 2) (ControlPoint.new none) = some cp ∧
      cp.handleTimeout (Duration.fromSecs 1) = some cp' ∧
      cp.ExpiryReported cp' (Duration.fromSecs 1) := by
  have hM : LawfulMap CpIndexMap cacheCap := IndexMap.lawful
  obtain ⟨cp, hr, hf⟩ := ControlPoint.exists_filled hM splitBlock_splitsBlock
    (by decide : 2 ≤ cacheCap)
  obtain ⟨cp', h⟩ := hf.handleTimeout (Duration.fromSecs 1)
  refine ⟨cp, cp', hr, h, ?_⟩
  refine (expiry_reported_iff splitBlock hM none (fillOps 2) cp cp' _ hr hf.events h).mpr fun _ => ?_
  rw [hf.dueCount hM]
  decide

/-- From a reachable state with no event waiting, the report of an announcement
is true exactly when the location is too long to be reported, or the key is
known, or the cache has room. -/
theorem hit_matches_iff (hM : LawfulMap M cacheCap) (ua : Option Str) (ops : List CpOp)
    (cp cp' : ControlPoint M) (now : Instant) (source : SocketAddr) (payload : List UInt8)
    (msg : MessageRef) (usn : UsnRef) (loc : Str) (age : Duration)
    (_hr : run (CpOp.step httparse) ops (ControlPoint.new ua) = some cp)
    (hempty : cp.events.toList = []) (hp : parseDatagram httparse payload = .ok msg)
    (ha : msg.announcement = some (usn, loc, age))
    (h : cp.handleDatagram httparse now source payload = some cp') :
    cp.HitMatches cp' now usn loc age ↔
      cacheLoc < loc.bytes.length ∨ (cp.cache.find (usnToString usn)).isSome ∨
        cp.cache.len < cacheCap := by
  have hann : cp.announced now usn loc age = some cp' := by
    rw [ControlPoint.handleDatagram, hp] at h
    dsimp only at h
    rw [ControlPoint.handleMessage_eq, ha] at h
    exact h
  exact ControlPoint.hitMatches_announced hM hempty hann

/-- The response of one more device than the cache holds is reported and not stored. -/
theorem hit_untracked_at_full_cache : ∃ cp cp' : ControlPoint CpIndexMap,
    run (CpOp.step splitBlock) (fillOps 64) (ControlPoint.new none) = some cp ∧
      cp.events.toList = [] ∧
      parseDatagram splitBlock (sampleResponse 64 1).wire =
        .ok (.searchResponse (sampleResponse 64 1)) ∧
      cp.handleDatagram splitBlock 0 samplePeer (sampleResponse 64 1).wire = some cp' ∧
      cp'.EmitsHit (usnToString (sampleUsn 64)) ∧
      cp'.cache.find (usnToString (sampleUsn 64)) = none ∧
      ¬ cp.HitMatches cp' 0 (sampleUsn 64) sampleLocation (Duration.fromSecs 1) := by
  have hM : LawfulMap CpIndexMap cacheCap := IndexMap.lawful
  obtain ⟨cp, hr, hf⟩ := ControlPoint.exists_filled hM splitBlock_splitsBlock
    (by decide : 64 ≤ cacheCap)
  have hnew : cp.cache.find (usnToString (sampleUsn 64)) = none := by
    rw [← Option.not_isSome_iff_eq_none, hf.keys]
    rintro ⟨i, hi, he⟩
    have := sampleKey_injective (by omega) (by omega) he
    omega
  obtain ⟨cp', h⟩ := cp.announced_returns (sampleUsn 64) sampleLocation
    (by decide : (0 : Instant) + Duration.fromSecs 1 ≤ Duration.max)
  have hemit := (ControlPoint.emitsHit_announced hf.events h).mpr (by decide)
  have hno : ¬ cp.HitMatches cp' 0 (sampleUsn 64) sampleLocation (Duration.fromSecs 1) := by
    rw [ControlPoint.hitMatches_announced hM hf.events h, hnew, hf.len]
    decide
  refine ⟨cp, cp', hr, hf.events, ?_, ?_, hemit, ?_, hno⟩
  · exact parseDatagram_response splitBlock_splitsBlock (sampleResponse_wellFormed 64 1)
  · rw [ControlPoint.handleDatagram_sample splitBlock_splitsBlock]
    exact h
  · obtain ⟨b, cache, hc, rfl⟩ := ControlPoint.announced_eq_some h
    rw [ControlPoint.reschedule_cache]
    obtain ⟨hacc, -⟩ | ⟨-, rfl⟩ := ServiceCache.insert_eq_some hM hc
    · rcases hacc.2 with hs | hs
      · rw [hnew] at hs
        cases hs
      · rw [hf.len] at hs
        exact absurd hs (by decide)
    · exact hnew

theorem hit_matches_iff_sample : ∃ cp cp' : ControlPoint CpIndexMap,
    run (CpOp.step splitBlock) (fillOps 2) (ControlPoint.new none) = some cp ∧
      cp.handleDatagram splitBlock 0 samplePeer (sampleResponse 2 1).wire = some cp' ∧
      cp.HitMatches cp' 0 (sampleUsn 2) sampleLocation (Duration.fromSecs 1) := by
  have hM : LawfulMap CpIndexMap cacheCap := IndexMap.lawful
  obtain ⟨cp, hr, hf⟩ := ControlPoint.exists_filled hM splitBlock_splitsBlock
    (by decide : 2 ≤ cacheCap)
  obtain ⟨cp', h⟩ := cp.announced_returns (sampleUsn 2) sampleLocation
    (by decide : (0 : Instant) + Duration.fromSecs 1 ≤ Duration.max)
  have hd : cp.handleDatagram splitBlock 0 samplePeer (sampleResponse 2 1).wire = some cp' := by
    rw [ControlPoint.handleDatagram_sample splitBlock_splitsBlock]
    exact h
  refine ⟨cp, cp', hr, hd, ?_⟩
  refine (hit_matches_iff splitBlock hM none (fillOps 2) cp cp' 0 samplePeer _
    (.searchResponse (sampleResponse 2 1)) (sampleUsn 2) sampleLocation (Duration.fromSecs 1) hr
    hf.events (parseDatagram_response splitBlock_splitsBlock (sampleResponse_wellFormed 2 1)) rfl
    hd).mpr ?_
  rw [hf.len]
  exact .inr (.inr (by decide))

end
end RustyCastle.Ssdp
