import RustyCastle.Ssdp.ControlPoint

/-!
What each operation of the control point does to its cache, its events and its
timers. The control point arms timers of two kinds only, so its queue of four
never drops one.
-/

namespace RustyCastle.Ssdp
open Foundation Foundation.HeaderBlock

/-- What a search response or an alive or update NOTIFY announces. -/
def MessageRef.announcement : MessageRef → Option (UsnRef × Str × Duration)
  | .searchResponse resp => some (resp.usn, resp.location, resp.maxAge)
  | .notify n =>
      match n.nts with
      | .byeBye => none
      | _ =>
          match n.location, n.maxAge with
          | some loc, some age => some (n.usn, loc, age)
          | _, _ => none
  | .search _ => none

/-- The name that a byebye takes back. -/
def MessageRef.departure : MessageRef → Option UsnRef
  | .notify n =>
      match n.nts with
      | .byeBye => some n.usn
      | _ => none
  | _ => none

namespace ControlPoint
variable {M : Type}

def timerKinds : List TimerKind := [.searchRetransmit, .cacheExpiry]

theorem retransmit_mem : TimerKind.searchRetransmit ∈ timerKinds := by decide

theorem expiry_mem : TimerKind.cacheExpiry ∈ timerKinds := by decide

def OwnTimers (cp : ControlPoint M) : Prop :=
  ∀ k, (cp.timers.armed k).isSome → k ∈ timerKinds

theorem OwnTimers.hasRoom {cp : ControlPoint M} (h : cp.OwnTimers) {k : TimerKind}
    (hk : k ∈ timerKinds) : cp.timers.HasRoom k :=
  TimerQueue.hasRoom_of_kinds h hk (by decide)

theorem OwnTimers.set {cp : ControlPoint M} (h : cp.OwnTimers) {k : TimerKind}
    (hk : k ∈ timerKinds) (t : Instant) :
    ({ cp with timers := cp.timers.set ⟨t, k⟩ } : ControlPoint M).OwnTimers := by
  intro k'
  rw [TimerQueue.armed_set (h.hasRoom hk)]
  intro hs
  by_cases he : k' = k
  · exact he ▸ hk
  · exact h k' (by simpa [he] using hs)

theorem OwnTimers.drain {cp : ControlPoint M} (h : cp.OwnTimers) (now : Instant) :
    ({ cp with timers := (cp.timers.drainExpired now).2 } : ControlPoint M).OwnTimers := by
  intro k hk
  rw [TimerQueue.armed_drain] at hk
  exact h k (Option.isSome_of_isSome_filter _ _ hk)

/-- The cache, the events and the expiry timer are those of `cp`. -/
structure SameCache (cp cp' : ControlPoint M) : Prop where
  cache : cp'.cache = cp.cache
  events : cp'.events = cp.events
  expiry : cp'.timers.armed .cacheExpiry = cp.timers.armed .cacheExpiry

theorem SameCache.refl (cp : ControlPoint M) : SameCache cp cp := ⟨rfl, rfl, rfl⟩

theorem SameCache.trans {a b c : ControlPoint M} (h : SameCache a b) (h' : SameCache b c) :
    SameCache a c :=
  ⟨h'.cache.trans h.cache, h'.events.trans h.events, h'.expiry.trans h.expiry⟩

theorem set_retransmit {cp : ControlPoint M} (h : cp.OwnTimers) (t : Instant) :
    (cp.timers.set ⟨t, .searchRetransmit⟩).armed .cacheExpiry = cp.timers.armed .cacheExpiry :=
  (TimerQueue.armed_set (h.hasRoom retransmit_mem) _).trans (if_neg nofun)

theorem set_expiry {cp : ControlPoint M} (h : cp.OwnTimers) (t : Instant) :
    (cp.timers.set ⟨t, .cacheExpiry⟩).armed .cacheExpiry = some t :=
  (TimerQueue.armed_set (h.hasRoom expiry_mem) _).trans (if_pos rfl)

theorem enqueueMsearch_same (cp : ControlPoint M) (target : TargetRef) (mx : UInt8) :
    (cp.enqueueMsearch target mx).timers = cp.timers ∧
      (cp.enqueueMsearch target mx).cache = cp.cache ∧
      (cp.enqueueMsearch target mx).events = cp.events := by
  unfold enqueueMsearch
  dsimp only
  split <;> exact ⟨rfl, rfl, rfl⟩

theorem pollEvent_timers (cp : ControlPoint M) :
    cp.pollEvent.2.timers = cp.timers ∧ cp.pollEvent.2.cache = cp.cache := by
  unfold pollEvent
  split <;> exact ⟨rfl, rfl⟩

theorem toList_pollEvent (cp : ControlPoint M) :
    cp.pollEvent.2.events.toList = cp.events.toList.tail := by
  unfold pollEvent
  split
  · rename_i h
    rw [BoundedVec.popFront_eq_none.mp h]
    rfl
  · rename_i h
    rw [BoundedVec.popFront_eq_some h]
    rfl

theorem pushSearchHit_eq (events : BoundedVec CpEvent 8) (k : BoundedStr cacheUsn) (loc : Str)
    (age : Duration) : pushSearchHit events k.toStr loc age =
      (BoundedStr.tryFrom loc).elim events fun l => events.pushOrDrop (.searchHit k l age) := by
  unfold pushSearchHit
  rw [BoundedStr.tryFrom_toStr]
  cases (BoundedStr.tryFrom loc : Option (BoundedStr cacheLoc)) <;> rfl

theorem pollTransmit_same (cp : ControlPoint M) (n : Nat) : SameCache cp (cp.pollTransmit n).2 := by
  unfold pollTransmit
  split <;> exact ⟨rfl, rfl, rfl⟩

theorem pollTransmit_timers (cp : ControlPoint M) (n : Nat) :
    (cp.pollTransmit n).2.timers = cp.timers := by
  unfold pollTransmit
  split <;> rfl

theorem search_same {cp cp' : ControlPoint M} {target : TargetRef} {mx : UInt8} {now : Instant}
    (ho : cp.OwnTimers) (h : cp.search target mx now = some cp') :
    cp'.OwnTimers ∧ SameCache cp cp' := by
  obtain ⟨t, -, ht⟩ := Option.bind_eq_some_iff.mp h
  obtain rfl := (Option.some.inj ht).symm
  let a : ControlPoint M := { cp with retransmitCount := 0, activeMx := clampMx mx }
  obtain ⟨htimers, hcache, hevents⟩ := enqueueMsearch_same a target mx
  have ho' : (a.enqueueMsearch target mx).OwnTimers := by
    intro k
    rw [htimers]
    exact ho k
  refine ⟨ho'.set retransmit_mem t, hcache, hevents, ?_⟩
  rw [set_retransmit ho', htimers]

variable [MapOps (BoundedStr cacheUsn) CpEntry M]

/-! The expiry timer -/

theorem reschedule_armed {cp : ControlPoint M} (h : cp.OwnTimers) (now : Instant) :
    (cp.rescheduleCacheExpiry now).timers.armed .cacheExpiry =
      match cp.cache.nextExpiry with
      | some next => if now < next then some next else cp.timers.armed .cacheExpiry
      | none => cp.timers.armed .cacheExpiry := by
  unfold rescheduleCacheExpiry
  cases cp.cache.nextExpiry with
  | none => rfl
  | some next =>
      by_cases hn : now < next
      · simp only [hn, if_true, set_expiry h]
      · simp only [hn, if_false]

theorem reschedule_armed_other {cp : ControlPoint M} (h : cp.OwnTimers) (now : Instant)
    {k : TimerKind} (hk : k ≠ .cacheExpiry) :
    (cp.rescheduleCacheExpiry now).timers.armed k = cp.timers.armed k := by
  unfold rescheduleCacheExpiry
  split
  · rfl
  · split
    · exact (TimerQueue.armed_set (h.hasRoom expiry_mem) k).trans (if_neg hk)
    · rfl

theorem reschedule_cache (cp : ControlPoint M) (now : Instant) :
    (cp.rescheduleCacheExpiry now).cache = cp.cache := by
  unfold rescheduleCacheExpiry
  split
  · rfl
  · split <;> rfl

theorem reschedule_events (cp : ControlPoint M) (now : Instant) :
    (cp.rescheduleCacheExpiry now).events = cp.events := by
  unfold rescheduleCacheExpiry
  split
  · rfl
  · split <;> rfl

theorem reschedule_ownTimers {cp : ControlPoint M} (h : cp.OwnTimers) (now : Instant) :
    (cp.rescheduleCacheExpiry now).OwnTimers := by
  unfold rescheduleCacheExpiry
  split
  · exact h
  · split
    · exact h.set expiry_mem _
    · exact h

/-! Datagrams -/

theorem handleMessage_eq (cp : ControlPoint M) (now : Instant) (msg : MessageRef) :
    cp.handleMessage now msg =
      match msg.announcement, msg.departure with
      | some (usn, loc, age), _ => cp.announced now usn loc age
      | none, some usn => some (cp.departed usn)
      | none, none => some cp := by
  cases msg with
  | search m => rfl
  | searchResponse m => rfl
  | notify n =>
      cases hn : n.nts with
      | byeBye => simp [handleMessage, MessageRef.announcement, MessageRef.departure, hn]
      | alive =>
          cases hl : n.location <;> cases ha : n.maxAge <;>
            simp [handleMessage, MessageRef.announcement, MessageRef.departure, hn, hl, ha]
      | update =>
          cases hl : n.location <;> cases ha : n.maxAge <;>
            simp [handleMessage, MessageRef.announcement, MessageRef.departure, hn, hl, ha]

theorem announced_eq_some {cp cp' : ControlPoint M} {now : Instant} {usn : UsnRef} {loc : Str}
    {age : Duration} (h : cp.announced now usn loc age = some cp') :
    ∃ b cache, cp.cache.insert (usnToString usn).toStr loc age now = some (b, cache) ∧
      cp' = ControlPoint.rescheduleCacheExpiry { cp with
        cache, events := pushSearchHit cp.events (usnToString usn).toStr loc age } now := by
  obtain ⟨⟨b, cache⟩, hc, ht⟩ := Option.bind_eq_some_iff.mp h
  exact ⟨b, cache, hc, (Option.some.inj ht).symm⟩

theorem departed_eq (cp : ControlPoint M) (usn : UsnRef) :
    cp.departed usn = { cp with
      cache := (cp.cache.remove (usnToString usn).toStr).2
      events := cp.events.pushOrDrop (.byeBye (usnToString usn)) } := by
  simp only [departed, BoundedStr.tryFrom_toStr]

/-! Timeouts -/

theorem onTimer_other {cp cp' : ControlPoint M} {now : Instant} {k : TimerKind}
    (hk : k ≠ .cacheExpiry) (ho : cp.OwnTimers) (h : onTimer now cp k = some cp') :
    cp'.OwnTimers ∧ SameCache cp cp' := by
  cases k with
  | cacheExpiry => exact absurd rfl hk
  | searchRetransmit =>
      unfold onTimer at h
      dsimp only at h
      split at h
      · obtain ⟨t, -, ht⟩ := Option.bind_eq_some_iff.mp h
        obtain rfl := (Option.some.inj ht).symm
        exact ⟨ho.set retransmit_mem t, rfl, rfl, set_retransmit ho t⟩
      · obtain rfl := (Option.some.inj h).symm
        exact ⟨ho, rfl, rfl, rfl⟩
  | aliveRefresh | initialAlive | searchResponse =>
      cases h
      exact ⟨ho, SameCache.refl _⟩

theorem foldlM_onTimer_other {cp cp' : ControlPoint M} {now : Instant} {ks : List TimerKind}
    (hk : .cacheExpiry ∉ ks) (ho : cp.OwnTimers) (h : ks.foldlM (onTimer now) cp = some cp') :
    cp'.OwnTimers ∧ SameCache cp cp' := by
  induction ks generalizing cp with
  | nil =>
      cases h
      exact ⟨ho, SameCache.refl _⟩
  | cons k ks ih =>
      obtain ⟨cp₁, h₁, h₂⟩ := Option.bind_eq_some_iff.mp (by simpa using h)
      rw [List.mem_cons, not_or] at hk
      obtain ⟨ho₁, hs₁⟩ := onTimer_other (Ne.symm hk.1) ho h₁
      obtain ⟨ho₂, hs₂⟩ := ih hk.2 ho₁ h₂
      exact ⟨ho₂, hs₁.trans hs₂⟩

/-- The expiry timer is due. -/
def ExpiryDue (cp : ControlPoint M) (now : Instant) : Prop :=
  ∃ t, cp.timers.armed .cacheExpiry = some t ∧ t ≤ now

theorem handleTimeout_notDue {cp cp' : ControlPoint M} {now : Instant} (ho : cp.OwnTimers)
    (hdue : ¬ cp.ExpiryDue now) (h : cp.handleTimeout now = some cp') :
    cp'.OwnTimers ∧ SameCache cp cp' := by
  have hk : TimerKind.cacheExpiry ∉ (cp.timers.drainExpired now).1 := by
    rw [TimerQueue.mem_drain]
    exact hdue
  obtain ⟨ho', hs⟩ := foldlM_onTimer_other hk (ho.drain now) h
  refine ⟨ho', hs.cache, hs.events, hs.expiry.trans ?_⟩
  rw [TimerQueue.armed_drain]
  cases ha : cp.timers.armed .cacheExpiry with
  | none => rfl
  | some t =>
      refine Option.filter_some_pos ?_
      simp only [decide_eq_true_eq]
      exact Nat.lt_of_not_le fun hle => hdue ⟨t, ha, hle⟩

section Laws
variable (hM : LawfulMap M cacheCap)
include hM

theorem lt_of_expire {c : CpCache M} {now next : Instant} {σ : Type} {f : Str → σ → σ} {s : σ}
    (h : (c.expire now f s).1.nextExpiry = some next) : now < next := by
  obtain ⟨k, e, he, rfl⟩ := ServiceCache.find_of_nextExpiry hM h
  rw [ServiceCache.find_expire hM] at he
  simpa using (Option.filter_eq_some_iff.mp he).2

theorem handleTimeout_due {cp cp' : ControlPoint M} {now : Instant} (ho : cp.OwnTimers)
    (hdue : cp.ExpiryDue now) (h : cp.handleTimeout now = some cp') :
    cp'.OwnTimers ∧ cp'.cache = (cp.cache.expire now pushExpired cp.events).1 ∧
      cp'.events = (cp.cache.expire now pushExpired cp.events).2 ∧
      cp'.timers.armed .cacheExpiry = cp'.cache.nextExpiry := by
  obtain ⟨before, after, hsplit, hbefore, hafter⟩ := TimerQueue.drain_split hdue
  have hfold : (before ++ TimerKind.cacheExpiry :: after).foldlM (onTimer now)
      { cp with timers := (cp.timers.drainExpired now).2 } = some cp' := hsplit ▸ h
  rw [List.foldlM_append] at hfold
  obtain ⟨a, ha, hfold⟩ := Option.bind_eq_some_iff.mp hfold
  obtain ⟨b, hb, hfold⟩ := Option.bind_eq_some_iff.mp (by simpa using hfold)
  obtain ⟨hoa, hsa⟩ := foldlM_onTimer_other hbefore (ho.drain now) ha
  obtain rfl := (Option.some.inj hb).symm
  let x : ControlPoint M := { a with
    cache := (a.cache.expire now pushExpired a.events).1
    events := (a.cache.expire now pushExpired a.events).2 }
  have hox : x.OwnTimers := hoa
  have hx : x.cache = (cp.cache.expire now pushExpired cp.events).1 ∧
      x.events = (cp.cache.expire now pushExpired cp.events).2 := by
    simp only [x, hsa.cache, hsa.events, and_self]
  have hnone : x.timers.armed .cacheExpiry = none := by
    have hd := TimerQueue.armed_drain cp.timers now .cacheExpiry
    obtain ⟨t, ht, hle⟩ := hdue
    rw [ht, Option.filter_some_neg (by simpa using hle)] at hd
    exact hsa.expiry.trans hd
  obtain ⟨hob, hsb⟩ := foldlM_onTimer_other hafter (reschedule_ownTimers hox now) hfold
  have hcache : cp'.cache = x.cache := hsb.cache.trans (reschedule_cache x now)
  refine ⟨hob, hcache.trans hx.1, (hsb.events.trans (reschedule_events x now)).trans hx.2, ?_⟩
  rw [hsb.expiry, hcache, reschedule_armed hox]
  cases hn : x.cache.nextExpiry with
  | none => exact hnone
  | some next =>
      have hlt : now < next := lt_of_expire hM (hx.1 ▸ hn)
      simp only [hlt, if_true]

end Laws
end ControlPoint
end RustyCastle.Ssdp
