import RustyCastle.Ssdp.CacheWakeup
import RustyCastle.Ssdp.DeviceSchedule

/-!
Timeouts make progress. A drain leaves the timers of the future, and a handler
arms a timer for no time before the end of a positive interval; so the next
timeout of either machine, if there is one, is later than the last.
-/

namespace RustyCastle.Ssdp
open Foundation Foundation.HeaderBlock Foundation.Runs

namespace TimerQueue
variable {N : Nat} {now : Instant}

/-- Every armed timer fires after `now`. -/
def Ahead (now : Instant) (q : TimerQueue N) : Prop := ∀ k t, q.armed k = some t → now < t

theorem ahead_iff {q : TimerQueue N} : q.Ahead now ↔ ∀ e, some e ∈ q.entries → now < e.fireAt :=
  ⟨fun h e he => h e.kind e.fireAt (armed_eq_some.mpr he),
    fun h k t hk => h ⟨t, k⟩ (armed_eq_some.mp hk)⟩

theorem ahead_drain (q : TimerQueue N) (now : Instant) : (q.drainExpired now).2.Ahead now := by
  intro k t hk
  rw [armed_drain] at hk
  simpa using (Option.filter_eq_some_iff.mp hk).2

/-- The slots after `set` are old ones and the new one, whichever timer it drops. -/
theorem Ahead.set {q : TimerQueue N} (h : q.Ahead now) {t : Timer} (ht : now < t.fireAt) :
    (q.set t).Ahead now := by
  rw [ahead_iff] at h ⊢
  have hentries : (q.set t).entries = setEntries q.entries t := rfl
  obtain ⟨-, hs⟩ | ⟨l₁, x, l₂, he, hs, -⟩ := setEntries_cases t q.nodup
  · rw [hentries, hs]
    intro e hmem
    cases hmem
  · rw [he] at h
    rw [hentries, hs]
    intro e hmem
    rcases List.mem_append.mp hmem with hmem | hmem
    · exact h e (List.mem_append_left _ hmem)
    · rcases List.mem_cons.mp hmem with heq | hmem
      · obtain rfl := Option.some.inj heq
        exact ht
      · exact h e (List.mem_append_right _ (List.mem_cons_of_mem x hmem))

theorem Ahead.lt_nextTimeout {q : TimerQueue N} (h : q.Ahead now) {t : Instant}
    (ht : q.nextTimeout = some t) : now < t := by
  obtain ⟨e, he, rfl⟩ := List.mem_map.mp (List.min?_mem ht)
  exact ahead_iff.mp h e (by simpa using he)

end TimerQueue

/-! The device -/

namespace Device
variable {d₀ d d' : Device} {now : Instant}

theorem aliveInterval_pos (h : ∀ t ∈ d.targets.toList, Duration.fromSecs 1 ≤ t.maxAge) :
    0 < d.aliveInterval := by
  unfold aliveInterval
  cases hmin : (d.targets.toList.map AdvertEntry.maxAge).min? with
  | none => decide
  | some m =>
      obtain ⟨t, ht, rfl⟩ := List.mem_map.mp (List.min?_mem hmin)
      exact Nat.div_pos ((by decide : 2 ≤ Duration.fromSecs 1).trans (h t ht)) (by decide)

/-- A state within the timeout of `d₀` at `now`: what was due is drained. -/
structure Timely (d₀ : Device) (now : Instant) (d : Device) : Prop where
  packed : d.Packed
  keys : d.keys = d₀.keys
  ahead : d.timers.Ahead now

theorem timely_drained (hp : d.Packed) (now : Instant) : Timely d now (d.drained now) :=
  ⟨⟨hp.packed, hp.used_le⟩, rfl, TimerQueue.ahead_drain _ _⟩

theorem Timely.lt_refresh (h : Timely d₀ now d) (hpos : 0 < d₀.aliveInterval) :
    now < now + d.aliveInterval := by
  rw [aliveInterval_of_keys h.keys]
  exact Nat.lt_add_of_pos_right hpos

theorem ahead_onTimer {k : TimerKind} (h : Timely d₀ now d) (hpos : 0 < d₀.aliveInterval)
    (ht : onTimer now d k = some d') : d'.timers.Ahead now := by
  cases k with
  | initialAlive =>
      obtain ⟨next, hnext, he⟩ := onInitialAlive_effect h.packed ht
      rw [he.timers]
      refine h.ahead.set ?_
      rcases hnext with ⟨-, rfl⟩ | ⟨-, -, hle, -⟩
      · exact h.lt_refresh hpos
      · exact (Nat.lt_add_of_pos_right (by decide)).trans_le hle
  | aliveRefresh =>
      cases hdown : d.shuttingDown with
      | false =>
          rw [(onAliveRefresh_effect h.packed hdown ht).timers]
          exact h.ahead.set (h.lt_refresh hpos)
      | true =>
          rw [(onAliveRefresh_down h.packed hdown ht).timers]
          exact h.ahead
  | searchResponse | searchRetransmit | cacheExpiry =>
      cases ht
      exact h.ahead

theorem timely_onTimer (hpos : 0 < d₀.aliveInterval) (k : TimerKind) (d d' : Device)
    (h : Timely d₀ now d) (ht : onTimer now d k = some d') : Timely d₀ now d' :=
  have hadv := advances_onTimer (P := fun _ => True) h.packed ht
  ⟨hadv.packed, hadv.keys.trans h.keys, ahead_onTimer h hpos ht⟩

theorem onTimer_returns (h : Timely d₀ now d) (hmax : now + d₀.longestGap ≤ Duration.max)
    (k : TimerKind) : ∃ d', onTimer now d k = some d' := by
  have hinterval : now + d.aliveInterval ≤ Duration.max := by
    rw [aliveInterval_of_keys h.keys]
    exact (Nat.add_le_add_left (Nat.le_max_right _ _) now).trans hmax
  have hjitter := (Nat.add_le_add_left (Nat.le_max_left _ d₀.aliveInterval) now).trans hmax
  cases k with
  | initialAlive => exact onInitialAlive_returns h.packed hinterval hjitter
  | aliveRefresh => exact onAliveRefresh_returns h.packed hinterval
  | searchResponse | searchRetransmit | cacheExpiry => exact ⟨d, rfl⟩

/-- The next timeout after a timeout is in the future. -/
theorem lt_pollTimeout (hp : d.Packed)
    (hage : ∀ t ∈ d.targets.toList, Duration.fromSecs 1 ≤ t.maxAge)
    (h : d.handleTimeout now = some d') {t : Instant} (ht : d'.pollTimeout = some t) : now < t :=
  have hr : run (fun k s => onTimer now s k) (d.timers.drainExpired now).1 (d.drained now) =
    some d' := h
  have hd' : Timely d now d' :=
    invariant_run (timely_onTimer (aliveInterval_pos hage)) (timely_drained hp now) hr
  hd'.ahead.lt_nextTimeout ht

theorem exists_handleTimeout (hp : d.Packed)
    (hage : ∀ t ∈ d.targets.toList, Duration.fromSecs 1 ≤ t.maxAge)
    (hmax : now + d.longestGap ≤ Duration.max) : ∃ d', d.handleTimeout now = some d' := by
  have hstep : ∀ k s, Timely d now s → ∃ s', onTimer now s k = some s' ∧ Timely d now s' := by
    intro k s hs
    obtain ⟨s', hs'⟩ := onTimer_returns hs hmax k
    exact ⟨s', hs', timely_onTimer (aliveInterval_pos hage) k s s' hs hs'⟩
  obtain ⟨d', hd', -⟩ := exists_run hstep (d.timers.drainExpired now).1 (timely_drained hp now)
  exact ⟨d', hd'⟩

end Device

/-! The control point -/

namespace ControlPoint
variable {M : Type} {cp cp' : ControlPoint M} {now : Instant}

theorem clampMx_range (mx : UInt8) : mxMin ≤ clampMx mx ∧ clampMx mx ≤ mxMax := by
  unfold clampMx
  split
  · decide
  · rename_i hmin
    split
    · decide
    · rename_i hmax
      exact ⟨UInt8.not_lt.mp hmin, UInt8.not_lt.mp hmax⟩

/-- The MX value is the one of a search, or the initial one. -/
def Clamped (cp : ControlPoint M) : Prop := mxMin ≤ cp.activeMx ∧ cp.activeMx ≤ mxMax

theorem Clamped.of_same (h : cp.Clamped) (he : cp'.activeMx = cp.activeMx) : cp'.Clamped := by
  rw [Clamped, he]
  exact h

theorem Clamped.pos (h : cp.Clamped) : 0 < Duration.fromSecs cp.activeMx.toNat :=
  Nat.mul_pos (UInt8.le_iff_toNat_le.mp h.1) (by decide)

theorem Clamped.le_five (h : cp.Clamped) :
    Duration.fromSecs cp.activeMx.toNat ≤ Duration.fromSecs 5 :=
  Nat.mul_le_mul_right _ (UInt8.le_iff_toNat_le.mp h.2)

theorem enqueueMsearch_activeMx (cp : ControlPoint M) (target : TargetRef) (mx : UInt8) :
    (cp.enqueueMsearch target mx).activeMx = cp.activeMx := by
  unfold enqueueMsearch
  dsimp only
  split <;> rfl

theorem search_activeMx {target : TargetRef} {mx : UInt8} (h : cp.search target mx now = some cp') :
    cp'.activeMx = clampMx mx := by
  obtain ⟨t, -, ht⟩ := Option.bind_eq_some_iff.mp h
  obtain rfl := (Option.some.inj ht).symm
  exact enqueueMsearch_activeMx _ target mx

theorem search_returns (cp : ControlPoint M) (target : TargetRef) {mx : UInt8}
    (h : now + Duration.fromSecs ((clampMx mx).toNat / 2 + 1) ≤ Duration.max) :
    ∃ cp', cp.search target mx now = some cp' := by
  unfold search
  dsimp only
  rw [enqueueMsearch_activeMx, Instant.add_of_le h]
  exact ⟨_, rfl⟩

/-- A state within a timeout at `now`: what was due is drained. -/
structure Timely (now : Instant) (cp : ControlPoint M) : Prop where
  clamped : cp.Clamped
  ahead : cp.timers.Ahead now

theorem timely_drained (h : cp.Clamped) (now : Instant) :
    Timely now { cp with timers := (cp.timers.drainExpired now).2 } :=
  ⟨h, TimerQueue.ahead_drain _ _⟩

section
variable {httparse : List UInt8 → Nat → Outcome} [MapOps (BoundedStr cacheUsn) CpEntry M]

theorem clamped_new (ua : Option Str) : (new ua : ControlPoint M).Clamped := by
  have hthree : mxMin ≤ 3 ∧ 3 ≤ mxMax := by decide
  exact hthree

theorem reschedule_activeMx (cp : ControlPoint M) (now : Instant) :
    (cp.rescheduleCacheExpiry now).activeMx = cp.activeMx := by
  unfold rescheduleCacheExpiry
  split
  · rfl
  · split <;> rfl

theorem handleMessage_activeMx {msg : MessageRef} (h : cp.handleMessage now msg = some cp') :
    cp'.activeMx = cp.activeMx := by
  rw [handleMessage_eq] at h
  split at h
  · obtain ⟨b, cache, -, rfl⟩ := announced_eq_some h
    exact reschedule_activeMx _ now
  · cases h
    rw [departed_eq]
  · cases h
    rfl

theorem onTimer_activeMx {k : TimerKind} (h : onTimer now cp k = some cp') :
    cp'.activeMx = cp.activeMx := by
  cases k with
  | searchRetransmit =>
      unfold onTimer at h
      dsimp only at h
      split at h
      · obtain ⟨t, -, ht⟩ := Option.bind_eq_some_iff.mp h
        obtain rfl := (Option.some.inj ht).symm
        rfl
      · cases h
        rfl
  | cacheExpiry =>
      cases h
      exact reschedule_activeMx _ now
  | aliveRefresh | initialAlive | searchResponse =>
      cases h
      rfl

theorem clamped_onTimer (k : TimerKind) (cp cp' : ControlPoint M) (hc : cp.Clamped)
    (h : onTimer now cp k = some cp') : cp'.Clamped := hc.of_same (onTimer_activeMx h)

theorem clamped_step (op : CpOp) (cp cp' : ControlPoint M) (hc : cp.Clamped)
    (h : op.step httparse cp = some cp') : cp'.Clamped := by
  cases op with
  | search target mx now =>
      rw [Clamped, search_activeMx h]
      exact clampMx_range mx
  | handleDatagram now source payload =>
      simp only [CpOp.step, handleDatagram] at h
      split at h
      · cases h
        exact hc
      · exact hc.of_same (handleMessage_activeMx h)
  | handleTimeout now =>
      have hr : run (fun k s => onTimer now s k) (cp.timers.drainExpired now).1
        { cp with timers := (cp.timers.drainExpired now).2 } = some cp' := h
      exact invariant_run clamped_onTimer (timely_drained hc now).clamped hr
  | pollTransmit n =>
      cases h
      unfold pollTransmit
      split <;> exact hc
  | pollEvent =>
      cases h
      unfold pollEvent
      split <;> exact hc
  | pollTimeout =>
      cases h
      exact hc

/-! Timeouts -/

theorem ahead_reschedule (h : cp.timers.Ahead now) :
    (cp.rescheduleCacheExpiry now).timers.Ahead now := by
  unfold rescheduleCacheExpiry
  split
  · exact h
  · split
    · rename_i hlt
      exact h.set hlt
    · exact h

theorem timely_onTimer (k : TimerKind) (cp cp' : ControlPoint M) (h : Timely now cp)
    (ht : onTimer now cp k = some cp') : Timely now cp' := by
  refine ⟨clamped_onTimer k cp cp' h.clamped ht, ?_⟩
  cases k with
  | searchRetransmit =>
      unfold onTimer at ht
      dsimp only at ht
      split at ht
      · obtain ⟨t, hadd, hset⟩ := Option.bind_eq_some_iff.mp ht
        obtain rfl := Instant.add_eq_some hadd
        obtain rfl := (Option.some.inj hset).symm
        exact h.ahead.set (Nat.lt_add_of_pos_right h.clamped.pos)
      · cases ht
        exact h.ahead
  | cacheExpiry =>
      cases ht
      exact ahead_reschedule h.ahead
  | aliveRefresh | initialAlive | searchResponse =>
      cases ht
      exact h.ahead

theorem onTimer_returns (h : cp.Clamped) (hmax : now + Duration.fromSecs 5 ≤ Duration.max)
    (k : TimerKind) : ∃ cp', onTimer now cp k = some cp' := by
  cases k with
  | searchRetransmit =>
      unfold onTimer
      dsimp only
      split
      · rw [Instant.add_of_le ((Nat.add_le_add_left h.le_five now).trans hmax)]
        exact ⟨_, rfl⟩
      · exact ⟨_, rfl⟩
  | cacheExpiry => exact ⟨_, rfl⟩
  | aliveRefresh | initialAlive | searchResponse => exact ⟨cp, rfl⟩

/-- The next timeout after a timeout is in the future. -/
theorem lt_pollTimeout (hc : cp.Clamped) (h : cp.handleTimeout now = some cp') {t : Instant}
    (ht : cp'.pollTimeout = some t) : now < t :=
  have hr : run (fun k s => onTimer now s k) (cp.timers.drainExpired now).1
    { cp with timers := (cp.timers.drainExpired now).2 } = some cp' := h
  have hcp' : Timely now cp' := invariant_run timely_onTimer (timely_drained hc now) hr
  hcp'.ahead.lt_nextTimeout ht

theorem exists_handleTimeout (hc : cp.Clamped) (hmax : now + Duration.fromSecs 5 ≤ Duration.max) :
    ∃ cp', cp.handleTimeout now = some cp' := by
  have hstep : ∀ k (s : ControlPoint M), s.Clamped → ∃ s', onTimer now s k = some s' ∧ s'.Clamped := by
    intro k s hs
    obtain ⟨s', hs'⟩ := onTimer_returns hs hmax k
    exact ⟨s', hs', clamped_onTimer k s s' hs hs'⟩
  obtain ⟨cp', hcp', -⟩ := exists_run hstep (cp.timers.drainExpired now).1
    (timely_drained hc now).clamped
  exact ⟨cp', hcp'⟩

end
end ControlPoint

/-- In every state that a run of either machine reaches, `handle_timeout` returns
where no addition of its intervals overflows, and the timeout polled after it is
later than its time. The targets of the device have a max-age of a second or more. -/
theorem timeouts_make_progress (httparse : List UInt8 → Nat → Outcome) {M : Type}
    [MapOps (BoundedStr cacheUsn) CpEntry M] (now : Instant) :
    (∀ uuid location server bootid configid seed ops d,
      run (DeviceOp.step httparse) ops (Device.new uuid location server bootid configid seed) =
        some d →
      (∀ t ∈ d.targets.toList, Duration.fromSecs 1 ≤ t.maxAge) →
      (now + d.longestGap ≤ Duration.max → ∃ d', d.handleTimeout now = some d') ∧
        ∀ d', d.handleTimeout now = some d' → ∀ t, d'.pollTimeout = some t → now < t) ∧
    ∀ ua ops (cp : ControlPoint M), run (CpOp.step httparse) ops (ControlPoint.new ua) = some cp →
      (now + Duration.fromSecs 5 ≤ Duration.max → ∃ cp', cp.handleTimeout now = some cp') ∧
        ∀ cp', cp.handleTimeout now = some cp' → ∀ t, cp'.pollTimeout = some t → now < t := by
  constructor
  · intro uuid location server bootid configid seed ops d hr hage
    have hp := invariant_run Device.packed_step (Device.packed_new ..) hr
    exact ⟨Device.exists_handleTimeout hp hage, fun d' h t => Device.lt_pollTimeout hp hage h⟩
  · intro ua ops cp hr
    have hc := invariant_run ControlPoint.clamped_step (ControlPoint.clamped_new ua) hr
    exact ⟨ControlPoint.exists_handleTimeout hc, fun cp' h t => ControlPoint.lt_pollTimeout hc h⟩

theorem timeouts_make_progress_sample :
    (∃ d d', run (DeviceOp.step splitBlock) (addRoots 1 ++ [.start .zero]) fullDevice = some d ∧
      d.handleTimeout .zero = some d' ∧ ∀ t, d'.pollTimeout = some t → Instant.zero < t) ∧
    ∃ cp cp' : ControlPoint CpIndexMap,
      run (CpOp.step splitBlock) [.search .rootDevice 1 .zero] (ControlPoint.new none) = some cp ∧
        cp.handleTimeout .zero = some cp' ∧ ∀ t, cp'.pollTimeout = some t → Instant.zero < t := by
  obtain ⟨hdevice, hpoint⟩ := timeouts_make_progress splitBlock (M := CpIndexMap) .zero
  constructor
  · obtain ⟨d₀, hrun₀, he⟩ := run_addRoots splitBlock (d := fullDevice) (n := 1) (by decide)
      packed_fullDevice
    have htargets : (d₀.start .zero).targets.toList = [rootEntry] := he.targets
    have hrun : run (DeviceOp.step splitBlock) (addRoots 1 ++ [.start .zero]) fullDevice =
        some (d₀.start .zero) := by
      rw [run_append, hrun₀]
      rfl
    obtain ⟨hreturns, hlater⟩ := hdevice fullUuid fullLocation (some fullServer) 1 1 1 _ _ hrun
      (by rw [htargets]; decide)
    obtain ⟨d', hd'⟩ := hreturns (by
      rw [Device.longestGap, Device.aliveInterval, htargets]
      decide)
    exact ⟨_, d', hrun, hd', hlater d' hd'⟩
  · obtain ⟨cp, hcp⟩ := ControlPoint.search_returns (ControlPoint.new none : ControlPoint CpIndexMap)
      .rootDevice (by decide : Instant.zero + Duration.fromSecs
        ((ControlPoint.clampMx 1).toNat / 2 + 1) ≤ Duration.max)
    have hrun : run (CpOp.step splitBlock) [.search .rootDevice 1 .zero]
        (ControlPoint.new none : ControlPoint CpIndexMap) = some cp := by
      rw [run_cons, CpOp.step, hcp]
      rfl
    obtain ⟨hreturns, hlater⟩ := hpoint none _ cp hrun
    obtain ⟨cp', hcp'⟩ := hreturns (by decide)
    exact ⟨cp, cp', hrun, hcp', hlater cp' hcp'⟩

end RustyCastle.Ssdp
