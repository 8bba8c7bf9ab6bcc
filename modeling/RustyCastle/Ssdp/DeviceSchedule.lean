import RustyCastle.Ssdp.DeviceCapacity

/-!
The alive timers over a run. Before the start none is armed; from the start on
exactly one is, and a round that it fires sets the next one within a fixed time.
Searches use a timer of their own and never touch it.
-/

namespace RustyCastle.Ssdp
open Foundation Foundation.HeaderBlock Foundation.Runs

namespace Device

theorem SameAlive.noAlive {d d' : Device} (h : SameAlive d d') (hn : d.NoAlive) : d'.NoAlive :=
  fun k hk => (h.armed k hk).trans (hn k hk)

theorem SameAlive.soleAlive {d d' : Device} {k : TimerKind} {t : Instant} (h : SameAlive d d')
    (hs : SoleAlive d k t) : SoleAlive d' k t :=
  ⟨hs.alive, (h.armed k hs.alive).trans hs.armed,
    fun k' hk' hne => (h.armed k' hk').trans (hs.only k' hk' hne)⟩

theorem sameAlive_step {httparse : List UInt8 → Nat → Outcome} {op : DeviceOp} {d d' : Device}
    (hp : d.Packed) (hop : op.Passive) (h : op.step httparse d = some d') : SameAlive d d' := by
  cases op with
  | addTarget nt maxAge =>
      cases h
      obtain he | ⟨ntStr, targets, -, -, -, he⟩ := d.addTarget_cases nt maxAge
      · rw [he]
        exact .refl d
      · rw [he]
        exact ⟨fun _ _ => rfl, rfl⟩
  | start now => cases hop
  | shutdown now => cases hop
  | handleTimeout now => cases hop
  | handleDatagram | pollTransmit | pollEvent | pollTimeout =>
      exact (passes_step hp h trivial trivial).alive

theorem keys_step {httparse : List UInt8 → Nat → Outcome} {op : DeviceOp} {d d' : Device}
    (hp : d.Packed) (hop : op.Serving) (h : op.step httparse d = some d') :
    d'.keys = d.keys := by
  cases op with
  | addTarget nt maxAge => cases hop
  | start now => cases hop
  | shutdown now => cases hop
  | handleTimeout now => exact (advances_handleTimeout (P := fun _ => True) hp h).keys
  | handleDatagram | pollTransmit | pollEvent | pollTimeout =>
      exact (passes_step hp h trivial trivial).keys

/-! Before the start -/

/-- A device that has not been started. -/
structure Idle (d : Device) : Prop where
  packed : d.Packed
  noAlive : d.NoAlive
  up : d.shuttingDown = false

theorem idle_new (uuid location : Str) (server : Option Str) (bootid configid seed : UInt32) :
    (new uuid location server bootid configid seed).Idle :=
  ⟨packed_new .., fun _ _ => TimerQueue.armed_new _, rfl⟩

theorem noAlive_drained {d : Device} (h : d.NoAlive) (now : Instant) : (d.drained now).NoAlive :=
  fun k hk => armed_drained_none (h k hk) now

theorem idle_step {httparse : List UInt8 → Nat → Outcome} (op : DeviceOp) (d d' : Device)
    (hop : op.BeforeStart) (hi : d.Idle) (h : op.step httparse d = some d') : d'.Idle := by
  have hpacked := packed_step op d d' hi.packed h
  by_cases hpass : op.Passive
  · have hs := sameAlive_step hi.packed hpass h
    exact ⟨hpacked, hs.noAlive hi.noAlive, hs.down.trans hi.up⟩
  · cases op with
    | start now => cases hop
    | shutdown now => cases hop
    | handleTimeout now =>
        obtain rfl := Option.some.inj ((handleTimeout_noAlive hi.noAlive now).symm.trans h)
        exact ⟨hpacked, noAlive_drained hi.noAlive now, hi.up⟩
    | _ => exact absurd trivial hpass

theorem Idle.start {d : Device} (h : d.Idle) (t₀ : Instant) :
    SoleAlive (d.start t₀) .initialAlive t₀ :=
  have htimers : (d.start t₀).timers = d.timers.set ⟨t₀, .initialAlive⟩ := rfl
  .of_set htimers isAlive_initialAlive h.noAlive

/-! Alive rounds -/

/-- The longest time from a round to the next. -/
def longestGap (d : Device) : Duration := max (Duration.fromMillis 199) d.aliveInterval

theorem aliveInterval_of_keys {d d' : Device} (h : d'.keys = d.keys) :
    d'.aliveInterval = d.aliveInterval := by
  have hages : ∀ a : Device, a.targets.toList.map AdvertEntry.maxAge = a.keys.map Prod.snd := by
    intro a
    rw [keys, List.map_map]
    rfl
  rw [aliveInterval, hages, h, ← hages, ← aliveInterval]

/-- The round of a due alive timer sets the next alive timer. -/
theorem soleAlive_handleTimeout {d d' : Device} {k : TimerKind} {t now : Instant} (hp : d.Packed)
    (hup : d.shuttingDown = false) (hs : SoleAlive d k t) (hle : t ≤ now)
    (h : d.handleTimeout now = some d') : ∃ k' t', SoleAlive d' k' t' ∧
      t' ≤ now + d.longestGap ∧ d'.shuttingDown = false := by
  have hpd : (d.drained now).Packed := ⟨hp.packed, hp.used_le⟩
  have hnone := hs.drained_of_due hle
  rw [handleTimeout_due hs hle] at h
  rcases hs.alive with rfl | rfl
  · obtain ⟨next, hnext, he⟩ := onInitialAlive_effect hpd h
    have hbound : IsAlive next.kind ∧ next.fireAt ≤ now + d.longestGap := by
      rcases hnext with ⟨-, rfl⟩ | ⟨-, hk, -, hle⟩
      · exact ⟨isAlive_aliveRefresh, Nat.add_le_add_left (Nat.le_max_right _ _) now⟩
      · exact ⟨hk ▸ isAlive_initialAlive,
          hle.trans (Nat.add_le_add_left (Nat.le_max_left _ _) now)⟩
    exact ⟨next.kind, next.fireAt, .of_set he.timers hbound.1 hnone, hbound.2,
      he.down.trans hup⟩
  · have he := onAliveRefresh_effect hpd hup h
    exact ⟨_, _, .of_set he.timers isAlive_aliveRefresh hnone,
      Nat.add_le_add_left (Nat.le_max_right _ _) now, he.down.trans hup⟩

/-- A timeout returns where the next round is a representable instant. -/
theorem handleTimeout_returns {d : Device} {k : TimerKind} {t now : Instant} (hp : d.Packed)
    (hs : SoleAlive d k t) (hmax : now + d.longestGap ≤ Duration.max) :
    ∃ d', d.handleTimeout now = some d' := by
  have hpd : (d.drained now).Packed := ⟨hp.packed, hp.used_le⟩
  have hinterval := (Nat.add_le_add_left (Nat.le_max_right _ _) now).trans hmax
  by_cases hle : t ≤ now
  · rw [handleTimeout_due hs hle]
    rcases hs.alive with rfl | rfl
    · exact onInitialAlive_returns hpd hinterval
        ((Nat.add_le_add_left (Nat.le_max_left _ _) now).trans hmax)
    · exact onAliveRefresh_returns hpd hinterval
  · exact ⟨_, handleTimeout_notDue hs (Nat.lt_of_not_le hle)⟩

theorem soleAlive_drained {d : Device} {k : TimerKind} {t now : Instant} (hs : SoleAlive d k t)
    (hlt : now < t) : SoleAlive (d.drained now) k t where
  alive := hs.alive
  armed := by
    rw [TimerQueue.armed_drain, hs.armed]
    exact Option.filter_some_pos (by simpa using hlt)
  only k' hk' hne := armed_drained_none (hs.only k' hk' hne) now

instance : DecidablePred IsAlive := fun _ => inferInstanceAs (Decidable (_ ∨ _))

end Device

/-- The time of the alive round that an operation runs: a timeout at which an
alive timer is due. -/
def DeviceOp.aliveRound (op : DeviceOp) (d : Device) : Option Instant :=
  match op with
  | .handleTimeout now =>
      if ∃ k ∈ (d.timers.drainExpired now).1, Device.IsAlive k then some now else none
  | _ => none

/-- A step of a device and of the time of its latest alive round. -/
def DeviceOp.stepRound (httparse : List UInt8 → Nat → Outcome) (op : DeviceOp)
    (s : Device × Option Instant) : Option (Device × Option Instant) :=
  (op.step httparse s.1).map fun d => (d, (op.aliveRound s.1).or s.2)

namespace Device

theorem aliveRound_due {d : Device} {k : TimerKind} {t now : Instant} (hs : SoleAlive d k t)
    (hle : t ≤ now) : (DeviceOp.handleTimeout now).aliveRound d = some now :=
  if_pos ⟨k, TimerQueue.mem_drain.mpr ⟨t, hs.armed, hle⟩, hs.alive⟩

theorem aliveRound_notDue {d : Device} {k : TimerKind} {t now : Instant} (hs : SoleAlive d k t)
    (hlt : now < t) : (DeviceOp.handleTimeout now).aliveRound d = none := by
  refine if_neg ?_
  rintro ⟨k', hk', hal⟩
  obtain ⟨t', ht', hle⟩ := TimerQueue.mem_drain.mp hk'
  by_cases he : k' = k
  · rw [he, hs.armed] at ht'
    obtain rfl := Option.some.inj ht'
    exact absurd hle (Nat.not_le_of_lt hlt)
  · rw [hs.only k' hal he] at ht'
    cases ht'

/-- Between the start and the shutdown the next round is at most a gap after the
latest, and at the start time before the first. -/
structure Scheduled (d₀ : Device) (t₀ : Instant) (s : Device × Option Instant) : Prop where
  packed : s.1.Packed
  up : s.1.shuttingDown = false
  keys : s.1.keys = d₀.keys
  next : ∃ k t, SoleAlive s.1 k t ∧ (s.2 = none → t = t₀) ∧
    ∀ L, s.2 = some L → t ≤ L + d₀.longestGap

theorem scheduled_start {d : Device} (h : d.Idle) (t₀ : Instant) :
    Scheduled d t₀ (d.start t₀, none) where
  packed := (start_effect h.packed t₀).packed
  up := h.up
  keys := rfl
  next := ⟨.initialAlive, t₀, h.start t₀, fun _ => rfl, nofun⟩

theorem scheduled_step {httparse : List UInt8 → Nat → Outcome} {d₀ : Device} {t₀ : Instant}
    (op : DeviceOp) (s s' : Device × Option Instant) (hop : op.Serving)
    (hs : Scheduled d₀ t₀ s) (h : op.stepRound httparse s = some s') : Scheduled d₀ t₀ s' := by
  obtain ⟨d', hd', rfl⟩ := Option.map_eq_some_iff.mp h
  have hpacked := packed_step op s.1 d' hs.packed hd'
  have hkeys := (keys_step hs.packed hop hd').trans hs.keys
  obtain ⟨k, t, hsole, hfirst, hgap⟩ := hs.next
  by_cases hpass : op.Passive
  · have hsame := sameAlive_step hs.packed hpass hd'
    have hround : op.aliveRound s.1 = none := by
      cases op with
      | handleTimeout now => cases hpass
      | _ => rfl
    refine ⟨hpacked, hsame.down.trans hs.up, hkeys, k, t, hsame.soleAlive hsole, ?_⟩
    rw [hround, Option.none_or]
    exact ⟨hfirst, hgap⟩
  · cases op with
    | addTarget nt maxAge => cases hop
    | start now => cases hop
    | shutdown now => cases hop
    | handleTimeout now =>
        by_cases hle : t ≤ now
        · obtain ⟨k', t', hsole', hbound, hup⟩ :=
            soleAlive_handleTimeout hs.packed hs.up hsole hle hd'
          refine ⟨hpacked, hup, hkeys, k', t', hsole', ?_⟩
          rw [aliveRound_due hsole hle, Option.some_or]
          refine ⟨nofun, ?_⟩
          rintro L ⟨⟩
          rw [longestGap, ← aliveInterval_of_keys hs.keys]
          exact hbound
        · have hlt := Nat.lt_of_not_le hle
          obtain rfl := Option.some.inj ((handleTimeout_notDue hsole hlt).symm.trans hd')
          refine ⟨hpacked, hs.up, hkeys, k, t, soleAlive_drained hsole hlt, ?_⟩
          rw [aliveRound_notDue hsole hlt, Option.none_or]
          exact ⟨hfirst, hgap⟩
    | _ => exact absurd trivial hpass

end Device

/-- From its one start on, and until it is shut down, a device with targets has
an alive timer armed: for the start time before the first alive round, and no
later than the longest gap after the latest. -/
theorem device_never_quiet (httparse : List UInt8 → Nat → Outcome) (uuid location : Str)
    (server : Option Str) (bootid configid seed : UInt32) (before ops : List DeviceOp)
    (t₀ : Instant) (d₀ d : Device) (last : Option Instant) (minAge : Duration)
    (hbefore : ∀ op ∈ before, op.BeforeStart)
    (hr₀ : run (DeviceOp.step httparse) before
      (Device.new uuid location server bootid configid seed) = some d₀)
    (hmin : (d₀.targets.toList.map AdvertEntry.maxAge).min? = some minAge)
    (hops : ∀ op ∈ ops, op.Serving)
    (hr : run (DeviceOp.stepRound httparse) ops (d₀.start t₀, none) = some (d, last)) :
    ∃ k t, (k = .initialAlive ∨ k = .aliveRefresh) ∧ d.timers.armed k = some t ∧
      (last = none → t = t₀) ∧
      (∀ L, last = some L → t ≤ L + max (Duration.fromMillis 199) (minAge / 2)) ∧
      ∃ p, d.pollTimeout = some p ∧ p ≤ t := by
  have hidle := invariant_run_of Device.idle_step hbefore (Device.idle_new ..) hr₀
  have hs := invariant_run_of Device.scheduled_step hops (Device.scheduled_start hidle t₀) hr
  obtain ⟨k, t, hsole, hfirst, hgap⟩ := hs.next
  have hinterval : d₀.aliveInterval = minAge / 2 := by
    rw [Device.aliveInterval, hmin]
    rfl
  rw [Device.longestGap, hinterval] at hgap
  exact ⟨k, t, hsole.alive, hsole.armed, hfirst, hgap, TimerQueue.nextTimeout_le hsole.armed⟩

theorem beforeStart_addRoots (n : Nat) : ∀ op ∈ addRoots n, op.BeforeStart := by
  intro op hop
  rw [List.eq_of_mem_replicate hop]
  trivial

theorem device_never_quiet_sample : ∃ d₀ d,
    run (DeviceOp.step splitBlock) (addRoots 1) fullDevice = some d₀ ∧
      run (DeviceOp.stepRound splitBlock) [.handleTimeout .zero] (d₀.start .zero, none) =
        some (d, some .zero) ∧
      ∃ k t, (k = .initialAlive ∨ k = .aliveRefresh) ∧ d.timers.armed k = some t ∧
        t ≤ Instant.zero + Duration.fromSecs 900 ∧ ∃ p, d.pollTimeout = some p ∧ p ≤ t := by
  obtain ⟨d₀, hrun₀, he⟩ := run_addRoots splitBlock (d := fullDevice) (n := 1) (by decide)
    packed_fullDevice
  have hidle := invariant_run_of Device.idle_step (beforeStart_addRoots 1)
    (Device.idle_new fullUuid fullLocation (some fullServer) 1 1 1) hrun₀
  have hsole := hidle.start Instant.zero
  have htargets : d₀.targets.toList = [rootEntry] := he.targets
  have hmax : Instant.zero + (d₀.start Instant.zero).longestGap ≤ Duration.max := by
    have hgap : (d₀.start Instant.zero).longestGap =
        max (Duration.fromMillis 199) (rootEntry.maxAge / 2) := by
      rw [Device.longestGap, Device.aliveInterval, (Device.start_effect hidle.packed .zero).targets, htargets]
      rfl
    rw [hgap]
    decide
  obtain ⟨d, hd⟩ := Device.handleTimeout_returns (Device.start_effect hidle.packed .zero).packed
    hsole hmax
  have hrun : run (DeviceOp.stepRound splitBlock) [.handleTimeout .zero]
      (d₀.start .zero, none) = some (d, some .zero) := by
    rw [run_cons, DeviceOp.stepRound, DeviceOp.step, hd,
      Device.aliveRound_due hsole (Nat.le_refl _)]
    rfl
  obtain ⟨k, t, hk, harmed, -, hgap, hpoll⟩ := device_never_quiet splitBlock fullUuid fullLocation
    (some fullServer) 1 1 1 (addRoots 1) [.handleTimeout .zero] .zero d₀ d (some .zero)
    rootEntry.maxAge (beforeStart_addRoots 1) hrun₀ (by rw [htargets]; rfl)
    (by rintro op (_ | ⟨_, ⟨⟩⟩); trivial) hrun
  exact ⟨d₀, d, hrun₀, hrun, k, t, hk, harmed, (hgap .zero rfl).trans (by decide), hpoll⟩

end RustyCastle.Ssdp
