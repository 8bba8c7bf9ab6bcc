import RustyCastle.Ssdp.DeviceQueue

/-!
What each operation of the device does to its targets, its timers and its queue.
The timer queue has a slot for every kind of timer, so no timer is dropped, and
a timeout runs at most the alive timer that is armed.
-/

namespace RustyCastle.Ssdp
open Foundation Foundation.HeaderBlock Foundation.Runs

/-- What an entry was registered with. -/
def AdvertEntry.key (t : AdvertEntry) : BoundedStr maxUrnLen × Duration := (t.ntStr, t.maxAge)

/-- Operations other than starting, shutting down and letting time pass. -/
def DeviceOp.Passive : DeviceOp → Prop
  | .start _ | .shutdown _ | .handleTimeout _ => False
  | _ => True

/-- Operations before the start. -/
def DeviceOp.BeforeStart : DeviceOp → Prop
  | .start _ | .shutdown _ => False
  | _ => True

/-- Operations other than registering a target, starting and shutting down. -/
def DeviceOp.Serving : DeviceOp → Prop
  | .addTarget _ _ | .start _ | .shutdown _ => False
  | _ => True

namespace Device

/-- What is fixed when the device is created. -/
structure SameIdentity (d d' : Device) : Prop where
  uuid : d'.uuid = d.uuid
  location : d'.location = d.location
  server : d'.server = d.server
  bootid : d'.bootid = d.bootid
  configid : d'.configid = d.configid

theorem SameIdentity.refl (d : Device) : SameIdentity d d := ⟨rfl, rfl, rfl, rfl, rfl⟩

theorem SameIdentity.trans {a b c : Device} (h : SameIdentity a b) (h' : SameIdentity b c) :
    SameIdentity a c :=
  ⟨h'.uuid.trans h.uuid, h'.location.trans h.location, h'.server.trans h.server,
    h'.bootid.trans h.bootid, h'.configid.trans h.configid⟩

theorem SameIdentity.aliveNotify {d d' : Device} (h : SameIdentity d d') (t : AdvertEntry) :
    d'.aliveNotify t = d.aliveNotify t := by
  simp only [Device.aliveNotify, h.uuid, h.location, h.server, h.bootid, h.configid]

theorem SameIdentity.byebyeNotify {d d' : Device} (h : SameIdentity d d') (t : AdvertEntry) :
    d'.byebyeNotify t = d.byebyeNotify t := by
  simp only [Device.byebyeNotify, h.uuid, h.bootid, h.configid]

theorem SameIdentity.searchResponse {d d' : Device} (h : SameIdentity d d') (st : TargetRef)
    (t : AdvertEntry) : d'.searchResponse st t = d.searchResponse st t := by
  simp only [Device.searchResponse, h.uuid, h.location, h.server, h.bootid, h.configid]

/-- The state after an operation, up to its events and its random state. -/
structure Effect (d d' : Device) (targets : List AdvertEntry) (timers : TimerQueue 8)
    (down : Bool) (q : List Datagram) : Prop where
  same : SameIdentity d d'
  targets : d'.targets.toList = targets
  timers : d'.timers = timers
  down : d'.shuttingDown = down
  packed : d'.Packed
  queue : d'.queue = q

theorem Queues.effect {d d' : Device} {q : List Datagram} (h : Queues d d' q) :
    Effect d d' d.targets.toList d.timers d.shuttingDown q := by
  obtain ⟨⟨_, _, _, rfl⟩, hp, hq⟩ := h
  exact ⟨⟨rfl, rfl, rfl, rfl, rfl⟩, rfl, rfl, rfl, hp, hq⟩

theorem Effect.refl {d : Device} (hp : d.Packed) :
    Effect d d d.targets.toList d.timers d.shuttingDown d.queue := (Queues.refl hp).effect

/-! Timers -/

theorem armed_set (q : TimerQueue 8) (t : Timer) (kind : TimerKind) :
    (q.set t).armed kind = if kind = t.kind then some t.fireAt else q.armed kind :=
  TimerQueue.armed_set (TimerQueue.hasRoom_of_five (by decide) q t.kind) kind

/-- The kinds of timer that send alive messages. -/
def IsAlive (k : TimerKind) : Prop := k = .initialAlive ∨ k = .aliveRefresh

theorem isAlive_initialAlive : IsAlive .initialAlive := .inl rfl

theorem isAlive_aliveRefresh : IsAlive .aliveRefresh := .inr rfl

theorem onTimer_other {k : TimerKind} (hk : ¬ IsAlive k) (now : Instant) (d : Device) :
    onTimer now d k = some d := by
  cases k with
  | initialAlive => exact absurd isAlive_initialAlive hk
  | aliveRefresh => exact absurd isAlive_aliveRefresh hk
  | searchResponse | searchRetransmit | cacheExpiry => rfl

/-- No alive timer is armed. -/
def NoAlive (d : Device) : Prop := ∀ k, IsAlive k → d.timers.armed k = none

/-- One alive timer is armed, and it fires at `t`. -/
structure SoleAlive (d : Device) (k : TimerKind) (t : Instant) : Prop where
  alive : IsAlive k
  armed : d.timers.armed k = some t
  only : ∀ k', IsAlive k' → k' ≠ k → d.timers.armed k' = none

theorem SoleAlive.of_set {d' : Device} {timers : TimerQueue 8} {next : Timer}
    (htimers : d'.timers = timers.set next) (hk : IsAlive next.kind)
    (hnone : ∀ k, IsAlive k → timers.armed k = none) : SoleAlive d' next.kind next.fireAt where
  alive := hk
  armed := by rw [htimers, armed_set, if_pos rfl]
  only k' hk' hne := by rw [htimers, armed_set, if_neg hne, hnone k' hk']

theorem foldlM_onTimer_other {ks : List TimerKind} (hk : ∀ k ∈ ks, ¬ IsAlive k) (now : Instant)
    (d : Device) : ks.foldlM (onTimer now) d = some d := by
  induction ks with
  | nil => rfl
  | cons k ks ih =>
      rw [List.foldlM_cons, onTimer_other (hk k (List.mem_cons_self ..))]
      exact ih fun k' hk' => hk k' (List.mem_cons_of_mem k hk')

/-- Timers of one alive kind run that timer once, wherever it stands. -/
theorem foldlM_onTimer_sole {ks : List TimerKind} {k : TimerKind} (hmem : k ∈ ks)
    (hnodup : ks.Nodup) (honly : ∀ k' ∈ ks, IsAlive k' → k' = k) (now : Instant) (d : Device) :
    ks.foldlM (onTimer now) d = onTimer now d k := by
  induction ks with
  | nil => cases hmem
  | cons a ks ih =>
      obtain ⟨hnotin, hnodup'⟩ := List.nodup_cons.mp hnodup
      rw [List.foldlM_cons]
      by_cases ha : a = k
      · subst ha
        have hrest : ∀ k' ∈ ks, ¬ IsAlive k' := by
          intro k' hk' hal
          have := honly k' (List.mem_cons_of_mem a hk') hal
          exact hnotin (this ▸ hk')
        cases h : onTimer now d a with
        | none => rfl
        | some d' => exact foldlM_onTimer_other hrest now d'
      · have hna : ¬ IsAlive a := fun hal => ha (honly a (List.mem_cons_self ..) hal)
        rw [onTimer_other hna]
        exact ih ((List.mem_cons.mp hmem).resolve_left (Ne.symm ha)) hnodup'
          fun k' hk' => honly k' (List.mem_cons_of_mem a hk')

/-- The device with its due timers taken out. -/
abbrev drained (d : Device) (now : Instant) : Device :=
  { d with timers := (d.timers.drainExpired now).2 }

theorem armed_drained_none {d : Device} {k : TimerKind} (h : d.timers.armed k = none)
    (now : Instant) : (d.drained now).timers.armed k = none := by
  rw [TimerQueue.armed_drain, h]
  rfl

theorem SoleAlive.drained_of_due {d : Device} {k : TimerKind} {t now : Instant}
    (h : SoleAlive d k t) (hle : t ≤ now) (k' : TimerKind) (hk' : IsAlive k') :
    (d.drained now).timers.armed k' = none := by
  by_cases he : k' = k
  · subst he
    rw [TimerQueue.armed_drain, h.armed]
    exact Option.filter_some_neg (by simpa using hle)
  · exact armed_drained_none (h.only k' hk' he) now

theorem handleTimeout_noAlive {d : Device} (h : d.NoAlive) (now : Instant) :
    d.handleTimeout now = some (d.drained now) := by
  refine foldlM_onTimer_other (fun k hk hal => ?_) now _
  obtain ⟨t, ht, -⟩ := TimerQueue.mem_drain.mp hk
  rw [h k hal] at ht
  cases ht

theorem handleTimeout_notDue {d : Device} {k : TimerKind} {t now : Instant}
    (h : SoleAlive d k t) (hlt : now < t) : d.handleTimeout now = some (d.drained now) := by
  refine foldlM_onTimer_other (fun k' hk' hal => ?_) now _
  obtain ⟨t', ht', hle⟩ := TimerQueue.mem_drain.mp hk'
  by_cases he : k' = k
  · rw [he, h.armed] at ht'
    obtain rfl := Option.some.inj ht'
    exact absurd hle (Nat.not_le_of_lt hlt)
  · rw [h.only k' hal he] at ht'
    cases ht'

theorem handleTimeout_due {d : Device} {k : TimerKind} {t now : Instant}
    (h : SoleAlive d k t) (hle : t ≤ now) :
    d.handleTimeout now = onTimer now (d.drained now) k := by
  refine foldlM_onTimer_sole (TimerQueue.mem_drain.mpr ⟨t, h.armed, hle⟩)
    (d.timers.nodup_drain now) (fun k' hk' hal => ?_) now _
  by_contra he
  obtain ⟨t', ht', -⟩ := TimerQueue.mem_drain.mp hk'
  rw [h.only k' hal he] at ht'
  cases ht'

/-! Counting down -/

theorem map_countDownAll {β : Type} {f : AdvertEntry → β} (hf : ∀ t, f t.countDown = f t)
    (ts : List AdvertEntry) : (countDownAll ts).2.map f = ts.map f := by
  induction ts with
  | nil => rfl
  | cons t ts ih =>
      simp only [countDownAll]
      split
      · rw [List.map_cons, List.map_cons, hf, ih]
      · rw [List.map_cons, List.map_cons, hf]

theorem countDown_ntStr (t : AdvertEntry) : t.countDown.ntStr = t.ntStr := by
  unfold AdvertEntry.countDown
  split <;> rfl

theorem countDown_maxAge (t : AdvertEntry) : t.countDown.maxAge = t.maxAge := by
  unfold AdvertEntry.countDown
  split <;> rfl

/-! Alive rounds -/

theorem scheduleAliveRefresh_eq_some {d d' : Device} {now : Instant}
    (h : d.scheduleAliveRefresh now = some d') :
    d' = { d with timers := d.timers.set ⟨now + d.aliveInterval, .aliveRefresh⟩ } := by
  obtain ⟨t, ht, hd⟩ := Option.bind_eq_some_iff.mp h
  obtain rfl := Instant.add_eq_some ht
  exact (Option.some.inj hd).symm

theorem scheduleAliveRefresh_returns {d : Device} {now : Instant}
    (h : now + d.aliveInterval ≤ Duration.max) : ∃ d', d.scheduleAliveRefresh now = some d' := by
  rw [scheduleAliveRefresh, Instant.add_of_le h]
  exact ⟨_, rfl⟩

theorem jitter_range (r : UInt32) :
    100 ≤ (100 + r % 100).toNat ∧ (100 + r % 100).toNat ≤ 199 := by
  have hr : (r % 100).toNat = r.toNat % 100 := UInt32.toNat_mod r 100
  have hlt : r.toNat % 100 < 100 := Nat.mod_lt _ (by decide)
  have h100 : UInt32.toNat 100 = 100 := rfl
  rw [UInt32.toNat_add, hr, h100]
  omega

theorem scheduleInitialAlive_eq_some {d d' : Device} {now : Instant}
    (h : d.scheduleInitialAlive now = some d') :
    ∃ fireAt rng, now + Duration.fromMillis 100 ≤ fireAt ∧
      fireAt ≤ now + Duration.fromMillis 199 ∧
      d' = { d with rngState := rng, timers := d.timers.set ⟨fireAt, .initialAlive⟩ } := by
  obtain ⟨t, ht, hd⟩ := Option.bind_eq_some_iff.mp h
  obtain rfl := Instant.add_eq_some ht
  obtain ⟨hl, hr⟩ := jitter_range d.nextRand.1
  exact ⟨_, _, Nat.add_le_add_left (Nat.mul_le_mul_right _ hl) now,
    Nat.add_le_add_left (Nat.mul_le_mul_right _ hr) now, (Option.some.inj hd).symm⟩

theorem scheduleInitialAlive_returns {d : Device} {now : Instant}
    (h : now + Duration.fromMillis 199 ≤ Duration.max) :
    ∃ d', d.scheduleInitialAlive now = some d' := by
  have hle := (Nat.add_le_add_left (Nat.mul_le_mul_right (10 ^ 6)
    (jitter_range d.nextRand.1).2) now).trans h
  unfold scheduleInitialAlive
  exact ⟨_, Option.bind_eq_some_iff.mpr ⟨_, Instant.add_of_le hle, rfl⟩⟩

theorem aliveInterval_round {d : Device} (hp : d.Packed) (dest : Destination) :
    (d.sendAliveAll dest).countDownTargets.2.aliveInterval = d.aliveInterval := by
  have htargets := (sendAliveAll_queues hp dest).effect.targets
  rw [aliveInterval, countDownTargets, map_countDownAll countDown_maxAge, htargets]
  rfl

theorem onInitialAlive_returns {d : Device} {now : Instant} (hp : d.Packed)
    (hinterval : now + d.aliveInterval ≤ Duration.max)
    (hjitter : now + Duration.fromMillis 199 ≤ Duration.max) :
    ∃ d', d.onInitialAlive now = some d' := by
  have hround := aliveInterval_round hp .multicastV4
  unfold onInitialAlive
  generalize d.sendAliveAll .multicastV4 = sent at hround
  dsimp only
  split
  · exact scheduleAliveRefresh_returns (hround ▸ hinterval)
  · exact scheduleInitialAlive_returns hjitter

/-- The timer that an alive round of the burst sets. -/
def NextAlive (d : Device) (now : Instant) (next : Timer) : Prop :=
  (countDownAll d.targets.toList).1 = true ∧ next = ⟨now + d.aliveInterval, .aliveRefresh⟩ ∨
    (countDownAll d.targets.toList).1 = false ∧ next.kind = .initialAlive ∧
      now + Duration.fromMillis 100 ≤ next.fireAt ∧ next.fireAt ≤ now + Duration.fromMillis 199

/-- An alive round of the initial burst. -/
theorem onInitialAlive_effect {d d' : Device} {now : Instant} (hp : d.Packed)
    (h : d.onInitialAlive now = some d') :
    ∃ next : Timer, d.NextAlive now next ∧
      Effect d d' (countDownAll d.targets.toList).2 (d.timers.set next) d.shuttingDown
        ((d.aliveDatagrams .multicastV4).foldl pushOrDrop d.queue) := by
  have hs := (sendAliveAll_queues hp .multicastV4).effect
  have hinterval := aliveInterval_round hp .multicastV4
  unfold onInitialAlive at h
  generalize d.sendAliveAll .multicastV4 = sent at h hs hinterval
  have hsame : SameIdentity d sent.countDownTargets.2 :=
    ⟨hs.same.uuid, hs.same.location, hs.same.server, hs.same.bootid, hs.same.configid⟩
  have hpacked : sent.countDownTargets.2.Packed := ⟨hs.packed.packed, hs.packed.used_le⟩
  have htargets : sent.countDownTargets.2.targets.toList = (countDownAll d.targets.toList).2 := by
    rw [← hs.targets]
    rfl
  have hdone : sent.countDownTargets.1 = (countDownAll d.targets.toList).1 := by
    rw [← hs.targets]
    rfl
  dsimp only at h
  cases hcase : (countDownAll d.targets.toList).1 with
  | true =>
      rw [hdone, if_pos hcase] at h
      obtain rfl := scheduleAliveRefresh_eq_some h
      refine ⟨⟨now + d.aliveInterval, .aliveRefresh⟩, .inl ⟨hcase, rfl⟩,
        ⟨hsame.uuid, hsame.location, hsame.server, hsame.bootid, hsame.configid⟩, htargets, ?_,
        hs.down, ⟨hpacked.packed, hpacked.used_le⟩, hs.queue⟩
      rw [hinterval, ← hs.timers]
      rfl
  | false =>
      rw [hdone, if_neg (by simp [hcase])] at h
      obtain ⟨t, rng, hl, hr, rfl⟩ := scheduleInitialAlive_eq_some h
      refine ⟨⟨t, .initialAlive⟩, .inr ⟨hcase, rfl, hl, hr⟩,
        ⟨hsame.uuid, hsame.location, hsame.server, hsame.bootid, hsame.configid⟩, htargets, ?_,
        hs.down, ⟨hpacked.packed, hpacked.used_le⟩, hs.queue⟩
      rw [← hs.timers]
      rfl

theorem onAliveRefresh_returns {d : Device} {now : Instant} (hp : d.Packed)
    (hinterval : now + d.aliveInterval ≤ Duration.max) : ∃ d', d.onAliveRefresh now = some d' := by
  have htargets := (sendAliveAll_queues hp .multicastV4).effect.targets
  unfold onAliveRefresh
  split
  · exact ⟨_, rfl⟩
  · refine scheduleAliveRefresh_returns ?_
    rw [aliveInterval, htargets]
    exact hinterval

/-- An alive round of the periodic refresh. -/
theorem onAliveRefresh_effect {d d' : Device} {now : Instant} (hp : d.Packed)
    (hdown : d.shuttingDown = false) (h : d.onAliveRefresh now = some d') :
    Effect d d' d.targets.toList (d.timers.set ⟨now + d.aliveInterval, .aliveRefresh⟩)
      d.shuttingDown ((d.aliveDatagrams .multicastV4).foldl pushOrDrop d.queue) := by
  obtain ⟨⟨pend, buf, events, hs⟩, hpacked, hqueue⟩ := sendAliveAll_queues hp .multicastV4
  rw [onAliveRefresh, hdown, if_neg (by decide), hs] at h
  rw [hs] at hpacked hqueue
  obtain rfl := scheduleAliveRefresh_eq_some h
  exact ⟨⟨rfl, rfl, rfl, rfl, rfl⟩, rfl, rfl, rfl, ⟨hpacked.packed, hpacked.used_le⟩, hqueue⟩

theorem onAliveRefresh_down {d d' : Device} {now : Instant} (hp : d.Packed)
    (hdown : d.shuttingDown = true) (h : d.onAliveRefresh now = some d') :
    Effect d d' d.targets.toList d.timers d.shuttingDown
      (d.byebyeDatagrams.foldl pushOrDrop d.queue) := by
  rw [onAliveRefresh, if_pos hdown] at h
  obtain rfl := Option.some.inj h
  exact (sendByebyeAll_queues hp).effect

/-! The other operations -/

theorem addTarget_cases (d : Device) (nt : TargetRef) (maxAge : Duration) :
    d.addTarget nt maxAge = (false, d) ∨
      ∃ ntStr targets, targetToString nt = some ntStr ∧ d.targets.toList.length < maxTargets ∧
        targets.toList = d.targets.toList ++ [⟨ntStr, maxAge, UInt8.ofNat initialAliveCount⟩] ∧
        d.addTarget nt maxAge = (true, { d with targets }) := by
  unfold addTarget
  by_cases hfull : d.targets.isFull = true
  · exact .inl (if_pos hfull)
  · rw [if_neg hfull]
    cases hs : targetToString nt with
    | none => exact .inl rfl
    | some ntStr =>
        rw [BoundedVec.isFull_iff, Nat.not_le] at hfull
        refine .inr ⟨ntStr, _, rfl, hfull, ?_, rfl⟩
        rw [BoundedVec.toList_pushOrDrop, if_pos hfull]

theorem start_effect {d : Device} (hp : d.Packed) (now : Instant) :
    Effect d (d.start now) d.targets.toList (d.timers.set ⟨now, .initialAlive⟩) d.shuttingDown
      d.queue :=
  ⟨⟨rfl, rfl, rfl, rfl, rfl⟩, rfl, rfl, rfl, ⟨hp.packed, hp.used_le⟩, rfl⟩

theorem shutdown_effect {d : Device} (hp : d.Packed) (now : Instant) :
    Effect d (d.shutdown now) d.targets.toList
      (((d.timers.set ⟨now, .searchResponse⟩).cancel .aliveRefresh).cancel .initialAlive) true
      (d.byebyeDatagrams.foldl pushOrDrop d.queue) := by
  have hp' : ({ d with shuttingDown := true } : Device).Packed := ⟨hp.packed, hp.used_le⟩
  obtain ⟨⟨pend, buf, events, hs⟩, hpacked, hqueue⟩ := sendByebyeAll_queues hp'
  rw [hs] at hpacked hqueue
  unfold shutdown
  dsimp only
  rw [hs]
  exact ⟨⟨rfl, rfl, rfl, rfl, rfl⟩, rfl, rfl, rfl, ⟨hpacked.packed, hpacked.used_le⟩, hqueue⟩

theorem handleSearch_effect {d d' : Device} {now : Instant} {source : SocketAddr}
    {search : MSearchRef} (hp : d.Packed) (h : d.handleSearch now source search = some d') :
    ∃ fireAt, Effect d d' d.targets.toList (d.timers.set ⟨fireAt, .searchResponse⟩)
      d.shuttingDown (pushWhile d.queue (d.responseDatagrams (.unicast source) search.st)) := by
  obtain ⟨ms, -, h⟩ := Option.bind_eq_some_iff.mp h
  obtain ⟨t, -, h⟩ := Option.bind_eq_some_iff.mp h
  obtain rfl := (Option.some.inj h).symm
  let x : Device := { d.nextRand.2 with
    events := d.events.pushOrDrop (.searchReceived source)
    timers := d.timers.set ⟨t, .searchResponse⟩ }
  have hpx : x.Packed := ⟨hp.packed, hp.used_le⟩
  obtain ⟨hsame, htargets, htimers, hdown, hpacked, hqueue⟩ :=
    (encodeSearchResponses_queues hpx source search.st).effect
  exact ⟨t, ⟨hsame.uuid, hsame.location, hsame.server, hsame.bootid, hsame.configid⟩, htargets,
    htimers, hdown, hpacked, hqueue⟩

theorem toNat_searchJitter (mx : UInt8) : (mx.toUInt32 * 1000).toNat = mx.toNat * 1000 := by
  have hmx := mx.toNat_lt
  have h1000 : UInt32.toNat 1000 = 1000 := rfl
  rw [UInt32.toNat_mul, UInt8.toNat_toUInt32, h1000]
  omega

theorem handleSearch_returns (d : Device) (source : SocketAddr) {now : Instant}
    {search : MSearchRef} (hmx : search.mx ≠ 0)
    (hmax : now + Duration.fromMillis (search.mx.toNat * 1000) ≤ Duration.max) :
    ∃ d', d.handleSearch now source search = some d' := by
  have hjitter := toNat_searchJitter search.mx
  have hpos : 0 < search.mx.toNat := by
    refine Nat.pos_of_ne_zero fun h => hmx (UInt8.toNat_inj.mp h)
  have hne : search.mx.toUInt32 * 1000 ≠ 0 := by
    intro h
    rw [h] at hjitter
    have h0 : UInt32.toNat 0 = 0 := rfl
    omega
  have hle : ∀ r : UInt32, (r % (search.mx.toUInt32 * 1000)).toNat ≤ search.mx.toNat * 1000 := by
    intro r
    rw [UInt32.toNat_mod, hjitter]
    exact (Nat.mod_lt _ (by omega)).le
  unfold handleSearch
  refine ⟨_, Option.bind_eq_some_iff.mpr ⟨_, if_neg hne, Option.bind_eq_some_iff.mpr
    ⟨_, Instant.add_of_le (le_trans ?_ hmax), rfl⟩⟩⟩
  exact Nat.add_le_add_left (Nat.mul_le_mul_right _ (hle _)) now

/-! The datagrams an operation adds -/

def keys (d : Device) : List (BoundedStr maxUrnLen × Duration) :=
  d.targets.toList.map AdvertEntry.key

/-- An encoded datagram of the device; `P` holds of the targets it was searched for. -/
def Own (P : TargetRef → Prop) (d : Device) (payload : List UInt8) : Prop :=
  ∃ t ∈ d.targets.toList, payload = (d.aliveNotify t).wire ∨ payload = (d.byebyeNotify t).wire ∨
    ∃ st, P st ∧ t.answers st = true ∧ payload = (d.searchResponse st t).wire

/-- The identity and the registrations are kept, and the device sent datagrams of its own. -/
structure Advances (P : TargetRef → Prop) (d d' : Device) : Prop where
  same : SameIdentity d d'
  keys : d'.keys = d.keys
  packed : d'.Packed
  queue : ∃ added, d'.queue = d.queue ++ added ∧ ∀ x ∈ added, d.Own P x.2

section
variable {P : TargetRef → Prop}

theorem Own.of_same {d d' : Device} (hs : SameIdentity d d') (hk : d'.keys = d.keys)
    {payload : List UInt8} (h : d'.Own P payload) : d.Own P payload := by
  obtain ⟨t, ht, h⟩ := h
  have hmem : t.key ∈ d.keys := hk ▸ List.mem_map_of_mem ht
  obtain ⟨u, hu, hkey⟩ := List.mem_map.mp hmem
  obtain ⟨hn, ha⟩ := Prod.mk.inj hkey
  rw [hs.aliveNotify, hs.byebyeNotify] at h
  have halive : d.aliveNotify u = d.aliveNotify t := by simp only [aliveNotify, hn, ha]
  have hbyebye : d.byebyeNotify u = d.byebyeNotify t := by simp only [byebyeNotify, hn]
  refine ⟨u, hu, ?_⟩
  rw [halive, hbyebye]
  refine h.imp_right (Or.imp_right ?_)
  rintro ⟨st, hst, hans, rfl⟩
  refine ⟨st, hst, ?_, ?_⟩
  · rw [AdvertEntry.answers, hn]
    exact hans
  · rw [hs.searchResponse]
    simp only [searchResponse, hn, ha]

theorem Advances.refl {d : Device} (hp : d.Packed) : Advances P d d :=
  ⟨.refl d, rfl, hp, [], by simp, by simp⟩

theorem Advances.trans {a b c : Device} (h : Advances P a b) (h' : Advances P b c) :
    Advances P a c := by
  obtain ⟨q, hq, hown⟩ := h.queue
  obtain ⟨q', hq', hown'⟩ := h'.queue
  refine ⟨h.same.trans h'.same, h'.keys.trans h.keys, h'.packed, q ++ q', ?_, fun x hx => ?_⟩
  · rw [hq', hq, List.append_assoc]
  · rcases List.mem_append.mp hx with hx | hx
    · exact hown x hx
    · exact (hown' x hx).of_same h.same h.keys

theorem Effect.advances {d d' : Device} {targets : List AdvertEntry} {timers : TimerQueue 8}
    {down : Bool} {q : List Datagram} (h : Effect d d' targets timers down q)
    (hk : targets.map AdvertEntry.key = d.keys)
    (hq : ∃ added, q = d.queue ++ added ∧ ∀ x ∈ added, d.Own P x.2) : Advances P d d' := by
  refine ⟨h.same, ?_, h.packed, h.queue ▸ hq⟩
  rw [Device.keys, h.targets, hk]

theorem added_pushOrDrop {d : Device} {new : List Datagram} (hown : ∀ x ∈ new, d.Own P x.2) :
    ∃ added, new.foldl pushOrDrop d.queue = d.queue ++ added ∧ ∀ x ∈ added, d.Own P x.2 := by
  obtain ⟨added, hsub, h⟩ := foldl_pushOrDrop_added d.queue new
  exact ⟨added, h, fun x hx => hown x (hsub.subset hx)⟩

theorem own_aliveDatagrams (d : Device) (dest : Destination) :
    ∀ x ∈ d.aliveDatagrams dest, d.Own P x.2 := by
  intro x hx
  obtain ⟨t, ht, rfl⟩ := List.mem_map.mp hx
  exact ⟨t, ht, .inl rfl⟩

theorem own_byebyeDatagrams (d : Device) : ∀ x ∈ d.byebyeDatagrams, d.Own P x.2 := by
  intro x hx
  obtain ⟨t, ht, rfl⟩ := List.mem_map.mp hx
  exact ⟨t, ht, .inr (.inl rfl)⟩

theorem own_responseDatagrams (d : Device) (dest : Destination) {st : TargetRef} (hst : P st) :
    ∀ x ∈ d.responseDatagrams dest st, d.Own P x.2 := by
  intro x hx
  obtain ⟨t, ht, rfl⟩ := List.mem_map.mp hx
  obtain ⟨ht, hans⟩ := List.mem_filter.mp ht
  exact ⟨t, ht, .inr (.inr ⟨st, hst, hans, rfl⟩)⟩

theorem key_countDown (t : AdvertEntry) : t.countDown.key = t.key := by
  simp only [AdvertEntry.key, countDown_ntStr, countDown_maxAge]

theorem advances_onTimer {d d' : Device} {now : Instant} {k : TimerKind} (hp : d.Packed)
    (h : onTimer now d k = some d') : Advances P d d' := by
  cases k with
  | initialAlive =>
      obtain ⟨next, -, he⟩ := onInitialAlive_effect hp h
      exact he.advances (map_countDownAll key_countDown _)
        (added_pushOrDrop (own_aliveDatagrams d _))
  | aliveRefresh =>
      cases hdown : d.shuttingDown with
      | false =>
          exact (onAliveRefresh_effect hp hdown h).advances rfl
            (added_pushOrDrop (own_aliveDatagrams d _))
      | true =>
          exact (onAliveRefresh_down hp hdown h).advances rfl
            (added_pushOrDrop (own_byebyeDatagrams d))
  | searchResponse | searchRetransmit | cacheExpiry =>
      cases h
      exact .refl hp

theorem advances_foldlM {d d' : Device} {now : Instant} {ks : List TimerKind} (hp : d.Packed)
    (h : ks.foldlM (onTimer now) d = some d') : Advances P d d' := by
  induction ks generalizing d with
  | nil =>
      cases h
      exact .refl hp
  | cons k ks ih =>
      obtain ⟨d₁, h₁, h₂⟩ := Option.bind_eq_some_iff.mp (by simpa using h)
      have hstep := advances_onTimer (P := P) hp h₁
      exact hstep.trans (ih hstep.packed h₂)

theorem advances_drained {d : Device} (hp : d.Packed) (now : Instant) :
    Advances P d (d.drained now) :=
  ⟨⟨rfl, rfl, rfl, rfl, rfl⟩, rfl, ⟨hp.packed, hp.used_le⟩, [], by simp; rfl, by simp⟩

theorem advances_handleTimeout {d d' : Device} {now : Instant} (hp : d.Packed)
    (h : d.handleTimeout now = some d') : Advances P d d' :=
  (advances_drained hp now).trans (advances_foldlM (advances_drained (P := P) hp now).packed h)

theorem advances_handleSearch {d d' : Device} {now : Instant} {source : SocketAddr}
    {search : MSearchRef} (hp : d.Packed) (hst : P search.st)
    (h : d.handleSearch now source search = some d') : Advances P d d' := by
  obtain ⟨t, he⟩ := handleSearch_effect hp h
  refine he.advances rfl ?_
  obtain ⟨n, hn⟩ := pushWhile_added d.queue (d.responseDatagrams (.unicast source) search.st)
  exact ⟨_, hn, fun x hx => own_responseDatagrams d _ hst x (List.mem_of_mem_take hx)⟩

theorem advances_handleDatagram {httparse : List UInt8 → Nat → Outcome} {d d' : Device}
    {now : Instant} {source : SocketAddr} {payload : List UInt8} (hp : d.Packed)
    (hP : ∀ m, parseDatagram httparse payload = .ok (.search m) → P m.st)
    (h : d.handleDatagram httparse now source payload = some d') : Advances P d d' := by
  unfold handleDatagram at h
  split at h
  · rename_i search hs
    exact advances_handleSearch hp (hP search hs) h
  · cases h
    exact .refl hp

theorem advances_start {d : Device} (hp : d.Packed) (now : Instant) :
    Advances P d (d.start now) :=
  (start_effect hp now).advances rfl ⟨[], by simp, by simp⟩

theorem advances_shutdown {d : Device} (hp : d.Packed) (now : Instant) :
    Advances P d (d.shutdown now) :=
  (shutdown_effect hp now).advances rfl (added_pushOrDrop (own_byebyeDatagrams d))

theorem advances_pollEvent {d : Device} (hp : d.Packed) : Advances P d d.pollEvent.2 := by
  unfold pollEvent
  split
  · exact .refl hp
  · exact ⟨⟨rfl, rfl, rfl, rfl, rfl⟩, rfl, ⟨hp.packed, hp.used_le⟩, [], by simp; rfl, by simp⟩

end

/-! Operations that run no timer -/

/-- The alive timers are those of `d`, and so is the flag. -/
structure SameAlive (d d' : Device) : Prop where
  armed : ∀ k, IsAlive k → d'.timers.armed k = d.timers.armed k
  down : d'.shuttingDown = d.shuttingDown

theorem SameAlive.refl (d : Device) : SameAlive d d := ⟨fun _ _ => rfl, rfl⟩

/-- What receiving and polling leave alone. -/
structure Passes (d d' : Device) : Prop where
  same : SameIdentity d d'
  targets : d'.targets.toList = d.targets.toList
  alive : SameAlive d d'
  packed : d'.Packed

theorem Passes.refl {d : Device} (hp : d.Packed) : Passes d d :=
  ⟨.refl d, rfl, .refl d, hp⟩

theorem Passes.keys {d d' : Device} (h : Passes d d') : d'.keys = d.keys :=
  congrArg (List.map AdvertEntry.key) h.targets

theorem passes_handleSearch {d d' : Device} {now : Instant} {source : SocketAddr}
    {search : MSearchRef} (hp : d.Packed) (h : d.handleSearch now source search = some d') :
    Passes d d' := by
  obtain ⟨t, he⟩ := handleSearch_effect hp h
  refine ⟨he.same, he.targets, ⟨fun k hk => ?_, he.down⟩, he.packed⟩
  have hne : k ≠ .searchResponse := by
    rintro rfl
    rcases hk with hk | hk <;> cases hk
  rw [he.timers, armed_set, if_neg hne]

theorem passes_handleDatagram {httparse : List UInt8 → Nat → Outcome} {d d' : Device}
    {now : Instant} {source : SocketAddr} {payload : List UInt8} (hp : d.Packed)
    (h : d.handleDatagram httparse now source payload = some d') : Passes d d' := by
  unfold handleDatagram at h
  split at h
  · exact passes_handleSearch hp h
  · cases h
    exact .refl hp

theorem passes_pollTransmit {d : Device} (hp : d.Packed) (bufLen : Nat) :
    Passes d (d.pollTransmit bufLen).2 := by
  obtain ⟨-, he⟩ | ⟨q, dest, payload, rest, -, he, hpacked, -⟩ := pollTransmit_cases hp bufLen
  · rw [he]
    exact .refl hp
  · rw [he]
    exact ⟨⟨rfl, rfl, rfl, rfl, rfl⟩, rfl, ⟨fun _ _ => rfl, rfl⟩, hpacked⟩

theorem passes_pollEvent {d : Device} (hp : d.Packed) : Passes d d.pollEvent.2 := by
  unfold pollEvent
  split
  · exact .refl hp
  · exact ⟨⟨rfl, rfl, rfl, rfl, rfl⟩, rfl, ⟨fun _ _ => rfl, rfl⟩, ⟨hp.packed, hp.used_le⟩⟩

theorem passes_step {httparse : List UInt8 → Nat → Outcome} {op : DeviceOp} {d d' : Device}
    (hp : d.Packed) (h : op.step httparse d = some d') (hpass : op.Passive)
    (hop : op.Serving) : Passes d d' := by
  cases op with
  | addTarget nt maxAge => cases hop
  | start now => cases hop
  | shutdown now => cases hop
  | handleTimeout now => cases hpass
  | handleDatagram now source payload => exact passes_handleDatagram hp h
  | pollTransmit bufLen =>
      cases h
      exact passes_pollTransmit hp bufLen
  | pollEvent =>
      cases h
      exact passes_pollEvent hp
  | pollTimeout =>
      cases h
      exact .refl hp

/-- The queue stays packed in every operation. -/
theorem packed_step {httparse : List UInt8 → Nat → Outcome} (op : DeviceOp) (d d' : Device)
    (hp : d.Packed) (h : op.step httparse d = some d') : d'.Packed := by
  cases op with
  | addTarget nt maxAge =>
      cases h
      obtain he | ⟨ntStr, targets, -, -, -, he⟩ := d.addTarget_cases nt maxAge
      · rw [he]
        exact hp
      · rw [he]
        exact ⟨hp.packed, hp.used_le⟩
  | start now =>
      cases h
      exact (start_effect hp now).packed
  | shutdown now =>
      cases h
      exact (shutdown_effect hp now).packed
  | handleTimeout now => exact (advances_handleTimeout (P := fun _ => True) hp h).packed
  | handleDatagram | pollTransmit | pollEvent | pollTimeout =>
      exact (passes_step hp h trivial trivial).packed

end Device
end RustyCastle.Ssdp
