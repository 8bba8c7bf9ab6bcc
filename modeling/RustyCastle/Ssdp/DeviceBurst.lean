import RustyCastle.Ssdp.DeviceSchedule

/-!
The initial burst. The loop over the counters ends at the first target that is
not done, so a round counts down one target and the burst takes two rounds for
every target and one more. Every round announces the same datagrams.
-/

namespace RustyCastle.Ssdp
open Foundation Foundation.HeaderBlock Foundation.Runs

/-- The rounds up to the end of the burst, the last one included. -/
def roundsLeft : List AdvertEntry → Nat
  | [] => 1
  | t :: ts => (t.initialRemaining.toNat - 1) + roundsLeft ts

theorem toNat_countDown (t : AdvertEntry) :
    t.countDown.initialRemaining.toNat = t.initialRemaining.toNat - 1 := by
  unfold AdvertEntry.countDown
  split
  · rename_i hpos
    have hle : (1 : UInt8) ≤ t.initialRemaining := by
      rw [UInt8.lt_iff_toNat_lt] at hpos
      rw [UInt8.le_iff_toNat_le]
      exact hpos
    exact UInt8.toNat_sub_of_le _ _ hle
  · rename_i hpos
    rw [UInt8.lt_iff_toNat_lt, Nat.not_lt] at hpos
    have h0 : UInt8.toNat 0 = 0 := rfl
    omega

theorem roundsLeft_pos (ts : List AdvertEntry) : 1 ≤ roundsLeft ts := by
  induction ts with
  | nil => exact Nat.le_refl 1
  | cons t ts ih => exact ih.trans (Nat.le_add_left _ _)

/-- A round is the last, or one round less is left. -/
theorem countDownAll_cases (ts : List AdvertEntry) :
    (countDownAll ts).1 = true ∧ roundsLeft ts = 1 ∨
      (countDownAll ts).1 = false ∧ roundsLeft (countDownAll ts).2 + 1 = roundsLeft ts := by
  induction ts with
  | nil => exact .inl ⟨rfl, rfl⟩
  | cons t ts ih =>
      have hdown := toNat_countDown t
      have hpos := roundsLeft_pos ts
      simp only [countDownAll]
      by_cases hzero : t.countDown.initialRemaining = 0
      · have h0 : t.countDown.initialRemaining.toNat = 0 := congrArg UInt8.toNat hzero
        rw [if_pos hzero]
        simp only [roundsLeft]
        rcases ih with ⟨hdone, hleft⟩ | ⟨hdone, hleft⟩
        · exact .inl ⟨hdone, by omega⟩
        · exact .inr ⟨hdone, by omega⟩
      · have h0 : t.countDown.initialRemaining.toNat ≠ 0 := fun h =>
          hzero (UInt8.toNat_inj.mp h)
        rw [if_neg hzero]
        refine .inr ⟨rfl, ?_⟩
        simp only [roundsLeft]
        omega

/-- The counter of every target is at its start. -/
def AdvertEntry.Fresh (t : AdvertEntry) : Prop :=
  t.initialRemaining = UInt8.ofNat initialAliveCount

theorem roundsLeft_fresh {ts : List AdvertEntry} (h : ∀ t ∈ ts, t.Fresh) :
    roundsLeft ts = 2 * ts.length + 1 := by
  induction ts with
  | nil => rfl
  | cons t ts ih =>
      have ht : t.initialRemaining.toNat = 3 :=
        congrArg UInt8.toNat (h t (List.mem_cons_self ..))
      have hrest := ih fun u hu => h u (List.mem_cons_of_mem t hu)
      simp only [roundsLeft, List.length_cons]
      omega

/-- A step of a caller that polls every datagram before a timeout. It keeps the
datagrams of each initial round. -/
def DeviceOp.stepBurst (httparse : List UInt8 → Nat → Outcome) :
    DeviceOp → Device × List (List Datagram) → Option (Device × List (List Datagram))
  | .handleTimeout now, (d, rounds) =>
      if d.queue = [] then
        (d.handleTimeout now).map fun d' =>
          (d', if .initialAlive ∈ (d.timers.drainExpired now).1 then rounds ++ [d'.queue]
            else rounds)
      else none
  | op, (d, rounds) => (op.step httparse d).map fun d' => (d', rounds)

namespace Device

/-! Before the start -/

/-- A device that has not been started, with no counter changed. -/
structure Ready (d : Device) : Prop where
  idle : d.Idle
  fresh : ∀ t ∈ d.targets.toList, t.Fresh

theorem ready_new (uuid location : Str) (server : Option Str) (bootid configid seed : UInt32) :
    (new uuid location server bootid configid seed).Ready :=
  ⟨idle_new .., by rintro t ⟨⟩⟩

theorem ready_step {httparse : List UInt8 → Nat → Outcome} (op : DeviceOp) (d d' : Device)
    (hop : op.BeforeStart) (hr : d.Ready) (h : op.step httparse d = some d') : d'.Ready := by
  refine ⟨idle_step op d d' hop hr.idle h, ?_⟩
  cases op with
  | start now => cases hop
  | shutdown now => cases hop
  | addTarget nt maxAge =>
      cases h
      obtain he | ⟨ntStr, targets, -, -, ht, he⟩ := d.addTarget_cases nt maxAge
      · rw [he]
        exact hr.fresh
      · rw [he]
        intro t hmem
        rw [ht] at hmem
        rcases List.mem_append.mp hmem with hmem | hmem
        · exact hr.fresh t hmem
        · rw [List.mem_singleton.mp hmem]
          rfl
  | handleTimeout now =>
      obtain rfl := Option.some.inj ((handleTimeout_noAlive hr.idle.noAlive now).symm.trans h)
      exact hr.fresh
  | handleDatagram | pollTransmit | pollEvent | pollTimeout =>
      rw [(passes_step hr.idle.packed h trivial trivial).targets]
      exact hr.fresh

/-! Rounds -/

theorem aliveDatagrams_of_keys {d d' : Device} (hs : SameIdentity d d') (hk : d'.keys = d.keys)
    (dest : Destination) : d'.aliveDatagrams dest = d.aliveDatagrams dest := by
  have hkeys : ∀ ts : List AdvertEntry, (ts.map fun t => (dest, (d.aliveNotify t).wire)) =
      (ts.map AdvertEntry.key).map fun k => (dest, (d.aliveNotify ⟨k.1, k.2, 0⟩).wire) := by
    intro ts
    rw [List.map_map]
    rfl
  simp only [aliveDatagrams, hs.aliveNotify, hkeys]
  rw [← keys, hk, keys]

/-- What one initial round sends. -/
def roundDatagrams (d : Device) : List Datagram :=
  (d.aliveDatagrams .multicastV4).foldl pushOrDrop []

/-- The burst of `d₀` goes on, or it has ended. -/
inductive Phase (d₀ d : Device) (count : Nat) : Prop where
  | going (t : Instant) (sole : SoleAlive d .initialAlive t)
      (left : roundsLeft d.targets.toList + count = 2 * d₀.targets.toList.length + 1)
  | ended (t : Instant) (sole : SoleAlive d .aliveRefresh t)
      (count_eq : count = 2 * d₀.targets.toList.length + 1)

structure Bursting (d₀ : Device) (s : Device × List (List Datagram)) : Prop where
  packed : s.1.Packed
  up : s.1.shuttingDown = false
  same : SameIdentity d₀ s.1
  keys : s.1.keys = d₀.keys
  rounds : ∀ q ∈ s.2, q = d₀.roundDatagrams
  phase : Phase d₀ s.1 s.2.length

theorem Ready.bursting {d : Device} (h : d.Ready) (t₀ : Instant) :
    Bursting d (d.start t₀, []) where
  packed := (start_effect h.idle.packed t₀).packed
  up := h.idle.up
  same := (start_effect h.idle.packed t₀).same
  keys := rfl
  rounds := nofun
  phase := .going t₀ (h.idle.start t₀) (roundsLeft_fresh h.fresh)

theorem Phase.of_same {d₀ d d' : Device} {count : Nat} (h : Phase d₀ d count)
    (hs : SameAlive d d') (ht : d'.targets.toList = d.targets.toList) : Phase d₀ d' count := by
  cases h with
  | going t sole left => exact .going t (hs.soleAlive sole) (ht ▸ left)
  | ended t sole count_eq => exact .ended t (hs.soleAlive sole) count_eq

/-- After an initial round: it was the last, or it counted one round down. -/
inductive RoundEnd (d d' : Device) (now : Instant) : Prop where
  | last (left : roundsLeft d.targets.toList = 1)
      (sole : SoleAlive d' .aliveRefresh (now + d.aliveInterval))
  | next (t : Instant) (left : roundsLeft d'.targets.toList + 1 = roundsLeft d.targets.toList)
      (sole : SoleAlive d' .initialAlive t) (le : t ≤ now + Duration.fromMillis 199)

theorem NextAlive.roundEnd {d d' : Device} {now : Instant} {next : Timer} {timers : TimerQueue 8}
    (h : d.NextAlive now next) (htargets : d'.targets.toList = (countDownAll d.targets.toList).2)
    (htimers : d'.timers = timers.set next) (hnone : ∀ k, IsAlive k → timers.armed k = none) :
    RoundEnd d d' now := by
  have hsole : IsAlive next.kind → SoleAlive d' next.kind next.fireAt :=
    fun hk => .of_set htimers hk hnone
  rcases countDownAll_cases d.targets.toList with ⟨hdone, hleft⟩ | ⟨hdone, hleft⟩
  · rcases h with ⟨-, rfl⟩ | ⟨hdone', -⟩
    · exact .last hleft (hsole isAlive_aliveRefresh)
    · exact absurd (hdone.symm.trans hdone') (by decide)
  · rcases h with ⟨hdone', -⟩ | ⟨-, hk, -, hle⟩
    · exact absurd (hdone'.symm.trans hdone) (by decide)
    · exact .next next.fireAt (htargets ▸ hleft) (hk ▸ hsole (hk ▸ isAlive_initialAlive)) hle

/-- A due initial timer runs a round. -/
theorem initialRound {d d' : Device} {t now : Instant} (hp : d.Packed)
    (hs : SoleAlive d .initialAlive t) (hle : t ≤ now) (h : d.handleTimeout now = some d') :
    d'.shuttingDown = d.shuttingDown ∧
      d'.queue = (d.aliveDatagrams .multicastV4).foldl pushOrDrop d.queue ∧ RoundEnd d d' now := by
  have hpd : (d.drained now).Packed := ⟨hp.packed, hp.used_le⟩
  rw [handleTimeout_due hs hle] at h
  obtain ⟨next, hnext, he⟩ := onInitialAlive_effect hpd h
  have hround : NextAlive d now next := hnext
  exact ⟨he.down, he.queue, hround.roundEnd he.targets he.timers (hs.drained_of_due hle)⟩

theorem RoundEnd.phase {d₀ d d' : Device} {now : Instant} {count : Nat} (h : RoundEnd d d' now)
    (hleft : roundsLeft d.targets.toList + count = 2 * d₀.targets.toList.length + 1) :
    Phase d₀ d' (count + 1) := by
  cases h with
  | last left sole => exact .ended _ sole (by omega)
  | next t left sole le => exact .going t sole (by omega)

theorem initial_mem_drain {d : Device} {k : TimerKind} {t now : Instant} (hs : SoleAlive d k t) :
    .initialAlive ∈ (d.timers.drainExpired now).1 ↔ k = .initialAlive ∧ t ≤ now := by
  rw [TimerQueue.mem_drain]
  constructor
  · rintro ⟨t', harmed, hle⟩
    by_cases hk : .initialAlive = k
    · rw [hk, hs.armed] at harmed
      exact ⟨hk.symm, Option.some.inj harmed ▸ hle⟩
    · rw [hs.only .initialAlive isAlive_initialAlive hk] at harmed
      cases harmed
  · rintro ⟨rfl, hle⟩
    exact ⟨t, hs.armed, hle⟩

theorem bursting_timeout {d₀ d d' : Device} {rounds : List (List Datagram)} {now : Instant}
    (hb : Bursting d₀ (d, rounds)) (hempty : d.queue = [])
    (h : d.handleTimeout now = some d') :
    Bursting d₀ (d', if .initialAlive ∈ (d.timers.drainExpired now).1 then rounds ++ [d'.queue]
      else rounds) := by
  have ha := advances_handleTimeout (P := fun _ => True) hb.packed h
  have hsame := hb.same.trans ha.same
  have hkeys := ha.keys.trans hb.keys
  cases hb.phase with
  | going t sole left =>
      by_cases hle : t ≤ now
      · obtain ⟨hdown, hqueue, hend⟩ := initialRound hb.packed sole hle h
        rw [hempty, aliveDatagrams_of_keys hb.same hb.keys] at hqueue
        rw [if_pos ((initial_mem_drain sole).mpr ⟨rfl, hle⟩)]
        refine ⟨ha.packed, hdown.trans hb.up, hsame, hkeys, fun q hq => ?_, ?_⟩
        · rcases List.mem_append.mp hq with hq | hq
          · exact hb.rounds q hq
          · rw [List.mem_singleton.mp hq, hqueue, roundDatagrams]
        · rw [List.length_append, List.length_singleton]
          exact hend.phase left
      · have hlt := Nat.lt_of_not_le hle
        obtain rfl := Option.some.inj ((handleTimeout_notDue sole hlt).symm.trans h)
        rw [if_neg fun hmem => hle ((initial_mem_drain sole).mp hmem).2]
        exact ⟨ha.packed, hb.up, hsame, hkeys, hb.rounds,
          .going t (soleAlive_drained sole hlt) left⟩
  | ended t sole count_eq =>
      have hnot : .initialAlive ∉ (d.timers.drainExpired now).1 := by
        rw [initial_mem_drain sole]
        rintro ⟨⟨⟩, -⟩
      rw [if_neg hnot]
      by_cases hle : t ≤ now
      · have hpd : (d.drained now).Packed := ⟨hb.packed.packed, hb.packed.used_le⟩
        rw [handleTimeout_due sole hle] at h
        have he := onAliveRefresh_effect hpd hb.up h
        exact ⟨ha.packed, he.down.trans hb.up, hsame, hkeys, hb.rounds,
          .ended _ (.of_set he.timers isAlive_aliveRefresh (sole.drained_of_due hle)) count_eq⟩
      · have hlt := Nat.lt_of_not_le hle
        obtain rfl := Option.some.inj ((handleTimeout_notDue sole hlt).symm.trans h)
        exact ⟨ha.packed, hb.up, hsame, hkeys, hb.rounds,
          .ended t (soleAlive_drained sole hlt) count_eq⟩

theorem bursting_passive {httparse : List UInt8 → Nat → Outcome} {op : DeviceOp} {d₀ d d' : Device}
    {rounds : List (List Datagram)} (hb : Bursting d₀ (d, rounds))
    (h : op.step httparse d = some d') (hpass : op.Passive) (hop : op.Serving) :
    Bursting d₀ (d', rounds) :=
  have hs := passes_step hb.packed h hpass hop
  ⟨hs.packed, hs.alive.down.trans hb.up, hb.same.trans hs.same, hs.keys.trans hb.keys, hb.rounds,
    hb.phase.of_same hs.alive hs.targets⟩

theorem bursting_step {httparse : List UInt8 → Nat → Outcome} {d₀ : Device} (op : DeviceOp)
    (s s' : Device × List (List Datagram)) (hop : op.Serving) (hb : Bursting d₀ s)
    (h : op.stepBurst httparse s = some s') : Bursting d₀ s' := by
  obtain ⟨d, rounds⟩ := s
  cases op with
  | addTarget nt maxAge => cases hop
  | start now => cases hop
  | shutdown now => cases hop
  | handleTimeout now =>
      simp only [DeviceOp.stepBurst] at h
      split at h
      · rename_i hempty
        obtain ⟨d', hd', rfl⟩ := Option.map_eq_some_iff.mp h
        exact bursting_timeout hb hempty hd'
      · cases h
  | handleDatagram | pollTransmit | pollEvent | pollTimeout =>
      simp only [DeviceOp.stepBurst, Option.map_eq_some_iff] at h
      obtain ⟨d', hd', rfl⟩ := h
      exact bursting_passive hb hd' trivial trivial

/-! Announcements -/

/-- The number of rounds that announce a target. -/
def announced (d : Device) (rounds : List (List Datagram)) (t : AdvertEntry) : Nat :=
  rounds.countP fun q => (Destination.multicastV4, (d.aliveNotify t).wire) ∈ q

/-- The first target always has room. -/
theorem head_mem_roundDatagrams {d : Device} {t : AdvertEntry} {ts : List AdvertEntry}
    (h : d.targets.toList = t :: ts) :
    (Destination.multicastV4, (d.aliveNotify t).wire) ∈ d.roundDatagrams := by
  have hroom : PackedStack.Room 16 4096 ([] : List Datagram) (d.aliveNotify t).wire :=
    ⟨by decide, by simpa [PackedStack.totalLength] using
      (d.length_aliveNotify_le t).trans (by decide)⟩
  rw [roundDatagrams, aliveDatagrams, h, List.map_cons, List.foldl_cons, pushOrDrop,
    PackedStack.pushOrDrop, if_pos hroom]
  obtain ⟨added, -, hadded⟩ := foldl_pushOrDrop_added
    ([] ++ [(Destination.multicastV4, (d.aliveNotify t).wire)])
    (ts.map fun t => (Destination.multicastV4, (d.aliveNotify t).wire))
  rw [hadded]
  simp

/-- What a device with a target hands out after its first round. -/
theorem exists_alive_polled (httparse : List UInt8 → Nat → Outcome) {d : Device} (hd : d.Ready)
    (hempty : d.queue = []) {t : AdvertEntry} {ts : List AdvertEntry}
    (htargets : d.targets.toList = t :: ts) (hmax : d.longestGap ≤ Duration.max) :
    ∃ d', run (DeviceOp.step httparse) [.start .zero, .handleTimeout .zero] d = some d' ∧
      ∃ u ∈ d.targets.toList, ∃ dest rest,
        d'.pollTransmit 1024 = (some ⟨dest, (d.aliveNotify u).wire⟩, rest) := by
  have hstart := start_effect hd.idle.packed .zero
  have hsole := hd.idle.start .zero
  have hgap : Instant.zero + (d.start .zero).longestGap ≤ Duration.max :=
    (Nat.zero_add _).trans_le hmax
  obtain ⟨d', hd'⟩ := handleTimeout_returns hstart.packed hsole hgap
  have ha := advances_handleTimeout (P := fun _ => True) hstart.packed hd'
  obtain ⟨-, hqueue, -⟩ := initialRound hstart.packed hsole le_rfl hd'
  have hround : d'.queue = d.roundDatagrams := by
    rw [hqueue, hstart.queue, hempty]
    rfl
  refine ⟨d', by simp [DeviceOp.step, hd'], ?_⟩
  obtain ⟨hnone, -⟩ | ⟨q, dest, payload, rest, hq, he, -, -⟩ := pollTransmit_cases ha.packed 1024
  · have := head_mem_roundDatagrams htargets
    rw [← hround, hnone] at this
    cases this
  · obtain ⟨added, hsub, hadded⟩ := foldl_pushOrDrop_added [] (d.aliveDatagrams .multicastV4)
    have hmem : (dest, payload) ∈ d.aliveDatagrams .multicastV4 := by
      refine hsub.subset ?_
      rw [← List.nil_append added, ← hadded, ← roundDatagrams, ← hround, hq]
      exact List.mem_append_right _ (List.mem_singleton_self _)
    obtain ⟨u, hu, hpay⟩ := List.mem_map.mp hmem
    obtain ⟨-, rfl⟩ := Prod.mk.inj hpay
    rw [Nat.min_eq_left (d.length_aliveNotify_le u), List.take_length] at he
    exact ⟨u, hu, dest, _, he⟩

theorem Bursting.announced_head {d₀ : Device} {s : Device × List (List Datagram)}
    (hb : Bursting d₀ s) {t : AdvertEntry} {ts : List AdvertEntry}
    (h : d₀.targets.toList = t :: ts) : d₀.announced s.2 t = s.2.length := by
  rw [announced, List.countP_eq_length]
  intro q hq
  rw [hb.rounds q hq]
  exact decide_eq_true (head_mem_roundDatagrams h)

theorem Bursting.of_ended {d₀ : Device} {s : Device × List (List Datagram)} (hb : Bursting d₀ s)
    (h : s.1.timers.armed .initialAlive = none) :
    (∃ t, s.1.timers.armed .aliveRefresh = some t) ∧
      s.2.length = 2 * d₀.targets.toList.length + 1 := by
  cases hb.phase with
  | going t sole left =>
      rw [sole.armed] at h
      cases h
  | ended t sole count_eq => exact ⟨⟨t, sole.armed⟩, count_eq⟩

theorem Bursting.length_le {d₀ : Device} {s : Device × List (List Datagram)}
    (hb : Bursting d₀ s) : s.2.length ≤ 2 * d₀.targets.toList.length + 1 := by
  cases hb.phase with
  | going t sole left => omega
  | ended t sole count_eq => exact count_eq.le

end Device

/-- When the burst is over, every target was announced in the promised number of
rounds, and the refresh is armed, exactly where one target is registered. -/
theorem initial_burst_iff (httparse : List UInt8 → Nat → Outcome) (uuid location : Str)
    (server : Option Str) (bootid configid seed : UInt32) (before ops : List DeviceOp)
    (t₀ : Instant) (d₀ d : Device) (rounds : List (List Datagram))
    (hbefore : ∀ op ∈ before, op.BeforeStart)
    (hr₀ : run (DeviceOp.step httparse) before
      (Device.new uuid location server bootid configid seed) = some d₀)
    (hne : d₀.targets.toList ≠ []) (hops : ∀ op ∈ ops, op.Serving)
    (hr : run (DeviceOp.stepBurst httparse) ops (d₀.start t₀, []) = some (d, rounds)) :
    rounds.length ≤ 2 * d₀.targets.toList.length + 1 ∧
      (d.timers.armed .initialAlive = none →
        ((∀ t ∈ d₀.targets.toList, d₀.announced rounds t = initialAliveCount) ∧
          (∃ t, d.timers.armed .aliveRefresh = some t) ↔ d₀.targets.toList.length = 1)) := by
  have hready := invariant_run_of Device.ready_step hbefore (Device.ready_new ..) hr₀
  have hb := invariant_run_of Device.bursting_step hops (hready.bursting t₀) hr
  refine ⟨hb.length_le, fun hended => ?_⟩
  obtain ⟨hrefresh, hcount⟩ := hb.of_ended hended
  obtain ⟨t, ts, ht⟩ := List.exists_cons_of_ne_nil hne
  have hhead : d₀.announced rounds t = rounds.length := hb.announced_head ht
  rw [hcount] at hhead
  constructor
  · rintro ⟨hall, -⟩
    have hthree := hall t (by simp [ht])
    rw [hhead, initialAliveCount] at hthree
    omega
  · intro hone
    refine ⟨fun u hu => ?_, hrefresh⟩
    obtain rfl : ts = [] := by simpa [ht] using hone
    obtain rfl : u = t := by simpa [ht] using hu
    rw [hhead, hone]
    rfl

/-! A caller that lets the burst end -/

/-- The timeout at a second, and polls for every slot of the queue. -/
def secondOps (i : Nat) : List DeviceOp :=
  .handleTimeout (Duration.fromSecs i) :: List.replicate 16 (.pollTransmit 1024)

def burstOps : Nat → Nat → List DeviceOp
  | _, 0 => []
  | i, k + 1 => secondOps i ++ burstOps (i + 1) k

theorem serving_burstOps (i k : Nat) : ∀ op ∈ burstOps i k, op.Serving := by
  induction k generalizing i with
  | zero => rintro op ⟨⟩
  | succ k ih =>
      intro op hop
      rcases List.mem_append.mp hop with hop | hop
      · rcases List.mem_cons.mp hop with rfl | hop
        · trivial
        · rw [List.eq_of_mem_replicate hop]
          trivial
      · exact ih (i + 1) op hop

namespace Device

/-- Polling often enough empties the queue and leaves the rest alone. -/
theorem run_polls (httparse : List UInt8 → Nat → Outcome) (k bufLen : Nat) {d : Device}
    (rounds : List (List Datagram)) (hp : d.Packed) (hk : d.queue.length ≤ k) :
    ∃ d', run (DeviceOp.stepBurst httparse) (List.replicate k (.pollTransmit bufLen)) (d, rounds) =
        some (d', rounds) ∧
      d'.queue = [] ∧ SameAlive d d' ∧ d'.targets = d.targets := by
  induction k generalizing d with
  | zero => exact ⟨d, rfl, List.length_eq_zero_iff.mp (Nat.le_zero.mp hk), .refl d, rfl⟩
  | succ k ih =>
      have hstep : run (DeviceOp.stepBurst httparse)
          (List.replicate (k + 1) (.pollTransmit bufLen)) (d, rounds) =
          run (DeviceOp.stepBurst httparse) (List.replicate k (.pollTransmit bufLen))
            ((d.pollTransmit bufLen).2, rounds) := by
        rw [List.replicate_succ, run_cons]
        rfl
      rw [hstep]
      obtain ⟨hq, he⟩ | ⟨q, dest, payload, rest, hq, he, hpacked, hqueue⟩ :=
        pollTransmit_cases hp bufLen
      · rw [he]
        exact ih hp (by rw [hq]; exact Nat.zero_le k)
      · rw [he]
        have hlen : q.length ≤ k := by
          rw [hq, List.length_append, List.length_singleton] at hk
          omega
        obtain ⟨d', hrun, hempty, hsame, htargets⟩ := ih hpacked (by rw [hqueue]; exact hlen)
        exact ⟨d', hrun, hempty, ⟨hsame.armed, hsame.down⟩, htargets⟩

theorem serving_secondOps (i : Nat) : ∀ op ∈ secondOps i, op.Serving := by
  intro op hop
  exact serving_burstOps i 1 op (List.mem_append_left _ hop)

/-- A second of a burst that is on: its round is the last, or the next is due a second later. -/
theorem run_secondOps (httparse : List UInt8 → Nat → Outcome) {d₀ d : Device} {i : Nat}
    {rounds : List (List Datagram)} {t : Instant} (hb : Bursting d₀ (d, rounds))
    (hs : SoleAlive d .initialAlive t) (ht : t ≤ Duration.fromSecs i) (hempty : d.queue = [])
    (hmax : Duration.fromSecs i + d₀.longestGap ≤ Duration.max) :
    ∃ d' rounds', run (DeviceOp.stepBurst httparse) (secondOps i) (d, rounds) =
        some (d', rounds') ∧ Bursting d₀ (d', rounds') ∧ d'.queue = [] ∧
      (roundsLeft d.targets.toList = 1 ∧ d'.timers.armed .initialAlive = none ∨
        roundsLeft d'.targets.toList + 1 = roundsLeft d.targets.toList ∧
          ∃ t', SoleAlive d' .initialAlive t' ∧ t' ≤ Duration.fromSecs (i + 1)) := by
  have hgap : d.longestGap = d₀.longestGap := by
    rw [longestGap, aliveInterval_of_keys hb.keys, longestGap]
  obtain ⟨d₁, htimeout⟩ := handleTimeout_returns hb.packed hs (hgap ▸ hmax)
  obtain ⟨-, -, hend⟩ := initialRound hb.packed hs ht htimeout
  have hpacked := (advances_handleTimeout (P := fun _ => True) hb.packed htimeout).packed
  obtain ⟨d', hpolls, hempty', hsame, htargets⟩ := run_polls httparse 16 1024
    (rounds ++ [d₁.queue]) hpacked d₁.length_queue_le
  have hrun : run (DeviceOp.stepBurst httparse) (secondOps i) (d, rounds) =
      some (d', rounds ++ [d₁.queue]) := by
    rw [secondOps, run_cons, DeviceOp.stepBurst, if_pos hempty, htimeout, Option.map_some,
      if_pos ((initial_mem_drain hs).mpr ⟨rfl, ht⟩), Option.bind_some, hpolls]
  refine ⟨d', _, hrun, invariant_run_of bursting_step (serving_secondOps i) hb hrun, hempty',
    ?_⟩
  cases hend with
  | last left sole =>
      have hne : TimerKind.initialAlive ≠ .aliveRefresh := by decide
      exact .inl ⟨left, (hsame.soleAlive sole).only .initialAlive isAlive_initialAlive hne⟩
  | next t' left sole le =>
      refine .inr ⟨htargets ▸ left, t', hsame.soleAlive sole, le.trans ?_⟩
      simp only [Duration.fromSecs, Duration.fromMillis]
      lia

/-- The burst ends for a caller that calls each second, unless instants overflow. -/
theorem exists_burst (httparse : List UInt8 → Nat → Outcome) {d₀ : Device} (k i : Nat)
    {d : Device} {rounds : List (List Datagram)} {t : Instant} (hb : Bursting d₀ (d, rounds))
    (hs : SoleAlive d .initialAlive t) (ht : t ≤ Duration.fromSecs i) (hempty : d.queue = [])
    (hk : roundsLeft d.targets.toList = k)
    (hmax : Duration.fromSecs (i + k) + d₀.longestGap ≤ Duration.max) :
    ∃ d' rounds', run (DeviceOp.stepBurst httparse) (burstOps i k) (d, rounds) =
        some (d', rounds') ∧ d'.timers.armed .initialAlive = none := by
  induction k generalizing i d rounds t with
  | zero =>
      have := roundsLeft_pos d.targets.toList
      omega
  | succ k ih =>
      obtain ⟨d₁, rounds₁, hrun₁, hb₁, hempty₁, ⟨hone, hended⟩ | ⟨hleft, t₁, hs₁, ht₁⟩⟩ :=
        run_secondOps httparse hb hs ht hempty
          ((Nat.add_le_add_right (Nat.mul_le_mul_right _ (Nat.le_add_right i (k + 1))) _).trans hmax)
      · obtain rfl : k = 0 := by omega
        refine ⟨d₁, rounds₁, ?_, hended⟩
        rw [burstOps, run_append, hrun₁]
        rfl
      · rw [show i + (k + 1) = i + 1 + k by omega] at hmax
        obtain ⟨d', rounds', hrun, hended⟩ := ih (i + 1) hb₁ hs₁ ht₁ hempty₁ (by omega) hmax
        refine ⟨d', rounds', ?_, hended⟩
        rw [burstOps, run_append, hrun₁]
        exact hrun

end Device

/-- The whole burst of a device with some root targets. -/
theorem exists_burst_roots {n : Nat} (hpos : 0 < n) (hn : n ≤ maxTargets) :
    ∃ d₀ d rounds, run (DeviceOp.step splitBlock) (addRoots n) fullDevice = some d₀ ∧
      d₀.targets.toList = List.replicate n rootEntry ∧
      run (DeviceOp.stepBurst splitBlock) (burstOps 0 (2 * n + 1)) (d₀.start .zero, []) =
        some (d, rounds) ∧
      d.timers.armed .initialAlive = none ∧ Device.Bursting d₀ (d, rounds) := by
  obtain ⟨d₀, hrun₀, he⟩ := run_addRoots splitBlock (d := fullDevice) (n := n)
    (by rw [show fullDevice.targets.toList.length = 0 from rfl, Nat.zero_add]; exact hn)
    packed_fullDevice
  have htargets : d₀.targets.toList = List.replicate n rootEntry := he.targets
  have hready := invariant_run_of Device.ready_step (beforeStart_addRoots n)
    (Device.ready_new fullUuid fullLocation (some fullServer) 1 1 1) hrun₀
  have hb := hready.bursting Instant.zero
  have hempty : (d₀.start Instant.zero).queue = [] := he.queue
  have hgap : d₀.longestGap ≤ Duration.fromSecs 900 := by
    rw [Device.longestGap, Device.aliveInterval, htargets, List.map_replicate,
      List.min?_replicate_of_pos hpos]
    decide
  have hleft : roundsLeft d₀.targets.toList = 2 * n + 1 := by
    rw [roundsLeft_fresh hready.fresh, htargets, List.length_replicate]
  have hmax : Duration.fromSecs (0 + (2 * n + 1)) + d₀.longestGap ≤ Duration.max := by
    have hn8 : n ≤ 8 := hn
    simp only [Duration.fromSecs, Duration.max] at hgap ⊢
    lia
  obtain ⟨d, rounds, hrun, hended⟩ := Device.exists_burst splitBlock (2 * n + 1) 0 hb
    (hready.idle.start Instant.zero) (Nat.zero_le _) hempty hleft hmax
  exact ⟨d₀, d, rounds, hrun₀, htargets, hrun, hended,
    invariant_run_of Device.bursting_step (serving_burstOps 0 _) hb hrun⟩

/-- Two targets are announced in five rounds. -/
theorem burst_of_two_is_five : ∃ d₀ d rounds,
    run (DeviceOp.step splitBlock) (addRoots 2) fullDevice = some d₀ ∧
      d₀.targets.toList.length = 2 ∧
      run (DeviceOp.stepBurst splitBlock) (burstOps 0 5) (d₀.start .zero, []) =
        some (d, rounds) ∧
      d.timers.armed .initialAlive = none ∧ d₀.announced rounds rootEntry = 5 ∧
      ¬ ∀ t ∈ d₀.targets.toList, d₀.announced rounds t = initialAliveCount := by
  obtain ⟨d₀, d, rounds, hrun₀, ht, hrun, hended, hb⟩ :=
    exists_burst_roots (n := 2) (by decide) (by decide)
  have hcount := (hb.of_ended hended).2
  have hfive : d₀.announced rounds rootEntry = 5 := by
    have hhead : d₀.announced rounds rootEntry = rounds.length := hb.announced_head ht
    rw [hhead, hcount, ht]
    rfl
  refine ⟨d₀, d, rounds, hrun₀, by rw [ht]; rfl, hrun, hended, hfive, fun hall => ?_⟩
  have hthree := hall rootEntry (by simp [ht])
  rw [hfive] at hthree
  exact absurd hthree (by decide)

theorem initial_burst_iff_sample : ∃ d₀ d rounds,
    run (DeviceOp.step splitBlock) (addRoots 1) fullDevice = some d₀ ∧
      run (DeviceOp.stepBurst splitBlock) (burstOps 0 3) (d₀.start .zero, []) =
        some (d, rounds) ∧
      (∀ t ∈ d₀.targets.toList, d₀.announced rounds t = initialAliveCount) ∧
      ∃ t, d.timers.armed .aliveRefresh = some t := by
  obtain ⟨d₀, d, rounds, hrun₀, ht, hrun, hended, -⟩ :=
    exists_burst_roots (n := 1) (by decide) (by decide)
  have h := (initial_burst_iff splitBlock fullUuid fullLocation (some fullServer) 1 1 1 (addRoots 1)
    (burstOps 0 3) .zero d₀ d rounds (beforeStart_addRoots 1) hrun₀ (by simp [ht])
    (serving_burstOps 0 3) hrun).2 hended
  exact ⟨d₀, d, rounds, hrun₀, hrun, h.mpr (by rw [ht]; rfl)⟩

end RustyCastle.Ssdp
