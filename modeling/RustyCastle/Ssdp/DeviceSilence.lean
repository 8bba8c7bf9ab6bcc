import RustyCastle.Ssdp.DeviceSchedule
import RustyCastle.Ssdp.RoundTrip

/-!
The device after its shutdown. No alive timer is armed, so timeouts enqueue
nothing; a search is still answered, as the flag is only read by the refresh.
-/

namespace RustyCastle.Ssdp
open Foundation Foundation.HeaderBlock Foundation.Runs

/-- An encoded alive notification or search response. -/
def Advertises (payload : List UInt8) : Prop :=
  (∃ n : NotifyRef, n.nts = .alive ∧ payload = n.wire) ∨ ∃ r : SearchResponseRef, payload = r.wire

/-- The operation enqueues no advertisement. -/
def DeviceOp.Silent (httparse : List UInt8 → Nat → Outcome) (op : DeviceOp) (d : Device) : Prop :=
  ∀ d', op.step httparse d = some d' →
    ∀ x ∈ d'.queue.drop d.queue.length, ¬ Advertises x.2

/-- The operation is no search whose first response has room in the queue. -/
def DeviceOp.Unanswered (httparse : List UInt8 → Nat → Outcome) (op : DeviceOp) (d : Device) :
    Prop :=
  match op with
  | .handleDatagram _ source payload =>
      ∀ search, parseDatagram httparse payload = .ok (.search search) →
        ∀ x ∈ (d.responseDatagrams (.unicast source) search.st).head?, ¬ Device.Room d.queue x.2
  | _ => True

namespace Device

/-- A device that has been shut down. -/
structure Down (d : Device) : Prop where
  packed : d.Packed
  noAlive : d.NoAlive
  down : d.shuttingDown = true

theorem down_shutdown {d : Device} (hp : d.Packed) (now : Instant) : (d.shutdown now).Down := by
  have he := shutdown_effect hp now
  refine ⟨he.packed, fun k hk => ?_, he.down⟩
  rw [he.timers, TimerQueue.armed_cancel, TimerQueue.armed_cancel]
  rcases hk with rfl | rfl <;> simp

theorem down_step {httparse : List UInt8 → Nat → Outcome} (op : DeviceOp) (d d' : Device)
    (hop : op.Serving) (hd : d.Down) (h : op.step httparse d = some d') : d'.Down := by
  have hpacked := packed_step op d d' hd.packed h
  by_cases hpass : op.Passive
  · have hs := sameAlive_step hd.packed hpass h
    exact ⟨hpacked, hs.noAlive hd.noAlive, hs.down.trans hd.down⟩
  · cases op with
    | addTarget nt maxAge => cases hop
    | start now => cases hop
    | shutdown now => cases hop
    | handleTimeout now =>
        obtain rfl := Option.some.inj ((handleTimeout_noAlive hd.noAlive now).symm.trans h)
        exact ⟨hpacked, noAlive_drained hd.noAlive now, hd.down⟩
    | _ => exact absurd trivial hpass

theorem advertises_response {d : Device} {dest : Destination} {search : TargetRef}
    {x : Datagram} (hx : x ∈ d.responseDatagrams dest search) : Advertises x.2 := by
  obtain ⟨t, -, rfl⟩ := List.mem_map.mp hx
  exact .inr ⟨_, rfl⟩

theorem silent_search_iff {q : List Datagram} {d : Device} {dest : Destination}
    {search : TargetRef} :
    (∀ x ∈ (pushWhile q (d.responseDatagrams dest search)).drop q.length, ¬ Advertises x.2) ↔
      ∀ x ∈ (d.responseDatagrams dest search).head?, ¬ Room q x.2 := by
  have hnil : (pushWhile q (d.responseDatagrams dest search)).drop q.length = [] ↔
      ∀ x ∈ (d.responseDatagrams dest search).head?, ¬ Room q x.2 :=
    PackedStack.drop_pushWhile_eq_nil_iff
  rw [← hnil]
  obtain ⟨n, hn⟩ := pushWhile_added q (d.responseDatagrams dest search)
  constructor
  · intro h
    refine List.eq_nil_iff_forall_not_mem.mpr fun x hx => h x hx ?_
    rw [hn, List.drop_left] at hx
    exact advertises_response (List.mem_of_mem_take hx)
  · intro h x hx
    rw [h] at hx
    cases hx

theorem silent_iff_of_step {httparse : List UInt8 → Nat → Outcome} {op : DeviceOp} {d d' : Device}
    (h : op.step httparse d = some d') :
    op.Silent httparse d ↔ ∀ x ∈ d'.queue.drop d.queue.length, ¬ Advertises x.2 := by
  constructor
  · intro hs
    exact hs d' h
  · intro hs d'' h''
    obtain rfl := Option.some.inj (h.symm.trans h'')
    exact hs

theorem silent_of_length_le {httparse : List UInt8 → Nat → Outcome} {op : DeviceOp}
    {d d' : Device} (h : op.step httparse d = some d') (hle : d'.queue.length ≤ d.queue.length) :
    op.Silent httparse d := by
  rw [silent_iff_of_step h, List.drop_eq_nil_of_le hle]
  rintro x ⟨⟩

theorem length_pollTransmit_le {d : Device} (hp : d.Packed) (bufLen : Nat) :
    (d.pollTransmit bufLen).2.queue.length ≤ d.queue.length := by
  obtain ⟨-, he⟩ | ⟨q, dest, payload, rest, hq, he, -, hqueue⟩ := pollTransmit_cases hp bufLen
  · rw [he]
  · rw [he, hqueue, hq]
    simp

/-- With no alive timer armed an operation is silent exactly when it answers no search. -/
theorem silent_iff_unanswered {httparse : List UInt8 → Nat → Outcome} {op : DeviceOp}
    {d d' : Device} (hop : op.Serving) (hd : d.Down) (h : op.step httparse d = some d') :
    op.Silent httparse d ↔ op.Unanswered httparse d := by
  have hquiet := silent_of_length_le h
  cases op with
  | addTarget nt maxAge => cases hop
  | start now => cases hop
  | shutdown now => cases hop
  | handleTimeout now =>
      obtain rfl := Option.some.inj ((handleTimeout_noAlive hd.noAlive now).symm.trans h)
      exact iff_of_true (hquiet le_rfl) trivial
  | handleDatagram now source payload =>
      have hsilent := silent_iff_of_step h
      simp only [DeviceOp.step, handleDatagram] at h
      split at h
      · rename_i search hparse
        obtain ⟨t, he⟩ := handleSearch_effect hd.packed h
        rw [hsilent, he.queue, silent_search_iff]
        simp only [DeviceOp.Unanswered, hparse, Except.ok.injEq, MessageRef.search.injEq,
          forall_eq']
      · rename_i hparse
        obtain rfl := Option.some.inj h
        exact iff_of_true (hquiet le_rfl) fun search hs => absurd hs (hparse search)
  | pollTransmit bufLen =>
      cases h
      exact iff_of_true (hquiet (length_pollTransmit_le hd.packed bufLen)) trivial
  | pollEvent =>
      cases h
      refine iff_of_true (hquiet ?_) trivial
      simp only [pollEvent]
      split <;> exact le_rfl
  | pollTimeout =>
      cases h
      exact iff_of_true (hquiet le_rfl) trivial

end Device

/-- After a shutdown a device stays silent exactly as long as no search is answered. -/
theorem silent_iff (httparse : List UInt8 → Nat → Outcome) (uuid location : Str)
    (server : Option Str) (bootid configid seed : UInt32) (before ops : List DeviceOp)
    (now : Instant) (d : Device)
    (hr : run (DeviceOp.step httparse) before
      (Device.new uuid location server bootid configid seed) = some d)
    (hops : ∀ op ∈ ops, op.Serving) :
    EveryStep (DeviceOp.step httparse) (DeviceOp.Silent httparse) ops (d.shutdown now) ↔
      EveryStep (DeviceOp.step httparse) (DeviceOp.Unanswered httparse) ops (d.shutdown now) :=
  have hp := invariant_run Device.packed_step (Device.packed_new ..) hr
  everyStep_congr Device.down_step (fun _ _ _ => Device.silent_iff_unanswered) hops
    (Device.down_shutdown hp now)

/-- A device with one target answers a search for everything after its shutdown. -/
theorem search_answered_after_shutdown : ∃ d,
    run (DeviceOp.step splitBlock) (addRoots 1) fullDevice = some d ∧
      ¬ EveryStep (DeviceOp.step splitBlock) (DeviceOp.Silent splitBlock)
        [.handleDatagram .zero (.v4 0 1900) searchAll.wire] (d.shutdown .zero) := by
  obtain ⟨d, hrun, he⟩ := run_addRoots splitBlock (d := fullDevice) (n := 1) (by decide)
    packed_fullDevice
  have htargets : (d.shutdown .zero).targets.toList = [rootEntry] :=
    (Device.shutdown_effect he.packed .zero).targets.trans he.targets
  have hdown := Device.down_shutdown he.packed .zero
  have hparse := parseDatagram_msearch splitBlock_splitsBlock searchAll_wellFormed
  obtain ⟨d', hd'⟩ : ∃ d', (d.shutdown .zero).handleSearch .zero (.v4 0 1900) searchAll = some d' :=
    Device.handleSearch_returns _ _ (by decide) (by decide)
  have hstep : (DeviceOp.handleDatagram .zero (.v4 0 1900) searchAll.wire).step splitBlock
      (d.shutdown .zero) = some d' := by
    simp only [DeviceOp.step, Device.handleDatagram, hparse]
    exact hd'
  refine ⟨d, hrun, fun hsilent => ?_⟩
  have hserving : (DeviceOp.handleDatagram .zero (.v4 0 1900) searchAll.wire).Serving := trivial
  have hun := (Device.silent_iff_unanswered hserving hdown hstep).mp (hsilent d' hstep).1
  have hresponses : (d.shutdown .zero).responseDatagrams (.unicast (.v4 0 1900)) searchAll.st =
      [(.unicast (.v4 0 1900), ((d.shutdown .zero).searchResponse .all rootEntry).wire)] := by
    rw [show searchAll.st = .all from rfl, Device.responseDatagrams_all, htargets]
    rfl
  refine hun searchAll hparse _ (by rw [hresponses]; rfl) ?_
  have hroot : d.targets.toList = [rootEntry] := he.targets
  have hbyebye := d.length_byebyeNotify_le rootEntry
  have hresponse := (d.shutdown .zero).length_searchResponse_le .all rootEntry
  rw [Device.queue_shutdown he.packed he.queue, Device.byebyeDatagrams, hroot, List.map_singleton]
  refine ⟨by simp, ?_⟩
  rw [PackedStack.totalLength_singleton]
  exact (Nat.add_le_add hbyebye hresponse).trans (by decide)

theorem silent_iff_sample : ∃ d,
    run (DeviceOp.step splitBlock) (addRoots 1) fullDevice = some d ∧
      EveryStep (DeviceOp.step splitBlock) (DeviceOp.Silent splitBlock) [.handleTimeout .zero]
        (d.shutdown .zero) := by
  obtain ⟨d, hrun, -⟩ := run_addRoots splitBlock (d := fullDevice) (n := 1) (by decide)
    packed_fullDevice
  have hops : ∀ op ∈ [DeviceOp.handleTimeout .zero], op.Serving := by
    rintro op (_ | ⟨_, ⟨⟩⟩)
    trivial
  exact ⟨d, hrun, (silent_iff splitBlock fullUuid fullLocation (some fullServer) 1 1 1 (addRoots 1)
    [.handleTimeout .zero] .zero d hrun hops).mpr fun _ _ => ⟨trivial, trivial⟩⟩

end RustyCastle.Ssdp
