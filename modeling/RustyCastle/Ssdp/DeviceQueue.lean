import RustyCastle.Ssdp.DeviceSizes

/-!
The transmit queue of the device, read as the list of its datagrams. Sending is
a push with limits on slots and bytes; alive rounds and byebyes skip what does
not fit, and the answer to a search ends with the first such datagram.
-/

namespace RustyCastle.Ssdp
open Foundation Foundation.HeaderBlock

abbrev Datagram := Destination × List UInt8

/-- A search is answered for this entry. -/
def AdvertEntry.answers (search : TargetRef) (t : AdvertEntry) : Bool :=
  targetMatches search (parseTargetStr t.ntStr.toStr)

namespace Device

abbrev Room (q : List Datagram) (payload : List UInt8) : Prop := PackedStack.Room 16 4096 q payload

abbrev pushOrDrop : List Datagram → Datagram → List Datagram := PackedStack.pushOrDrop 16 4096

abbrev pushWhile : List Datagram → List Datagram → List Datagram := PackedStack.pushWhile 16 4096

theorem foldl_pushOrDrop_added (q new : List Datagram) :
    ∃ added, added.Sublist new ∧ new.foldl pushOrDrop q = q ++ added :=
  PackedStack.foldl_pushOrDrop_added q new

theorem pushWhile_added (q new : List Datagram) : ∃ n, pushWhile q new = q ++ new.take n :=
  PackedStack.pushWhile_added q new

theorem foldl_pushOrDrop_nil_eq_iff {new : List Datagram} (h : new.length ≤ 16) :
    new.foldl pushOrDrop [] = new ↔ PackedStack.totalLength new ≤ 4096 :=
  PackedStack.foldl_pushOrDrop_eq_iff (by simpa using h) (Nat.zero_le _)

theorem pushWhile_nil_eq_iff {new : List Datagram} (h : new.length ≤ 16) :
    pushWhile [] new = new ↔ PackedStack.totalLength new ≤ 4096 :=
  PackedStack.pushWhile_eq_iff (by simpa using h) (Nat.zero_le _)

/-- The datagrams that wait, in the order they were enqueued. -/
def queue (d : Device) : List Datagram :=
  PackedStack.messages d.pendingTransmits.toList d.scratchBuf.toList

structure Packed (d : Device) : Prop where
  packed : PackedStack.PackedFrom 0 d.pendingTransmits.toList
  used_le : PackedStack.used d.pendingTransmits.toList ≤ 4096

theorem packed_new (uuid location : Str) (server : Option Str) (bootid configid seed : UInt32) :
    (new uuid location server bootid configid seed).Packed :=
  ⟨trivial, Nat.zero_le _⟩

theorem length_queue (d : Device) : d.queue.length = d.pendingTransmits.toList.length :=
  List.length_map _

theorem length_queue_le (d : Device) : d.queue.length ≤ 16 :=
  d.length_queue.trans_le d.pendingTransmits.length_le

theorem Packed.used_eq {d : Device} (h : d.Packed) :
    PackedStack.used d.pendingTransmits.toList = PackedStack.totalLength d.queue :=
  (PackedStack.totalLength_messages h.packed (h.used_le.trans_eq d.scratchBuf.length_eq.symm)).symm

/-- The states differ in the queue and in the events at most. -/
def Sends (d d' : Device) : Prop :=
  ∃ pend buf events,
    d' = { d with pendingTransmits := pend, scratchBuf := buf, events := events }

theorem Sends.refl (d : Device) : Sends d d := ⟨_, _, _, rfl⟩

theorem Sends.trans {a b c : Device} (h : Sends a b) (h' : Sends b c) : Sends a c := by
  obtain ⟨_, _, _, rfl⟩ := h
  obtain ⟨p, b, e, rfl⟩ := h'
  exact ⟨p, b, e, rfl⟩

/-- From `d` to `d'` something was sent, and `q` waits now. -/
structure Queues (d d' : Device) (q : List Datagram) : Prop where
  sends : Sends d d'
  packed : d'.Packed
  queue : d'.queue = q

theorem Queues.refl {d : Device} (h : d.Packed) : Queues d d d.queue := ⟨.refl d, h, rfl⟩

theorem enqueuePayload_of_room {d : Device} {payload : List UInt8} (hp : d.Packed)
    (hroom : Room d.queue payload) (dest : Destination) :
    ∃ d', d.enqueuePayload dest payload = .ok d' ∧
      Queues d d' (d.queue ++ [(dest, payload)]) := by
  obtain ⟨hslot, hbytes⟩ := hroom
  rw [← hp.used_eq] at hbytes
  rw [length_queue] at hslot
  have hnext := PackedStack.nextStart_eq hp.packed
  have hfull : d.pendingTransmits.isFull = false := by
    rw [Bool.eq_false_iff, ne_eq, BoundedVec.isFull_iff]
    omega
  have hpush := d.pendingTransmits.toList_pushOrDrop
    (dest, PackedStack.nextStart d.pendingTransmits.toList, payload.length)
  rw [if_pos hslot, hnext] at hpush
  refine ⟨_, dif_pos ⟨by omega, hfull⟩, ⟨_, _, _, rfl⟩, ⟨?_, ?_⟩, ?_⟩
  · dsimp only
    rw [hnext, hpush]
    exact PackedStack.packedFrom_push dest payload.length hp.packed
  · dsimp only
    rw [hnext, hpush, PackedStack.used_append, PackedStack.used_singleton]
    exact hbytes
  · simp only [Device.queue]
    rw [hnext, hpush]
    exact PackedStack.messages_push dest hp.packed (hbytes.trans_eq d.scratchBuf.length_eq.symm)

theorem enqueuePayload_of_full {d : Device} {payload : List UInt8} (hp : d.Packed)
    (hroom : ¬ Room d.queue payload) (dest : Destination) :
    d.enqueuePayload dest payload = .error .bufferTooSmall := by
  refine dif_neg fun ⟨hbytes, hfull⟩ => hroom ⟨?_, ?_⟩
  · rw [Bool.eq_false_iff, ne_eq, BoundedVec.isFull_iff] at hfull
    rw [length_queue]
    omega
  · rw [← hp.used_eq, ← PackedStack.nextStart_eq hp.packed]
    exact hbytes

/-! Notifications -/

theorem encodeNotify_of_fits {N : Nat} {n : NotifyRef} (h : n.wire.length ≤ N) (b : Buffer N) :
    (encodeNotify n b.toList).1 = .ok n.wire :=
  congrArg Prod.fst (Cursor.encodeInto_of_fits (emits_notifyWriter n)
    (h.trans_eq b.length_eq.symm))

theorem enqueueNotify_queues {d : Device} {n : NotifyRef} (hp : d.Packed)
    (hsize : n.wire.length ≤ 1024) (dest : Destination) :
    Queues d (d.enqueueNotify n dest) (pushOrDrop d.queue (dest, n.wire)) := by
  unfold enqueueNotify
  rw [encodeNotify_of_fits hsize]
  dsimp only
  by_cases hroom : Room d.queue n.wire
  · obtain ⟨d', hd', hq⟩ := enqueuePayload_of_room hp hroom dest
    rw [hd', pushOrDrop, PackedStack.pushOrDrop, if_pos hroom]
    exact hq
  · rw [enqueuePayload_of_full hp hroom, pushOrDrop, PackedStack.pushOrDrop, if_neg hroom]
    exact ⟨⟨_, _, _, rfl⟩, ⟨hp.packed, hp.used_le⟩, rfl⟩

theorem foldl_enqueueNotify_queues {msg : AdvertEntry → NotifyRef}
    (hsize : ∀ t, (msg t).wire.length ≤ 1024) (dest : Destination) (ts : List AdvertEntry)
    {d : Device} (hp : d.Packed) :
    Queues d (ts.foldl (fun d' t => d'.enqueueNotify (msg t) dest) d)
      ((ts.map fun t => (dest, (msg t).wire)).foldl pushOrDrop d.queue) := by
  induction ts generalizing d with
  | nil => exact .refl hp
  | cons t ts ih =>
      have hstep := enqueueNotify_queues hp (hsize t) dest
      have hrest := ih hstep.packed
      rw [hstep.queue] at hrest
      rw [List.foldl_cons, List.map_cons, List.foldl_cons]
      exact ⟨hstep.sends.trans hrest.sends, hrest.packed, hrest.queue⟩

/-- The alive datagrams of the registered targets. -/
def aliveDatagrams (d : Device) (dest : Destination) : List Datagram :=
  d.targets.toList.map fun t => (dest, (d.aliveNotify t).wire)

def byebyeDatagrams (d : Device) : List Datagram :=
  d.targets.toList.map fun t => (.multicastV4, (d.byebyeNotify t).wire)

/-- The responses to a search, one for each target that matches. -/
def responseDatagrams (d : Device) (dest : Destination) (search : TargetRef) : List Datagram :=
  (d.targets.toList.filter (AdvertEntry.answers search)).map
    fun t => (dest, (d.searchResponse search t).wire)

theorem sendAliveAll_queues {d : Device} (hp : d.Packed) (dest : Destination) :
    Queues d (d.sendAliveAll dest) ((d.aliveDatagrams dest).foldl pushOrDrop d.queue) :=
  foldl_enqueueNotify_queues (length_aliveNotify_le d) dest d.targets.toList hp

theorem sendByebyeAll_queues {d : Device} (hp : d.Packed) :
    Queues d d.sendByebyeAll (d.byebyeDatagrams.foldl pushOrDrop d.queue) :=
  foldl_enqueueNotify_queues (fun t => (length_byebyeNotify_le d t).trans (by decide)) _ _ hp

/-! Responses -/

theorem encodeResponse_of_fits {N : Nat} {r : SearchResponseRef} (h : r.wire.length ≤ N)
    (b : Buffer N) : (encodeResponse r b.toList).1 = .ok r.wire :=
  congrArg Prod.fst (Cursor.encodeInto_of_fits (emits_responseWriter r)
    (h.trans_eq b.length_eq.symm))

theorem respond_eq {r : SearchResponseRef} (h : r.wire.length ≤ 1024) (d : Device)
    (dest : Destination) : d.respond dest r = d.enqueuePayload dest r.wire := by
  simp only [respond, encodeResponse_of_fits h]
  rfl

theorem respondLoop_queues (d₀ : Device) (dest : Destination) (search : TargetRef)
    (ts : List AdvertEntry) {d : Device} (hp : d.Packed) :
    Queues d (respondLoop d₀ dest search ts d).2 (pushWhile d.queue
      ((ts.filter (AdvertEntry.answers search)).map
        fun t => (dest, (d₀.searchResponse search t).wire))) := by
  induction ts generalizing d with
  | nil => exact .refl hp
  | cons t ts ih =>
      unfold respondLoop
      rw [show targetMatches search (parseTargetStr t.ntStr.toStr) = t.answers search from rfl]
      by_cases hm : t.answers search = true
      · rw [if_pos hm, List.filter_cons_of_pos hm, List.map_cons, pushWhile, PackedStack.pushWhile,
          respond_eq (length_searchResponse_le d₀ search t)]
        by_cases hroom : Room d.queue (d₀.searchResponse search t).wire
        · obtain ⟨d', hd', hq⟩ := enqueuePayload_of_room hp hroom dest
          rw [hd', if_pos hroom, ← hq.queue]
          have hrest := ih hq.packed
          exact ⟨hq.sends.trans hrest.sends, hrest.packed, hrest.queue⟩
        · rw [enqueuePayload_of_full hp hroom, if_neg hroom]
          exact .refl hp
      · rw [if_neg hm, List.filter_cons_of_neg hm]
        exact ih hp

theorem encodeSearchResponses_queues {d : Device} (hp : d.Packed) (addr : SocketAddr)
    (search : TargetRef) :
    Queues d (d.encodeSearchResponses addr search).2
      (pushWhile d.queue (d.responseDatagrams (.unicast addr) search)) :=
  respondLoop_queues d (.unicast addr) search d.targets.toList hp

/-! Polling -/

/-- Polling takes the last datagram, cut to the caller's buffer. -/
theorem pollTransmit_cases {d : Device} (hp : d.Packed) (bufLen : Nat) :
    (d.queue = [] ∧ d.pollTransmit bufLen = (none, d)) ∨
      ∃ q dest payload rest, d.queue = q ++ [(dest, payload)] ∧
        d.pollTransmit bufLen = (some ⟨dest, payload.take (min payload.length bufLen)⟩,
          { d with pendingTransmits := rest }) ∧
        ({ d with pendingTransmits := rest } : Device).Packed ∧
        ({ d with pendingTransmits := rest } : Device).queue = q := by
  unfold pollTransmit
  cases hpop : d.pendingTransmits.pop with
  | none =>
      refine .inl ⟨?_, rfl⟩
      rw [queue, BoundedVec.pop_eq_none.mp hpop]
      rfl
  | some r =>
      obtain ⟨slice, rest⟩ := r
      have hsplit := BoundedVec.pop_eq_some hpop
      have hpacked := hp.packed
      have hused := hp.used_le
      rw [hsplit] at hpacked hused
      rw [PackedStack.used_append] at hused
      refine .inr ⟨PackedStack.messages rest.toList d.scratchBuf.toList, _, _, rest, ?_, rfl,
        ⟨(PackedStack.packedFrom_append.mp hpacked).1, (Nat.le_add_right _ _).trans hused⟩, rfl⟩
      rw [queue, hsplit, PackedStack.messages, List.map_append]
      rfl

end Device
end RustyCastle.Ssdp
