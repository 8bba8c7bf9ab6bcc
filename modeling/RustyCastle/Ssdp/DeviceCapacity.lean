import Mathlib.Algebra.Order.BigOperators.Group.List
import Mathlib.Algebra.Order.Ring.Nat
import RustyCastle.Ssdp.DeviceSteps

/-!
When every registered target gets its datagram. Byebyes always fit the shared
buffer, and the answer to a search for everything is shorter than an alive round,
so it is the alive round that decides.
-/

namespace RustyCastle.Ssdp
open Foundation Foundation.HeaderBlock Foundation.Runs

theorem answers_all (t : AdvertEntry) : t.answers .all = true := by
  rw [AdvertEntry.answers, targetMatches]

namespace Device

/-- From an empty queue each kind of message is enqueued once for every registered target. -/
structure NoTargetDropped (d : Device) : Prop where
  alive : ∀ dest, (d.sendAliveAll dest).queue =
    d.targets.toList.map fun t => (dest, (d.aliveNotify t).wire)
  byebye : d.sendByebyeAll.queue =
    d.targets.toList.map fun t => (.multicastV4, (d.byebyeNotify t).wire)
  response : ∀ addr, (d.encodeSearchResponses addr .all).2.queue =
    d.targets.toList.map fun t => (.unicast addr, (d.searchResponse .all t).wire)

/-- The bytes of one alive round. -/
def aliveBytes (d : Device) : Nat :=
  (d.targets.toList.map fun t => (d.aliveNotify t).wire.length).sum

theorem totalLength_map (ts : List AdvertEntry) (dest : Destination)
    (payload : AdvertEntry → List UInt8) :
    PackedStack.totalLength (ts.map fun t => (dest, payload t)) =
      (ts.map fun t => (payload t).length).sum := by
  rw [PackedStack.totalLength, List.map_map]
  rfl

theorem length_le_slots (d : Device) : d.targets.toList.length ≤ 16 :=
  d.targets.length_le.trans (by decide)

theorem sendAliveAll_all_iff {d : Device} (hp : d.Packed) (hempty : d.queue = [])
    (dest : Destination) : (d.sendAliveAll dest).queue = d.aliveDatagrams dest ↔
      d.aliveBytes ≤ 4096 := by
  have h := foldl_pushOrDrop_nil_eq_iff
    (show (d.aliveDatagrams dest).length ≤ 16 by simpa [aliveDatagrams] using d.length_le_slots)
  rw [(sendAliveAll_queues hp dest).queue, hempty, h, aliveDatagrams, totalLength_map]
  rfl

theorem sendByebyeAll_all {d : Device} (hp : d.Packed) (hempty : d.queue = []) :
    d.sendByebyeAll.queue = d.byebyeDatagrams := by
  have h := foldl_pushOrDrop_nil_eq_iff
    (show d.byebyeDatagrams.length ≤ 16 by simpa [byebyeDatagrams] using d.length_le_slots)
  rw [(sendByebyeAll_queues hp).queue, hempty, h, byebyeDatagrams, totalLength_map]
  calc (d.targets.toList.map fun t => (d.byebyeNotify t).wire.length).sum
      ≤ (d.targets.toList.map fun _ => 512).sum :=
        List.sum_le_sum fun t _ => d.length_byebyeNotify_le t
    _ = d.targets.toList.length * 512 := by simp
    _ ≤ maxTargets * 512 := Nat.mul_le_mul_right _ d.targets.length_le
    _ = 4096 := rfl

theorem queue_shutdown {d : Device} (hp : d.Packed) (hempty : d.queue = []) (now : Instant) :
    (d.shutdown now).queue = d.byebyeDatagrams := by
  rw [(shutdown_effect hp now).queue, ← (sendByebyeAll_queues hp).queue]
  exact sendByebyeAll_all hp hempty

theorem responseDatagrams_all (d : Device) (dest : Destination) :
    d.responseDatagrams dest .all =
      d.targets.toList.map fun t => (dest, (d.searchResponse .all t).wire) := by
  rw [responseDatagrams, List.filter_eq_self.mpr fun t _ => answers_all t]

theorem encodeSearchResponses_all {d : Device} (hp : d.Packed) (hempty : d.queue = [])
    (hbytes : d.aliveBytes ≤ 4096) (addr : SocketAddr) :
    (d.encodeSearchResponses addr .all).2.queue = d.responseDatagrams (.unicast addr) .all := by
  have h := pushWhile_nil_eq_iff
    (show (d.responseDatagrams (.unicast addr) .all).length ≤ 16 by
      simpa [responseDatagrams_all] using d.length_le_slots)
  rw [(encodeSearchResponses_queues hp addr .all).queue, hempty, h, responseDatagrams_all,
    totalLength_map]
  refine le_trans (List.sum_le_sum fun t _ => ?_) hbytes
  have := d.length_searchResponse_all t
  omega

theorem noTargetDropped_iff {d : Device} (hp : d.Packed) (hempty : d.queue = []) :
    d.NoTargetDropped ↔ d.aliveBytes ≤ 4096 := by
  constructor
  · intro h
    exact (sendAliveAll_all_iff hp hempty .multicastV4).mp (h.alive .multicastV4)
  · intro h
    refine ⟨fun dest => (sendAliveAll_all_iff hp hempty dest).mpr h, sendByebyeAll_all hp hempty,
      fun addr => ?_⟩
    rw [encodeSearchResponses_all hp hempty h, responseDatagrams_all]

end Device

/-! Devices with several root targets -/

def rootEntry : AdvertEntry where
  ntStr := ⟨"upnp:rootdevice".toList, by decide⟩
  maxAge := Duration.fromSecs 1800
  initialRemaining := UInt8.ofNat initialAliveCount

theorem targetToString_rootDevice : targetToString .rootDevice = some rootEntry.ntStr :=
  BoundedStr.tryFrom_eq_some.mpr rfl

/-- Registers the root target `n` times. -/
def addRoots (n : Nat) : List DeviceOp :=
  List.replicate n (.addTarget .rootDevice (Duration.fromSecs 1800))

theorem addTarget_rootDevice {d : Device} (hn : d.targets.toList.length < maxTargets)
    (hp : d.Packed) :
    Device.Effect d (d.addTarget .rootDevice (Duration.fromSecs 1800)).2
      (d.targets.toList ++ [rootEntry]) d.timers d.shuttingDown d.queue := by
  have hroom : d.targets.isFull = false := by
    rw [Bool.eq_false_iff, ne_eq, BoundedVec.isFull_iff]
    omega
  have hpush := d.targets.toList_pushOrDrop rootEntry
  rw [if_pos hn] at hpush
  rw [Device.addTarget, hroom, if_neg (by decide), targetToString_rootDevice]
  exact ⟨⟨rfl, rfl, rfl, rfl, rfl⟩, hpush, rfl, rfl, ⟨hp.packed, hp.used_le⟩, rfl⟩

theorem run_addRoots (httparse : List UInt8 → Nat → Outcome) {n : Nat} {d : Device}
    (hn : d.targets.toList.length + n ≤ maxTargets) (hp : d.Packed) :
    ∃ d', run (DeviceOp.step httparse) (addRoots n) d = some d' ∧
      Device.Effect d d' (d.targets.toList ++ List.replicate n rootEntry) d.timers d.shuttingDown
        d.queue := by
  induction n generalizing d with
  | zero => exact ⟨d, rfl, by simpa using Device.Effect.refl hp⟩
  | succ n ih =>
      have hadd := addTarget_rootDevice (d := d) (by omega) hp
      obtain ⟨d', hrun, he⟩ := ih (by simp [hadd.targets]; omega) hadd.packed
      refine ⟨d', hrun, hadd.same.trans he.same, ?_, he.timers.trans hadd.timers,
        he.down.trans hadd.down, he.packed, he.queue.trans hadd.queue⟩
      rw [he.targets, hadd.targets, List.replicate_succ, List.append_assoc]
      rfl

/-! The law over reachable states -/

def fullUuid : Str := List.replicate 64 'a'

def fullLocation : Str := "http://a/".toList ++ List.replicate 247 'a'

def fullServer : Str := List.replicate 128 'a'

theorem length_letters (n : Nat) : (Str.bytes (List.replicate n 'a')).length = n := by
  rw [Str.length_bytes_of_ascii, List.length_replicate]
  intro c hc
  rw [List.eq_of_mem_replicate hc]
  decide

theorem length_fullLocation : (Str.bytes fullLocation).length = 256 := by
  unfold fullLocation
  simp only [Str.bytes_append, List.length_append, length_letters]
  decide

/-- A device with strings of the maximum lengths. -/
def fullDevice : Device := .new fullUuid fullLocation (some fullServer) 1 1 1

theorem length_alive_fullDevice {d : Device} (h : Device.SameIdentity fullDevice d)
    (t : AdvertEntry) : 550 ≤ (d.aliveNotify t).wire.length := by
  obtain ⟨T, U, L, A, S, B, C, hs, -⟩ := d.exists_sizes t (length_text_parseTargetStr t.ntStr)
  have hL := hs.location
  have hS := hs.server
  rw [h.location, fullDevice, Device.location_new length_fullLocation.le, length_fullLocation] at hL
  rw [Device.serverSize, h.server, fullDevice, Device.server_new, Option.toList_some,
    List.map_singleton, List.sum_singleton, length_field, fullServer, length_letters] at hS
  · simp only [length_names] at hS
    rw [Device.length_aliveNotify hs]
    omega
  · rintro s ⟨⟩
    exact (length_letters 128).le

theorem aliveBytes_roots {d : Device} {n : Nat}
    (h : d.targets.toList = List.replicate n rootEntry) :
    d.aliveBytes = n * (d.aliveNotify rootEntry).wire.length := by
  rw [Device.aliveBytes, h, List.map_replicate, List.sum_replicate_nat]

theorem packed_fullDevice : fullDevice.Packed := Device.packed_new ..

end RustyCastle.Ssdp
