import RustyCastle.Ssdp.DeviceAnswers
import RustyCastle.Ssdp.DeviceBurst

/-!
A device that is polled empty after every call. Then each call finds room for all that it sends,
as long as one round has room, since no answer is longer than the advertisement of its target.
-/

namespace RustyCastle.Ssdp
open Foundation Foundation.HeaderBlock

/-! Sizes of answers -/

theorem length_makeUsnRef_responseTarget (uuid : Str) (search advertised : TargetRef) :
    (makeUsnRef uuid (responseTarget search advertised)).text.bytes.length ≤
      (makeUsnRef uuid advertised).text.bytes.length := by
  have hembedded : ∀ {t t' : TargetRef}, t.text.bytes.length ≤ t'.text.bytes.length →
      (UsnRef.text ⟨uuid, some t⟩).bytes.length ≤ (UsnRef.text ⟨uuid, some t'⟩).bytes.length := by
    intro t t' h
    simp only [UsnRef.text, UsnRef.tail, Str.bytes_append, List.length_append]
    omega
  have hlen := length_responseTarget search advertised
  cases search with
  | all | rootDevice | uuid u => exact Nat.le_refl _
  | deviceType d k v =>
      by_cases hm : targetMatches (.deviceType d k v) advertised = true
      · rw [responseTarget, if_pos hm] at hlen ⊢
        cases advertised with
        | deviceType d' k' v' => exact hembedded hlen
        | all | rootDevice | uuid _ | serviceType _ _ _ => cases hm
      · rw [responseTarget, if_neg hm]
  | serviceType d k v =>
      by_cases hm : targetMatches (.serviceType d k v) advertised = true
      · rw [responseTarget, if_pos hm] at hlen ⊢
        cases advertised with
        | serviceType d' k' v' => exact hembedded hlen
        | all | rootDevice | uuid _ | deviceType _ _ _ => cases hm
      · rw [responseTarget, if_neg hm]

namespace Device

theorem length_searchResponse_le_alive (d : Device) (search : TargetRef) (t : AdvertEntry) :
    (d.searchResponse search t).wire.length ≤ (d.aliveNotify t).wire.length := by
  have hst := length_responseTarget search (parseTargetStr t.ntStr.toStr)
  have husn := length_makeUsnRef_responseTarget d.uuid.toStr search (parseTargetStr t.ntStr.toStr)
  obtain ⟨T, U, L, A, S, B, C, h, -⟩ := d.exists_sizes t (length_text_parseTargetStr t.ntStr)
  obtain ⟨T', U', L', A', S', B', C', h', -⟩ := d.exists_sizes t
    (hst.trans (length_text_parseTargetStr t.ntStr))
  rw [length_aliveNotify h, length_searchResponse h']
  rw [h.target, h'.target] at hst
  rw [h.usn, h'.usn] at husn
  have hL := h.location.symm.trans h'.location
  have hA := h.maxAge.symm.trans h'.maxAge
  have hS := h.server.symm.trans h'.server
  have hB := h.bootid.symm.trans h'.bootid
  have hC := h.configid.symm.trans h'.configid
  omega

theorem totalLength_responseDatagrams_le (d : Device) (dest : Destination) (search : TargetRef) :
    PackedStack.totalLength (d.responseDatagrams dest search) ≤ d.aliveBytes := by
  rw [responseDatagrams, totalLength_map, aliveBytes]
  calc ((d.targets.toList.filter (AdvertEntry.answers search)).map
        fun t => (d.searchResponse search t).wire.length).sum
      ≤ ((d.targets.toList.filter (AdvertEntry.answers search)).map
        fun t => (d.aliveNotify t).wire.length).sum :=
        List.sum_le_sum fun t _ => d.length_searchResponse_le_alive search t
    _ ≤ (d.targets.toList.map fun t => (d.aliveNotify t).wire.length).sum :=
        (List.filter_sublist.map _).sum_le_sum fun _ _ => Nat.zero_le _

/-! What depends on the identity and the registrations only -/

theorem responseDatagrams_of_keys {d d' : Device} (hs : SameIdentity d d') (hk : d'.keys = d.keys)
    (dest : Destination) (search : TargetRef) :
    d'.responseDatagrams dest search = d.responseDatagrams dest search := by
  have hkeys : ∀ ts : List AdvertEntry,
      ((ts.filter (AdvertEntry.answers search)).map
        fun t => (dest, (d.searchResponse search t).wire)) =
      ((ts.map AdvertEntry.key).filter fun k => AdvertEntry.answers search ⟨k.1, k.2, 0⟩).map
        fun k => (dest, (d.searchResponse search ⟨k.1, k.2, 0⟩).wire) := by
    intro ts
    rw [List.filter_map, List.map_map]
    rfl
  simp only [responseDatagrams, hs.searchResponse, hkeys]
  rw [← keys, hk, keys]

theorem aliveBytes_of_keys {d d' : Device} (hs : SameIdentity d d') (hk : d'.keys = d.keys) :
    d'.aliveBytes = d.aliveBytes := by
  have h := congrArg PackedStack.totalLength (aliveDatagrams_of_keys hs hk .multicastV4)
  rwa [aliveDatagrams, aliveDatagrams, totalLength_map, totalLength_map] at h

/-- What the device answers a datagram with. -/
def answersTo (httparse : List UInt8 → Nat → Outcome) (d : Device) (source : SocketAddr)
    (payload : List UInt8) : List Datagram :=
  match parseDatagram httparse payload with
  | .ok (.search search) => d.responseDatagrams (.unicast source) search.st
  | _ => []

theorem Passes.trans {a b c : Device} (h : Passes a b) (h' : Passes b c) : Passes a c where
  same := h.same.trans h'.same
  targets := h'.targets.trans h.targets
  alive := ⟨fun k hk => (h'.alive.armed k hk).trans (h.alive.armed k hk),
    h'.alive.down.trans h.alive.down⟩
  packed := h'.packed

/-! Between two calls -/

/-- A device in service with the identity and the registrations of `d₀` that waits for its next
alive round. -/
structure Awaits (d₀ : Device) (t : Instant) (d : Device) : Prop where
  packed : d.Packed
  same : SameIdentity d₀ d
  keys : d.keys = d₀.keys
  up : d.shuttingDown = false
  sole : ∃ k, SoleAlive d k t

theorem awaits_start {d : Device} (h : d.Idle) (now : Instant) : Awaits d now (d.start now) where
  packed := (start_effect h.packed now).packed
  same := (start_effect h.packed now).same
  keys := rfl
  up := h.up
  sole := ⟨.initialAlive, h.start now⟩

section
variable {d₀ d d' : Device} {t now : Instant}

theorem Awaits.passes (h : Awaits d₀ t d) (hp : Passes d d') : Awaits d₀ t d' := by
  obtain ⟨k, hk⟩ := h.sole
  exact ⟨hp.packed, h.same.trans hp.same, hp.keys.trans h.keys, hp.alive.down.trans h.up, k,
    hp.alive.soleAlive hk⟩

/-- A timeout before the next round sends nothing. -/
theorem Awaits.handleTimeout_notDue (h : Awaits d₀ t d) (hlt : now < t)
    (hs : d.handleTimeout now = some d') : Awaits d₀ t d' ∧ d'.queue = d.queue := by
  obtain ⟨k, hk⟩ := h.sole
  obtain rfl := Option.some.inj ((Device.handleTimeout_notDue hk hlt).symm.trans hs)
  exact ⟨⟨⟨h.packed.packed, h.packed.used_le⟩, h.same.trans ⟨rfl, rfl, rfl, rfl, rfl⟩, h.keys, h.up,
    k, soleAlive_drained hk hlt⟩, rfl⟩

/-- A timeout from the time of the next round on sends the round and sets the next. -/
theorem Awaits.handleTimeout_due (h : Awaits d₀ t d) (hempty : d.queue = [])
    (hfits : d₀.aliveBytes ≤ 4096) (hle : t ≤ now) (hs : d.handleTimeout now = some d') :
    d'.queue = d₀.aliveDatagrams .multicastV4 ∧ ∃ t', Awaits d₀ t' d' ∧
      now + min (Duration.fromMillis 100) d₀.aliveInterval ≤ t' ∧ t' ≤ now + d₀.longestGap := by
  obtain ⟨k, hk⟩ := h.sole
  have hpd : (d.drained now).Packed := ⟨h.packed.packed, h.packed.used_le⟩
  have hadv := advances_handleTimeout (P := fun _ => True) h.packed hs
  have hnone := hk.drained_of_due hle
  have hround : (d.aliveDatagrams .multicastV4).foldl pushOrDrop d.queue =
      d₀.aliveDatagrams .multicastV4 := by
    rw [hempty, aliveDatagrams_of_keys h.same h.keys]
    refine (foldl_pushOrDrop_nil_eq_iff ?_).mpr ?_
    · simpa [aliveDatagrams] using d₀.length_le_slots
    · rw [aliveDatagrams, totalLength_map]
      exact hfits
  have hinterval : (d.drained now).aliveInterval = d₀.aliveInterval :=
    aliveInterval_of_keys h.keys
  have hawaits : ∀ next : Timer, IsAlive next.kind → d'.shuttingDown = d.shuttingDown →
      d'.timers = (d.drained now).timers.set next → Awaits d₀ next.fireAt d' :=
    fun next halive hdown htimers => ⟨hadv.packed, h.same.trans hadv.same, hadv.keys.trans h.keys,
      hdown.trans h.up, next.kind, .of_set htimers halive hnone⟩
  rw [Device.handleTimeout_due hk hle] at hs
  rcases hk.alive with rfl | rfl
  · obtain ⟨next, hnext, he⟩ := onInitialAlive_effect hpd hs
    refine ⟨he.queue.trans hround, next.fireAt, ?_⟩
    obtain ⟨-, rfl⟩ | ⟨-, hkind, hlow, hhigh⟩ := hnext
    · refine ⟨hawaits _ isAlive_aliveRefresh he.down he.timers, ?_, ?_⟩
      · exact Nat.add_le_add_left (hinterval ▸ Nat.min_le_right _ _) now
      · exact Nat.add_le_add_left (hinterval ▸ Nat.le_max_right _ _) now
    · refine ⟨hawaits _ (hkind ▸ isAlive_initialAlive) he.down he.timers, ?_, ?_⟩
      · exact (Nat.add_le_add_left (Nat.min_le_left _ _) now).trans hlow
      · exact hhigh.trans (Nat.add_le_add_left (Nat.le_max_left _ _) now)
  · have he := onAliveRefresh_effect hpd h.up hs
    refine ⟨he.queue.trans hround, now + (d.drained now).aliveInterval, ?_, ?_, ?_⟩
    · exact hawaits ⟨_, .aliveRefresh⟩ isAlive_aliveRefresh he.down he.timers
    · exact Nat.add_le_add_left (hinterval ▸ Nat.min_le_right _ _) now
    · exact Nat.add_le_add_left (hinterval ▸ Nat.le_max_right _ _) now

/-- Of a datagram, a search is answered in full, and nothing else changes. -/
theorem Awaits.handleDatagram {httparse : List UInt8 → Nat → Outcome} {source : SocketAddr}
    {payload : List UInt8} (h : Awaits d₀ t d) (hempty : d.queue = [])
    (hfits : d₀.aliveBytes ≤ 4096) (hs : d.handleDatagram httparse now source payload = some d') :
    Awaits d₀ t d' ∧ d'.queue = d₀.answersTo httparse source payload := by
  refine ⟨h.passes (passes_handleDatagram h.packed hs), ?_⟩
  have hpending : d.pendingTransmits.toList = [] := by
    have hlen := d.length_queue
    rw [hempty] at hlen
    exact List.eq_nil_of_length_eq_zero hlen.symm
  unfold answersTo
  split
  · rename_i search hparse
    rw [queue_handleDatagram_search hpending hparse ?_ hs, responseDatagrams_of_keys h.same h.keys]
    refine (d.totalLength_responseDatagrams_le _ _).trans ?_
    rw [aliveBytes_of_keys h.same h.keys]
    exact hfits
  · rename_i hno
    unfold Device.handleDatagram at hs
    split at hs
    · rename_i search hparse
      exact absurd hparse (hno search)
    · cases hs
      exact hempty

end
end Device
end RustyCastle.Ssdp
