import RustyCastle.Ssdp.CacheEvents
import RustyCastle.Ssdp.Network

/-!
What the control points of a network believe. A device sends facts that hold of it, and they go
on to hold; a control point sends none. So every entry of every cache is about a device of the
network, wherever the datagrams went.
-/

namespace RustyCastle.Ssdp
open Foundation Foundation.HeaderBlock Foundation.Network Foundation.Runs

/-! What a device says -/

theorem Profile.Offers.registered (p : Profile) (x : TargetRef × Duration) :
    p.Offers x (makeUsnRef p.uuid x.1) :=
  ⟨.all, .all x.1, makeUsnRef_eq p.uuid x.1⟩

theorem Profile.Vouches.mono {p : Profile} {d d' : Device} {log log' : List (TargetRef × Duration)}
    {f : Fact} (h : p.Vouches d log f) (hsub : log ⊆ log')
    (hdown : d.shuttingDown = true → d'.shuttingDown = true) : p.Vouches d' log' f := by
  cases f with
  | present usn location maxAge =>
      obtain ⟨hl, x, hx, ha, ho⟩ := h
      exact ⟨hl, x, hsub hx, ha, ho⟩
  | gone usn =>
      obtain ⟨hd, x, hx, ho⟩ := h
      exact ⟨hdown hd, x, hsub hx, ho⟩

/-- The payload is a message, and all it says is vouched for. -/
def Profile.Speech (p : Profile) (d : Device) (log : List (TargetRef × Duration))
    (payload : List UInt8) : Prop :=
  ∃ m : MessageRef, m.WellFormed ∧ payload = m.wire ∧ ∀ f, m.Says f → p.Vouches d log f

/-- A device of the profile that says what it is. -/
structure Profile.Speaks (p : Profile) (d : Device) (log : List (TargetRef × Duration)) : Prop where
  packed : d.Packed
  identity : d.HasIdentity p.uuid p.location p.server p.bootid p.configid
  stored : d.StoredIn log
  printable : ∀ x ∈ log, PrintableTarget x
  queue : ∀ x ∈ d.queue, p.Speech d log x.2

section Device
variable {p : Profile} (hid : p.Printable)
include hid

theorem Profile.speaks_new : p.Speaks p.device [] where
  packed := Device.packed_new ..
  identity := Device.hasIdentity_new hid p.seed
  stored := by rintro k ⟨⟩
  printable := nofun
  queue := by rintro x ⟨⟩

theorem Profile.Speaks.speech {d : Device} {log : List (TargetRef × Duration)} (h : p.Speaks d log)
    {down : Bool} {payload : List UInt8} (ho : d.OwnWhile TargetRef.WellFormed down payload) {d' : Device}
    (hdown : down = true → d'.shuttingDown = true) : p.Speech d' log payload := by
  obtain ⟨t, ht, ho⟩ := ho
  obtain ⟨x, hx, hs⟩ := h.stored.stores h.printable ht
  have huuid := h.identity.uuid
  rcases ho with rfl | ⟨hd, rfl⟩ | ⟨search, hsearch, hans, rfl⟩
  · refine ⟨.notify (d.aliveNotify t),
      Device.aliveNotify_wellFormed hid h.identity (h.printable x hx) hs, rfl, ?_⟩
    rintro (⟨usn, location, maxAge⟩ | ⟨usn⟩) hf
    · cases hf
      refine ⟨h.identity.location, x, hx, hs.maxAge.symm, ?_⟩
      show p.Offers x (makeUsnRef d.uuid.toStr (parseTargetStr t.ntStr.toStr))
      rw [huuid, hs.target]
      exact .registered p x
    · cases hf
  · refine ⟨.notify (d.byebyeNotify t),
      Device.byebyeNotify_wellFormed hid h.identity (h.printable x hx) hs, rfl, ?_⟩
    rintro (⟨usn, location, maxAge⟩ | ⟨usn⟩) hf
    · cases hf
    · cases hf
      refine ⟨hdown hd, x, hx, ?_⟩
      show p.Offers x (makeUsnRef d.uuid.toStr (parseTargetStr t.ntStr.toStr))
      rw [huuid, hs.target]
      exact .registered p x
  · refine ⟨.searchResponse (d.searchResponse search t),
      Device.searchResponse_wellFormed hid h.identity hsearch (h.printable x hx) hs, rfl, ?_⟩
    rintro (⟨usn, location, maxAge⟩ | ⟨usn⟩) hf
    · cases hf
      have hm : Matches search x.1 := by
        rw [AdvertEntry.answers, hs.target] at hans
        exact targetMatches_iff.mp hans
      refine ⟨h.identity.location, x, hx, hs.maxAge.symm, search, hm, ?_⟩
      show makeUsnRef d.uuid.toStr (responseTarget search (parseTargetStr t.ntStr.toStr)) = _
      rw [huuid, hs.target, responseTarget_of_matches hm, makeUsnRef_eq]
    · cases hf

theorem Profile.Speaks.tells {d d' : Device} {log : List (TargetRef × Duration)}
    (h : p.Speaks d log) (ht : Device.Tells TargetRef.WellFormed d d') : p.Speaks d' log where
  packed := ht.packed
  identity := h.identity.of_same ht.same
  stored k hk := h.stored k (ht.keys ▸ hk)
  printable := h.printable
  queue := by
    obtain ⟨added, hq, hown⟩ := ht.queue
    intro x hx
    rw [hq] at hx
    rcases List.mem_append.mp hx with hx | hx
    · obtain ⟨m, hw, hm, hf⟩ := h.queue x hx
      exact ⟨m, hw, hm, fun f hs => (hf f hs).mono (List.Subset.refl _) ht.down⟩
    · exact h.speech hid (hown x hx) id

omit hid in
theorem Profile.Speaks.addTarget {d : Device} {log : List (TargetRef × Duration)}
    (h : p.Speaks d log) {nt : TargetRef} {maxAge : Duration} (hnt : PrintableTarget (nt, maxAge)) :
    p.Speaks (d.addTarget nt maxAge).2
      (log ++ (DeviceOp.addTarget nt maxAge).registered d) := by
  simp only [DeviceOp.registered]
  obtain he | ⟨ntStr, targets, hs, -, ht, he⟩ := d.addTarget_cases nt maxAge
  · rw [he, if_neg Bool.false_ne_true, List.append_nil]
    exact h
  · rw [he, if_pos rfl]
    refine ⟨⟨h.packed.packed, h.packed.used_le⟩, h.identity.of_same ⟨rfl, rfl, rfl, rfl, rfl⟩,
      ?_, ?_, ?_⟩
    · intro k hk
      rw [Device.keys, ht, List.map_append] at hk
      rcases List.mem_append.mp hk with hk | hk
      · obtain ⟨x, hx, hxk⟩ := h.stored k hk
        exact ⟨x, List.mem_append_left _ hx, hxk⟩
      · rw [List.mem_singleton.mp hk]
        exact ⟨(nt, maxAge), by simp, hs, rfl⟩
    · intro x hx
      rcases List.mem_append.mp hx with hx | hx
      · exact h.printable x hx
      · rw [List.mem_singleton.mp hx]
        exact hnt
    · intro x hx
      obtain ⟨m, hw, hm, hf⟩ := h.queue x hx
      exact ⟨m, hw, hm, fun f hs => (hf f hs).mono (List.subset_append_left ..) id⟩

omit hid in
theorem Profile.Speaks.pollTransmit {d : Device} {log : List (TargetRef × Duration)}
    (h : p.Speaks d log) (bufLen : Nat) : p.Speaks (d.pollTransmit bufLen).2 log := by
  obtain ⟨-, he⟩ | ⟨q, dest, payload, rest, hq, he, hpacked, hqueue⟩ :=
    Device.pollTransmit_cases h.packed bufLen
  · rw [he]
    exact h
  · rw [he]
    refine ⟨hpacked, h.identity.of_same ⟨rfl, rfl, rfl, rfl, rfl⟩, h.stored, h.printable,
      fun x hx => ?_⟩
    rw [hqueue] at hx
    have hx' : x ∈ d.queue := by
      rw [hq]
      exact List.mem_append_left _ hx
    obtain ⟨m, hw, hm, hf⟩ := h.queue x hx'
    exact ⟨m, hw, hm, fun f hs => (hf f hs).mono (List.Subset.refl _) id⟩

/-- The device goes on to say what it is, and what it said holds on. -/
theorem Profile.Speaks.step {httparse : List UInt8 → Nat → Outcome} (hp : SplitsBlock httparse)
    {op : DeviceOp} {d d' : Device} {log : List (TargetRef × Duration)} (h : p.Speaks d log)
    (hop : (Act.device op).Printable) (hs : op.step httparse d = some d') :
    p.Speaks d' (log ++ op.registered d) ∧ (d.shuttingDown = true → d'.shuttingDown = true) := by
  have hnil : ∀ {d' : Device}, Device.Tells TargetRef.WellFormed d d' →
      p.Speaks d' (log ++ []) ∧ (d.shuttingDown = true → d'.shuttingDown = true) := by
    intro d' ht
    rw [List.append_nil]
    exact ⟨h.tells hid ht, ht.down⟩
  cases op with
  | addTarget nt maxAge =>
      cases hs
      refine ⟨h.addTarget hop, fun hdown => ?_⟩
      obtain he | ⟨ntStr, targets, -, -, -, he⟩ := d.addTarget_cases nt maxAge
      · rw [he]
        exact hdown
      · rw [he]
        exact hdown
  | start now =>
      cases hs
      exact hnil (Device.tells_start h.packed now)
  | shutdown now =>
      cases hs
      exact hnil (Device.tells_shutdown h.packed now)
  | handleDatagram now source payload =>
      refine hnil (Device.tells_handleDatagram h.packed (fun m hm => ?_) hs)
      have hw : (MessageRef.search m).WellFormed := wellFormed_of_parseDatagram hp hm
      exact hw.st
  | handleTimeout now => exact hnil (Device.tells_handleTimeout h.packed hs)
  | pollTransmit bufLen =>
      cases hs
      refine ⟨?_, fun hdown => (Device.passes_pollTransmit h.packed bufLen).alive.down.trans hdown⟩
      have hnone : (DeviceOp.pollTransmit bufLen).registered d = [] := rfl
      rw [hnone, List.append_nil]
      exact h.pollTransmit bufLen
  | pollEvent =>
      cases hs
      exact hnil (Device.tells_pollEvent h.packed)
  | pollTimeout =>
      cases hs
      exact hnil (.refl h.packed)

omit hid in
/-- What is read from a polled datagram is vouched for, into whatever buffer it was polled. -/
theorem Profile.Speaks.sends {httparse : List UInt8 → Nat → Outcome} (hp : SplitsBlock httparse)
    {op : DeviceOp} {d : Device} {log : List (TargetRef × Duration)} (h : p.Speaks d log)
    {x : Transmit} (hx : x ∈ op.sends d) {f : Fact} (hf : PayloadSays httparse x.payload f) :
    p.Vouches d log f := by
  cases op with
  | pollTransmit bufLen =>
      obtain ⟨-, he⟩ | ⟨q, dest, payload, rest, hq, he, -, -⟩ :=
        Device.pollTransmit_cases h.packed bufLen
      · rw [DeviceOp.sends, he] at hx
        cases hx
      · rw [DeviceOp.sends, he] at hx
        obtain rfl : x = _ := List.mem_singleton.mp hx
        obtain ⟨m, hw, hm, hsays⟩ := h.queue (dest, payload) (by rw [hq]; simp)
        dsimp only at hm
        subst hm
        obtain ⟨r, hr, hrf⟩ := hf
        dsimp only at hr
        rw [MessageRef.read_of_take hp hw hr] at hrf
        exact hsays f hrf
  | _ => cases hx

end Device

/-! What a control point takes up -/

namespace ControlPoint
variable {M : Type} [MapOps (BoundedStr cacheUsn) CpEntry M]

/-- The event reports a fact of `Q`; an expired name was present. -/
def EventCites (Q : Fact → Prop) : CpEvent → Prop
  | .searchHit k location maxAge =>
      ∃ usn, Q (.present usn location.toStr maxAge) ∧ k = usnToString usn
  | .byeBye k => ∃ usn, Q (.gone usn) ∧ k = usnToString usn
  | .expired k => ∃ usn location maxAge, Q (.present usn location maxAge) ∧ k = usnToString usn

/-- Every entry and every waiting event rests on a fact of `Q`, and no entry outlives its
max-age. -/
structure Cites (Q : Fact → Prop) (cp : ControlPoint M) (clock : Instant) : Prop where
  cache : ∀ k e, cp.cache.find k = some e → ∃ usn maxAge,
    Q (.present usn e.location.toStr maxAge) ∧ k = usnToString usn ∧ e.expiresAt ≤ clock + maxAge
  events : ∀ e ∈ cp.events.toList, EventCites Q e

theorem EventCites.mono {Q Q' : Fact → Prop} (hQ : ∀ f, Q f → Q' f) {e : CpEvent}
    (h : EventCites Q e) : EventCites Q' e := by
  cases e with
  | searchHit k location maxAge =>
      obtain ⟨usn, h, hk⟩ := h
      exact ⟨usn, hQ _ h, hk⟩
  | byeBye k =>
      obtain ⟨usn, h, hk⟩ := h
      exact ⟨usn, hQ _ h, hk⟩
  | expired k =>
      obtain ⟨usn, location, maxAge, h, hk⟩ := h
      exact ⟨usn, location, maxAge, hQ _ h, hk⟩

theorem Cites.mono {Q Q' : Fact → Prop} {cp : ControlPoint M} {clock : Instant}
    (hQ : ∀ f, Q f → Q' f) (h : cp.Cites Q clock) : cp.Cites Q' clock := by
  refine ⟨fun k e he => ?_, fun e he => (h.events e he).mono hQ⟩
  obtain ⟨usn, maxAge, hq, hk, hle⟩ := h.cache k e he
  exact ⟨usn, maxAge, hQ _ hq, hk, hle⟩

theorem Cites.later {Q : Fact → Prop} {cp : ControlPoint M} {clock clock' : Instant}
    (h : cp.Cites Q clock) (hle : clock ≤ clock') : cp.Cites Q clock' := by
  refine ⟨fun k e he => ?_, h.events⟩
  obtain ⟨usn, maxAge, hq, hk, hexp⟩ := h.cache k e he
  exact ⟨usn, maxAge, hq, hk, hexp.trans (Nat.add_le_add_right hle _)⟩

theorem Cites.of_same {Q : Fact → Prop} {cp cp' : ControlPoint M} {clock : Instant}
    (h : cp.Cites Q clock) (hcache : cp'.cache = cp.cache) (hevents : cp'.events = cp.events) :
    cp'.Cites Q clock := by
  refine ⟨?_, ?_⟩
  · rw [hcache]
    exact h.cache
  · rw [hevents]
    exact h.events

theorem mem_pushOrDrop {events : BoundedVec CpEvent 8} {e e' : CpEvent}
    (h : e ∈ (events.pushOrDrop e').toList) : e ∈ events.toList ∨ e = e' := by
  rw [BoundedVec.toList_pushOrDrop] at h
  split at h
  · simpa using h
  · exact .inl h

section Laws
variable (hM : LawfulMap M cacheCap)
include hM

theorem cites_new (Q : Fact → Prop) (ua : Option Str) : (new ua : ControlPoint M).Cites Q .zero where
  cache k e he := by
    rw [new, ServiceCache.find_new hM] at he
    cases he
  events := by rintro e ⟨⟩

theorem Cites.announced {Q : Fact → Prop} {cp cp' : ControlPoint M} {clock now : Instant}
    {usn : UsnRef} {location : Str} {maxAge : Duration} (h : cp.Cites Q clock)
    (hle : now ≤ clock) (hq : Q (.present usn location maxAge))
    (hs : cp.announced now usn location maxAge = some cp') : cp'.Cites Q clock := by
  obtain ⟨b, cache, hc, rfl⟩ := announced_eq_some hs
  refine ⟨fun k e he => ?_, fun e he => ?_⟩
  · rw [reschedule_cache] at he
    obtain ⟨-, l, hl, hfind⟩ | ⟨-, rfl⟩ := ServiceCache.insert_eq_some hM hc
    · rw [hfind] at he
      split at he
      · rename_i hk
        cases he
        refine ⟨usn, maxAge, ?_, hk, Nat.add_le_add_right hle _⟩
        rw [hl]
        exact hq
      · exact h.cache k e he
    · exact h.cache k e he
  · rw [reschedule_events] at he
    dsimp only at he
    rw [pushSearchHit_eq] at he
    cases hl : (BoundedStr.tryFrom location : Option (BoundedStr cacheLoc)) with
    | none =>
        rw [hl] at he
        exact h.events e he
    | some l =>
        rw [hl] at he
        rcases mem_pushOrDrop he with he | rfl
        · exact h.events e he
        · refine ⟨usn, ?_, rfl⟩
          rw [BoundedStr.tryFrom_eq_some.mp hl]
          exact hq

theorem Cites.departed {Q : Fact → Prop} {cp : ControlPoint M} {clock : Instant} {usn : UsnRef}
    (h : cp.Cites Q clock) (hq : Q (.gone usn)) : (cp.departed usn).Cites Q clock := by
  rw [departed_eq]
  refine ⟨fun k e he => ?_, fun e he => ?_⟩
  · dsimp only at he
    rw [ServiceCache.find_remove hM] at he
    split at he
    · cases he
    · exact h.cache k e he
  · rcases mem_pushOrDrop he with he | rfl
    · exact h.events e he
    · exact ⟨usn, hq, rfl⟩

theorem Cites.handleDatagram {httparse : List UInt8 → Nat → Outcome} {Q : Fact → Prop}
    {cp cp' : ControlPoint M} {clock now : Instant} {source : SocketAddr} {payload : List UInt8}
    (h : cp.Cites Q clock) (hle : now ≤ clock)
    (hq : ∀ f, PayloadSays httparse payload f → Q f)
    (hs : cp.handleDatagram httparse now source payload = some cp') : cp'.Cites Q clock := by
  unfold ControlPoint.handleDatagram at hs
  split at hs
  · cases hs
    exact h
  · rename_i m hm
    rw [handleMessage_eq] at hs
    split at hs
    · rename_i usn location maxAge hann
      exact h.announced hM hle (hq _ ⟨m, hm, hann⟩) hs
    · rename_i usn _ hdep
      cases hs
      exact h.departed hM (hq _ ⟨m, hm, hdep⟩)
    · cases hs
      exact h

theorem Cites.handleTimeout {Q : Fact → Prop} {cp cp' : ControlPoint M} {clock now : Instant}
    (ho : cp.OwnTimers) (h : cp.Cites Q clock) (hs : cp.handleTimeout now = some cp') :
    cp'.Cites Q clock := by
  by_cases hdue : cp.ExpiryDue now
  · obtain ⟨-, hcache, hevents, -⟩ := handleTimeout_due hM ho hdue hs
    refine ⟨fun k e he => ?_, fun e he => ?_⟩
    · rw [hcache, ServiceCache.find_expire hM] at he
      exact h.cache k e (Option.filter_eq_some_iff.mp he).1
    · rw [hevents, ServiceCache.snd_expire hM, toList_foldl_pushExpired] at he
      rcases List.mem_append.mp he with he | he
      · exact h.events e he
      · obtain ⟨k, hk, rfl⟩ := List.mem_map.mp he
        obtain ⟨entry, hfind, -⟩ := (ServiceCache.mem_toRemove hM).mp (List.mem_of_mem_take hk)
        obtain ⟨usn, maxAge, hq, hkey, -⟩ := h.cache k entry hfind
        exact ⟨usn, _, maxAge, hq, hkey⟩
  · have hsame := (handleTimeout_notDue ho hdue hs).2
    exact h.of_same hsame.cache hsame.events

/-- Of itself a control point takes up nothing new. -/
theorem Cites.step {httparse : List UInt8 → Nat → Outcome} {Q : Fact → Prop} {op : CpOp}
    {cp cp' : ControlPoint M} {clock : Instant} (ho : cp.OwnTimers) (h : cp.Cites Q clock)
    (hop : (Act.controlPoint op).isLocal) (hs : op.step httparse cp = some cp') :
    cp'.Cites Q (op.clock clock) := by
  have hclock : clock ≤ op.clock clock := by
    unfold CpOp.clock
    split
    · exact Nat.le_max_left _ _
    · exact le_refl _
  refine Cites.later ?_ hclock
  cases op with
  | search target mx now =>
      have hsame := (search_same ho hs).2
      exact h.of_same hsame.cache hsame.events
  | handleDatagram now source payload => cases hop
  | handleTimeout now => exact h.handleTimeout hM ho hs
  | pollTransmit bufLen =>
      cases hs
      have hsame := cp.pollTransmit_same bufLen
      exact h.of_same hsame.cache hsame.events
  | pollEvent =>
      cases hs
      refine ⟨?_, fun e he => h.events e ?_⟩
      · rw [(pollEvent_timers cp).2]
        exact h.cache
      · rw [toList_pollEvent] at he
        exact List.mem_of_mem_tail he
  | pollTimeout =>
      cases hs
      exact h

/-- Of itself a control point leaves its cache alone, but for what a timeout finds expired. -/
theorem cache_of_local_step {httparse : List UInt8 → Nat → Outcome} {op : CpOp}
    {cp cp' : ControlPoint M} (ho : cp.OwnTimers) (hop : (Act.controlPoint op).isLocal)
    (hs : op.step httparse cp = some cp') : cp'.cache = cp.cache ∨
      ∃ now, op = .handleTimeout now ∧
        ∀ k, cp'.cache.find k = (cp.cache.find k).filter fun e => now < e.expiresAt := by
  cases op with
  | search target mx now => exact .inl (search_same ho hs).2.cache
  | pollTransmit bufLen =>
      cases hs
      exact .inl (cp.pollTransmit_same bufLen).cache
  | pollEvent =>
      cases hs
      exact .inl (pollEvent_timers cp).2
  | pollTimeout =>
      cases hs
      exact .inl rfl
  | handleDatagram now source payload => cases hop
  | handleTimeout now =>
      by_cases hdue : cp.ExpiryDue now
      · refine .inr ⟨now, rfl, fun k => ?_⟩
        rw [(handleTimeout_due hM ho hdue hs).2.1, ServiceCache.find_expire hM]
      · exact .inl (handleTimeout_notDue ho hdue hs).2.cache

/-- The two ways in which an entry leaves the cache. -/
theorem lost_of_step {httparse : List UInt8 → Nat → Outcome} {op : CpOp} {cp cp' : ControlPoint M}
    (ho : cp.OwnTimers) (hs : op.step httparse cp = some cp') {k : BoundedStr cacheUsn}
    {e : CpEntry} (hk : cp.cache.find k = some e) (hk' : cp'.cache.find k = none) :
    (∃ now, op = .handleTimeout now ∧ e.expiresAt ≤ now) ∨
      ∃ now source payload usn, op = .handleDatagram now source payload ∧
        PayloadSays httparse payload (.gone usn) ∧ k = usnToString usn := by
  have hkept : cp'.cache ≠ cp.cache := by
    intro hc
    rw [hc, hk] at hk'
    cases hk'
  by_cases hlocal : (Act.controlPoint op).isLocal
  · obtain hc | ⟨now, rfl, hfind⟩ := cache_of_local_step hM ho hlocal hs
    · exact absurd hc hkept
    · rw [hfind, hk] at hk'
      refine .inl ⟨now, rfl, Nat.not_lt.mp fun hlt => ?_⟩
      rw [Option.filter_some_pos (by simpa using hlt)] at hk'
      cases hk'
  · cases op with
    | handleDatagram now source payload =>
        simp only [CpOp.step, ControlPoint.handleDatagram] at hs
        split at hs
        · cases hs
          exact absurd rfl hkept
        · rename_i m hm
          rw [handleMessage_eq] at hs
          split at hs
          · rename_i usn location maxAge hann
            obtain ⟨b, cache, hc, rfl⟩ := announced_eq_some hs
            rw [reschedule_cache] at hk' hkept
            obtain ⟨-, l, -, hfind⟩ | ⟨-, rfl⟩ := ServiceCache.insert_eq_some hM hc
            · rw [hfind] at hk'
              split at hk'
              · cases hk'
              · rw [hk] at hk'
                cases hk'
            · exact absurd rfl hkept
          · rename_i usn _ hdep
            cases hs
            rw [departed_eq] at hk'
            dsimp only at hk'
            rw [ServiceCache.find_remove hM] at hk'
            split at hk'
            · exact .inr ⟨now, source, payload, usn, rfl, ⟨m, hm, hdep⟩, ‹_›⟩
            · rw [hk] at hk'
              cases hk'
          · cases hs
            exact absurd rfl hkept
    | _ => exact absurd rfl hlocal

end Laws
end ControlPoint
end RustyCastle.Ssdp
