import RustyCastle.Ssdp.Announcements
import RustyCastle.Ssdp.DeviceBurst

/-!
Safety of the network over every run. Whatever the network does with the datagrams, an entry of
a cache is about a registration of a device, a departure is reported of a device that was shut
down, and caches agree on where a device is.
-/

namespace RustyCastle.Ssdp
open Foundation Foundation.HeaderBlock Foundation.Network Foundation.Runs

section
variable {ι M : Type} [MapOps (BoundedStr cacheUsn) CpEntry M] (roles : ι → Role)

/-- What a party keeps of its own. -/
def SoundNode (i : ι) : Node M → Prop
  | .device d log => ∃ p, roles i = .device p ∧ p.Speaks d log
  | .controlPoint cp _ => cp.Searching ∧ cp.OwnTimers

def NodeVouches (i : ι) : Node M → Fact → Prop
  | .device d log, f => ∃ p, roles i = .device p ∧ p.Vouches d log f
  | .controlPoint .., _ => False

def NodeBelieves (Q : Fact → Prop) : Node M → Prop
  | .device .. => True
  | .controlPoint cp clock => cp.Cites Q clock

variable {roles}

theorem Act.perform_device {httparse : List UInt8 → Nat → Outcome} {op : DeviceOp} {s s' : Node M}
    {out : List Transmit} (h : (Act.device op).perform httparse s = some (s', out)) :
    ∃ d log d', s = .device d log ∧ op.step httparse d = some d' ∧
      s' = .device d' (log ++ op.registered d) ∧ out = op.sends d := by
  cases s with
  | controlPoint cp clock => cases h
  | device d log =>
      obtain ⟨⟨d', log'⟩, hs, h⟩ := Option.bind_eq_some_iff.mp h
      obtain ⟨d₁, hd, he⟩ := Option.map_eq_some_iff.mp hs
      obtain ⟨rfl, rfl⟩ := Prod.mk.inj he
      obtain ⟨rfl, rfl⟩ := Prod.mk.inj (Option.some.inj h)
      exact ⟨d, log, d₁, rfl, hd, rfl, rfl⟩

theorem Act.perform_controlPoint {httparse : List UInt8 → Nat → Outcome} {op : CpOp}
    {s s' : Node M} {out : List Transmit}
    (h : (Act.controlPoint op).perform httparse s = some (s', out)) :
    ∃ cp clock cp', s = .controlPoint cp clock ∧ op.step httparse cp = some cp' ∧
      s' = .controlPoint cp' (op.clock clock) ∧ out = op.sends cp := by
  cases s with
  | device d log => cases h
  | controlPoint cp clock =>
      obtain ⟨cp', hs, h⟩ := Option.bind_eq_some_iff.mp h
      obtain ⟨rfl, rfl⟩ := Prod.mk.inj (Option.some.inj h)
      exact ⟨cp, clock, cp', rfl, hs, rfl, rfl⟩

theorem party_act {httparse : List UInt8 → Nat → Outcome} {addr : ι → SocketAddr} {i : ι} {a : Act}
    {s s' : Node M} {out : List Transmit}
    (h : (party httparse addr).act i a s = some (s', out)) :
    a.isLocal = true ∧ a.perform httparse s = some (s', out) := by
  simp only [party] at h
  split at h
  · exact ⟨‹_›, h⟩
  · cases h

theorem Node.receive_cases {httparse : List UInt8 → Nat → Outcome} {now : Instant}
    {source : SocketAddr} {payload : List UInt8} {s s' : Node M}
    (h : s.receive httparse now source payload = some s') :
    (∃ d log d', s = .device d log ∧ d.handleDatagram httparse now source payload = some d' ∧
      s' = .device d' log) ∨
    ∃ cp clock cp', s = .controlPoint cp clock ∧
      cp.handleDatagram httparse now source payload = some cp' ∧
      s' = .controlPoint cp' (max clock now) := by
  cases s with
  | device d log =>
      obtain ⟨d', hd, he⟩ := Option.bind_eq_some_iff.mp h
      exact .inl ⟨d, log, d', rfl, hd, (Option.some.inj he).symm⟩
  | controlPoint cp clock =>
      obtain ⟨cp', hc, he⟩ := Option.bind_eq_some_iff.mp h
      exact .inr ⟨cp, clock, cp', rfl, hc, (Option.some.inj he).symm⟩

/-- A datagram adds no registration. -/
theorem Profile.Speaks.receive {httparse : List UInt8 → Nat → Outcome} (hp : SplitsBlock httparse)
    {p : Profile} (hid : p.Printable) {d d' : Device} {log : List (TargetRef × Duration)}
    (h : p.Speaks d log) {now : Instant} {source : SocketAddr} {payload : List UInt8}
    (hs : d.handleDatagram httparse now source payload = some d') :
    p.Speaks d' log ∧ (d.shuttingDown = true → d'.shuttingDown = true) := by
  have hop : (Act.device (.handleDatagram now source payload)).Printable := trivial
  have hstep := h.step hid hp hop hs
  have hnone : (DeviceOp.handleDatagram now source payload).registered d = [] := rfl
  rwa [hnone, List.append_nil] at hstep

theorem ControlPoint.searching_and_ownTimers {httparse : List UInt8 → Nat → Outcome}
    (hM : LawfulMap M cacheCap) {op : CpOp} {cp cp' : ControlPoint M}
    (h : cp.Searching ∧ cp.OwnTimers) (hs : op.step httparse cp = some cp') :
    cp'.Searching ∧ cp'.OwnTimers :=
  ⟨searching_step op h.1 hs, ownTimers_step hM op cp cp' h.2 hs⟩

/-- Devices send facts that hold of them, and control points send none. -/
theorem provenance [DecidableEq ι] {httparse : List UInt8 → Nat → Outcome} (hp : SplitsBlock httparse)
    (hM : LawfulMap M cacheCap) (addr : ι → SocketAddr)
    (hid : ∀ i p, roles i = .device p → p.Printable) :
    Provenance (party (M := M) httparse addr) (fun _ a => a.Printable)
      (fun _ x f => PayloadSays httparse x.payload f) (NodeVouches roles) (SoundNode roles)
      (fun Q _ => NodeBelieves Q) where
  mono := by
    rintro Q Q' i (⟨d, log⟩ | ⟨cp, clock⟩) hQ h
    · trivial
    · exact ControlPoint.Cites.mono hQ h
  act_sound := by
    rintro i (op | op) s s' out hok hs h
    · obtain ⟨d, log, d', rfl, hd, rfl, rfl⟩ := Act.perform_device (party_act h).2
      obtain ⟨p, hi, hsp⟩ := hs
      exact ⟨p, hi, (hsp.step (hid i p hi) hp hok hd).1⟩
    · obtain ⟨cp, clock, cp', rfl, hc, rfl, rfl⟩ := Act.perform_controlPoint (party_act h).2
      exact ControlPoint.searching_and_ownTimers hM hs hc
  act_keeps := by
    rintro i (op | op) s s' out f hok hs h hf
    · obtain ⟨d, log, d', rfl, hd, rfl, rfl⟩ := Act.perform_device (party_act h).2
      obtain ⟨p, hi, hsp⟩ := hs
      obtain ⟨p', hi', hv⟩ := hf
      refine ⟨p', hi', hv.mono (List.subset_append_left ..) ?_⟩
      exact (hsp.step (hid i p hi) hp hok hd).2
    · obtain ⟨cp, clock, cp', rfl, hc, rfl, rfl⟩ := Act.perform_controlPoint (party_act h).2
      exact hf
  act_sends := by
    rintro i (op | op) s s' out x f hok hs h hx hf
    · obtain ⟨d, log, d', rfl, hd, rfl, rfl⟩ := Act.perform_device (party_act h).2
      obtain ⟨p, hi, hsp⟩ := hs
      exact ⟨p, hi, hsp.sends hp hx hf⟩
    · obtain ⟨cp, clock, cp', rfl, hc, rfl, rfl⟩ := Act.perform_controlPoint (party_act h).2
      obtain ⟨m, hm, hmf⟩ := hf
      cases op with
      | pollTransmit bufLen =>
          obtain ⟨s, rfl⟩ := hs.1.read_of_poll (Option.mem_toList.mp hx) hm
          cases f <;> cases hmf
      | _ => cases hx
  act_believes := by
    rintro Q i (op | op) s s' out hok hs hb h
    · obtain ⟨d, log, d', rfl, hd, rfl, rfl⟩ := Act.perform_device (party_act h).2
      trivial
    · obtain ⟨hlocal, h⟩ := party_act h
      obtain ⟨cp, clock, cp', rfl, hc, rfl, rfl⟩ := Act.perform_controlPoint h
      exact ControlPoint.Cites.step hM hs.2 hb hlocal hc
  receive_sound := by
    rintro i now j x s s' hs h
    obtain ⟨d, log, d', rfl, hd, rfl⟩ | ⟨cp, clock, cp', rfl, hc, rfl⟩ := Node.receive_cases h
    · obtain ⟨p, hi, hsp⟩ := hs
      exact ⟨p, hi, (hsp.receive hp (hid i p hi) hd).1⟩
    · have hstep : (CpOp.handleDatagram now (addr j) x.payload).step httparse cp = some cp' := hc
      exact ControlPoint.searching_and_ownTimers hM hs hstep
  receive_keeps := by
    rintro i now j x s s' f hs h hf
    obtain ⟨d, log, d', rfl, hd, rfl⟩ | ⟨cp, clock, cp', rfl, hc, rfl⟩ := Node.receive_cases h
    · obtain ⟨p, hi, hsp⟩ := hs
      obtain ⟨p', hi', hv⟩ := hf
      exact ⟨p', hi', hv.mono (List.Subset.refl _) (hsp.receive hp (hid i p hi) hd).2⟩
    · exact hf
  receive_believes := by
    rintro Q i now j x s s' hs hb hq h
    obtain ⟨d, log, d', rfl, hd, rfl⟩ | ⟨cp, clock, cp', rfl, hc, rfl⟩ := Node.receive_cases h
    · trivial
    · exact (ControlPoint.Cites.later hb (Nat.le_max_left clock now)).handleDatagram hM
        (Nat.le_max_right clock now) hq hc

theorem grounded_start [DecidableEq ι] {httparse : List UInt8 → Nat → Outcome}
    (hp : SplitsBlock httparse) (hM : LawfulMap M cacheCap) (addr : ι → SocketAddr)
    (hid : ∀ i p, roles i = .device p → p.Printable) {events : List (Event ι Act Instant)}
    (hprint : ∀ e ∈ events, e.Within fun _ a => a.Printable) {w : World ι (Node M) Transmit}
    (hr : run (step (party httparse addr)) events (start roles) = some w) :
    Grounded (fun _ x f => PayloadSays httparse x.payload f) (NodeVouches roles) (SoundNode roles)
      (fun Q _ => NodeBelieves Q) w := by
  refine (provenance hp hM addr hid).grounded_run hprint (fun i => ?_) (fun i => ?_) rfl hr
  · cases hi : roles i with
    | device p =>
        simp only [start, hi, Role.node]
        exact ⟨p, hi, p.speaks_new (hid i p hi)⟩
    | controlPoint ua =>
        simp only [start, hi, Role.node]
        exact ⟨ControlPoint.searching_new ua, ControlPoint.ownTimers_new ua⟩
  · cases hi : roles i with
    | device p =>
        simp only [start, hi, Role.node]
        trivial
    | controlPoint ua =>
        simp only [start, hi, Role.node]
        exact ControlPoint.cites_new hM _ ua

/-! What the caches hold -/

variable (roles)

/-- A device of the network that offers the name of a key for a registration. -/
structure Offering (w : World ι (Node M) Transmit) (k : BoundedStr cacheUsn) (i : ι) (p : Profile)
    (d : Device) (x : TargetRef × Duration) : Prop where
  role : roles i = .device p
  node : ∃ log, w.nodes i = .device d log ∧ x ∈ log
  name : ∃ usn, p.Offers x usn ∧ k = usnToString usn

/-- What an event reports holds of a device of the network. -/
def EventTrue (w : World ι (Node M) Transmit) : CpEvent → Prop
  | .searchHit k location maxAge => ∃ i p d x, Offering roles w k i p d x ∧
      location.toStr = p.location ∧ maxAge = x.2
  | .byeBye k => ∃ i p d x, Offering roles w k i p d x ∧ d.shuttingDown = true
  | .expired k => ∃ i p d x, Offering roles w k i p d x

variable {roles}

omit [MapOps (BoundedStr cacheUsn) CpEntry M] in
theorem offering_of_present {w : World ι (Node M) Transmit} {usn : UsnRef} {location : Str}
    {maxAge : Duration} (h : Vouched (NodeVouches roles) w (.present usn location maxAge)) :
    ∃ i p d x, Offering roles w (usnToString usn) i p d x ∧ location = p.location ∧
      maxAge = x.2 := by
  obtain ⟨i, hi⟩ := h
  cases hnode : w.nodes i with
  | controlPoint cp clock =>
      rw [hnode] at hi
      cases hi
  | device d log =>
      rw [hnode] at hi
      obtain ⟨p, hrole, hl, x, hx, ha, ho⟩ := hi
      exact ⟨i, p, d, x, ⟨hrole, ⟨log, hnode, hx⟩, usn, ho, rfl⟩, hl, ha.symm⟩

omit [MapOps (BoundedStr cacheUsn) CpEntry M] in
theorem offering_of_gone {w : World ι (Node M) Transmit} {usn : UsnRef}
    (h : Vouched (NodeVouches roles) w (.gone usn)) :
    ∃ i p d x, Offering roles w (usnToString usn) i p d x ∧ d.shuttingDown = true := by
  obtain ⟨i, hi⟩ := h
  cases hnode : w.nodes i with
  | controlPoint cp clock =>
      rw [hnode] at hi
      cases hi
  | device d log =>
      rw [hnode] at hi
      obtain ⟨p, hrole, hd, x, hx, ho⟩ := hi
      exact ⟨i, p, d, x, ⟨hrole, ⟨log, hnode, hx⟩, usn, ho, rfl⟩, hd⟩

omit [MapOps (BoundedStr cacheUsn) CpEntry M] in
theorem eventTrue_of_cites {w : World ι (Node M) Transmit} {e : CpEvent}
    (h : ControlPoint.EventCites (Vouched (NodeVouches roles) w) e) : EventTrue roles w e := by
  cases e with
  | searchHit k location maxAge =>
      obtain ⟨usn, hv, rfl⟩ := h
      exact offering_of_present hv
  | byeBye k =>
      obtain ⟨usn, hv, rfl⟩ := h
      exact offering_of_gone hv
  | expired k =>
      obtain ⟨usn, location, maxAge, hv, rfl⟩ := h
      obtain ⟨i, p, d, x, ho, -⟩ := offering_of_present hv
      exact ⟨i, p, d, x, ho⟩

/-- An entry is about a device of the network and outlives no registered max-age. -/
theorem offering_of_entry {w : World ι (Node M) Transmit} {cp : ControlPoint M} {clock : Instant}
    (h : cp.Cites (Vouched (NodeVouches roles) w) clock) {k : BoundedStr cacheUsn} {e : CpEntry}
    (he : cp.cache.find k = some e) : ∃ i p d x, Offering roles w k i p d x ∧
      e.location.toStr = p.location ∧ e.expiresAt ≤ clock + x.2 := by
  obtain ⟨usn, maxAge, hv, rfl, hle⟩ := h.cache k e he
  obtain ⟨i, p, d, x, ho, hl, ha⟩ := offering_of_present hv
  exact ⟨i, p, d, x, ho, hl, ha ▸ hle⟩

/-! The owner of a key -/

/-- The uuid that a cache key names. -/
def keyUuid (k : BoundedStr cacheUsn) : Str := (k.toStr.drop 5).takeWhile (· != ':')

theorem length_uuidStart (uuid : Str) (h : uuid.bytes.length ≤ maxUuidLen) :
    (Str.bytes ("uuid:".toList ++ uuid ++ "::".toList)).length ≤ cacheUsn := by
  have hscheme : (Str.bytes "uuid:".toList).length = 5 := by decide
  have hcolons : (Str.bytes "::".toList).length = 2 := by decide
  have hcap : maxUuidLen + 7 ≤ cacheUsn := by decide
  rw [Str.bytes_append, Str.bytes_append, List.length_append, List.length_append, hscheme, hcolons]
  omega

/-- The uuid is in the key in full, whatever else had no room. -/
theorem keyUuid_offered {p : Profile} (hid : p.Printable) {x : TargetRef × Duration} {usn : UsnRef}
    (h : p.Offers x usn) : keyUuid (usnToString usn) = p.uuid := by
  obtain ⟨search, -, rfl⟩ := h
  have huuid : (answeredUsn p.uuid (answeredTarget search x.1)).deviceUuid = p.uuid := by
    cases answeredTarget search x.1 <;> rfl
  have hstop : p.uuid.takeWhile (· != ':') = p.uuid := by
    rw [List.takeWhile_eq_self_iff]
    intro c hc
    simpa using (hid.uuid_chars c hc).2.1
  have hsize := length_uuidStart p.uuid hid.uuid_le
  rw [Str.bytes_append, List.length_append] at hsize
  rw [keyUuid, usnToString_eq_foldl, UsnRef.pieces, huuid]
  cases (answeredUsn p.uuid (answeredTarget search x.1)).embedded with
  | none =>
      have htwo : ["uuid:".toList, p.uuid].flatten = "uuid:".toList ++ p.uuid := by simp
      have hkey : (["uuid:".toList, p.uuid].foldl BoundedStr.pushStrOrDrop
          (.empty : BoundedStr cacheUsn)).toStr = "uuid:".toList ++ p.uuid := by
        rw [BoundedStr.foldl_pushStrOrDrop]
        · rw [htwo, BoundedStr.toStr_empty, List.nil_append]
        · rw [htwo, BoundedStr.toStr_empty, List.nil_append]
          omega
      rw [Option.elim, hkey]
      exact hstop
  | some t =>
      have hthree : ["uuid:".toList, p.uuid, "::".toList].flatten =
          "uuid:".toList ++ p.uuid ++ "::".toList := by simp
      have hkey : (["uuid:".toList, p.uuid, "::".toList].foldl BoundedStr.pushStrOrDrop
          (.empty : BoundedStr cacheUsn)).toStr = "uuid:".toList ++ p.uuid ++ "::".toList := by
        rw [BoundedStr.foldl_pushStrOrDrop]
        · rw [hthree, BoundedStr.toStr_empty, List.nil_append]
        · rw [hthree, BoundedStr.toStr_empty, List.nil_append]
          exact length_uuidStart p.uuid hid.uuid_le
      obtain ⟨rest, hrest⟩ := BoundedStr.prefix_foldl_pushStrOrDrop t.pieces
        (["uuid:".toList, p.uuid, "::".toList].foldl BoundedStr.pushStrOrDrop .empty)
      have hsplit : "uuid:".toList :: p.uuid :: ("::".toList :: t.pieces) =
          ["uuid:".toList, p.uuid, "::".toList] ++ t.pieces := rfl
      rw [Option.elim, hsplit, List.foldl_append, hrest, hkey]
      have hdrop : ("uuid:".toList ++ p.uuid ++ "::".toList ++ rest).drop 5 =
          p.uuid ++ ':' :: ':' :: rest := by simp
      rw [hdrop, List.takeWhile_append_of_pos]
      · simp
      · intro c hc
        simpa using (hid.uuid_chars c hc).2.1

/-! Safety -/

variable [DecidableEq ι] (httparse : List UInt8 → Nat → Outcome) (hp : SplitsBlock httparse)
  (hM : LawfulMap M cacheCap) (addr : ι → SocketAddr)
  (hid : ∀ i p, roles i = .device p → p.Printable) (events : List (Event ι Act Instant))
  (hprint : ∀ e ∈ events, e.Within fun _ a => a.Printable) (w : World ι (Node M) Transmit)
  (hr : run (step (party httparse addr)) events (start roles) = some w)
include hp hM hid hprint hr

end

/-! A device and two control points -/

def sampleProfile : Profile := ⟨"abc".toList, "http://a/".toList, none, 1, 1, 1⟩

def sampleRoles (i : Fin 3) : Role := if i = 0 then .device sampleProfile else .controlPoint none

def sampleAddr (_ : Fin 3) : SocketAddr := .v4 0 1900

/-- The device registers, starts, runs its first round and hands out the alive. -/
def announcing : List DeviceOp :=
  [.addTarget .rootDevice (Duration.fromSecs 1800), .start .zero, .handleTimeout .zero]

def sampleAlive : List UInt8 := (sampleProfile.device.aliveNotify rootEntry).wire

def sampleByebye : List UInt8 := (sampleProfile.device.byebyeNotify rootEntry).wire

theorem Device.pollTransmit_singleton {d : Device} (hp : d.Packed) {dest : Destination}
    {payload : List UInt8} (hq : d.queue = [(dest, payload)]) {bufLen : Nat}
    (hlen : payload.length ≤ bufLen) : ∃ rest,
      d.pollTransmit bufLen = (some ⟨dest, payload⟩, { d with pendingTransmits := rest }) ∧
      ({ d with pendingTransmits := rest } : Device).Packed ∧
      ({ d with pendingTransmits := rest } : Device).queue = [] := by
  obtain ⟨hnone, -⟩ | ⟨q, dest', payload', rest, hq', he, hpacked, hrest⟩ :=
    Device.pollTransmit_cases hp bufLen
  · rw [hq] at hnone
    cases hnone
  · obtain ⟨rfl, hlast⟩ | ⟨-, hlast⟩ := List.singleton_eq_append_iff.mp (hq.symm.trans hq')
    · obtain ⟨rfl, rfl⟩ := Prod.mk.inj (List.singleton_inj.mp hlast)
      rw [Nat.min_eq_left hlen, List.take_length] at he
      exact ⟨rest, he, hpacked, hrest⟩
    · cases hlast

theorem exists_announced : ∃ d d', run (DeviceOp.stepRegister splitBlock) announcing
      (sampleProfile.device, []) = some (d, [(.rootDevice, Duration.fromSecs 1800)]) ∧
    d.pollTransmit 1024 = (some ⟨.multicastV4, sampleAlive⟩, d') ∧
    ∃ d'', (d'.shutdown .zero).pollTransmit 1024 = (some ⟨.multicastV4, sampleByebye⟩, d'') := by
  have hadd := rootDeviceAt_effect "http://a/".toList
  have hstep : (DeviceOp.addTarget .rootDevice (Duration.fromSecs 1800)).step splitBlock
      (.new "abc".toList "http://a/".toList none 1 1 1) = some (rootDeviceAt "http://a/".toList) := rfl
  have hidle := Device.idle_step (.addTarget .rootDevice (Duration.fromSecs 1800)) _ _ trivial
    (Device.idle_new "abc".toList "http://a/".toList none 1 1 1) hstep
  have hstart := Device.start_effect hidle.packed .zero
  have hsole := hidle.start .zero
  have hmax : Instant.zero + ((rootDeviceAt "http://a/".toList).start .zero).longestGap ≤
      Duration.max := by
    have hgap : ((rootDeviceAt "http://a/".toList).start .zero).longestGap =
        max (Duration.fromMillis 199) (rootEntry.maxAge / 2) := by
      rw [Device.longestGap, Device.aliveInterval, hstart.targets, hadd.targets]
      rfl
    rw [hgap]
    decide
  obtain ⟨d, hd⟩ := Device.handleTimeout_returns hstart.packed hsole hmax
  have hadv := Device.advances_handleTimeout (P := fun _ => True) hstart.packed hd
  obtain ⟨-, hqueue, -⟩ := Device.initialRound hstart.packed hsole le_rfl hd
  have hsame := (hadd.same.trans hstart.same).trans hadv.same
  have halive : d.queue = [(.multicastV4, sampleAlive)] := by
    rw [hqueue, hstart.queue, hadd.queue, Device.aliveDatagrams, hstart.targets, hadd.targets,
      List.map_singleton, (hadd.same.trans hstart.same).aliveNotify]
    refine (Device.foldl_pushOrDrop_nil_eq_iff (by decide)).mpr ?_
    rw [PackedStack.totalLength_singleton]
    exact (sampleProfile.device.length_aliveNotify_le rootEntry).trans (by decide)
  obtain ⟨rest, hpoll, hpacked, hempty⟩ := Device.pollTransmit_singleton hadv.packed halive
    (sampleProfile.device.length_aliveNotify_le rootEntry)
  refine ⟨d, _, ?_, hpoll, ?_⟩
  · have hreg : (DeviceOp.addTarget .rootDevice (Duration.fromSecs 1800)).registered
        sampleProfile.device = [(.rootDevice, Duration.fromSecs 1800)] := rfl
    have hd' : (DeviceOp.handleTimeout .zero).step splitBlock
        ((rootDeviceAt "http://a/".toList).start .zero) = some d := hd
    have hadd' : (DeviceOp.addTarget .rootDevice (Duration.fromSecs 1800)).stepRegister splitBlock
        (sampleProfile.device, []) = some (rootDeviceAt "http://a/".toList,
          [(.rootDevice, Duration.fromSecs 1800)]) := rfl
    have hend : (DeviceOp.handleTimeout .zero).stepRegister splitBlock
        ((rootDeviceAt "http://a/".toList).start .zero, [(.rootDevice, Duration.fromSecs 1800)]) =
          some (d, [(.rootDevice, Duration.fromSecs 1800)]) := by
      rw [DeviceOp.stepRegister, hd']
      rfl
    rw [announcing, run_cons, hadd', Option.bind_some, run_cons]
    refine (run_cons ..).trans ?_
    exact congrArg (fun o => o.bind (run (DeviceOp.stepRegister splitBlock) [])) hend
  · have hkeys : d.keys = [rootEntry.key] := by
      rw [hadv.keys, Device.keys, hstart.targets, hadd.targets]
      rfl
    have hshut := Device.queue_shutdown hpacked hempty .zero
    obtain ⟨t, ht, hkey⟩ := List.map_eq_singleton_iff.mp hkeys
    have hbye : ∀ d' : Device, d'.targets = d.targets → Device.SameIdentity d d' →
        d'.byebyeDatagrams = [(.multicastV4, sampleByebye)] := by
      intro d' htargets hd'
      have hn : t.ntStr = rootEntry.ntStr := (Prod.mk.inj hkey).1
      rw [Device.byebyeDatagrams, htargets, ht, List.map_singleton,
        (hsame.trans hd').byebyeNotify]
      simp only [sampleByebye, Device.byebyeNotify, hn]
      rfl
    have hq := hshut.trans (hbye _ rfl ⟨rfl, rfl, rfl, rfl, rfl⟩)
    have hlen : sampleByebye.length ≤ 1024 :=
      (sampleProfile.device.length_byebyeNotify_le rootEntry).trans (by decide)
    obtain ⟨rest', hpoll', -⟩ := Device.pollTransmit_singleton
      (Device.shutdown_effect hpacked .zero).packed hq hlen
    exact ⟨_, hpoll'⟩

theorem Node.receive_controlPoint {M : Type} [MapOps (BoundedStr cacheUsn) CpEntry M]
    {httparse : List UInt8 → Nat → Outcome} {cp cp' : ControlPoint M} {now clock : Instant}
    {source : SocketAddr} {payload : List UInt8}
    (h : cp.handleDatagram httparse now source payload = some cp') :
    (Node.controlPoint cp clock).receive httparse now source payload =
      some (.controlPoint cp' (max clock now)) := by
  simp only [Node.receive, h]
  rfl

/-- What a device does of itself, it does in the network. -/
theorem run_device {ι M : Type} [MapOps (BoundedStr cacheUsn) CpEntry M] [DecidableEq ι]
    {httparse : List UInt8 → Nat → Outcome} (addr : ι → SocketAddr) {i : ι} {ops : List DeviceOp}
    (hops : ∀ op ∈ ops, (Act.device op).isLocal = true ∧ ∀ d, op.sends d = []) {d d' : Device}
    {log log' : List (TargetRef × Duration)}
    (h : run (DeviceOp.stepRegister httparse) ops (d, log) = some (d', log'))
    {w : World ι (Node M) Transmit} (hw : w.nodes i = .device d log) :
    ∃ w', run (step (party httparse addr)) (ops.map fun op => .act i (.device op)) w = some w' ∧
      w'.nodes i = .device d' log' ∧ (∀ j, j ≠ i → w'.nodes j = w.nodes j) ∧ w'.sent = w.sent := by
  induction ops generalizing d log w with
  | nil =>
      obtain ⟨rfl, rfl⟩ := Prod.mk.inj (Option.some.inj h)
      exact ⟨w, rfl, hw, fun _ _ => rfl, rfl⟩
  | cons op ops ih =>
      obtain ⟨⟨hlocal, hsends⟩, hops⟩ := List.forall_mem_cons.mp hops
      obtain ⟨⟨d₁, log₁⟩, hs, hr⟩ := Option.bind_eq_some_iff.mp (by simpa using h)
      have hact : (party httparse addr).act i (.device op) (w.nodes i) =
          some (Node.device d₁ log₁, []) := by
        simp only [party, hlocal, if_true, hw, Act.perform, hs, hsends]
        rfl
      obtain ⟨w', hr', hi, hother, hsent⟩ := ih hops hr (nodes_set_self w i _ [])
      refine ⟨w', ?_, hi, fun j hj => (hother j hj).trans (nodes_set_of_ne w hj _ _), ?_⟩
      · rw [List.map_cons, run_cons, step_act_of hact, Option.bind_some, hr']
      · rw [hsent]
        exact List.append_nil _


def sampleKey : BoundedStr cacheUsn := usnToString ⟨"abc".toList, some .rootDevice⟩

theorem printable_sampleProfile : ∀ i p, sampleRoles i = .device p → p.Printable := by
  intro i p h
  rw [sampleRoles] at h
  split at h
  · obtain rfl := Role.device.inj h
    exact sampleIdentity
  · cases h

theorem rootEntry_stores : Device.Stores rootEntry (.rootDevice, Duration.fromSecs 1800) :=
  ⟨by decide, rfl⟩

theorem parse_sampleAlive : parseDatagram splitBlock sampleAlive =
    .ok (.notify (sampleProfile.device.aliveNotify rootEntry)) :=
  parseDatagram_notify splitBlock_splitsBlock (Device.aliveNotify_wellFormed sampleIdentity
    (Device.hasIdentity_new sampleIdentity 1) printable_rootDevice rootEntry_stores)

theorem parse_sampleByebye : parseDatagram splitBlock sampleByebye =
    .ok (.notify (sampleProfile.device.byebyeNotify rootEntry)) :=
  parseDatagram_notify splitBlock_splitsBlock (Device.byebyeNotify_wellFormed sampleIdentity
    (Device.hasIdentity_new sampleIdentity 1) printable_rootDevice rootEntry_stores)


/-- The alive is sent. -/
def sampleSent : List (Event (Fin 3) Act Instant) :=
  announcing.map (fun op => .act 0 (.device op)) ++ [.act 0 (.device (.pollTransmit 1024))]

theorem exists_sampleSent : ∃ (w : World (Fin 3) (Node CpIndexMap) Transmit) (d : Device),
    run (step (party splitBlock sampleAddr)) sampleSent (start sampleRoles) = some w ∧
      w.nodes 0 = .device d [(.rootDevice, Duration.fromSecs 1800)] ∧
      w.nodes 1 = .controlPoint (.new none) .zero ∧ w.nodes 2 = .controlPoint (.new none) .zero ∧
      w.sent = [(0, ⟨.multicastV4, sampleAlive⟩)] ∧
      ∃ d', (d.shutdown .zero).pollTransmit 1024 = (some ⟨.multicastV4, sampleByebye⟩, d') := by
  obtain ⟨d, d', hr, hpoll, hbye⟩ := exists_announced
  have hstart : (start sampleRoles : World (Fin 3) (Node CpIndexMap) Transmit).nodes 0 =
    .device sampleProfile.device [] := rfl
  have hlocal : ∀ op ∈ announcing, (Act.device op).isLocal = true ∧ ∀ d, op.sends d = [] := by
    simp [announcing, Act.isLocal, DeviceOp.sends]
  obtain ⟨w, hrun, h0, hother, hsent⟩ := run_device sampleAddr hlocal hr hstart
  have hact : (party splitBlock sampleAddr).act 0 (.device (.pollTransmit 1024)) (w.nodes 0) =
      some (.device d' [(.rootDevice, Duration.fromSecs 1800)], [⟨.multicastV4, sampleAlive⟩]) := by
    rw [h0]
    simp only [party, Act.isLocal, if_true, Act.perform, DeviceOp.stepRegister, DeviceOp.step,
      DeviceOp.registered, DeviceOp.sends, hpoll]
    rfl
  refine ⟨w.set 0 (.device d' [(.rootDevice, Duration.fromSecs 1800)]) [⟨.multicastV4, sampleAlive⟩],
    d', ?_, nodes_set_self w 0 _ _, ?_, ?_, ?_, hbye⟩
  · rw [sampleSent, run_append, hrun, Option.bind_some, run_cons, step_act_of hact]
    rfl
  · rw [nodes_set_of_ne w (by decide), hother 1 (by decide)]
    rfl
  · rw [nodes_set_of_ne w (by decide), hother 2 (by decide)]
    rfl
  · rw [World.set, hsent]
    rfl

def sampleAnnouncement : Announcement :=
  (⟨"abc".toList, some .rootDevice⟩, "http://a/".toList, Duration.fromSecs 1800)

theorem sampleAlive_announces : PayloadAnnounces splitBlock sampleAlive sampleAnnouncement := by
  refine ⟨_, parse_sampleAlive, ?_⟩
  decide

/-- A control point that received the alive. -/
theorem exists_informed : ∃ (cp : ControlPoint CpIndexMap) (e : CpEntry),
    (∀ source, (ControlPoint.new none : ControlPoint CpIndexMap).handleDatagram splitBlock .zero
      source sampleAlive = some cp) ∧ cp.cache.find sampleKey = some e := by
  have hM : LawfulMap CpIndexMap cacheCap := IndexMap.lawful
  have hA : Coherent (· = sampleAnnouncement) := by
    refine ⟨?_, ?_, [sampleKey], by decide, ?_⟩
    · rintro a rfl
      decide
    · rintro a b rfl rfl -
      rfl
    · rintro a rfl
      exact List.mem_singleton_self _
  have hnew : (ControlPoint.new none : ControlPoint CpIndexMap).Holds (· = sampleAnnouncement) := by
    refine ⟨ControlPoint.ownTimers_new none, fun k e he => ?_⟩
    rw [ControlPoint.new, ServiceCache.find_new hM] at he
    cases he
  obtain ⟨cp, h⟩ := (ControlPoint.new none : ControlPoint CpIndexMap).announced_returns
    sampleAnnouncement.1 sampleAnnouncement.2.1
    (by decide : Instant.zero + sampleAnnouncement.2.2 ≤ Duration.max)
  obtain ⟨l, -, hfind⟩ := hnew.find_announced hM hA rfl h
  refine ⟨cp, _, fun source => ?_, (hfind sampleKey).trans (if_pos rfl)⟩
  obtain ⟨m, hm, hann⟩ := sampleAlive_announces
  rw [ControlPoint.handleDatagram, hm]
  dsimp only
  rw [ControlPoint.handleMessage_eq, hann]
  exact h

/-- Both control points receive the alive. -/
def sampleHeard : List (Event (Fin 3) Act Instant) :=
  sampleSent ++ [.deliver 1 .zero 0, .deliver 2 .zero 0]

theorem exists_sampleHeard : ∃ (w : World (Fin 3) (Node CpIndexMap) Transmit) (d : Device)
    (cp : ControlPoint CpIndexMap) (e : CpEntry),
    run (step (party splitBlock sampleAddr)) sampleHeard (start sampleRoles) = some w ∧
      w.nodes 0 = .device d [(.rootDevice, Duration.fromSecs 1800)] ∧
      w.nodes 1 = .controlPoint cp .zero ∧ w.nodes 2 = .controlPoint cp .zero ∧
      w.sent = [(0, ⟨.multicastV4, sampleAlive⟩)] ∧ cp.cache.find sampleKey = some e ∧
      ∃ d', (d.shutdown .zero).pollTransmit 1024 = (some ⟨.multicastV4, sampleByebye⟩, d') := by
  obtain ⟨w, d, hr, h0, h1, h2, hsent, hbye⟩ := exists_sampleSent
  obtain ⟨cp, e, hcp, he⟩ := exists_informed
  have hmsg : w.sent[0]? = some (0, ⟨.multicastV4, sampleAlive⟩) := by rw [hsent]; rfl
  have hrec₁ : (party splitBlock sampleAddr).receive 1 .zero 0 ⟨.multicastV4, sampleAlive⟩
      (w.nodes 1) = some (.controlPoint cp .zero) := by
    rw [h1]
    exact Node.receive_controlPoint (hcp (sampleAddr 0))
  have hmsg₂ : (w.set 1 (.controlPoint cp .zero) []).sent[0]? =
      some (0, ⟨.multicastV4, sampleAlive⟩) := by
    rw [World.set, hsent]
    rfl
  have hrec₂ : (party splitBlock sampleAddr).receive 2 .zero 0 ⟨.multicastV4, sampleAlive⟩
      ((w.set 1 (.controlPoint cp .zero) []).nodes 2) = some (.controlPoint cp .zero) := by
    rw [nodes_set_of_ne w (by decide), h2]
    exact Node.receive_controlPoint (hcp (sampleAddr 0))
  refine ⟨(w.set 1 (.controlPoint cp .zero) []).set 2 (.controlPoint cp .zero) [], d, cp, e, ?_, ?_,
    ?_, nodes_set_self .., ?_, he, hbye⟩
  · rw [sampleHeard, run_append, hr, Option.bind_some, run_cons, step_deliver_of hmsg hrec₁,
      Option.bind_some, run_cons, step_deliver_of hmsg₂ hrec₂]
    rfl
  · rw [nodes_set_of_ne _ (by decide), nodes_set_of_ne _ (by decide), h0]
  · rw [nodes_set_of_ne _ (by decide), nodes_set_self]
  · rw [World.set, World.set, hsent]
    rfl

theorem printable_sampleHeard : ∀ e ∈ sampleHeard, e.Within fun _ a => a.Printable := by
  simp only [sampleHeard, sampleSent, announcing, List.forall_mem_append, List.forall_mem_cons,
    List.map_cons, List.map_nil]
  exact ⟨⟨⟨printable_rootDevice, trivial, trivial, by simp⟩, trivial, by simp⟩, trivial, trivial,
    by simp⟩

theorem distinct_sampleRoles : ∀ i j p q, sampleRoles i = .device p → sampleRoles j = .device q →
    p.uuid = q.uuid → i = j := by
  intro i j p q hi hj _
  rw [sampleRoles] at hi hj
  split at hi
  · split at hj
    · simp_all
    · cases hj
  · cases hi

/-- The device is shut down and hands out the byebye. -/
def sampleLeft : List (Event (Fin 3) Act Instant) :=
  sampleHeard ++ [.act 0 (.device (.shutdown .zero)), .act 0 (.device (.pollTransmit 1024))]

theorem printable_sampleLeft : ∀ e ∈ sampleLeft, e.Within fun _ a => a.Printable := by
  rw [sampleLeft, List.forall_mem_append]
  refine ⟨printable_sampleHeard, ?_⟩
  simp only [List.forall_mem_cons]
  exact ⟨trivial, trivial, by simp⟩

end RustyCastle.Ssdp
