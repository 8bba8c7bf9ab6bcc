import RustyCastle.Ssdp.NetworkSafety

/-!
Discovery in the network. While the devices stay in service and no max-age has run out, a
datagram that was delivered is enough for a control point to know what it announces.
-/

namespace RustyCastle.Ssdp
open Foundation Foundation.HeaderBlock Foundation.Network Foundation.Runs

/-! A device in service -/

namespace Device

theorem up_onTimer {d d' : Device} {now : Instant} {k : TimerKind} (hp : d.Packed)
    (hup : d.shuttingDown = false) (h : onTimer now d k = some d') :
    d'.Packed ∧ d'.shuttingDown = false := by
  cases k with
  | initialAlive =>
      obtain ⟨next, -, he⟩ := onInitialAlive_effect hp h
      exact ⟨he.packed, he.down.trans hup⟩
  | aliveRefresh =>
      have he := onAliveRefresh_effect hp hup h
      exact ⟨he.packed, he.down.trans hup⟩
  | searchResponse | searchRetransmit | cacheExpiry =>
      cases h
      exact ⟨hp, hup⟩

theorem up_foldlM {d d' : Device} {now : Instant} {ks : List TimerKind} (hp : d.Packed)
    (hup : d.shuttingDown = false) (h : ks.foldlM (onTimer now) d = some d') :
    d'.shuttingDown = false := by
  induction ks generalizing d with
  | nil =>
      cases h
      exact hup
  | cons k ks ih =>
      obtain ⟨d₁, h₁, h₂⟩ := Option.bind_eq_some_iff.mp (by simpa using h)
      obtain ⟨hp₁, hup₁⟩ := up_onTimer hp hup h₁
      exact ih hp₁ hup₁ h₂

/-- Only a shutdown takes a device out of service. -/
theorem up_step {httparse : List UInt8 → Nat → Outcome} {op : DeviceOp} {d d' : Device}
    (hp : d.Packed) (hup : d.shuttingDown = false) (hop : ∀ now, op ≠ .shutdown now)
    (h : op.step httparse d = some d') : d'.shuttingDown = false := by
  cases op with
  | addTarget nt maxAge =>
      cases h
      obtain he | ⟨ntStr, targets, -, -, -, he⟩ := d.addTarget_cases nt maxAge
      · rw [he]
        exact hup
      · rw [he]
        exact hup
  | start now =>
      cases h
      exact (start_effect hp now).down.trans hup
  | shutdown now => exact absurd rfl (hop now)
  | handleTimeout now => exact up_foldlM (d := d.drained now) ⟨hp.packed, hp.used_le⟩ hup h
  | handleDatagram | pollTransmit | pollEvent | pollTimeout =>
      exact (passes_step hp h trivial trivial).alive.down.trans hup

end Device

/-! The network -/

section
variable {ι M : Type} [MapOps (BoundedStr cacheUsn) CpEntry M] (httparse : List UInt8 → Nat → Outcome)
  (roles : ι → Role) (regs : ι → List (TargetRef × Duration)) (names : List (BoundedStr cacheUsn))

/-- A device of the network announces this of one of its registrations, under one of the names. -/
def Announced (a : Announcement) : Prop :=
  usnToString a.1 ∈ names ∧
    ∃ i p, roles i = .device p ∧ a.2.1 = p.location ∧ ∃ x ∈ regs i, x.2 = a.2.2 ∧ p.Offers x a.1

/-- The datagram of the network announces this. -/
def Conveys (w : World ι (Node M) Transmit) (n : Nat) (a : Announcement) : Prop :=
  ∃ i x, w.sent[n]? = some (i, x) ∧ PayloadAnnounces httparse x.payload a

/-- The devices make no other registrations and stay in service. What the control point receives
is under one of the names and holds until the deadline, and it looks no later than that. -/
def Calm (j : ι) (deadline : Instant) :
    Event ι Act Instant → World ι (Node M) Transmit → Prop
  | .act i (.device (.addTarget nt maxAge)), _ => (nt, maxAge) ∈ regs i
  | .act _ (.device (.shutdown _)), _ => False
  | .act i (.controlPoint (.handleTimeout now)), _ => i = j → now < deadline
  | .act .., _ => True
  | .deliver i now n, w => i = j → ∀ a, Conveys httparse w n a →
      usnToString a.1 ∈ names ∧ deadline ≤ now + a.2.2

/-- A device in service has no other registrations. -/
def InService (i : ι) : Node M → Prop
  | .device d log => log ⊆ regs i ∧ d.shuttingDown = false
  | .controlPoint .. => True

def NodeHolds (A : Announcement → Prop) : Node M → Prop
  | .device .. => True
  | .controlPoint cp _ => cp.Holds A

def NodeKnows (deadline : Instant) (a : Announcement) : Node M → Prop
  | .device .. => True
  | .controlPoint cp _ => cp.Knows deadline a

structure Settled [DecidableEq ι] (j : ι) (w : World ι (Node M) Transmit) : Prop where
  grounded : Grounded (fun _ x f => PayloadSays httparse x.payload f) (NodeVouches roles)
    (SoundNode roles) (fun Q _ => NodeBelieves Q) w
  service : ∀ i, InService regs i (w.nodes i)
  holds : NodeHolds (Announced roles regs names) (w.nodes j)

variable {httparse roles regs names}

omit [MapOps (BoundedStr cacheUsn) CpEntry M] in
theorem Calm.printable {j : ι} {deadline : Instant} {e : Event ι Act Instant}
    {w : World ι (Node M) Transmit} (hregs : ∀ i, ∀ x ∈ regs i, PrintableTarget x)
    (h : Calm httparse regs names j deadline e w) : e.Within fun _ a => a.Printable := by
  cases e with
  | deliver i now n => trivial
  | act i a =>
      cases a with
      | controlPoint op => trivial
      | device op =>
          cases op with
          | addTarget nt maxAge => exact hregs i _ h
          | _ => trivial

theorem coherent_announced (hid : ∀ i p, roles i = .device p → p.Printable)
    (hdistinct : ∀ i j p q, roles i = .device p → roles j = .device q → p.uuid = q.uuid → i = j)
    (hlen : names.length ≤ cacheCap) : Coherent (Announced roles regs names) where
  fits := by
    rintro a ⟨-, i, p, hi, hl, -⟩
    rw [hl]
    exact (hid i p hi).location_le
  agree := by
    rintro a b ⟨-, i, p, hi, hla, x, hx, -, hox⟩ ⟨-, j, q, hj, hlb, y, hy, -, hoy⟩ hk
    have huuid : p.uuid = q.uuid := by
      rw [← keyUuid_offered (hid i p hi) hox, ← keyUuid_offered (hid j q hj) hoy, hk]
    obtain rfl := hdistinct i j p q hi hj huuid
    obtain rfl : p = q := Role.device.inj (hi.symm.trans hj)
    exact hla.trans hlb.symm
  room := ⟨names, hlen, fun a ha => ha.1⟩

omit [MapOps (BoundedStr cacheUsn) CpEntry M] in
theorem announced_of_vouched {w : World ι (Node M) Transmit}
    (hw : ∀ i, InService regs i (w.nodes i)) {a : Announcement} (hname : usnToString a.1 ∈ names)
    (h : Vouched (NodeVouches roles) w (.present a.1 a.2.1 a.2.2)) :
    Announced roles regs names a := by
  obtain ⟨i, hi⟩ := h
  have hreg := hw i
  cases hnode : w.nodes i with
  | controlPoint cp clock =>
      rw [hnode] at hi
      cases hi
  | device d log =>
      rw [hnode] at hi hreg
      obtain ⟨p, hrole, hl, x, hx, ha, ho⟩ := hi
      exact ⟨hname, i, p, hrole, hl, x, hreg.1 hx, ha, ho⟩

omit [MapOps (BoundedStr cacheUsn) CpEntry M] in
theorem not_vouched_gone {w : World ι (Node M) Transmit}
    (hw : ∀ i, InService regs i (w.nodes i)) {usn : UsnRef} :
    ¬ Vouched (NodeVouches roles) w (.gone usn) := by
  intro h
  obtain ⟨i, p, d, x, ho, hdown⟩ := offering_of_gone h
  obtain ⟨log, hnode, -⟩ := ho.node
  have hup := hw i
  rw [hnode] at hup
  exact Bool.false_ne_true (hup.2.symm.trans hdown)

section Steps
variable [DecidableEq ι] {addr : ι → SocketAddr} {j : ι} {deadline : Instant}
  {e : Event ι Act Instant} {w w' : World ι (Node M) Transmit}

theorem inService_step (hc : Calm httparse regs names j deadline e w)
    (hsound : ∀ i, SoundNode roles i (w.nodes i)) (hw : ∀ i, InService regs i (w.nodes i))
    (hs : step (party httparse addr) e w = some w') (i : ι) : InService regs i (w'.nodes i) := by
  have hi := hw i
  have hsi := hsound i
  obtain hsame | ⟨a, out, rfl, ha⟩ | ⟨now, n, i', x, rfl, -, hrec⟩ := step_node hs i
  · rw [hsame]
    exact hi
  · obtain ⟨-, ha⟩ := party_act ha
    cases a with
    | controlPoint op =>
        obtain ⟨cp, clock, cp', -, -, hnode, -⟩ := Act.perform_controlPoint ha
        rw [hnode]
        trivial
    | device op =>
        obtain ⟨d, log, d', hd, hop, hnode, -⟩ := Act.perform_device ha
        rw [hd] at hi hsi
        obtain ⟨p, -, hspeaks⟩ := hsi
        rw [hnode]
        refine ⟨List.append_subset.mpr ⟨hi.1, ?_⟩, ?_⟩
        · cases op with
          | addTarget nt maxAge =>
              simp only [DeviceOp.registered]
              split
              · exact fun y hy => List.mem_singleton.mp hy ▸ hc
              · exact List.nil_subset _
          | _ => exact List.nil_subset _
        · refine Device.up_step hspeaks.packed hi.2 ?_ hop
          rintro now rfl
          exact hc
  · obtain ⟨d, log, d', hd, hdat, hnode⟩ | ⟨cp, clock, cp', -, -, hnode⟩ := Node.receive_cases hrec
    · rw [hd] at hi hsi
      obtain ⟨p, -, hspeaks⟩ := hsi
      have hop : (DeviceOp.handleDatagram now (addr i') x.payload).step httparse d = some d' := hdat
      rw [hnode]
      exact ⟨hi.1, Device.up_step hspeaks.packed hi.2 (fun now => by simp) hop⟩
    · rw [hnode]
      trivial

/-- What the network delivers to the control point is an announcement that holds, if anything. -/
theorem Settled.hears (hw : Settled httparse roles regs names j w) {now : Instant} {n : Nat}
    (hc : Calm httparse regs names j deadline (.deliver j now n) w) {i : ι} {x : Transmit}
    (hx : w.sent[n]? = some (i, x)) (source : SocketAddr) :
    (CpOp.handleDatagram now source x.payload).Hears httparse (Announced roles regs names)
      deadline := by
  have hmem := List.mem_of_getElem? hx
  intro m hm
  constructor
  · intro a ha
    obtain ⟨hname, hle⟩ := hc rfl a ⟨i, x, hx, m, hm, ha⟩
    have hvouched := hw.grounded.sent (i, x) hmem (.present a.1 a.2.1 a.2.2) ⟨m, hm, ha⟩
    exact ⟨announced_of_vouched hw.service hname hvouched, hle⟩
  · cases hdep : m.departure with
    | none => rfl
    | some usn =>
        have hgone := hw.grounded.sent (i, x) hmem (.gone usn) ⟨m, hm, hdep⟩
        exact absurd hgone (not_vouched_gone hw.service)

/-- The control point goes on as it was, or with an operation that hears what holds. -/
theorem Settled.controlPoint_step (hw : Settled httparse roles regs names j w)
    (hc : Calm httparse regs names j deadline e w) (hs : step (party httparse addr) e w = some w')
    {cp' : ControlPoint M} {clock' : Instant} (hj : w'.nodes j = .controlPoint cp' clock') :
    ∃ cp clock, w.nodes j = .controlPoint cp clock ∧ (cp' = cp ∨
      ∃ op : CpOp, op.Hears httparse (Announced roles regs names) deadline ∧
        op.step httparse cp = some cp') := by
  obtain hsame | ⟨a, out, rfl, ha⟩ | ⟨now, n, i, x, rfl, hx, hrec⟩ := step_node hs j
  · exact ⟨cp', clock', hsame.symm.trans hj, .inl rfl⟩
  · rw [hj] at ha
    obtain ⟨hlocal, ha⟩ := party_act ha
    cases a with
    | device op =>
        obtain ⟨d, log, d', -, -, hnode, -⟩ := Act.perform_device ha
        cases hnode
    | controlPoint op =>
        obtain ⟨cp, clock, cp₁, hcp, hop, hnode, -⟩ := Act.perform_controlPoint ha
        obtain ⟨rfl, -⟩ := Node.controlPoint.inj hnode
        refine ⟨cp, clock, hcp, .inr ⟨op, ?_, hop⟩⟩
        cases op with
        | handleTimeout now => exact hc rfl
        | handleDatagram now source payload => cases hlocal
        | _ => trivial
  · rw [hj] at hrec
    obtain ⟨d, log, d', -, -, hnode⟩ | ⟨cp, clock, cp₁, hcp, hop, hnode⟩ := Node.receive_cases hrec
    · cases hnode
    · obtain ⟨rfl, -⟩ := Node.controlPoint.inj hnode
      exact ⟨cp, clock, hcp, .inr ⟨.handleDatagram now (addr i) x.payload, hw.hears hc hx _, hop⟩⟩

end Steps

/-! Discovery -/

variable [DecidableEq ι] (hp : SplitsBlock httparse) (hM : LawfulMap M cacheCap)
  {addr : ι → SocketAddr} (hid : ∀ i p, roles i = .device p → p.Printable)
  (hregs : ∀ i, ∀ x ∈ regs i, PrintableTarget x) {j : ι} {deadline : Instant}
include hp hM hid hregs

theorem settled_step (hA : Coherent (Announced roles regs names)) (e : Event ι Act Instant)
    (w w' : World ι (Node M) Transmit) (hw : Settled httparse roles regs names j w)
    (hc : Calm httparse regs names j deadline e w)
    (hs : step (party httparse addr) e w = some w') : Settled httparse roles regs names j w' where
  grounded := (provenance hp hM addr hid).grounded_step e w w' (hc.printable hregs) hw.grounded hs
  service := inService_step hc hw.grounded.sound hw.service hs
  holds := by
    cases hj : w'.nodes j with
    | device d log => trivial
    | controlPoint cp' clock' =>
        obtain ⟨cp, clock, hcp, rfl | ⟨op, hop, hstep⟩⟩ := hw.controlPoint_step hc hs hj
        · have hh := hw.holds
          rwa [hcp] at hh
        · have hh := hw.holds
          rw [hcp] at hh
          exact ControlPoint.Holds.step hM hA hop hh hstep

omit hregs in
theorem settled_start : Settled httparse roles regs names j (start (M := M) roles) where
  grounded := grounded_start hp hM (fun _ => .v4 0 0) hid (List.forall_mem_nil _) rfl
  service i := by
    cases hi : roles i with
    | device p =>
        simp only [start, hi, Role.node]
        exact ⟨List.nil_subset _, rfl⟩
    | controlPoint ua =>
        simp only [start, hi, Role.node]
        trivial
  holds := by
    cases hi : roles j with
    | device p =>
        simp only [start, hi, Role.node]
        trivial
    | controlPoint ua =>
        simp only [start, hi, Role.node]
        refine ⟨ControlPoint.ownTimers_new ua, fun k e he => ?_⟩
        rw [ControlPoint.new, ServiceCache.find_new hM] at he
        cases he

theorem knows_step (hA : Coherent (Announced roles regs names)) {a : Announcement}
    (ha : Announced roles regs names a) (e : Event ι Act Instant) (w w' : World ι (Node M) Transmit)
    (hw : Settled httparse roles regs names j w ∧ NodeKnows deadline a (w.nodes j))
    (hc : Calm httparse regs names j deadline e w)
    (hs : step (party httparse addr) e w = some w') :
    Settled httparse roles regs names j w' ∧ NodeKnows deadline a (w'.nodes j) := by
  refine ⟨settled_step hp hM hid hregs hA e w w' hw.1 hc hs, ?_⟩
  cases hj : w'.nodes j with
  | device d log => trivial
  | controlPoint cp' clock' =>
      obtain ⟨cp, clock, hcp, hstep⟩ := hw.1.controlPoint_step hc hs hj
      obtain ⟨⟨-, -, hh⟩, hk⟩ := hw
      rw [hcp] at hh hk
      obtain rfl | ⟨op, hop, hstep⟩ := hstep
      · exact hk
      · exact ControlPoint.Knows.step hM hA ha hop hh hk hstep

omit hp hid hregs in
/-- A control point knows an announcement that was delivered to it, from whatever source. -/
theorem knows_of_delivery (hA : Coherent (Announced roles regs names)) {now : Instant} {n : Nat}
    {w w' : World ι (Node M) Transmit}
    (hc : Calm httparse regs names j deadline (.deliver j now n) w)
    (hw : Settled httparse roles regs names j w)
    (hs : step (party httparse addr) (.deliver j now n) w = some w') {a : Announcement}
    (ha : Conveys httparse w n a) :
    Announced roles regs names a ∧ NodeKnows deadline a (w'.nodes j) := by
  obtain ⟨hname, -⟩ := hc rfl a ha
  obtain ⟨i, x, hx, m, hm, hann⟩ := ha
  have hmem := List.mem_of_getElem? hx
  have hvouched := hw.grounded.sent (i, x) hmem (.present a.1 a.2.1 a.2.2) ⟨m, hm, hann⟩
  refine ⟨announced_of_vouched hw.service hname hvouched, ?_⟩
  obtain ⟨⟨i', x'⟩, hx', hrest⟩ := Option.bind_eq_some_iff.mp hs
  obtain ⟨rfl, rfl⟩ := Prod.mk.inj (Option.some.inj (hx.symm.trans hx'))
  obtain ⟨s, hrec, hset⟩ := Option.bind_eq_some_iff.mp hrest
  obtain rfl := Option.some.inj hset
  rw [nodes_set_self]
  obtain ⟨d, log, d', -, -, rfl⟩ | ⟨cp, clock, cp', hcp, hop, rfl⟩ := Node.receive_cases hrec
  · trivial
  · have hh := hw.holds
    rw [hcp] at hh
    have hstep : (CpOp.handleDatagram now (addr i) x.payload).step httparse cp = some cp' := hop
    exact ControlPoint.knows_of_datagram hM hA (hw.hears hc hx _) ⟨m, hm, hann⟩ hh hstep

end

def sampleRegs (_ : Fin 3) : List (TargetRef × Duration) := [(.rootDevice, Duration.fromSecs 1800)]

end RustyCastle.Ssdp
