import RustyCastle.Foundation.Network
import RustyCastle.Ssdp.CutDatagrams
import RustyCastle.Ssdp.DeviceAnswers

/-!
A network of devices and control points. Each runs its state machine and hands its datagrams to
the network, which may lose, delay, repeat and reorder them and deliver them to anyone. What a
message says of a device is a fact, and a device vouches for the facts that hold of it.
-/

namespace RustyCastle.Ssdp
open Foundation Foundation.HeaderBlock Foundation.Network

/-! Facts -/

/-- What a control point takes from a message. -/
inductive Fact where
  | present (usn : UsnRef) (location : Str) (maxAge : Duration)
  | gone (usn : UsnRef)

def MessageRef.Says (m : MessageRef) : Fact → Prop
  | .present usn location maxAge => m.announcement = some (usn, location, maxAge)
  | .gone usn => m.departure = some usn

/-- What the bytes are read as says it. -/
def PayloadSays (httparse : List UInt8 → Nat → Outcome) (payload : List UInt8) (f : Fact) : Prop :=
  ∃ m, parseDatagram httparse payload = .ok m ∧ m.Says f

/-- What a device is created with. -/
structure Profile where
  uuid : Str
  location : Str
  server : Option Str
  bootid : UInt32
  configid : UInt32
  seed : UInt32

def Profile.Printable (p : Profile) : Prop := PrintableIdentity p.uuid p.location p.server

def Profile.device (p : Profile) : Device :=
  .new p.uuid p.location p.server p.bootid p.configid p.seed

/-- The device offers the name for the registration: as it is registered, or with the version
that a search names. -/
def Profile.Offers (p : Profile) (x : TargetRef × Duration) (usn : UsnRef) : Prop :=
  ∃ search, Matches search x.1 ∧ usn = answeredUsn p.uuid (answeredTarget search x.1)

/-- The facts that hold of a device with its registrations. -/
def Profile.Vouches (p : Profile) (d : Device) (log : List (TargetRef × Duration)) : Fact → Prop
  | .present usn location maxAge =>
      location = p.location ∧ ∃ x ∈ log, x.2 = maxAge ∧ p.Offers x usn
  | .gone usn => d.shuttingDown = true ∧ ∃ x ∈ log, p.Offers x usn

/-! The parties -/

inductive Role where
  | device (p : Profile)
  | controlPoint (userAgent : Option Str)

/-- A device has the registrations it accepted, and a control point the latest time it was
called with. -/
inductive Node (M : Type) where
  | device (d : Device) (log : List (TargetRef × Duration))
  | controlPoint (cp : ControlPoint M) (clock : Instant)

inductive Act where
  | device (op : DeviceOp)
  | controlPoint (op : CpOp)

/-- Datagrams come from the network alone. -/
def Act.isLocal : Act → Bool
  | .device (.handleDatagram ..) => false
  | .controlPoint (.handleDatagram ..) => false
  | _ => true

/-- The registrations of the act are printable. -/
def Act.Printable : Act → Prop
  | .device (.addTarget nt maxAge) => PrintableTarget (nt, maxAge)
  | _ => True

def DeviceOp.sends (op : DeviceOp) (d : Device) : List Transmit :=
  match op with
  | .pollTransmit bufLen => (d.pollTransmit bufLen).1.toList
  | _ => []

section
variable {M : Type} [MapOps (BoundedStr cacheUsn) CpEntry M]

def CpOp.sends (op : CpOp) (cp : ControlPoint M) : List Transmit :=
  match op with
  | .pollTransmit bufLen => (cp.pollTransmit bufLen).1.toList
  | _ => []

def CpOp.clock (op : CpOp) (clock : Instant) : Instant :=
  match op.time with
  | some now => max clock now
  | none => clock

def Role.node : Role → Node M
  | .device p => .device p.device []
  | .controlPoint userAgent => .controlPoint (.new userAgent) .zero

variable (httparse : List UInt8 → Nat → Outcome)

def Act.perform : Act → Node M → Option (Node M × List Transmit)
  | .device op, .device d log => do
      let (d', log') ← op.stepRegister httparse (d, log)
      some (.device d' log', op.sends d)
  | .controlPoint op, .controlPoint cp clock => do
      let cp' ← op.step httparse cp
      some (.controlPoint cp' (op.clock clock), op.sends cp)
  | _, _ => none

def Node.receive (now : Instant) (source : SocketAddr) (payload : List UInt8) :
    Node M → Option (Node M)
  | .device d log => do
      let d' ← d.handleDatagram httparse now source payload
      some (.device d' log)
  | .controlPoint cp clock => do
      let cp' ← cp.handleDatagram httparse now source payload
      some (.controlPoint cp' (max clock now))

variable {ι : Type} (addr : ι → SocketAddr)

/-- The parties with their addresses. -/
def party : Party ι (Node M) Act Instant Transmit where
  act _ a s := if a.isLocal then a.perform httparse s else none
  receive _ now j x s := s.receive httparse now (addr j) x.payload

/-- Nothing was sent yet. -/
def start (roles : ι → Role) : World ι (Node M) Transmit where
  nodes i := (roles i).node
  sent := []

end

/-! The device -/

namespace Device

/-- An encoded datagram of the device: a byebye only once it is shut down. -/
def OwnWhile (P : TargetRef → Prop) (d : Device) (down : Bool) (payload : List UInt8) : Prop :=
  ∃ t ∈ d.targets.toList, payload = (d.aliveNotify t).wire ∨
    (down = true ∧ payload = (d.byebyeNotify t).wire) ∨
    ∃ st, P st ∧ t.answers st = true ∧ payload = (d.searchResponse st t).wire

/-- The identity and the registrations are kept, and what the device sent says what it is. -/
structure Tells (P : TargetRef → Prop) (d d' : Device) : Prop where
  same : SameIdentity d d'
  keys : d'.keys = d.keys
  packed : d'.Packed
  down : d.shuttingDown = true → d'.shuttingDown = true
  queue : ∃ added, d'.queue = d.queue ++ added ∧
    ∀ x ∈ added, d.OwnWhile P d'.shuttingDown x.2

section
variable {P : TargetRef → Prop}

theorem OwnWhile.own {d : Device} {down : Bool} {payload : List UInt8}
    (h : d.OwnWhile P down payload) : d.Own P payload := by
  obtain ⟨t, ht, h | ⟨-, h⟩ | h⟩ := h
  · exact ⟨t, ht, .inl h⟩
  · exact ⟨t, ht, .inr (.inl h)⟩
  · exact ⟨t, ht, .inr (.inr h)⟩

theorem OwnWhile.mono {d : Device} {down down' : Bool} {payload : List UInt8}
    (h : d.OwnWhile P down payload) (hd : down = true → down' = true) :
    d.OwnWhile P down' payload := by
  obtain ⟨t, ht, h | ⟨hdown, h⟩ | h⟩ := h
  · exact ⟨t, ht, .inl h⟩
  · exact ⟨t, ht, .inr (.inl ⟨hd hdown, h⟩)⟩
  · exact ⟨t, ht, .inr (.inr h)⟩

theorem exists_same_key {d d' : Device} (hk : d'.keys = d.keys) {t : AdvertEntry}
    (ht : t ∈ d'.targets.toList) : ∃ u ∈ d.targets.toList, u.ntStr = t.ntStr ∧ u.maxAge = t.maxAge := by
  have hmem : t.key ∈ d.keys := hk ▸ List.mem_map_of_mem ht
  obtain ⟨u, hu, hkey⟩ := List.mem_map.mp hmem
  exact ⟨u, hu, Prod.mk.inj hkey⟩

theorem OwnWhile.of_same {d d' : Device} (hs : SameIdentity d d') (hk : d'.keys = d.keys)
    {down : Bool} {payload : List UInt8} (h : d'.OwnWhile P down payload) :
    d.OwnWhile P down payload := by
  obtain ⟨t, ht, h⟩ := h
  obtain ⟨u, hu, hn, ha⟩ := exists_same_key hk ht
  rw [hs.aliveNotify, hs.byebyeNotify] at h
  have halive : d.aliveNotify u = d.aliveNotify t := by simp only [aliveNotify, hn, ha]
  have hbyebye : d.byebyeNotify u = d.byebyeNotify t := by simp only [byebyeNotify, hn]
  refine ⟨u, hu, ?_⟩
  rw [halive, hbyebye]
  refine h.imp_right (Or.imp_right ?_)
  rintro ⟨st, hst, hans, rfl⟩
  refine ⟨st, hst, ?_, ?_⟩
  · rw [AdvertEntry.answers, hn]
    exact hans
  · rw [hs.searchResponse]
    simp only [searchResponse, hn, ha]

theorem Tells.refl {d : Device} (hp : d.Packed) : Tells P d d :=
  ⟨.refl d, rfl, hp, id, [], by simp, by simp⟩

theorem Tells.trans {a b c : Device} (h : Tells P a b) (h' : Tells P b c) : Tells P a c := by
  obtain ⟨q, hq, hown⟩ := h.queue
  obtain ⟨q', hq', hown'⟩ := h'.queue
  refine ⟨h.same.trans h'.same, h'.keys.trans h.keys, h'.packed, h'.down ∘ h.down, q ++ q', ?_,
    fun x hx => ?_⟩
  · rw [hq', hq, List.append_assoc]
  · rcases List.mem_append.mp hx with hx | hx
    · exact (hown x hx).mono h'.down
    · exact (hown' x hx).of_same h.same h.keys

theorem Effect.tells {d d' : Device} {targets : List AdvertEntry} {timers : TimerQueue 8}
    {down : Bool} {new : List Datagram}
    (h : Effect d d' targets timers down (new.foldl pushOrDrop d.queue))
    (hk : targets.map AdvertEntry.key = d.keys) (hd : d.shuttingDown = true → down = true)
    (hnew : ∀ x ∈ new, d.OwnWhile P down x.2) : Tells P d d' := by
  refine ⟨h.same, ?_, h.packed, fun hdown => h.down.trans (hd hdown), ?_⟩
  · rw [Device.keys, h.targets, hk]
  · obtain ⟨added, hsub, hadd⟩ := foldl_pushOrDrop_added d.queue new
    refine ⟨added, h.queue.trans hadd, fun x hx => ?_⟩
    rw [h.down]
    exact hnew x (hsub.subset hx)

theorem ownWhile_aliveDatagrams (d : Device) (dest : Destination) (down : Bool) :
    ∀ x ∈ d.aliveDatagrams dest, d.OwnWhile P down x.2 := by
  intro x hx
  obtain ⟨t, ht, rfl⟩ := List.mem_map.mp hx
  exact ⟨t, ht, .inl rfl⟩

theorem ownWhile_byebyeDatagrams (d : Device) :
    ∀ x ∈ d.byebyeDatagrams, d.OwnWhile P true x.2 := by
  intro x hx
  obtain ⟨t, ht, rfl⟩ := List.mem_map.mp hx
  exact ⟨t, ht, .inr (.inl ⟨rfl, rfl⟩)⟩

theorem ownWhile_responseDatagrams (d : Device) (dest : Destination) (down : Bool) {st : TargetRef}
    (hst : P st) : ∀ x ∈ d.responseDatagrams dest st, d.OwnWhile P down x.2 := by
  intro x hx
  obtain ⟨t, ht, rfl⟩ := List.mem_map.mp hx
  obtain ⟨ht, hans⟩ := List.mem_filter.mp ht
  exact ⟨t, ht, .inr (.inr ⟨st, hst, hans, rfl⟩)⟩

theorem tells_onTimer {d d' : Device} {now : Instant} {k : TimerKind} (hp : d.Packed)
    (h : onTimer now d k = some d') : Tells P d d' := by
  cases k with
  | initialAlive =>
      obtain ⟨next, -, he⟩ := onInitialAlive_effect hp h
      exact he.tells (map_countDownAll key_countDown _) id (ownWhile_aliveDatagrams d _ _)
  | aliveRefresh =>
      cases hdown : d.shuttingDown with
      | false =>
          exact (onAliveRefresh_effect hp hdown h).tells rfl id (ownWhile_aliveDatagrams d _ _)
      | true =>
          refine (onAliveRefresh_down hp hdown h).tells rfl id fun x hx => ?_
          rw [hdown]
          exact ownWhile_byebyeDatagrams d x hx
  | searchResponse | searchRetransmit | cacheExpiry =>
      cases h
      exact .refl hp

theorem tells_foldlM {d d' : Device} {now : Instant} {ks : List TimerKind} (hp : d.Packed)
    (h : ks.foldlM (onTimer now) d = some d') : Tells P d d' := by
  induction ks generalizing d with
  | nil =>
      cases h
      exact .refl hp
  | cons k ks ih =>
      obtain ⟨d₁, h₁, h₂⟩ := Option.bind_eq_some_iff.mp (by simpa using h)
      have hstep := tells_onTimer (P := P) hp h₁
      exact hstep.trans (ih hstep.packed h₂)

theorem tells_drained {d : Device} (hp : d.Packed) (now : Instant) : Tells P d (d.drained now) :=
  ⟨⟨rfl, rfl, rfl, rfl, rfl⟩, rfl, ⟨hp.packed, hp.used_le⟩, id, [], by simp; rfl, by simp⟩

theorem tells_handleTimeout {d d' : Device} {now : Instant} (hp : d.Packed)
    (h : d.handleTimeout now = some d') : Tells P d d' :=
  (tells_drained hp now).trans (tells_foldlM (tells_drained (P := P) hp now).packed h)

theorem tells_handleDatagram {httparse : List UInt8 → Nat → Outcome} {d d' : Device}
    {now : Instant} {source : SocketAddr} {payload : List UInt8} (hp : d.Packed)
    (hP : ∀ m, parseDatagram httparse payload = .ok (.search m) → P m.st)
    (h : d.handleDatagram httparse now source payload = some d') : Tells P d d' := by
  unfold handleDatagram at h
  split at h
  · rename_i search hs
    obtain ⟨t, he⟩ := handleSearch_effect hp h
    refine ⟨he.same, by rw [Device.keys, he.targets, Device.keys], he.packed,
      fun hdown => he.down.trans hdown, ?_⟩
    obtain ⟨n, hn⟩ := pushWhile_added d.queue (d.responseDatagrams (.unicast source) search.st)
    exact ⟨_, he.queue.trans hn, fun x hx =>
      ownWhile_responseDatagrams d _ _ (hP search hs) x (List.mem_of_mem_take hx)⟩
  · cases h
    exact .refl hp

theorem tells_start {d : Device} (hp : d.Packed) (now : Instant) : Tells P d (d.start now) :=
  ⟨⟨rfl, rfl, rfl, rfl, rfl⟩, rfl, ⟨hp.packed, hp.used_le⟩, id, [], by simp; rfl, by simp⟩

theorem tells_shutdown {d : Device} (hp : d.Packed) (now : Instant) : Tells P d (d.shutdown now) :=
  (shutdown_effect hp now).tells rfl (fun _ => rfl) (ownWhile_byebyeDatagrams d)

theorem tells_pollEvent {d : Device} (hp : d.Packed) : Tells P d d.pollEvent.2 := by
  unfold pollEvent
  split
  · exact .refl hp
  · exact ⟨⟨rfl, rfl, rfl, rfl, rfl⟩, rfl, ⟨hp.packed, hp.used_le⟩, id, [], by simp; rfl, by simp⟩

end
end Device
end RustyCastle.Ssdp
