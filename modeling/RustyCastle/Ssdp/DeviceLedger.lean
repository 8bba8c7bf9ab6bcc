import RustyCastle.Foundation.Ledger
import RustyCastle.Ssdp.DeviceSteps

/-!
The books of the device's transmit queue. Every operation but polling reaches
the queue through `enqueue_payload` alone; a call that succeeds adds one
datagram and leaves the bytes of the others, a call that fails leaves them all.
-/

namespace RustyCastle.Ssdp
open Foundation Foundation.HeaderBlock Foundation.Runs

namespace Device

/-- The calls of `enqueue_payload` from one state to another, with the datagrams
of those that return `Ok`. What is done between the calls leaves the queue and
its buffer alone. -/
inductive Enqueues : Device → List Datagram → Device → Prop
  | done (d : Device) : Enqueues d [] d
  | taken {d d' d'' : Device} {dest : Destination} {payload : List UInt8} {log : List Datagram} :
      d.enqueuePayload dest payload = .ok d' → Enqueues d' log d'' →
      Enqueues d ((dest, payload) :: log) d''
  | refused {d d' : Device} {dest : Destination} {payload : List UInt8} {err : EncodeError}
      {log : List Datagram} :
      d.enqueuePayload dest payload = .error err → Enqueues d log d' → Enqueues d log d'
  | other {d d' d'' : Device} {log : List Datagram} :
      d'.pendingTransmits = d.pendingTransmits → d'.scratchBuf = d.scratchBuf →
      Enqueues d' log d'' → Enqueues d log d''

theorem Enqueues.trans {a b c : Device} {log log' : List Datagram} (h : Enqueues a log b)
    (h' : Enqueues b log' c) : Enqueues a (log ++ log') c := by
  induction h with
  | done => exact h'
  | taken hok _ ih => exact .taken hok (ih h')
  | refused herr _ ih => exact .refused herr (ih h')
  | other hp hs _ ih => exact .other hp hs (ih h')

theorem Enqueues.of_same {d d' : Device} (hp : d'.pendingTransmits = d.pendingTransmits)
    (hs : d'.scratchBuf = d.scratchBuf) : Enqueues d [] d' := .other hp hs (.done d')

theorem packed_of_same {d d' : Device} (hp : d'.pendingTransmits = d.pendingTransmits)
    (h : d.Packed) : d'.Packed :=
  ⟨hp ▸ h.packed, hp ▸ h.used_le⟩

/-- The log is what the calls appended to the queue. -/
theorem Enqueues.queue {d d' : Device} {log : List Datagram} (h : Enqueues d log d')
    (hp : d.Packed) : d'.Packed ∧ d'.queue = d.queue ++ log := by
  induction h with
  | done => exact ⟨hp, (List.append_nil _).symm⟩
  | @taken d d' d'' dest payload log hok _ ih =>
      by_cases hroom : Room d.queue payload
      · obtain ⟨e, he, hq⟩ := enqueuePayload_of_room hp hroom dest
        obtain rfl := Except.ok.inj (he.symm.trans hok)
        obtain ⟨hpacked, hqueue⟩ := ih hq.packed
        refine ⟨hpacked, ?_⟩
        rw [hqueue, hq.queue, List.append_assoc, List.singleton_append]
      · rw [enqueuePayload_of_full hp hroom] at hok
        cases hok
  | refused _ _ ih => exact ih hp
  | @other d d' d'' log hpend hbuf _ ih =>
      obtain ⟨hpacked, hqueue⟩ := ih (packed_of_same hpend hp)
      refine ⟨hpacked, ?_⟩
      rw [hqueue, Device.queue, Device.queue, hpend, hbuf]

/-- Datagrams that the encode buffer of the device holds. -/
def Short (log : List Datagram) : Prop := ∀ x ∈ log, x.2.length ≤ 1024

theorem Short.append {log log' : List Datagram} (h : Short log) (h' : Short log') :
    Short (log ++ log') := by
  intro x hx
  rcases List.mem_append.mp hx with hx | hx
  · exact h x hx
  · exact h' x hx

/-- The calls of an operation are for short datagrams. -/
def Sending (d d' : Device) : Prop := ∃ log, Enqueues d log d' ∧ Short log

theorem Sending.of_same {d d' : Device} (hp : d'.pendingTransmits = d.pendingTransmits)
    (hs : d'.scratchBuf = d.scratchBuf) : Sending d d' :=
  ⟨[], .of_same hp hs, fun _ hx => by cases hx⟩

theorem Sending.refl (d : Device) : Sending d d := .of_same rfl rfl

theorem Sending.trans {a b c : Device} (h : Sending a b) (h' : Sending b c) : Sending a c := by
  obtain ⟨log, hlog, hshort⟩ := h
  obtain ⟨log', hlog', hshort'⟩ := h'
  exact ⟨log ++ log', hlog.trans hlog', hshort.append hshort'⟩

/-! The operations -/

theorem length_encodeInto_ok {w : Writer} {wire out encoded : List UInt8} (hw : Emits w wire)
    (h : (Cursor.encodeInto w out).1 = .ok encoded) : encoded.length ≤ out.length := by
  by_cases hfits : wire.length ≤ out.length
  · rw [Cursor.encodeInto_of_fits hw hfits] at h
    exact (Except.ok.inj h) ▸ hfits
  · rw [(Cursor.encodeInto_of_not_fits hw (Nat.lt_of_not_le hfits)).1] at h
    cases h

theorem sending_enqueueNotify (d : Device) (notify : NotifyRef) (dest : Destination) :
    Sending d (d.enqueueNotify notify dest) := by
  unfold enqueueNotify
  cases henc : (encodeNotify notify (Buffer.zero 1024).toList).1 with
  | error err => exact .refl d
  | ok encoded =>
      have hlen := length_encodeInto_ok (emits_notifyWriter notify) henc
      rw [(Buffer.zero 1024).length_eq] at hlen
      dsimp only
      cases hcall : d.enqueuePayload dest encoded with
      | ok d' =>
          refine ⟨_, .taken hcall (.done d'), ?_⟩
          rintro x (_ | ⟨_, ⟨⟩⟩)
          exact hlen
      | error err =>
          exact ⟨[], .refused hcall (.of_same rfl rfl), fun _ hx => by cases hx⟩

theorem sending_foldl {β : Type} {f : Device → β → Device} (hf : ∀ d b, Sending d (f d b))
    (bs : List β) (d : Device) : Sending d (bs.foldl f d) := by
  induction bs generalizing d with
  | nil => exact .refl d
  | cons b bs ih => exact (hf d b).trans (ih (f d b))

theorem sending_sendAliveAll (d : Device) (dest : Destination) : Sending d (d.sendAliveAll dest) :=
  sending_foldl (fun d' _ => sending_enqueueNotify d' _ dest) _ d

theorem sending_sendByebyeAll (d : Device) : Sending d d.sendByebyeAll :=
  sending_foldl (fun d' _ => sending_enqueueNotify d' _ .multicastV4) _ d

theorem sending_respondLoop (d₀ : Device) (dest : Destination) (search : TargetRef)
    (ts : List AdvertEntry) (d : Device) : Sending d (respondLoop d₀ dest search ts d).2 := by
  induction ts generalizing d with
  | nil => exact .refl d
  | cons t ts ih =>
      unfold respondLoop
      split
      · cases hr : d.respond dest (d₀.searchResponse search t) with
        | ok d' =>
            obtain ⟨encoded, henc, hcall⟩ := bind_eq_ok.mp hr
            have hlen := length_encodeInto_ok (emits_responseWriter _) henc
            rw [(Buffer.zero 1024).length_eq] at hlen
            refine Sending.trans ⟨[(dest, encoded)], .taken hcall (.done d'), ?_⟩ (ih d')
            rintro x (_ | ⟨_, ⟨⟩⟩)
            exact hlen
        | error err => exact .refl d
      · exact ih d

theorem sending_onTimer {d d' : Device} {now : Instant} {k : TimerKind}
    (h : onTimer now d k = some d') : Sending d d' := by
  cases k with
  | initialAlive =>
      have hsent := d.sending_sendAliveAll .multicastV4
      change (if (d.sendAliveAll .multicastV4).countDownTargets.1
        then (d.sendAliveAll .multicastV4).countDownTargets.2.scheduleAliveRefresh now
        else (d.sendAliveAll .multicastV4).countDownTargets.2.scheduleInitialAlive now) =
          some d' at h
      generalize d.sendAliveAll .multicastV4 = sent at hsent h
      split at h
      · obtain rfl := scheduleAliveRefresh_eq_some h
        exact hsent.trans (.of_same rfl rfl)
      · obtain ⟨_, _, -, -, rfl⟩ := scheduleInitialAlive_eq_some h
        exact hsent.trans (.of_same rfl rfl)
  | aliveRefresh =>
      change d.onAliveRefresh now = some d' at h
      unfold onAliveRefresh at h
      split at h
      · cases h
        exact sending_sendByebyeAll d
      · obtain rfl := scheduleAliveRefresh_eq_some h
        exact (d.sending_sendAliveAll .multicastV4).trans (.of_same rfl rfl)
  | searchResponse | searchRetransmit | cacheExpiry =>
      cases h
      exact .refl d

theorem sending_handleTimeout {d d' : Device} {now : Instant} (h : d.handleTimeout now = some d') :
    Sending d d' := by
  have hfold : ∀ (ks : List TimerKind) (a : Device), ks.foldlM (onTimer now) a = some d' →
      Sending a d' := by
    intro ks
    induction ks with
    | nil =>
        intro a ha
        cases ha
        exact .refl _
    | cons k ks ih =>
        intro a ha
        obtain ⟨b, hb, hrest⟩ := Option.bind_eq_some_iff.mp (by simpa using ha)
        exact (sending_onTimer hb).trans (ih b hrest)
  have hdrained : Sending d (d.drained now) := .of_same rfl rfl
  exact hdrained.trans (hfold _ _ h)

theorem sending_handleSearch {d d' : Device} {now : Instant} {source : SocketAddr}
    {search : MSearchRef} (h : d.handleSearch now source search = some d') : Sending d d' := by
  obtain ⟨ms, -, h⟩ := Option.bind_eq_some_iff.mp h
  obtain ⟨t, -, h⟩ := Option.bind_eq_some_iff.mp h
  obtain rfl := (Option.some.inj h).symm
  let x : Device := { d.nextRand.2 with
    events := d.events.pushOrDrop (.searchReceived source)
    timers := d.timers.set ⟨t, .searchResponse⟩ }
  have hx : Sending d x := .of_same rfl rfl
  exact hx.trans (sending_respondLoop x (.unicast source) search.st x.targets.toList x)

/-- Every operation but polling is a sequence of calls for short datagrams. -/
theorem sending_step {httparse : List UInt8 → Nat → Outcome} {op : DeviceOp} {d d' : Device}
    (hop : ∀ bufLen, op ≠ .pollTransmit bufLen) (h : op.step httparse d = some d') :
    Sending d d' := by
  cases op with
  | pollTransmit bufLen => exact absurd rfl (hop bufLen)
  | addTarget nt maxAge =>
      cases h
      obtain he | ⟨ntStr, targets, -, -, -, he⟩ := d.addTarget_cases nt maxAge
      · rw [he]
        exact .refl d
      · rw [he]
        exact .of_same rfl rfl
  | start now =>
      cases h
      exact .of_same rfl rfl
  | shutdown now =>
      cases h
      have hflag : Sending d { d with shuttingDown := true } := .of_same rfl rfl
      exact (hflag.trans (sending_sendByebyeAll _)).trans (.of_same rfl rfl)
  | handleDatagram now source payload =>
      change d.handleDatagram httparse now source payload = some d' at h
      unfold handleDatagram at h
      split at h
      · exact sending_handleSearch h
      · cases h
        exact .refl d
  | handleTimeout now => exact sending_handleTimeout h
  | pollEvent =>
      cases h
      unfold pollEvent
      split
      · exact .refl d
      · exact .of_same rfl rfl
  | pollTimeout =>
      cases h
      exact .refl d

/-! Polling -/

/-- `poll_transmit`, with the datagram as a pair. -/
def pollDatagram (bufLen : Nat) (d : Device) : Option Datagram × Device :=
  ((d.pollTransmit bufLen).1.map fun t => (t.dest, t.payload), (d.pollTransmit bufLen).2)

/-- The states of the queue that the operations reach. -/
structure Tidy (d : Device) : Prop where
  packed : d.Packed
  short : Short d.queue

theorem pollDatagram_takesLast {bufLen : Nat} (hbuf : 1024 ≤ bufLen) :
    Ledger.TakesLast queue (pollDatagram bufLen) Tidy where
  empty d hd h := by
    obtain ⟨-, he⟩ | ⟨q, dest, payload, rest, hq, -⟩ := pollTransmit_cases hd.packed bufLen
    · rw [pollDatagram, he]
      rfl
    · rw [h] at hq
      simp at hq
  last d q x hd h := by
    obtain ⟨hq, -⟩ | ⟨q', dest, payload, rest, hq, he, hpacked, hrest⟩ :=
      pollTransmit_cases hd.packed bufLen
    · rw [h] at hq
      simp at hq
    · obtain ⟨rfl, hx⟩ := List.append_inj' (h.symm.trans hq) rfl
      obtain rfl : x = (dest, payload) := by simpa using hx
      have hlen : payload.length ≤ 1024 := hd.short (dest, payload) (by rw [h]; simp)
      refine ⟨{ d with pendingTransmits := rest }, ?_, hrest, hpacked, fun y hy => ?_⟩
      · rw [pollDatagram, he, Nat.min_eq_left (hlen.trans hbuf), List.take_length]
        rfl
      · refine hd.short y ?_
        rw [h, ← hrest]
        exact List.mem_append_left _ hy

theorem Enqueues.tidy {d d' : Device} {log : List Datagram} (h : Enqueues d log d')
    (hlog : Short log) (hd : d.Tidy) : d'.Tidy ∧ d'.queue = d.queue ++ log := by
  obtain ⟨hpacked, hqueue⟩ := h.queue hd.packed
  exact ⟨⟨hpacked, hqueue ▸ hd.short.append hlog⟩, hqueue⟩

end Device

/-- Polls are made with room for every datagram. -/
def DeviceOp.PollsWhole : DeviceOp → Prop
  | .pollTransmit bufLen => 1024 ≤ bufLen
  | _ => True

/-- The datagram that an operation returns. -/
def DeviceOp.returned (op : DeviceOp) (d : Device) : List Datagram :=
  match op with
  | .pollTransmit bufLen => (d.pollDatagram bufLen).1.toList
  | _ => []

/-- The datagrams for which `enqueue_payload` returned `Ok` in an operation. -/
def DeviceOp.Accepts (op : DeviceOp) (d : Device) (log : List Datagram) (d' : Device) : Prop :=
  match op with
  | .pollTransmit _ => log = []
  | _ => d.Enqueues log d'

/-- A step of the device and of the books of its queue. -/
def DeviceOp.Enters (httparse : List UInt8 → Nat → Outcome) (op : DeviceOp)
    (l l' : Ledger Device Datagram) : Prop :=
  ∃ log d, op.step httparse l.state = some d ∧ op.Accepts l.state log d ∧
    l' = l.enter d log (op.returned l.state)

/-- The queue delivers what was enqueued, within its buffer. -/
structure Device.QueueIntact (l : Ledger Device Datagram) : Prop where
  /-- Polling now until nothing is left returns what was enqueued and not returned
  before, each once. -/
  delivers : ∀ bufLen, 1024 ≤ bufLen →
    (l.returned ++ Ledger.drain (Device.pollDatagram bufLen) 16 l.state).Perm l.accepted
  /-- What a poll reads lies in the buffer. -/
  inside : ∀ e ∈ l.state.pendingTransmits.toList, e.2.1 + e.2.2 ≤ 4096
  /-- What a call writes starts in the buffer. -/
  free : PackedStack.nextStart l.state.pendingTransmits.toList ≤ 4096
  /-- A call that fails leaves the queue and its bytes alone. -/
  refused : ∀ notify dest encoded err,
    (encodeNotify notify (Buffer.zero 1024).toList).1 = .ok encoded →
    l.state.enqueuePayload dest encoded = .error err →
    (l.state.enqueueNotify notify dest).pendingTransmits = l.state.pendingTransmits ∧
      (l.state.enqueueNotify notify dest).scratchBuf = l.state.scratchBuf

namespace Device

theorem queueIntact_of_balanced {l : Ledger Device Datagram} (hd : l.state.Tidy)
    (hl : l.Balanced queue) : QueueIntact l where
  delivers bufLen hbuf :=
    ((pollDatagram_takesLast hbuf).balanced_iff hd l.state.length_queue_le).mpr hl
  inside e he := by
    have hend := PackedStack.start_add_len_le hd.packed.packed he
    rw [Nat.zero_add] at hend
    exact hend.trans hd.packed.used_le
  free := (PackedStack.nextStart_eq hd.packed.packed).trans_le hd.packed.used_le
  refused notify dest encoded err henc hcall := by
    unfold enqueueNotify
    rw [henc]
    dsimp only
    rw [hcall]
    exact ⟨rfl, rfl⟩

/-- The books of a step, and that they are kept for every step. -/
theorem exists_enters {httparse : List UInt8 → Nat → Outcome} (op : DeviceOp)
    (l : Ledger Device Datagram) (d : Device) (h : op.step httparse l.state = some d) :
    ∃ l', op.Enters httparse l l' ∧ l'.state = d := by
  have hlog : ∃ log, op.Accepts l.state log d := by
    cases op with
    | pollTransmit bufLen => exact ⟨[], rfl⟩
    | addTarget | start | shutdown | handleDatagram | handleTimeout | pollEvent | pollTimeout =>
        obtain ⟨log, hlog, -⟩ := sending_step (fun _ => by simp) h
        exact ⟨log, hlog⟩
  obtain ⟨log, hlog⟩ := hlog
  exact ⟨_, ⟨log, d, h, hlog, rfl⟩, rfl⟩

theorem balanced_enters {httparse : List UInt8 → Nat → Outcome} (op : DeviceOp)
    (l l' : Ledger Device Datagram) (hop : op.PollsWhole)
    (hl : l.state.Tidy ∧ l.Balanced queue) (h : op.Enters httparse l l') :
    l'.state.Tidy ∧ l'.Balanced queue := by
  obtain ⟨log, d, hstep, haccepts, rfl⟩ := h
  obtain ⟨htidy, hbalanced⟩ := hl
  have hcalls : ∀ {log' : List Datagram}, l.state.Enqueues log d → l.state.Enqueues log' d →
      Short log' → op.returned l.state = [] →
      d.Tidy ∧ (l.enter d log (op.returned l.state)).Balanced queue := by
    intro log' hlog hlog' hshort hret
    obtain ⟨htidy', hqueue'⟩ := hlog'.tidy hshort htidy
    refine ⟨htidy', (Ledger.balanced_enter_iff hbalanced).mpr ?_⟩
    rw [hret, List.nil_append, (hlog.queue htidy.packed).2]
  cases op with
  | pollTransmit bufLen =>
      obtain rfl : log = [] := haccepts
      cases hstep
      refine ⟨?_, (Ledger.balanced_enter_iff hbalanced).mpr ?_⟩
      · exact (pollDatagram_takesLast hop).inv htidy
      · rw [List.append_nil]
        exact (pollDatagram_takesLast hop).perm htidy
  | addTarget | start | shutdown | handleDatagram | handleTimeout | pollEvent | pollTimeout =>
      obtain ⟨log', hlog', hshort⟩ := sending_step (fun _ => by simp) hstep
      exact hcalls haccepts hlog' hshort rfl

end Device

/-- In a run from the start, polled with large enough buffers, every state has
books, and however they are kept the queue is intact. -/
theorem device_queue_intact (httparse : List UInt8 → Nat → Outcome) (uuid location : Str)
    (server : Option Str) (bootid configid seed : UInt32) (ops : List DeviceOp)
    (hops : ∀ op ∈ ops, op.PollsWhole) :
    (∀ d, run (DeviceOp.step httparse) ops
        (Device.new uuid location server bootid configid seed) = some d →
      ∃ l, Steps (DeviceOp.Enters httparse) ops
        (.start (Device.new uuid location server bootid configid seed)) l ∧ l.state = d) ∧
    ∀ l, Steps (DeviceOp.Enters httparse) ops
        (.start (Device.new uuid location server bootid configid seed)) l →
      Device.QueueIntact l := by
  refine ⟨fun d hr => exists_steps_of_run Device.exists_enters hr, fun l hl => ?_⟩
  obtain ⟨htidy, hbalanced⟩ := hl.invariant_of Device.balanced_enters hops
    ⟨⟨Device.packed_new .., fun _ hx => by cases hx⟩, List.Perm.refl _⟩
  exact Device.queueIntact_of_balanced htidy hbalanced

/-- A device announces its end, and one of the datagrams is polled. -/
def farewell : List DeviceOp :=
  [.addTarget .rootDevice (Duration.fromSecs 1800), .addTarget .all (Duration.fromSecs 1800),
    .shutdown .zero, .pollTransmit 1024]

def farewellDevice : Device := .new ['a'] ['b'] none 1 1 1

theorem pollsWhole_farewell : ∀ op ∈ farewell, op.PollsWhole := by
  rintro op (_ | ⟨_, _ | ⟨_, _ | ⟨_, _ | ⟨_, ⟨⟩⟩⟩⟩⟩)
  · trivial
  · trivial
  · trivial
  · exact Nat.le_refl 1024

theorem device_queue_intact_sample : ∃ l,
    Steps (DeviceOp.Enters splitBlock) farewell (.start farewellDevice) l ∧
      Device.QueueIntact l := by
  obtain ⟨d, hrun⟩ : ∃ d, run (DeviceOp.step splitBlock) farewell farewellDevice = some d :=
    ⟨_, rfl⟩
  obtain ⟨hbooks, hintact⟩ := device_queue_intact splitBlock ['a'] ['b'] none 1 1 1 farewell
    pollsWhole_farewell
  obtain ⟨l, hsteps, -⟩ := hbooks d hrun
  exact ⟨l, hsteps, hintact l hsteps⟩

end RustyCastle.Ssdp
