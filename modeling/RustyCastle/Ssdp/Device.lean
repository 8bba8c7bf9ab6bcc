import RustyCastle.Foundation.PackedStack
import RustyCastle.Foundation.Runs
import RustyCastle.Ssdp.Encode
import RustyCastle.Ssdp.Parse
import RustyCastle.Ssdp.Timer

/-!
The device state machine. Outgoing datagrams are encoded into a buffer of their
own and copied to the first free position of a shared buffer; the queue holds
their slices and is popped from its end. An operation is `none` where an instant
addition overflows, which panics in the source.
-/

namespace RustyCastle.Ssdp
open Foundation Foundation.HeaderBlock

/-- Maximum number of simultaneous advertised targets. -/
def maxTargets : Nat := 8

def maxLocationLen : Nat := 256

def maxUuidLen : Nat := 64

def maxServerLen : Nat := 128

/-- Maximum length of a stored target in bytes. -/
def maxUrnLen : Nat := 128

structure AdvertEntry where
  ntStr : BoundedStr maxUrnLen
  maxAge : Duration
  /-- Rounds of the initial burst that remain. -/
  initialRemaining : UInt8
  deriving DecidableEq

inductive DeviceEvent where
  | searchReceived (source : SocketAddr)
  | encodeError (err : EncodeError)
  deriving DecidableEq

structure Device where
  uuid : BoundedStr maxUuidLen
  location : BoundedStr maxLocationLen
  server : Option (BoundedStr maxServerLen)
  bootid : UInt32
  configid : UInt32
  targets : BoundedVec AdvertEntry maxTargets
  /-- Destination, start and length in the scratch buffer. -/
  pendingTransmits : BoundedVec (Destination × Nat × Nat) 16
  scratchBuf : Buffer 4096
  timers : TimerQueue 8
  events : BoundedVec DeviceEvent 4
  shuttingDown : Bool
  rngState : UInt32

/-! Targets -/

/-- The text of a target for storage. A URN is cut out of the encoded header line. -/
def targetToString : TargetRef → Option (BoundedStr maxUrnLen)
  | .all => BoundedStr.tryFrom "ssdp:all".toList
  | .rootDevice => BoundedStr.tryFrom "upnp:rootdevice".toList
  | .uuid u => (BoundedStr.empty.pushStr "uuid:".toList).bind fun s => s.pushStr u
  | t =>
      match encodeTarget [] t (.new (Buffer.zero maxUrnLen).toList) with
      | .error _ _ => none
      | .ok _ w => (Str.fromUtf8 ((w.buf.take (w.pos - 2)).drop 2)).bind BoundedStr.tryFrom

/-- Re-parses a stored text. Falls back to `ssdp:all` on error. -/
def parseTargetStr (s : Str) : TargetRef :=
  match TargetRef.parse s with
  | .ok t => t
  | .error _ => .all

def makeUsnRef (uuid : Str) (nt : TargetRef) : UsnRef :=
  match nt with
  | .uuid _ => ⟨uuid, none⟩
  | .all => ⟨uuid, none⟩
  | _ => ⟨uuid, some nt⟩

def targetMatches (search advertised : TargetRef) : Bool :=
  match search, advertised with
  | .all, _ => true
  | .rootDevice, .rootDevice => true
  | .uuid searchUuid, .uuid advertisedUuid => searchUuid.eqIgnoreAsciiCase advertisedUuid
  | .deviceType searchDomain searchKind searchVersion,
    .deviceType advertisedDomain advertisedKind advertisedVersion
  | .serviceType searchDomain searchKind searchVersion,
    .serviceType advertisedDomain advertisedKind advertisedVersion =>
      searchDomain.eqIgnoreAsciiCase advertisedDomain &&
        searchKind.eqIgnoreAsciiCase advertisedKind && searchVersion ≤ advertisedVersion
  | _, _ => false

/-- A matched URN is answered with the version that was searched for. -/
def responseTarget (search advertised : TargetRef) : TargetRef :=
  match search with
  | .deviceType .. | .serviceType .. =>
      if targetMatches search advertised then search else advertised
  | _ => advertised

/-! The counters of the initial burst -/

def AdvertEntry.countDown (t : AdvertEntry) : AdvertEntry :=
  if 0 < t.initialRemaining then { t with initialRemaining := t.initialRemaining - 1 } else t

/-- `iter_mut().all(..)`: counts down up to the first target that is not done. -/
def countDownAll : List AdvertEntry → Bool × List AdvertEntry
  | [] => (true, [])
  | t :: ts =>
      let t := t.countDown
      if t.initialRemaining = 0 then
        let (done, ts) := countDownAll ts
        (done, t :: ts)
      else (false, t :: ts)

theorem length_countDownAll (ts : List AdvertEntry) :
    (countDownAll ts).2.length = ts.length := by
  induction ts with
  | nil => rfl
  | cons t ts ih =>
      simp only [countDownAll]
      split
      · exact congrArg (· + 1) ih
      · rfl

/-- `a % b`, which panics for a zero divisor. -/
def remU32 (a b : UInt32) : Option UInt32 := if b = 0 then none else some (a % b)

namespace Device

def new (uuid location : Str) (server : Option Str) (bootid configid rngSeed : UInt32) : Device where
  uuid := (BoundedStr.tryFrom uuid).getD .empty
  location := (BoundedStr.tryFrom location).getD .empty
  server := server.bind BoundedStr.tryFrom
  bootid
  configid
  targets := .empty
  pendingTransmits := .empty
  scratchBuf := .zero 4096
  timers := .new
  events := .empty
  shuttingDown := false
  rngState := rngSeed

/-- Registers an advertised target. The flag is `false` where the list is full
or the text of the target is too long. -/
def addTarget (d : Device) (nt : TargetRef) (maxAge : Duration) : Bool × Device :=
  if d.targets.isFull then (false, d)
  else match targetToString nt with
    | none => (false, d)
    | some ntStr => (true, { d with
        targets := d.targets.pushOrDrop ⟨ntStr, maxAge, UInt8.ofNat initialAliveCount⟩ })

def start (d : Device) (now : Instant) : Device :=
  { d with timers := d.timers.set ⟨now, .initialAlive⟩ }

/-! Sending -/

/-- Appends a datagram behind the pending ones. `checked_add` fails with the
same error as the bound that follows it. -/
def enqueuePayload (d : Device) (dest : Destination) (payload : List UInt8) :
    Except EncodeError Device :=
  let start := PackedStack.nextStart d.pendingTransmits.toList
  if h : start + payload.length ≤ 4096 ∧ d.pendingTransmits.isFull = false then
    .ok { d with
      scratchBuf := ⟨PackedStack.overwrite d.scratchBuf.toList start payload, by
        rw [PackedStack.length_overwrite (by rw [d.scratchBuf.length_eq]; exact h.1)]
        exact d.scratchBuf.length_eq⟩
      pendingTransmits := d.pendingTransmits.pushOrDrop (dest, start, payload.length) }
  else .error .bufferTooSmall

def enqueueNotify (d : Device) (notify : NotifyRef) (dest : Destination) : Device :=
  match (encodeNotify notify (Buffer.zero 1024).toList).1 with
  | .error _ => d
  | .ok encoded =>
      match d.enqueuePayload dest encoded with
      | .ok d' => d'
      | .error err => { d with events := d.events.pushOrDrop (.encodeError err) }

def multicastHost : Str := "239.255.255.250:1900".toList

def aliveNotify (d : Device) (t : AdvertEntry) : NotifyRef :=
  let ntRef := parseTargetStr t.ntStr.toStr
  { host := multicastHost
    nt := ntRef
    nts := .alive
    usn := makeUsnRef d.uuid.toStr ntRef
    location := some d.location.toStr
    maxAge := some t.maxAge
    server := d.server.map BoundedStr.toStr
    bootid := some d.bootid
    configid := some d.configid
    nextbootid := none
    searchport := none }

def sendAliveAll (d : Device) (dest : Destination) : Device :=
  d.targets.toList.foldl (fun d' t => d'.enqueueNotify (d.aliveNotify t) dest) d

def byebyeNotify (d : Device) (t : AdvertEntry) : NotifyRef :=
  let ntRef := parseTargetStr t.ntStr.toStr
  { host := multicastHost
    nt := ntRef
    nts := .byeBye
    usn := makeUsnRef d.uuid.toStr ntRef
    location := none
    maxAge := none
    server := none
    bootid := some d.bootid
    configid := some d.configid
    nextbootid := none
    searchport := none }

def sendByebyeAll (d : Device) : Device :=
  d.targets.toList.foldl (fun d' t => d'.enqueueNotify (d.byebyeNotify t) .multicastV4) d

def searchResponse (d : Device) (searchTarget : TargetRef) (t : AdvertEntry) : SearchResponseRef :=
  let stRef := responseTarget searchTarget (parseTargetStr t.ntStr.toStr)
  { st := stRef
    usn := makeUsnRef d.uuid.toStr stRef
    location := d.location.toStr
    maxAge := t.maxAge
    server := d.server.map BoundedStr.toStr
    bootid := some d.bootid
    configid := some d.configid
    searchport := none }

/-- One response of a search; an error ends the loop over the targets. -/
def respond (d : Device) (dest : Destination) (resp : SearchResponseRef) :
    Except EncodeError Device := do
  let encoded ← (encodeResponse resp (Buffer.zero 1024).toList).1
  d.enqueuePayload dest encoded

/-- The loop over the targets, with the messages of the device `d₀` it started with. -/
def respondLoop (d₀ : Device) (dest : Destination) (searchTarget : TargetRef) :
    List AdvertEntry → Device → Except EncodeError Unit × Device
  | [], d => (.ok (), d)
  | t :: ts, d =>
      if targetMatches searchTarget (parseTargetStr t.ntStr.toStr) then
        match d.respond dest (d₀.searchResponse searchTarget t) with
        | .ok d' => respondLoop d₀ dest searchTarget ts d'
        | .error err => (.error err, d)
      else respondLoop d₀ dest searchTarget ts d

def encodeSearchResponses (d : Device) (destAddr : SocketAddr) (searchTarget : TargetRef) :
    Except EncodeError Unit × Device :=
  d.respondLoop (.unicast destAddr) searchTarget d.targets.toList d

/-! Timers -/

/-- xorshift32 -/
def nextRand (d : Device) : UInt32 × Device :=
  let s := d.rngState
  let s := s ^^^ (s <<< 13)
  let s := s ^^^ (s >>> 17)
  let s := s ^^^ (s <<< 5)
  (s, { d with rngState := s })

/-- Re-advertise at half the minimum max-age. -/
def aliveInterval (d : Device) : Duration :=
  ((d.targets.toList.map AdvertEntry.maxAge).min?).getD (Duration.fromSecs 1800) / 2

def scheduleAliveRefresh (d : Device) (now : Instant) : Option Device := do
  let fireAt ← now.add d.aliveInterval
  some { d with timers := d.timers.set ⟨fireAt, .aliveRefresh⟩ }

/-- Next initial alive in 100 to 199 ms. -/
def scheduleInitialAlive (d : Device) (now : Instant) : Option Device := do
  let (rand, d) := d.nextRand
  let jitterMs := 100 + rand % 100
  let fireAt ← now.add (Duration.fromMillis jitterMs.toNat)
  some { d with timers := d.timers.set ⟨fireAt, .initialAlive⟩ }

def countDownTargets (d : Device) : Bool × Device :=
  ((countDownAll d.targets.toList).1, { d with targets := ⟨(countDownAll d.targets.toList).2,
    (length_countDownAll d.targets.toList).trans_le d.targets.length_le⟩ })

def onInitialAlive (d : Device) (now : Instant) : Option Device :=
  let d := d.sendAliveAll .multicastV4
  let (allDone, d) := d.countDownTargets
  if allDone then d.scheduleAliveRefresh now else d.scheduleInitialAlive now

def onAliveRefresh (d : Device) (now : Instant) : Option Device :=
  if d.shuttingDown then some d.sendByebyeAll
  else (d.sendAliveAll .multicastV4).scheduleAliveRefresh now

def onTimer (now : Instant) (d : Device) : TimerKind → Option Device
  | .initialAlive => d.onInitialAlive now
  | .aliveRefresh => d.onAliveRefresh now
  | _ => some d

/-! Operations -/

def shutdown (d : Device) (now : Instant) : Device :=
  let d := { d with shuttingDown := true }
  let d := d.sendByebyeAll
  { d with timers :=
      ((d.timers.set ⟨now, .searchResponse⟩).cancel .aliveRefresh).cancel .initialAlive }

def handleSearch (d : Device) (now : Instant) (source : SocketAddr) (search : MSearchRef) :
    Option Device := do
  let d := { d with events := d.events.pushOrDrop (.searchReceived source) }
  let (rand, d) := d.nextRand
  let jitterMs ← remU32 rand (search.mx.toUInt32 * 1000)
  let fireAt ← now.add (Duration.fromMillis jitterMs.toNat)
  let d := { d with timers := d.timers.set ⟨fireAt, .searchResponse⟩ }
  some (d.encodeSearchResponses source search.st).2

def handleDatagram (httparse : List UInt8 → Nat → Outcome) (d : Device) (now : Instant)
    (source : SocketAddr) (payload : List UInt8) : Option Device :=
  match parseDatagram httparse payload with
  | .ok (.search search) => d.handleSearch now source search
  | _ => some d

def handleTimeout (d : Device) (now : Instant) : Option Device :=
  let (expired, timers) := d.timers.drainExpired now
  expired.foldlM (onTimer now) { d with timers }

def pollTransmit (d : Device) (bufLen : Nat) : Option Transmit × Device :=
  match d.pendingTransmits.pop with
  | none => (none, d)
  | some (slice, rest) =>
      let (dest, src) := PackedStack.read d.scratchBuf.toList slice
      (some ⟨dest, src.take (min src.length bufLen)⟩, { d with pendingTransmits := rest })

def pollEvent (d : Device) : Option DeviceEvent × Device :=
  match d.events.popFront with
  | none => (none, d)
  | some (e, rest) => (some e, { d with events := rest })

def pollTimeout (d : Device) : Option Instant := d.timers.nextTimeout

end Device

/-! Runs -/

inductive DeviceOp where
  | addTarget (nt : TargetRef) (maxAge : Duration)
  | start (now : Instant)
  | shutdown (now : Instant)
  | handleDatagram (now : Instant) (source : SocketAddr) (payload : List UInt8)
  | handleTimeout (now : Instant)
  | pollTransmit (bufLen : Nat)
  | pollEvent
  | pollTimeout

def DeviceOp.step (httparse : List UInt8 → Nat → Outcome) : DeviceOp → Device → Option Device
  | .addTarget nt maxAge, d => some (d.addTarget nt maxAge).2
  | .start now, d => some (d.start now)
  | .shutdown now, d => some (d.shutdown now)
  | .handleDatagram now source payload, d => d.handleDatagram httparse now source payload
  | .handleTimeout now, d => d.handleTimeout now
  | .pollTransmit bufLen, d => some (d.pollTransmit bufLen).2
  | .pollEvent, d => some d.pollEvent.2
  | .pollTimeout, d => some d

end RustyCastle.Ssdp
