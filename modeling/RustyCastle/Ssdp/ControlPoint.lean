import RustyCastle.Foundation.Runs
import RustyCastle.Ssdp.Cache
import RustyCastle.Ssdp.Encode
import RustyCastle.Ssdp.Parse
import RustyCastle.Ssdp.Timer

/-!
The control-point state machine. An operation is `none` where an instant
addition overflows, which panics in the source; everything else is total.
-/

namespace RustyCastle.Ssdp
open Foundation Foundation.HeaderBlock

/-- Retransmissions of one M-SEARCH, the initial send excluded. -/
def maxRetransmits : UInt8 := 2

def cacheCap : Nat := 64

def cacheLoc : Nat := 256

def cacheUsn : Nat := 128

inductive CpEvent where
  | searchHit (usn : BoundedStr cacheUsn) (location : BoundedStr cacheLoc) (maxAge : Duration)
  | byeBye (usn : BoundedStr cacheUsn)
  | expired (usn : BoundedStr cacheUsn)
  deriving DecidableEq

abbrev CpEntry := CacheEntry cacheLoc cacheUsn

abbrev CpCache (M : Type) := ServiceCache cacheCap cacheLoc cacheUsn M

/-- A map to run the control point with. -/
abbrev CpIndexMap := IndexMap (BoundedStr cacheUsn) CpEntry cacheCap

structure ControlPoint (M : Type) where
  cache : CpCache M
  timers : TimerQueue 4
  pendingTransmits : BoundedVec (Destination × Nat) 4
  scratchBuf : Buffer 512
  events : BoundedVec CpEvent 8
  retransmitCount : UInt8
  activeMx : UInt8
  userAgent : Option (BoundedStr 128)

/-! The cache key of a USN: every piece that no longer fits is dropped. -/

def versionStr (v : UInt32) : Str :=
  if v = 0 then "0".toList else Decimal.digitLoop 10 v.toNat []

def pushTarget (s : BoundedStr cacheUsn) : TargetRef → BoundedStr cacheUsn
  | .all => s.pushStrOrDrop "ssdp:all".toList
  | .rootDevice => s.pushStrOrDrop "upnp:rootdevice".toList
  | .uuid u => (s.pushStrOrDrop "uuid:".toList).pushStrOrDrop u
  | .deviceType domain kind version =>
      (((((s.pushStrOrDrop "urn:".toList).pushStrOrDrop domain).pushStrOrDrop
        ":device:".toList).pushStrOrDrop kind).pushStrOrDrop ":".toList).pushStrOrDrop
        (versionStr version)
  | .serviceType domain kind version =>
      (((((s.pushStrOrDrop "urn:".toList).pushStrOrDrop domain).pushStrOrDrop
        ":service:".toList).pushStrOrDrop kind).pushStrOrDrop ":".toList).pushStrOrDrop
        (versionStr version)

def usnToString (usn : UsnRef) : BoundedStr cacheUsn :=
  let s := (BoundedStr.empty.pushStrOrDrop "uuid:".toList).pushStrOrDrop usn.deviceUuid
  match usn.embedded with
  | none => s
  | some emb => pushTarget (s.pushStrOrDrop "::".toList) emb

namespace ControlPoint
variable {M : Type} [MapOps (BoundedStr cacheUsn) CpEntry M]

def new (userAgent : Option Str) : ControlPoint M where
  cache := .new
  timers := .new
  pendingTransmits := .empty
  scratchBuf := .zero 512
  events := .empty
  retransmitCount := 0
  activeMx := 3
  userAgent := userAgent.bind BoundedStr.tryFrom

def enqueueMsearch (cp : ControlPoint M) (target : TargetRef) (mx : UInt8) : ControlPoint M :=
  let msg : MSearchRef := {
    host := "239.255.255.250:1900".toList, st := target, mx
    userAgent := cp.userAgent.map BoundedStr.toStr, cpfn := none, cpuuid := none, tcpport := none }
  let (res, scratchBuf) := encodeMsearchInto msg cp.scratchBuf
  match res with
  | .ok enc => { cp with
      scratchBuf, pendingTransmits := cp.pendingTransmits.pushOrDrop (.multicastV4, enc.length) }
  | .error _ => { cp with scratchBuf }

/-- `mx.clamp(1, 5)`. -/
def clampMx (mx : UInt8) : UInt8 := if mx < mxMin then mxMin else if mxMax < mx then mxMax else mx

def search (cp : ControlPoint M) (target : TargetRef) (mx : UInt8) (now : Instant) :
    Option (ControlPoint M) := do
  let cp := { cp with retransmitCount := 0, activeMx := clampMx mx }
  let cp := cp.enqueueMsearch target mx
  let fireAt ← now.add (Duration.fromSecs (cp.activeMx.toNat / 2 + 1))
  some { cp with timers := cp.timers.set ⟨fireAt, .searchRetransmit⟩ }

def rescheduleCacheExpiry (cp : ControlPoint M) (now : Instant) : ControlPoint M :=
  match cp.cache.nextExpiry with
  | none => cp
  | some next =>
      if now < next then { cp with timers := cp.timers.set ⟨next, .cacheExpiry⟩ } else cp

/-- The event of a stored announcement, pushed when both strings fit. -/
def pushSearchHit (events : BoundedVec CpEvent 8) (usnStr loc : Str) (maxAge : Duration) :
    BoundedVec CpEvent 8 :=
  match (BoundedStr.tryFrom usnStr : Option (BoundedStr cacheUsn)),
    (BoundedStr.tryFrom loc : Option (BoundedStr cacheLoc)) with
  | some usnS, some locS => events.pushOrDrop (.searchHit usnS locS maxAge)
  | _, _ => events

/-- What a search response and an alive or update NOTIFY both do. -/
def announced (cp : ControlPoint M) (now : Instant) (usn : UsnRef) (loc : Str)
    (maxAge : Duration) : Option (ControlPoint M) := do
  let usnStr := (usnToString usn).toStr
  let (_, cache) ← cp.cache.insert usnStr loc maxAge now
  let cp := { cp with cache, events := pushSearchHit cp.events usnStr loc maxAge }
  some (cp.rescheduleCacheExpiry now)

def departed (cp : ControlPoint M) (usn : UsnRef) : ControlPoint M :=
  let usnStr := (usnToString usn).toStr
  let cp := { cp with cache := (cp.cache.remove usnStr).2 }
  match (BoundedStr.tryFrom usnStr : Option (BoundedStr cacheUsn)) with
  | some usnS => { cp with events := cp.events.pushOrDrop (.byeBye usnS) }
  | none => cp

def handleMessage (cp : ControlPoint M) (now : Instant) : MessageRef → Option (ControlPoint M)
  | .searchResponse resp => cp.announced now resp.usn resp.location resp.maxAge
  | .notify n =>
      match n.nts with
      | .byeBye => some (cp.departed n.usn)
      | _ =>
          match n.location, n.maxAge with
          | some loc, some age => cp.announced now n.usn loc age
          | _, _ => some cp
  | .search _ => some cp

def handleDatagram (httparse : List UInt8 → Nat → Outcome) (cp : ControlPoint M) (now : Instant)
    (_source : SocketAddr) (payload : List UInt8) : Option (ControlPoint M) :=
  match parseDatagram httparse payload with
  | .error _ => some cp
  | .ok msg => cp.handleMessage now msg

/-- The callback of the expiry: an event for every expired key. -/
def pushExpired (usnStr : Str) (events : BoundedVec CpEvent 8) : BoundedVec CpEvent 8 :=
  match (BoundedStr.tryFrom usnStr : Option (BoundedStr cacheUsn)) with
  | some usnS => events.pushOrDrop (.expired usnS)
  | none => events

def onTimer (now : Instant) (cp : ControlPoint M) : TimerKind → Option (ControlPoint M)
  | .searchRetransmit =>
      let cp := { cp with retransmitCount := cp.retransmitCount + 1 }
      if cp.retransmitCount < maxRetransmits then do
        let fireAt ← now.add (Duration.fromSecs cp.activeMx.toNat)
        some { cp with timers := cp.timers.set ⟨fireAt, .searchRetransmit⟩ }
      else some cp
  | .cacheExpiry =>
      let (cache, events) := cp.cache.expire now pushExpired cp.events
      some ({ cp with cache, events }.rescheduleCacheExpiry now)
  | _ => some cp

def handleTimeout (cp : ControlPoint M) (now : Instant) : Option (ControlPoint M) :=
  let (expired, timers) := cp.timers.drainExpired now
  expired.foldlM (onTimer now) { cp with timers }

def pollTransmit (cp : ControlPoint M) (bufLen : Nat) : Option Transmit × ControlPoint M :=
  match cp.pendingTransmits.pop with
  | none => (none, cp)
  | some ((dest, len), rest) =>
      (some ⟨dest, cp.scratchBuf.toList.take (min len bufLen)⟩, { cp with pendingTransmits := rest })

def pollEvent (cp : ControlPoint M) : Option CpEvent × ControlPoint M :=
  match cp.events.popFront with
  | none => (none, cp)
  | some (e, rest) => (some e, { cp with events := rest })

def pollTimeout (cp : ControlPoint M) : Option Instant := cp.timers.nextTimeout

end ControlPoint

/-! Runs -/

inductive CpOp where
  | search (target : TargetRef) (mx : UInt8) (now : Instant)
  | handleDatagram (now : Instant) (source : SocketAddr) (payload : List UInt8)
  | handleTimeout (now : Instant)
  | pollTransmit (bufLen : Nat)
  | pollEvent
  | pollTimeout

section
variable (httparse : List UInt8 → Nat → Outcome) {M : Type}
  [MapOps (BoundedStr cacheUsn) CpEntry M]

def CpOp.step : CpOp → ControlPoint M → Option (ControlPoint M)
  | .search target mx now, cp => cp.search target mx now
  | .handleDatagram now source payload, cp => cp.handleDatagram httparse now source payload
  | .handleTimeout now, cp => cp.handleTimeout now
  | .pollTransmit bufLen, cp => some (cp.pollTransmit bufLen).2
  | .pollEvent, cp => some cp.pollEvent.2
  | .pollTimeout, cp => some cp

end

/-- The time an operation is called with. -/
def CpOp.time : CpOp → Option Instant
  | .search _ _ now => some now
  | .handleDatagram now _ _ => some now
  | .handleTimeout now => some now
  | _ => none

/-- The times of the operations do not decrease. -/
def NonDecreasing (ops : List CpOp) : Prop := (ops.filterMap CpOp.time).Pairwise (· ≤ ·)

end RustyCastle.Ssdp
