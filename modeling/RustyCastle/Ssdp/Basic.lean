import Mathlib.Algebra.Order.Ring.Nat
import RustyCastle.Foundation.Text

/-!
Constants, errors and monotonic time of the SSDP crate. A duration is its number
of nanoseconds; an instant is a duration since the caller's reference point.
Instant addition panics past the largest duration, which is modelled by `none`.
-/

namespace RustyCastle.Ssdp

abbrev Duration := Nat

namespace Duration

/-- `Duration::MAX`: `u64::MAX` seconds and 999_999_999 nanoseconds. -/
def max : Duration := 2 ^ 64 * 10 ^ 9 - 1

def fromSecs (secs : Nat) : Duration := secs * 10 ^ 9

def fromMillis (ms : Nat) : Duration := ms * 10 ^ 6

def asSecs (d : Duration) : Nat := d / 10 ^ 9

/-- The whole milliseconds behind the whole seconds. -/
def subsecMillis (d : Duration) : Nat := d % 10 ^ 9 / 10 ^ 6

theorem asSecs_fromSecs (n : Nat) : asSecs (fromSecs n) = n :=
  Nat.mul_div_cancel n (by decide)

end Duration

abbrev Instant := Duration

namespace Instant

def zero : Instant := 0

/-- `Instant + Duration`. -/
def add (t : Instant) (d : Duration) : Option Instant :=
  if t + d ≤ Duration.max then some (t + d) else none

theorem add_eq_some {t t' : Instant} {d : Duration} (h : add t d = some t') : t' = t + d := by
  unfold add at h
  split at h
  · exact (Option.some.inj h).symm
  · cases h

theorem add_of_le {t : Instant} {d : Duration} (h : t + d ≤ Duration.max) :
    add t d = some (t + d) := if_pos h

end Instant

/-- An SSDP peer, as the socket layer names it. -/
inductive SocketAddr where
  | v4 (ip : BitVec 32) (port : UInt16)
  | v6 (ip : BitVec 128) (port : UInt16) (flowinfo scopeId : UInt32)
  deriving DecidableEq, Repr

inductive Destination where
  | multicastV4
  | multicastV6LinkLocal
  | multicastV6SiteLocal
  | unicast (addr : SocketAddr)
  deriving DecidableEq, Repr

/-- An outgoing datagram. -/
structure Transmit where
  dest : Destination
  payload : List UInt8
  deriving DecidableEq, Repr

inductive ParseError where
  | tooShort
  | unknownStartLine
  | invalidLineEnding
  | malformedHeaders
  | missingHeader (name : String)
  | invalidHeaderValue (name : String)
  | mxOutOfRange
  | unknownNts
  | invalidTarget
  | invalidUsn
  | invalidCacheControl
  | tooManyHeaders
  deriving DecidableEq, Repr

inductive EncodeError where
  | bufferTooSmall
  deriving DecidableEq, Repr

/-- `Option::ok_or`. -/
def okOr {α ε : Type} (o : Option α) (e : ε) : Except ε α :=
  match o with
  | some a => .ok a
  | none => .error e

@[simp] theorem okOr_some {α ε : Type} (a : α) (e : ε) : okOr (some a) e = .ok a := rfl

@[simp] theorem okOr_none {α ε : Type} (e : ε) : okOr (none : Option α) e = .error e := rfl

theorem okOr_eq_ok {α ε : Type} {o : Option α} {e : ε} {a : α} :
    okOr o e = .ok a ↔ o = some a := by
  cases o <;> simp

/-- A step that returned went through both halves of the bind. -/
theorem bind_eq_ok {α β ε : Type} {x : Except ε α} {f : α → Except ε β} {b : β} :
    (x >>= f) = .ok b ↔ ∃ a, x = .ok a ∧ f a = .ok b := by
  cases x <;> simp [bind, Except.bind]

/-! Protocol constants. -/

def manDiscover : Foundation.Str := "\"ssdp:discover\"".toList

def mxMax : UInt8 := 5

def mxMin : UInt8 := 1

def initialAliveCount : Nat := 3

end RustyCastle.Ssdp
