import RustyCastle.Dlna.ProtocolInfo
import RustyCastle.MediaHttp.Range

/-!
The plan of a media response. A plan that sends a body announces its length.
-/

namespace RustyCastle.MediaHttp
open Foundation RustyCastle.Dlna

inductive Method where
  | get
  | head
  deriving DecidableEq, Repr

inductive ResponseStatus where
  | ok
  | partialContent
  | rangeNotSatisfiable
  deriving DecidableEq, Repr

structure MediaHeadersRef where
  len : Nat
  contentType : Str
  protocolInfo : ProtocolInfoRef
  deriving DecidableEq, Repr

inductive ContentRange where
  | bytes (start stop completeLen : Nat)
  | unsatisfied (completeLen : Nat)
  deriving DecidableEq, Repr

/-- A response for a representation of a length, independent of the HTTP implementation. -/
structure MediaResponsePlan (len : Nat) where
  status : ResponseStatus
  sendBody : Bool
  contentType : Str
  contentLength : Nat
  contentRange : Option ContentRange
  bodyRange : Option (SatisfiableRange len)
  acceptRanges : Str
  transferMode : Str
  protocolInfo : ProtocolInfoRef

section
variable (method : Method) (headers : MediaHeadersRef)

def partialPlan (range : SatisfiableRange headers.len) : MediaResponsePlan headers.len where
  status := .partialContent
  sendBody := method = .get
  contentType := headers.contentType
  contentLength := range.len
  contentRange := some (.bytes range.start range.stop headers.len)
  bodyRange := some range
  acceptRanges := "bytes".toList
  transferMode := "Streaming".toList
  protocolInfo := headers.protocolInfo

def unsatisfiedPlan : MediaResponsePlan headers.len where
  status := .rangeNotSatisfiable
  sendBody := false
  contentType := headers.contentType
  contentLength := 0
  contentRange := some (.unsatisfied headers.len)
  bodyRange := none
  acceptRanges := "bytes".toList
  transferMode := "Streaming".toList
  protocolInfo := headers.protocolInfo

def fullPlan : MediaResponsePlan headers.len where
  status := .ok
  sendBody := method = .get
  contentType := headers.contentType
  contentLength := headers.len
  contentRange := none
  bodyRange :=
    if h : headers.len ≠ 0 then
      some
        { start := 0
          stop := headers.len - 1
          start_le := Nat.zero_le _
          stop_lt := Nat.sub_one_lt h }
    else none
  acceptRanges := "bytes".toList
  transferMode := "Streaming".toList
  protocolInfo := headers.protocolInfo

/-- Plans the response to a request. A range header that is not a single byte range is ignored. -/
def planMediaResponse (rangeHeader : Option Str) : MediaResponsePlan headers.len :=
  match rangeHeader with
  | none => fullPlan method headers
  | some rangeHeader =>
      match parseRangeHeader rangeHeader >>= fun range => range.apply headers.len with
      | .ok range => partialPlan method headers range
      | .error .unsatisfiable => unsatisfiedPlan headers
      | .error .invalid => fullPlan method headers

end

/-! Lengths -/

/-- The number of bytes of the representation that a plan sends. -/
def MediaResponsePlan.bodyLength {len : Nat} (plan : MediaResponsePlan len) : Nat :=
  if plan.sendBody then plan.bodyRange.elim 0 SatisfiableRange.len else 0

theorem fullPlan_bodyLength (headers : MediaHeadersRef) :
    (fullPlan .get headers).bodyLength = (fullPlan .get headers).contentLength := by
  by_cases h : headers.len = 0
  · simp [MediaResponsePlan.bodyLength, fullPlan, h]
  · simp only [MediaResponsePlan.bodyLength, fullPlan, ne_eq, h, not_false_eq_true, dif_pos,
      decide_true, if_true, Option.elim_some, SatisfiableRange.len]
    omega

/-- A planned response to a get request sends as many bytes as it announces. -/
theorem planMediaResponse_bodyLength (headers : MediaHeadersRef) (rangeHeader : Option Str) :
    (planMediaResponse .get headers rangeHeader).bodyLength =
      (planMediaResponse .get headers rangeHeader).contentLength := by
  unfold planMediaResponse
  split
  · exact fullPlan_bodyLength headers
  · split
    · rfl
    · rfl
    · exact fullPlan_bodyLength headers

/-- The range of a full response is the whole representation, if it has any bytes. -/
theorem fullPlan_bodyRange (method : Method) (headers : MediaHeadersRef) :
    (fullPlan method headers).bodyRange.elim (headers.len = 0) fun r =>
      r.start = 0 ∧ r.len = headers.len := by
  by_cases h : headers.len = 0
  · simp [fullPlan, h]
  · simp only [fullPlan, ne_eq, h, not_false_eq_true, dif_pos, Option.elim_some,
      SatisfiableRange.len, true_and]
    omega

theorem planMediaResponse_head (headers : MediaHeadersRef) (rangeHeader : Option Str) :
    (planMediaResponse .head headers rangeHeader).sendBody = false := by
  unfold planMediaResponse
  split
  · rfl
  · split <;> rfl

end RustyCastle.MediaHttp
