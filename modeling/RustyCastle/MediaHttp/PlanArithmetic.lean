import RustyCastle.MediaHttp.Response

/-!
The plan in 64-bit arithmetic. Here every subtraction and addition that the plan makes is
checked and positions carry no proof, as in the machine. No check fails, and the result is
the plan on the numbers with its proofs forgotten.
-/

namespace RustyCastle.MediaHttp
open Foundation RustyCastle.Dlna

def checkedSub (a b : Nat) : Option Nat := if b ≤ a then some (a - b) else none

def checkedAdd (a b : Nat) : Option Nat := if a + b < 2 ^ 64 then some (a + b) else none

theorem checkedSub_of_le {a b : Nat} (h : b ≤ a) : checkedSub a b = some (a - b) := if_pos h

theorem checkedAdd_of_lt {a b : Nat} (h : a + b < 2 ^ 64) : checkedAdd a b = some (a + b) := if_pos h

/-- Two positions that nothing relates to each other. -/
structure ByteSpan where
  start : Nat
  stop : Nat
  deriving DecidableEq, Repr

def ByteSpan.len (span : ByteSpan) : Option Nat := do
  let distance ← checkedSub span.stop span.start
  checkedAdd distance 1

def ByteRangeSpec.applyChecked (range : ByteRangeSpec) (totalLen : Nat) :
    Option (Except RangeError ByteSpan) :=
  if totalLen = 0 then some (.error .unsatisfiable)
  else
    match range with
    | .from first last _ =>
        if totalLen ≤ first then some (.error .unsatisfiable)
        else do
          let final ← checkedSub totalLen 1
          some (.ok { start := first, stop := last.elim final fun last => min last final })
    | .suffix len _ => do
        let start ← checkedSub totalLen (min len totalLen)
        let final ← checkedSub totalLen 1
        some (.ok { start, stop := final })

/-- The fields of a response plan, without the invariant of its body range. -/
structure PlanFields where
  status : ResponseStatus
  sendBody : Bool
  contentType : Str
  contentLength : Nat
  contentRange : Option ContentRange
  bodyRange : Option ByteSpan
  acceptRanges : Str
  transferMode : Str
  protocolInfo : ProtocolInfoRef

section
variable (method : Method) (headers : MediaHeadersRef)

def fullPlanChecked : Option PlanFields := do
  let bodyRange ←
    if headers.len ≠ 0 then do
      let final ← checkedSub headers.len 1
      some (some { start := 0, stop := final })
    else some none
  some
    { status := .ok
      sendBody := method = .get
      contentType := headers.contentType
      contentLength := headers.len
      contentRange := none
      bodyRange
      acceptRanges := "bytes".toList
      transferMode := "Streaming".toList
      protocolInfo := headers.protocolInfo }

/-- The plan of a response, `none` where an operation overflows or underflows. -/
def planMediaResponseChecked (rangeHeader : Option Str) : Option PlanFields :=
  match rangeHeader with
  | none => fullPlanChecked method headers
  | some rangeHeader =>
      match parseRangeHeader rangeHeader with
      | .error .invalid => fullPlanChecked method headers
      | .error .unsatisfiable => some (unsatisfiedFields)
      | .ok spec => do
          match ← spec.applyChecked headers.len with
          | .error .invalid => fullPlanChecked method headers
          | .error .unsatisfiable => some (unsatisfiedFields)
          | .ok range => do
              let contentLength ← range.len
              some
                { status := .partialContent
                  sendBody := method = .get
                  contentType := headers.contentType
                  contentLength
                  contentRange := some (.bytes range.start range.stop headers.len)
                  bodyRange := some range
                  acceptRanges := "bytes".toList
                  transferMode := "Streaming".toList
                  protocolInfo := headers.protocolInfo }
where
  unsatisfiedFields : PlanFields :=
    { status := .rangeNotSatisfiable
      sendBody := false
      contentType := headers.contentType
      contentLength := 0
      contentRange := some (.unsatisfied headers.len)
      bodyRange := none
      acceptRanges := "bytes".toList
      transferMode := "Streaming".toList
      protocolInfo := headers.protocolInfo }

end

/-! The checked plan and the plan on the numbers -/

def SatisfiableRange.span {totalLen : Nat} (range : SatisfiableRange totalLen) : ByteSpan where
  start := range.start
  stop := range.stop

def MediaResponsePlan.fields {len : Nat} (plan : MediaResponsePlan len) : PlanFields where
  status := plan.status
  sendBody := plan.sendBody
  contentType := plan.contentType
  contentLength := plan.contentLength
  contentRange := plan.contentRange
  bodyRange := plan.bodyRange.map SatisfiableRange.span
  acceptRanges := plan.acceptRanges
  transferMode := plan.transferMode
  protocolInfo := plan.protocolInfo

theorem SatisfiableRange.len_span {totalLen : Nat} (htotal : totalLen < 2 ^ 64)
    (range : SatisfiableRange totalLen) : range.span.len = some range.len := by
  have hstop := range.stop_lt
  have hfits : range.stop - range.start + 1 < 2 ^ 64 := by omega
  simp only [ByteSpan.len, span, checkedSub_of_le range.start_le, Option.bind_eq_bind,
    Option.bind_some, checkedAdd_of_lt hfits, len]

theorem ByteRangeSpec.applyChecked_eq (range : ByteRangeSpec) (totalLen : Nat) :
    range.applyChecked totalLen = some ((range.apply totalLen).map SatisfiableRange.span) := by
  by_cases h0 : totalLen = 0
  · simp [applyChecked, apply, h0, Except.map]
  · have hpos : 1 ≤ totalLen := Nat.one_le_iff_ne_zero.mpr h0
    cases range with
    | «from» first last first_le =>
        by_cases hfirst : first < totalLen
        · simp [applyChecked, apply, h0, hfirst, Nat.not_le.mpr hfirst, checkedSub_of_le hpos,
            Except.map, SatisfiableRange.span]
        · simp [applyChecked, apply, h0, hfirst, Nat.not_lt.mp hfirst, Except.map]
    | suffix len len_pos =>
        simp [applyChecked, apply, h0, checkedSub_of_le hpos,
          checkedSub_of_le (Nat.min_le_right len totalLen), Except.map, SatisfiableRange.span]

theorem fullPlanChecked_eq (method : Method) (headers : MediaHeadersRef) :
    fullPlanChecked method headers = some (fullPlan method headers).fields := by
  by_cases h : headers.len = 0
  · simp [fullPlanChecked, fullPlan, MediaResponsePlan.fields, h]
  · have hpos : 1 ≤ headers.len := Nat.one_le_iff_ne_zero.mpr h
    simp [fullPlanChecked, fullPlan, MediaResponsePlan.fields, h, checkedSub_of_le hpos,
      SatisfiableRange.span]

theorem planMediaResponseChecked_eq (method : Method) {headers : MediaHeadersRef}
    (hlen : headers.len < 2 ^ 64) (rangeHeader : Option Str) :
    planMediaResponseChecked method headers rangeHeader =
      some (planMediaResponse method headers rangeHeader).fields := by
  cases rangeHeader with
  | none => exact fullPlanChecked_eq method headers
  | some rangeHeader =>
      simp only [planMediaResponseChecked, planMediaResponse]
      cases hparse : parseRangeHeader rangeHeader with
      | error e =>
          cases e with
          | invalid => exact fullPlanChecked_eq method headers
          | unsatisfiable => rfl
      | ok spec =>
          simp only [spec.applyChecked_eq, Option.bind_eq_bind, Option.bind_some]
          cases happly : spec.apply headers.len with
          | error e =>
              cases e with
              | invalid => simpa [happly, Except.map, bind, Except.bind] using
                  fullPlanChecked_eq method headers
              | unsatisfiable => simp [happly, Except.map, bind, Except.bind]; rfl
          | ok range =>
              simp only [Except.map, range.len_span hlen, Option.bind_some, bind, Except.bind,
                happly]
              rfl

/-! What a plan promises -/

/-- The fields of a plan agree with each other and with the length of the representation. -/
structure PlanFields.Safe (plan : PlanFields) (len : Nat) (rangeHeader : Option Str) : Prop where
  partialContent : plan.status = .partialContent → ∃ span : ByteSpan,
    plan.bodyRange = some span ∧ span.start ≤ span.stop ∧ span.stop < len ∧
      plan.contentLength = span.stop - span.start + 1 ∧
        plan.contentRange = some (.bytes span.start span.stop len)
  rangeNotSatisfiable : plan.status = .rangeNotSatisfiable →
    rangeHeader.isSome ∧ plan.sendBody = false ∧ plan.bodyRange = none ∧
      plan.contentLength = 0 ∧ plan.contentRange = some (.unsatisfied len)
  ok : plan.status = .ok → plan.contentLength = len ∧
    plan.bodyRange = if len = 0 then none else some { start := 0, stop := len - 1 }

theorem partialPlan_safe (method : Method) (headers : MediaHeadersRef)
    (range : SatisfiableRange headers.len) (rangeHeader : Option Str) :
    (partialPlan method headers range).fields.Safe headers.len rangeHeader where
  partialContent _ := ⟨range.span, rfl, range.start_le, range.stop_lt, rfl, rfl⟩
  rangeNotSatisfiable h := by cases h
  ok h := by cases h

theorem unsatisfiedPlan_safe (headers : MediaHeadersRef) (rangeHeader : Str) :
    (unsatisfiedPlan headers).fields.Safe headers.len (some rangeHeader) where
  partialContent h := by cases h
  rangeNotSatisfiable _ := ⟨rfl, rfl, rfl, rfl, rfl⟩
  ok h := by cases h

theorem fullPlan_safe (method : Method) (headers : MediaHeadersRef) (rangeHeader : Option Str) :
    (fullPlan method headers).fields.Safe headers.len rangeHeader where
  partialContent h := by cases h
  rangeNotSatisfiable h := by cases h
  ok _ := by
    refine ⟨rfl, ?_⟩
    by_cases h : headers.len = 0 <;>
      simp [fullPlan, MediaResponsePlan.fields, SatisfiableRange.span, h]

theorem planMediaResponse_safe (method : Method) (headers : MediaHeadersRef)
    (rangeHeader : Option Str) :
    (planMediaResponse method headers rangeHeader).fields.Safe headers.len rangeHeader := by
  unfold planMediaResponse
  split
  · exact fullPlan_safe method headers none
  · rename_i rangeHeader
    split
    · exact partialPlan_safe method headers _ _
    · exact unsatisfiedPlan_safe headers rangeHeader
    · exact fullPlan_safe method headers _

/-- The plan for a head request is the plan for a get request without its body. -/
theorem planMediaResponse_head_fields (headers : MediaHeadersRef) (rangeHeader : Option Str) :
    (planMediaResponse .head headers rangeHeader).fields =
      { (planMediaResponse .get headers rangeHeader).fields with sendBody := false } := by
  unfold planMediaResponse
  split
  · rfl
  · split <;> rfl

/-- No operation of a plan overflows or underflows, and the plan is safe to execute. -/
theorem planMediaResponse_computes_safely (method : Method) (headers : MediaHeadersRef)
    (rangeHeader : Option Str) (hlen : headers.len < 2 ^ 64) :
    ∃ plan get head, planMediaResponseChecked method headers rangeHeader = some plan ∧
      plan.Safe headers.len rangeHeader ∧
      planMediaResponseChecked .get headers rangeHeader = some get ∧
      planMediaResponseChecked .head headers rangeHeader = some head ∧
      head = { get with sendBody := head.sendBody } := by
  refine ⟨_, _, _, planMediaResponseChecked_eq method hlen rangeHeader,
    planMediaResponse_safe method headers rangeHeader,
    planMediaResponseChecked_eq .get hlen rangeHeader,
    planMediaResponseChecked_eq .head hlen rangeHeader, ?_⟩
  rw [planMediaResponse_head_fields]

/-- The longest representation, asked for its last two bytes. -/
theorem planMediaResponse_computes_safely_longest :
    (2 ^ 64 - 1 < 2 ^ 64) ∧ ∃ plan get head,
      planMediaResponseChecked .get ⟨2 ^ 64 - 1, "video/mp4".toList, ProtocolInfoRef.sonyMp4⟩
          (some "bytes=-2".toList) = some plan ∧
        plan.Safe (2 ^ 64 - 1) (some "bytes=-2".toList) ∧
        planMediaResponseChecked .get ⟨2 ^ 64 - 1, "video/mp4".toList, ProtocolInfoRef.sonyMp4⟩
          (some "bytes=-2".toList) = some get ∧
        planMediaResponseChecked .head ⟨2 ^ 64 - 1, "video/mp4".toList, ProtocolInfoRef.sonyMp4⟩
          (some "bytes=-2".toList) = some head ∧
        head = { get with sendBody := head.sendBody } :=
  ⟨by decide, planMediaResponse_computes_safely .get
    ⟨2 ^ 64 - 1, "video/mp4".toList, ProtocolInfoRef.sonyMp4⟩ (some "bytes=-2".toList) (by decide)⟩

end RustyCastle.MediaHttp
