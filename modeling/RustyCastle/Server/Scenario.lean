import RustyCastle.Foundation.FiniteMap
import RustyCastle.Foundation.JsonGrammar
import RustyCastle.Server.Runtime

/-!
Scenario capture: each interaction is one line of JSON. The encoder is a string
builder; what it builds is shown to be the JSON text of the interaction, and a
capture file to hold the interactions in order.
-/

namespace RustyCastle.Server
open Foundation

/-- One request and its response. -/
structure RecordedInteraction where
  method : Str
  path : Str
  requestHeaders : List (Str × Str)
  requestBody : Str
  responseStatus : UInt16
  responseContentType : Str
  responseHeaders : List (Str × Str)
  responseBody : Option Str
  omittedResponseBodyBytes : UInt64
  deriving DecidableEq, Repr

/-- The characters of the general category Cc. -/
def isControl (c : Char) : Bool := c.toNat < 32 || (127 ≤ c.toNat && c.toNat < 160)

def jsonChar : Char → Str
  | '"' => "\\\"".toList
  | '\\' => "\\\\".toList
  | '\n' => "\\n".toList
  | '\r' => "\\r".toList
  | '\t' => "\\t".toList
  | '\x08' => "\\b".toList
  | '\x0c' => "\\f".toList
  | c => if isControl c then "\\u".toList ++ Hexadecimal.padded 4 c.toNat else [c]

def jsonString (value : Str) : Str := '"' :: (value.flatMap jsonChar ++ ['"'])

def jsonField (name value : Str) : Str := jsonString name ++ ':' :: jsonString value

def jsonNumberField (name : Str) (value : UInt64) : Str :=
  jsonString name ++ ':' :: Decimal.numeral value.toNat

def jsonHeader (header : Str × Str) : Str :=
  '[' :: (jsonString header.1 ++ ',' :: (jsonString header.2 ++ [']']))

def jsonHeaderArray (name : Str) (headers : List (Str × Str)) : Str :=
  jsonString name ++ ":[".toList ++
    (headers.zipIdx.flatMap fun x => (if x.2 > 0 then [','] else []) ++ jsonHeader x.1) ++ [']']

def RecordedInteraction.toJsonLine (i : RecordedInteraction) : Str :=
  ['{'] ++ jsonField "schema".toList "rusty-castle.scenario.v1".toList ++ [','] ++
    jsonField "method".toList i.method ++ [','] ++ jsonField "path".toList i.path ++ [','] ++
    jsonHeaderArray "request_headers".toList i.requestHeaders ++ [','] ++
    jsonField "request_body".toList i.requestBody ++ [','] ++
    jsonNumberField "response_status".toList i.responseStatus.toUInt64 ++ [','] ++
    jsonField "response_content_type".toList i.responseContentType ++ [','] ++
    jsonHeaderArray "response_headers".toList i.responseHeaders ++ [','] ++
    (match i.responseBody with
    | some body => jsonField "response_body".toList body
    | none => "\"response_body\":null".toList) ++ [','] ++
    jsonNumberField "omitted_response_body_bytes".toList i.omittedResponseBodyBytes ++ ['}']

/-! The line as a JSON text -/

def headerValue (header : Str × Str) : Json.Value :=
  .array [.string header.1, .string header.2]

def headersValue (headers : List (Str × Str)) : Json.Value := .array (headers.map headerValue)

def natValue (n : Nat) : Json.Value := .number ⟨false, n, 0⟩

/-- The members of the object that a line holds. -/
def RecordedInteraction.members (i : RecordedInteraction) : List (Str × Json.Value) :=
  [("schema".toList, .string "rusty-castle.scenario.v1".toList),
    ("method".toList, .string i.method),
    ("path".toList, .string i.path),
    ("request_headers".toList, headersValue i.requestHeaders),
    ("request_body".toList, .string i.requestBody),
    ("response_status".toList, natValue i.responseStatus.toNat),
    ("response_content_type".toList, .string i.responseContentType),
    ("response_headers".toList, headersValue i.responseHeaders),
    ("response_body".toList, i.responseBody.elim .null .string),
    ("omitted_response_body_bytes".toList, natValue i.omittedResponseBodyBytes.toNat)]

section Text
open Json

theorem unitText_padded {n : Nat} (h : n < 16 ^ 4) : UnitText (Hexadecimal.padded 4 n) n := by
  have hlower : ∀ c ∈ Hexadecimal.digits, c.toLower = c := by decide
  have hmem : ∀ c ∈ Hexadecimal.padded 4 n, c ∈ Hexadecimal.digits :=
    fun _ hc => Hexadecimal.mem_padded hc
  refine ⟨Hexadecimal.length_padded (by decide) h, List.all_eq_true.mpr fun c hc => ?_, ?_⟩
  · rw [isHexDigit, hlower c (hmem c hc), List.contains_iff_mem]
    exact hmem c hc
  · rw [unitValue, List.map_congr_left fun c hc => hlower c (hmem c hc), List.map_id',
      Hexadecimal.value_padded]

/-- Every character is written as one of its texts. -/
theorem charText_jsonChar (c : Char) : CharText (jsonChar c) c := by
  unfold jsonChar
  split
  · exact .short (by decide)
  · exact .short (by decide)
  · exact .short (by decide)
  · exact .short (by decide)
  · exact .short (by decide)
  · exact .short (by decide)
  · exact .short (by decide)
  · split
    · rename_i h
      have hlt : c.toNat < 16 ^ 4 := by
        simp only [isControl, Bool.or_eq_true, Bool.and_eq_true, decide_eq_true_eq] at h
        omega
      exact .units (.one (unitText_padded hlt))
    · rename_i hquote hbackslash _ _ _ _ _ h
      refine .plain ?_
      simp only [isControl, Bool.or_eq_true, Bool.and_eq_true, decide_eq_true_eq, not_or] at h
      simp only [isPlain, Bool.and_eq_true, decide_eq_true_eq, bne_iff_ne]
      exact ⟨⟨by omega, hquote⟩, hbackslash⟩

theorem stringText_jsonChars (value : Str) : StringText (value.flatMap jsonChar) value := by
  induction value with
  | nil => exact .nil
  | cons c value ih => exact .cons (charText_jsonChar c) ih

theorem text_jsonString (depth : Nat) (value : Str) :
    Text (depth + 1) (jsonString value) (.string value) :=
  .string (stringText_jsonChars value)

theorem text_jsonHeader (depth : Nat) (header : Str × Str) :
    Text (depth + 2) (jsonHeader header) (headerValue header) := by
  have hgroup := group_commas (.cons (text_jsonString depth header.1)
    (.cons (text_jsonString depth header.2) .nil))
  have hsplit : jsonHeader header =
      '[' :: (commas [jsonString header.1, jsonString header.2] ++ [']']) := by
    simp [jsonHeader, commas]
  rw [hsplit]
  exact .array hgroup

/-- The loop writes a comma before every header but the first. -/
theorem zipIdx_jsonHeaders (headers : List (Str × Str)) :
    (headers.zipIdx.flatMap fun x => (if x.2 > 0 then [','] else []) ++ jsonHeader x.1) =
      commas (headers.map jsonHeader) := by
  have htail : ∀ (t : Str) (k : Nat) (headers : List (Str × Str)),
      t ++ ((headers.zipIdx (k + 1)).flatMap fun x =>
        (if x.2 > 0 then [','] else []) ++ jsonHeader x.1) =
      commas (t :: headers.map jsonHeader) := by
    intro t k headers
    induction headers generalizing t k with
    | nil => simp [commas]
    | cons header headers ih =>
        rw [List.zipIdx_cons, List.flatMap_cons, List.map_cons, if_pos (Nat.succ_pos k), commas,
          ← ih, List.append_assoc]
        · rfl
        · exact List.cons_ne_nil _ _
  cases headers with
  | nil => rfl
  | cons header headers =>
      rw [List.zipIdx_cons, List.flatMap_cons, List.map_cons, ← htail _ 0]
      rfl

theorem text_jsonHeaders (depth : Nat) (headers : List (Str × Str)) :
    Text (depth + 3) ('[' :: (commas (headers.map jsonHeader) ++ [']'])) (headersValue headers) :=
  .array (group_commas (List.forall₂_map_left_iff.mpr (List.forall₂_map_right_iff.mpr
    (List.forall₂_same.mpr fun header _ => text_jsonHeader depth header))))

theorem member_jsonString {depth : Nat} {t : Str} {v : Value} (name : Str) (h : Text depth t v) :
    Member (Text depth) (jsonString name ++ ':' :: t) (name, v) := by
  have hmember := @Member.mk _ name _ [] [] t v (stringText_jsonChars name) (by simp) (by simp) h
  simpa [jsonString] using hmember

theorem member_jsonHeaderArray (name : Str) (headers : List (Str × Str)) :
    Member (Text 3) (jsonHeaderArray name headers) (name, headersValue headers) := by
  have hopen : ":[".toList = [':', '['] := by decide
  have hsplit : jsonHeaderArray name headers =
      jsonString name ++ ':' :: ('[' :: (commas (headers.map jsonHeader) ++ [']'])) := by
    rw [jsonHeaderArray, zipIdx_jsonHeaders, hopen]
    simp
  rw [hsplit]
  exact member_jsonString name (text_jsonHeaders 0 headers)

/-- The texts of the members, as they are written. -/
def memberTexts (i : RecordedInteraction) : List Str :=
  [jsonField "schema".toList "rusty-castle.scenario.v1".toList,
    jsonField "method".toList i.method,
    jsonField "path".toList i.path,
    jsonHeaderArray "request_headers".toList i.requestHeaders,
    jsonField "request_body".toList i.requestBody,
    jsonNumberField "response_status".toList i.responseStatus.toUInt64,
    jsonField "response_content_type".toList i.responseContentType,
    jsonHeaderArray "response_headers".toList i.responseHeaders,
    match i.responseBody with
    | some body => jsonField "response_body".toList body
    | none => "\"response_body\":null".toList,
    jsonNumberField "omitted_response_body_bytes".toList i.omittedResponseBodyBytes]

theorem toJsonLine_eq (i : RecordedInteraction) :
    i.toJsonLine = '{' :: (commas (memberTexts i) ++ ['}']) := by
  have hcommas : ∀ a b c d e f g h j k : Str,
      ['{'] ++ a ++ [','] ++ b ++ [','] ++ c ++ [','] ++ d ++ [','] ++ e ++ [','] ++ f ++ [','] ++
        g ++ [','] ++ h ++ [','] ++ j ++ [','] ++ k ++ ['}'] =
      '{' :: (commas [a, b, c, d, e, f, g, h, j, k] ++ ['}']) := by
    intro a b c d e f g h j k
    simp [commas]
  exact hcommas _ _ _ _ _ _ _ _ _ _

theorem members_written (i : RecordedInteraction) :
    List.Forall₂ (Member (Text 3)) (memberTexts i) i.members := by
  have hstring : ∀ name value : Str,
      Member (Text 3) (jsonField name value) (name, .string value) :=
    fun name value => member_jsonString name (text_jsonString 2 value)
  have hstatus := member_jsonString "response_status".toList
    (text_number 2 i.responseStatus.toUInt64.toNat)
  have homitted := member_jsonString "omitted_response_body_bytes".toList
    (text_number 2 i.omittedResponseBodyBytes.toNat)
  rw [UInt16.toNat_toUInt64] at hstatus
  refine .cons (hstring _ _) (.cons (hstring _ _) (.cons (hstring _ _)
    (.cons (member_jsonHeaderArray _ _) (.cons (hstring _ _) (.cons ?_ (.cons (hstring _ _)
    (.cons (member_jsonHeaderArray _ _) (.cons ?_ (.cons homitted .nil)))))))))
  · rw [jsonNumberField, UInt16.toNat_toUInt64]
    exact hstatus
  · cases i.responseBody with
    | some body => exact hstring _ body
    | none =>
        have hnull : Text 3 "null".toList .null := .scalar rfl
        exact member_jsonString "response_body".toList hnull

/-- The line is the JSON text of its members. -/
theorem text_toJsonLine (i : RecordedInteraction) : Text 4 i.toJsonLine (.object i.members) := by
  rw [toJsonLine_eq]
  exact .object (group_commas (members_written i))

theorem decode_toJsonLine (i : RecordedInteraction) :
    decode i.toJsonLine = some (.object i.members) :=
  decode_eq_some_iff.mpr ⟨4, .self (text_toJsonLine i)⟩

end Text

/-! Reading a line -/

def textOf : Json.Value → Option Str
  | .string s => some s
  | _ => none

def naturalOf : Json.Value → Option Nat
  | .number n => if n.negative = false ∧ n.exponent = 0 then some n.mantissa else none
  | _ => none

def headerOf : Json.Value → Option (Str × Str)
  | .array [.string name, .string value] => some (name, value)
  | _ => none

def headersOf : Json.Value → Option (List (Str × Str))
  | .array vs => vs.mapM headerOf
  | _ => none

def textOrNull : Json.Value → Option (Option Str)
  | .null => some none
  | .string s => some (some s)
  | _ => none

def RecordedInteraction.ofMembers (members : List (Str × Json.Value)) :
    Option RecordedInteraction := do
  let method ← (IndexMap.lookup members "method".toList).bind textOf
  let path ← (IndexMap.lookup members "path".toList).bind textOf
  let requestHeaders ← (IndexMap.lookup members "request_headers".toList).bind headersOf
  let requestBody ← (IndexMap.lookup members "request_body".toList).bind textOf
  let status ← (IndexMap.lookup members "response_status".toList).bind naturalOf
  let responseContentType ← (IndexMap.lookup members "response_content_type".toList).bind textOf
  let responseHeaders ← (IndexMap.lookup members "response_headers".toList).bind headersOf
  let responseBody ← (IndexMap.lookup members "response_body".toList).bind textOrNull
  let omitted ← (IndexMap.lookup members "omitted_response_body_bytes".toList).bind naturalOf
  if status < 2 ^ 16 ∧ omitted < 2 ^ 64 then
    some
      { method, path, requestHeaders, requestBody
        responseStatus := UInt16.ofNat status
        responseContentType, responseHeaders, responseBody
        omittedResponseBodyBytes := UInt64.ofNat omitted }
  else none

/-- What a JSON decoder makes of a line. -/
def RecordedInteraction.ofLine (line : Str) : Option RecordedInteraction :=
  match Json.decode line with
  | some (.object members) => ofMembers members
  | _ => none

theorem headersOf_headersValue (headers : List (Str × Str)) :
    headersOf (headersValue headers) = some headers := by
  rw [headersValue, headersOf, List.mapM_map]
  exact List.mapM_pure.trans (by simp)

/-- The members are read by their names, which are all different. -/
theorem ofMembers_members (i : RecordedInteraction) :
    RecordedInteraction.ofMembers i.members = some i := by
  have hnames : (i.members.map Prod.fst).Nodup := by
    have hnodup : ["schema".toList, "method".toList, "path".toList, "request_headers".toList,
      "request_body".toList, "response_status".toList, "response_content_type".toList,
      "response_headers".toList, "response_body".toList,
      "omitted_response_body_bytes".toList].Nodup := by decide
    exact hnodup
  have hat : ∀ k name v, i.members[k]? = some (name, v) →
      IndexMap.lookup i.members name = some v :=
    fun k name v h => (IndexMap.lookup_eq_some hnames).mpr (List.mem_of_getElem? h)
  have hbody : textOrNull (i.responseBody.elim .null .string) = some i.responseBody := by
    cases i.responseBody <;> rfl
  have hnat : ∀ n, naturalOf (natValue n) = some n := fun _ => rfl
  have hfits : i.responseStatus.toNat < 2 ^ 16 ∧ i.omittedResponseBodyBytes.toNat < 2 ^ 64 :=
    ⟨i.responseStatus.toNat_lt, i.omittedResponseBodyBytes.toNat_lt⟩
  unfold RecordedInteraction.ofMembers
  rw [hat 1 "method".toList _ rfl, hat 2 "path".toList _ rfl, hat 3 "request_headers".toList _ rfl,
    hat 4 "request_body".toList _ rfl, hat 5 "response_status".toList _ rfl,
    hat 6 "response_content_type".toList _ rfl, hat 7 "response_headers".toList _ rfl,
    hat 8 "response_body".toList _ rfl, hat 9 "omitted_response_body_bytes".toList _ rfl]
  simp only [Option.bind_some, textOf, headersOf_headersValue, hbody, hnat, Option.bind_eq_bind,
    if_pos hfits, UInt16.ofNat_toNat, UInt64.ofNat_toNat]

/-! Control characters -/

/-- The text has no control character, so it is one line. -/
def Printable (s : Str) : Prop := ∀ c ∈ s, isControl c = false

instance (s : Str) : Decidable (Printable s) :=
  inferInstanceAs (Decidable (∀ c ∈ s, isControl c = false))

theorem printable_append {s t : Str} : Printable (s ++ t) ↔ Printable s ∧ Printable t :=
  List.forall_mem_append

theorem printable_cons {c : Char} {s : Str} :
    Printable (c :: s) ↔ isControl c = false ∧ Printable s :=
  List.forall_mem_cons

theorem printable_jsonChar (c : Char) : Printable (jsonChar c) := by
  unfold jsonChar Printable
  split
  · decide
  · decide
  · decide
  · decide
  · decide
  · decide
  · decide
  · split
    · have hdigits : ∀ d ∈ Hexadecimal.digits, isControl d = false := by decide
      have hescape : ∀ d ∈ "\\u".toList, isControl d = false := by decide
      exact List.forall_mem_append.mpr
        ⟨hescape, fun d hd => hdigits d (Hexadecimal.mem_padded hd)⟩
    · rename_i h
      rw [List.forall_mem_singleton]
      exact Bool.eq_false_iff.mpr h

theorem printable_jsonString (value : Str) : Printable (jsonString value) := by
  have hquote : isControl '"' = false := by decide
  refine printable_cons.mpr ⟨hquote, printable_append.mpr ⟨fun d hd => ?_, by simp [Printable, hquote]⟩⟩
  obtain ⟨c, -, hd⟩ := List.mem_flatMap.mp hd
  exact printable_jsonChar c d hd

theorem printable_numeral (n : Nat) : Printable (Decimal.numeral n) := by
  have hdigits : ∀ d ∈ Decimal.digits, isControl d = false := by decide
  exact fun d hd => hdigits d (Decimal.numeral_subset n hd)

theorem printable_commas {ts : List Str} (h : ∀ t ∈ ts, Printable t) :
    Printable (Json.commas ts) := by
  intro c hc
  obtain rfl | ⟨t, ht, hc⟩ := Json.mem_commas hc
  · decide
  · exact h t ht c hc

theorem printable_jsonHeader (header : Str × Str) : Printable (jsonHeader header) := by
  have hopen : isControl '[' = false := by decide
  have hcomma : isControl ',' = false := by decide
  have hclose : Printable [']'] := by decide
  simp only [jsonHeader, printable_cons, printable_append, printable_jsonString, hopen, hcomma,
    hclose, and_self]

theorem printable_memberTexts (i : RecordedInteraction) : ∀ t ∈ memberTexts i, Printable t := by
  have hcolon : isControl ':' = false := by decide
  have hfield : ∀ name value, Printable (jsonField name value) := by
    intro name value
    simp only [jsonField, printable_append, printable_cons, printable_jsonString, hcolon, and_self]
  have hnumber : ∀ name value, Printable (jsonNumberField name value) := by
    intro name value
    simp only [jsonNumberField, printable_append, printable_cons, printable_jsonString,
      printable_numeral, hcolon, and_self]
  have hheaders : ∀ name headers, Printable (jsonHeaderArray name headers) := by
    intro name headers
    have hopen : Printable ":[".toList := by decide
    have hclose : Printable [']'] := by decide
    have hall : Printable (Json.commas (headers.map jsonHeader)) :=
      printable_commas (List.forall_mem_map.mpr fun header _ => printable_jsonHeader header)
    simp only [jsonHeaderArray, zipIdx_jsonHeaders, printable_append, printable_jsonString, hopen,
      hclose, hall, and_self]
  unfold memberTexts
  simp only [List.forall_mem_cons, List.not_mem_nil, false_implies, implies_true, hfield, hnumber,
    hheaders, and_true, true_and]
  cases i.responseBody with
  | some body => exact hfield _ body
  | none =>
      have hnull : Printable "\"response_body\":null".toList := by decide
      exact hnull

theorem printable_toJsonLine (i : RecordedInteraction) : Printable i.toJsonLine := by
  have hopen : isControl '{' = false := by decide
  have hclose : Printable ['}'] := by decide
  rw [toJsonLine_eq, printable_cons, printable_append]
  exact ⟨hopen, printable_commas (printable_memberTexts i), hclose⟩

theorem ofLine_toJsonLine (i : RecordedInteraction) :
    RecordedInteraction.ofLine i.toJsonLine = some i := by
  rw [RecordedInteraction.ofLine, decode_toJsonLine]
  exact ofMembers_members i

/-- A line is free of control characters and is the JSON text of an object, and of
nothing else. The interaction is read back from that object, so no other one has
this line. -/
theorem jsonLine_lossless (i : RecordedInteraction) :
    (∀ c ∈ i.toJsonLine, isControl c = false) ∧
      Json.IsJson i.toJsonLine (.object i.members) ∧
      (∀ v, Json.IsJson i.toJsonLine v → v = .object i.members) ∧
      Json.decode i.toJsonLine = some (.object i.members) ∧
      RecordedInteraction.ofMembers i.members = some i ∧
      ∀ j : RecordedInteraction, j.toJsonLine = i.toJsonLine → j = i := by
  have hdecode := decode_toJsonLine i
  refine ⟨printable_toJsonLine i, Json.decode_eq_some_iff.mp hdecode, fun v hv => ?_, hdecode,
    ofMembers_members i, fun j h => ?_⟩
  · rw [← Json.decode_eq_some_iff, hdecode] at hv
    exact (Option.some.inj hv).symm
  · have hread := ofLine_toJsonLine j
    rw [h, ofLine_toJsonLine] at hread
    exact (Option.some.inj hread).symm

/-! The recorder -/

/-- The bytes of the capture file. -/
structure ScenarioRecorder where
  file : List UInt8

def ScenarioRecorder.create : ScenarioRecorder where
  file := []

def ScenarioRecorder.record (recorder : ScenarioRecorder) (interaction : RecordedInteraction) :
    ScenarioRecorder where
  file := recorder.file ++ Str.bytes interaction.toJsonLine ++ Str.bytes ['\n']

/-- The body of a response as text, if it has one, and the number of bytes left out. -/
def replayFriendlyBody (response : HttpResponse) : Option Str × UInt64 :=
  let isText := "text/".toList.isPrefixOf response.contentType ||
    (Str.find "xml".toList response.contentType).isSome ||
    (Str.find "json".toList response.contentType).isSome
  if isText then
    match Str.fromUtf8 response.body with
    | some body => (some body, 0)
    | none => (none, UInt64.ofNat response.body.length)
  else (none, UInt64.ofNat response.body.length)

def capturedInteraction (request : HttpRequest) (response : HttpResponse) : RecordedInteraction where
  method := request.method
  path := request.path
  requestHeaders := request.headers
  requestBody := request.body
  responseStatus := UInt16.ofNat response.status
  responseContentType := response.contentType
  responseHeaders := response.headers
  responseBody := (replayFriendlyBody response).1
  omittedResponseBodyBytes := (replayFriendlyBody response).2

def captureInteraction (recorder : Option ScenarioRecorder) (request : HttpRequest)
    (response : HttpResponse) : Option ScenarioRecorder :=
  recorder.map fun recorder => recorder.record (capturedInteraction request response)

/-- A response is kept as text, or its bytes are counted. -/
theorem replayFriendlyBody_cases (response : HttpResponse) :
    (∃ body, Str.bytes body = response.body ∧ replayFriendlyBody response = (some body, 0)) ∨
      replayFriendlyBody response = (none, UInt64.ofNat response.body.length) := by
  unfold replayFriendlyBody
  dsimp only
  split
  · split
    · rename_i body hbody
      exact .inl ⟨body, Str.bytes_of_fromUtf8 hbody, rfl⟩
    · exact .inr rfl
  · exact .inr rfl

/-- The text that a sequence of interactions leaves in the file. -/
def captureText (interactions : List RecordedInteraction) : Str :=
  interactions.flatMap fun i => i.toJsonLine ++ ['\n']

theorem file_foldl_record (interactions : List RecordedInteraction) (recorder : ScenarioRecorder) :
    (interactions.foldl ScenarioRecorder.record recorder).file =
      recorder.file ++ Str.bytes (captureText interactions) := by
  induction interactions generalizing recorder with
  | nil => simp [captureText, Str.bytes]
  | cons i interactions ih =>
      rw [List.foldl_cons, ih]
      simp [ScenarioRecorder.record, captureText, Str.bytes]

/-- Reads a capture file line by line. -/
def ScenarioRecorder.read (recorder : ScenarioRecorder) : Option (List RecordedInteraction) := do
  let text ← Str.fromUtf8 recorder.file
  (Json.lines text).mapM RecordedInteraction.ofLine

theorem lines_captureText (interactions : List RecordedInteraction) :
    Json.lines (captureText interactions) = interactions.map RecordedInteraction.toJsonLine := by
  have hcontrol : isControl '\n' = true := by decide
  induction interactions with
  | nil => rfl
  | cons i interactions ih =>
      have hline : '\n' ∉ i.toJsonLine := fun hm => by
        rw [printable_toJsonLine i _ hm] at hcontrol
        cases hcontrol
      have hcons : captureText (i :: interactions) =
          i.toJsonLine ++ '\n' :: captureText interactions := by simp [captureText]
      rw [hcons, Json.lines_append hline, ih, List.map_cons]

/-- A capture file holds the interactions that were recorded, in their order. -/
theorem read_recorded (interactions : List RecordedInteraction) :
    (interactions.foldl ScenarioRecorder.record .create).read = some interactions := by
  rw [ScenarioRecorder.read, file_foldl_record, ScenarioRecorder.create, List.nil_append,
    Str.fromUtf8_bytes, Option.bind_eq_bind, Option.bind_some, lines_captureText]
  induction interactions with
  | nil => rfl
  | cons i interactions ih => simp [ofLine_toJsonLine, ih]

end RustyCastle.Server
