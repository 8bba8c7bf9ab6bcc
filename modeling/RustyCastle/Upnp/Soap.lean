import RustyCastle.Upnp.Ids
import RustyCastle.Upnp.Xml

/-!
The SOAP control request parser and the response writers. The parser does not
build a tree: it looks for tags with the wanted local name and keeps slices of
the message, so a value is raw text.
-/

namespace RustyCastle.Upnp
open Foundation

inductive ParseError where
  | missingBody
  | missingAction
  | missingNamespace
  | invalidUrn
  | malformedXml
  deriving DecidableEq, Repr

structure ActionRequestRef where
  serviceType : ServiceTypeRef
  actionName : Str
  argumentsXml : Str
  deriving DecidableEq, Repr

structure ArgumentRef where
  name : Str
  value : Str
  deriving DecidableEq, Repr

/-! Tags -/

def elementName (tag : Str) : Option Str := do
  let first ← Str.firstWord tag
  let name := (Str.rsplitOnce ':' first).elim first Prod.snd
  if name.isEmpty then none else some name

def elementPrefix (tag : Str) : Option Str := do
  let first ← Str.firstWord tag
  (Str.cut [':'] first).map Prod.fst

/-- Where the first end tag of the name starts, and how long it is. -/
def findCloseForName (name rest : Str) (offset : Nat) : Option (Nat × Nat) :=
  match _h : Str.cut "</".toList rest with
  | none => none
  | some (before, after) =>
      match _h' : Str.cut ['>'] after with
      | none => none
      | some (tag, next) =>
          if elementName tag = some name then some (offset + before.length, 2 + tag.length + 1)
          else findCloseForName name next (offset + before.length + 2 + tag.length + 1)
  termination_by rest.length
  decreasing_by
    exact (Str.length_of_cut (List.cons_ne_nil _ []) _h').trans
      (Str.length_of_cut (by decide : "</".toList ≠ []) _h)

def findElementBody (input name : Str) : Option Str :=
  match _h : Str.cut ['<'] input with
  | none => none
  | some (_, afterLt) =>
      match _h' : Str.cut ['>'] afterLt with
      | none => none
      | some (tag, content) =>
          if elementName (Str.trim tag) = some name then
            (findCloseForName name content 0).map fun close => content.take close.1
          else findElementBody content name
  termination_by input.length
  decreasing_by
    exact (Str.length_of_cut (List.cons_ne_nil _ []) _h').trans
      (Str.length_of_cut (List.cons_ne_nil _ []) _h)

def firstChildElement (input : Str) : Option (Str × Str) := do
  let (_, afterLt) ← Str.cut ['<'] input
  let (raw, content) ← Str.cut ['>'] afterLt
  let tag := Str.trim raw
  if tag.head? = some '/' ∨ tag.head? = some '!' ∨ tag.head? = some '?' ∨
      tag.getLast? = some '/' then
    none
  else do
    let name ← elementName tag
    let (closeStart, _) ← findCloseForName name content 0
    some (tag, content.take closeStart)

/-! Namespace declarations -/

def trimStart (s : Str) : Str := s.dropWhile Str.isWhitespace

def namespaceAttrLen (candidate : Str) (nsPrefix : Option Str) : Option Nat :=
  match nsPrefix with
  | some nsPrefix => do
      let afterColon ← Str.stripPrefix "xmlns:".toList candidate
      if nsPrefix.isPrefixOf afterColon then
        let attrLen := "xmlns:".toList.length + nsPrefix.length
        if (trimStart (candidate.drop attrLen)).head? = some '=' then some attrLen else none
      else none
  | none =>
      let attrLen := "xmlns".toList.length
      if (trimStart (candidate.drop attrLen)).head? = some '=' then some attrLen else none

def findAttrValue (afterName : Str) : Option Str := do
  let afterEq ← Str.stripPrefix ['='] (trimStart afterName)
  match trimStart afterEq with
  | [] => none
  | quote :: value =>
      if quote ≠ '"' ∧ quote ≠ '\'' then none else (Str.cut [quote] value).map Prod.fst

def findNamespace (rest : Str) (nsPrefix : Option Str) : Option Str :=
  match _h : Str.find "xmlns".toList rest with
  | none => none
  | some idx =>
      let candidate := rest.drop idx
      match (namespaceAttrLen candidate nsPrefix).bind fun attrLen =>
          findAttrValue (candidate.drop attrLen) with
      | some value => some value
      | none => findNamespace (candidate.drop 5) nsPrefix
  termination_by rest.length
  decreasing_by
    have hs := congrArg List.length (Str.find_split (by decide) _h).1
    have hlen : "xmlns".toList.length = 5 := by decide
    simp only [List.length_append, List.length_take, List.length_drop, hlen] at hs ⊢
    omega

def parseServiceTypeUrn (input : Str) : Except ParseError ServiceTypeRef := do
  let some rest := Str.stripPrefix "urn:".toList input | .error .invalidUrn
  let some (domain, rest) := Str.cut ":service:".toList rest | .error .invalidUrn
  let some (kind, version) := Str.rsplitOnce ':' rest | .error .invalidUrn
  let some version := Decimal.parseUnsigned 32 version | .error .invalidUrn
  .ok { domain := domain, kind := kind, version := .ofNat version }

/-! Requests -/

def parseActionRequest (input : Str) : Except ParseError ActionRequestRef := do
  let some body := findElementBody input "Body".toList | .error .missingBody
  let some (tag, inner) := firstChildElement body | .error .missingAction
  let some actionName := elementName tag | .error .malformedXml
  let some ns := findNamespace tag (elementPrefix tag) | .error .missingNamespace
  let serviceType ← parseServiceTypeUrn ns
  .ok { serviceType := serviceType, actionName := actionName, argumentsXml := inner }

/-- The next argument and what is left after it. -/
def nextArgument (rest : Str) : Option (ArgumentRef × Str) :=
  match _h : Str.cut ['<'] rest with
  | none => none
  | some (_, afterLt) =>
      if afterLt.head? = some '/' ∨ afterLt.head? = some '!' ∨ afterLt.head? = some '?' then
        nextArgument (afterLt.drop 1)
      else
        match _h' : Str.cut ['>'] afterLt with
        | none => none
        | some (raw, content) =>
            let tag := Str.trim raw
            if tag.getLast? = some '/' then nextArgument content
            else do
              let name ← elementName tag
              let (closeStart, closeLen) ← findCloseForName name content 0
              some ({ name := name, value := Str.trim (content.take closeStart) },
                content.drop (closeStart + closeLen))
  termination_by rest.length
  decreasing_by
    · have := Str.length_of_cut (List.cons_ne_nil _ []) _h
      simp only [List.length_drop]
      omega
    · exact (Str.length_of_cut (List.cons_ne_nil _ []) _h').trans
        (Str.length_of_cut (List.cons_ne_nil _ []) _h)

theorem length_of_nextArgument {rest next : Str} {arg : ArgumentRef}
    (h : nextArgument rest = some (arg, next)) : next.length < rest.length := by
  fun_induction nextArgument rest with
  | case1 => cases h
  | case2 rest before afterLt hcut _ ih =>
      have hlen := Str.length_of_cut (List.cons_ne_nil _ []) hcut
      have hnext := ih h
      simp only [List.length_drop] at hnext
      omega
  | case3 => cases h
  | case4 rest before afterLt hcut _ raw content hcut' tag _ ih =>
      exact (ih h).trans ((Str.length_of_cut (List.cons_ne_nil _ []) hcut').trans
        (Str.length_of_cut (List.cons_ne_nil _ []) hcut))
  | case5 rest before afterLt hcut _ raw content hcut' tag _ =>
      obtain ⟨name, -, h⟩ := Option.bind_eq_some_iff.mp h
      obtain ⟨⟨closeStart, closeLen⟩, -, h⟩ := Option.bind_eq_some_iff.mp h
      cases h
      have hlen := (Str.length_of_cut (List.cons_ne_nil _ []) hcut').trans
        (Str.length_of_cut (List.cons_ne_nil _ []) hcut)
      simp only [List.length_drop]
      omega

/-- The arguments that the iterator gives until it ends. -/
def arguments (rest : Str) : List ArgumentRef :=
  match _h : nextArgument rest with
  | none => []
  | some (arg, next) => arg :: arguments next
  termination_by rest.length
  decreasing_by exact length_of_nextArgument _h

def ActionRequestRef.arguments (request : ActionRequestRef) : List ArgumentRef :=
  Upnp.arguments request.argumentsXml

/-! Responses -/

structure ResponseArgumentRef where
  name : Str
  value : Str
  deriving DecidableEq, Repr

def writeEnvelopeStart : Str :=
  "<?xml version=\"1.0\"?>".toList ++
  "<s:Envelope xmlns:s=\"http://schemas.xmlsoap.org/soap/envelope/\" ".toList ++
  "s:encodingStyle=\"http://schemas.xmlsoap.org/soap/encoding/\"><s:Body>".toList

def writeEnvelopeEnd : Str := "</s:Body></s:Envelope>".toList

/-- Writes a SOAP action response envelope. -/
def writeActionResponse (serviceType : ServiceTypeRef) (actionName : Str)
    (arguments : List ResponseArgumentRef) : Str :=
  writeEnvelopeStart ++ "<u:".toList ++ actionName ++ "Response xmlns:u=\"".toList ++
  serviceType.fmt ++ "\">".toList ++
  (arguments.flatMap fun arg => writeTextElement arg.name arg.value) ++
  "</u:".toList ++ actionName ++ "Response>".toList ++ writeEnvelopeEnd

/-- Writes a UPnP SOAP fault. -/
def writeFault (errorCode : UInt32) (errorDescription : Str) : Str :=
  writeEnvelopeStart ++ "<s:Fault>".toList ++
  writeTextElement "faultcode".toList "s:Client".toList ++
  writeTextElement "faultstring".toList "UPnPError".toList ++
  "<detail><UPnPError xmlns=\"urn:schemas-upnp-org:control-1-0\">".toList ++
  "<errorCode>".toList ++ Decimal.numeral errorCode.toNat ++
  "</errorCode><errorDescription>".toList ++ writeEscapedText errorDescription ++
  "</errorDescription></UPnPError></detail></s:Fault>".toList ++ writeEnvelopeEnd

end RustyCastle.Upnp
