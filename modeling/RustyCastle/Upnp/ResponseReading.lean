import RustyCastle.Upnp.Soap

/-!
The document of an action response. The values are escaped, so the response is a
document exactly when they have permitted characters only, and a value is read
with its line ends.
-/

namespace RustyCastle.Upnp
open Foundation Foundation.Xml

def envelopeAttrs : List (Str × Str) :=
  [("xmlns:s".toList, "http://schemas.xmlsoap.org/soap/envelope/".toList),
    ("s:encodingStyle".toList, "http://schemas.xmlsoap.org/soap/encoding/".toList)]

def responseName (actionName : Str) : Str := "u:".toList ++ actionName ++ "Response".toList

def responseAttrs (serviceType : ServiceTypeRef) : List (Str × Str) :=
  [("xmlns:u".toList, serviceType.fmt)]

def ResponseArgumentRef.node (arg : ResponseArgumentRef) : Node :=
  .element arg.name [] (textNodes (lineEnds arg.value))

/-- The document of an action response. -/
def responseTree (serviceType : ServiceTypeRef) (actionName : Str)
    (arguments : List ResponseArgumentRef) : Node :=
  .element "s:Envelope".toList envelopeAttrs
    [.element "s:Body".toList []
      [.element (responseName actionName) (responseAttrs serviceType)
        (arguments.map ResponseArgumentRef.node)]]

/-- The text after the declaration. -/
def responseBody (serviceType : ServiceTypeRef) (actionName : Str)
    (arguments : List ResponseArgumentRef) : Str :=
  openTag "s:Envelope".toList envelopeAttrs ++ (openTag "s:Body".toList [] ++
    (openTag (responseName actionName) (responseAttrs serviceType) ++
      ((arguments.flatMap fun arg => writeTextElement arg.name arg.value) ++
        (closeTag (responseName actionName) ++
          (closeTag "s:Body".toList ++ closeTag "s:Envelope".toList)))))

theorem writeActionResponse_eq (serviceType : ServiceTypeRef) (actionName : Str)
    (arguments : List ResponseArgumentRef) :
    writeActionResponse serviceType actionName arguments =
      "<?xml version=\"1.0\"?>".toList ++ responseBody serviceType actionName arguments := by
  have hstart : "<s:Envelope xmlns:s=\"http://schemas.xmlsoap.org/soap/envelope/\" ".toList ++
      "s:encodingStyle=\"http://schemas.xmlsoap.org/soap/encoding/\"><s:Body>".toList =
      openTag "s:Envelope".toList envelopeAttrs ++ openTag "s:Body".toList [] := by
    simp [openTag, writeAttributes, writeAttribute, envelopeAttrs]
  have hopen : "<u:".toList = '<' :: "u:".toList := by decide
  have hattr : "Response xmlns:u=\"".toList =
      "Response".toList ++ (' ' :: ("xmlns:u".toList ++ ['=', '"'])) := by decide
  have hquote : "\">".toList = ['"', '>'] := by decide
  have hclose : "</u:".toList = '<' :: '/' :: "u:".toList := by decide
  have hresponse : "Response>".toList = "Response".toList ++ ['>'] := by decide
  have hend : "</s:Body></s:Envelope>".toList =
      closeTag "s:Body".toList ++ closeTag "s:Envelope".toList := by decide
  have hopenTag : openTag (responseName actionName) (responseAttrs serviceType) =
      "<u:".toList ++ (actionName ++ ("Response xmlns:u=\"".toList ++
        (serviceType.fmt ++ "\">".toList))) := by
    simp only [openTag, responseName, responseAttrs, writeAttributes, writeAttribute, List.flatMap_cons,
      List.flatMap_nil, hopen, hattr, hquote, List.append_assoc, List.cons_append, List.nil_append]
  have hcloseTag : closeTag (responseName actionName) =
      "</u:".toList ++ (actionName ++ "Response>".toList) := by
    simp only [closeTag, responseName, hclose, hresponse, List.append_assoc, List.cons_append]
  unfold writeActionResponse responseBody writeEnvelopeStart writeEnvelopeEnd
  rw [hopenTag, hcloseTag, hend]
  simp only [List.append_assoc]
  rw [List.append_cancel_left_eq, ← List.append_assoc, hstart, List.append_assoc]

/-! Reading the markup -/

/-- A text element is read with the line ends of its value. -/
theorem tokens_writeTextElement {name value rest : Str} {us : List Token}
    (hname : isName name = true) :
    tokens (writeTextElement name value ++ rest) =
        some ((Node.element name [] (textNodes (lineEnds value))).tokens ++ us) ↔
      tokens rest = some us := by
  have htree : (Node.element name [] (textNodes (lineEnds value))).tokens ++ us =
      .start name [] :: (textTokens (lineEnds value) ++ .finish name :: us) := by simp
  have hclose : closeTag name ++ rest = '<' :: ('/' :: (name ++ ['>']) ++ rest) := rfl
  rw [htree, writeTextElement_eq, List.append_assoc, List.append_assoc, tokens_bareTag hname, hclose,
    tokens_writeEscapedText, ← hclose, Option.map_eq_some_iff]
  constructor
  · rintro ⟨vs, hvs, he⟩
    rw [List.append_cancel_left_eq] at he
    rw [he] at hvs
    exact (tokens_closeTag_eq_some hname).mp hvs
  · intro h
    exact ⟨_, (tokens_closeTag_eq_some hname).mpr h, rfl⟩

/-- The names and the service type of a response can be written as they are. -/
structure Writable (serviceType : ServiceTypeRef) (actionName : Str)
    (arguments : List ResponseArgumentRef) : Prop where
  action : isName (responseName actionName) = true
  service : Quotable serviceType.fmt
  serviceChars : serviceType.fmt.all isChar = true
  names : ∀ arg ∈ arguments, isName arg.name = true

variable {serviceType : ServiceTypeRef} {actionName : Str} {arguments : List ResponseArgumentRef}

theorem isName_responseAttrs (serviceType : ServiceTypeRef) :
    ∀ a ∈ responseAttrs serviceType, isName a.1 = true := by
  have hname : isName "xmlns:u".toList = true := by decide
  intro a ha
  rwa [List.mem_singleton.mp ha]

theorem tokens_responseBody (h : Writable serviceType actionName arguments) :
    tokens (responseBody serviceType actionName arguments) =
      some (responseTree serviceType actionName arguments).tokens := by
  have hquotable : ∀ a ∈ responseAttrs serviceType, Quotable a.2 := by
    intro a ha
    rw [List.mem_singleton.mp ha]
    exact h.service
  have hargs : ∀ (rest : Str) (us : List Token), tokens rest = some us →
      tokens ((arguments.flatMap fun arg => writeTextElement arg.name arg.value) ++ rest) =
        some (Node.forestTokens (arguments.map ResponseArgumentRef.node) ++ us) := by
    intro rest us hrest
    have hnames := h.names
    clear h
    induction arguments with
    | nil => exact hrest
    | cons arg args ih =>
        obtain ⟨hname, hnames⟩ := List.forall_mem_cons.mp hnames
        rw [List.flatMap_cons, List.map_cons, Node.forestTokens_cons, List.append_assoc,
          List.append_assoc]
        exact (tokens_writeTextElement hname).mpr (ih hnames)
  have htree : (responseTree serviceType actionName arguments).tokens =
      .start "s:Envelope".toList envelopeAttrs :: (.start "s:Body".toList [] ::
        (.start (responseName actionName) (responseAttrs serviceType) ::
          (Node.forestTokens (arguments.map ResponseArgumentRef.node) ++
            .finish (responseName actionName) :: .finish "s:Body".toList ::
              [.finish "s:Envelope".toList]))) := by
    simp [responseTree]
  have hlast : closeTag "s:Envelope".toList = closeTag "s:Envelope".toList ++ [] := by simp
  rw [htree, responseBody, tokens_openTag (by decide) (by decide) (by decide),
    tokens_bareTag (by decide), tokens_openTag h.action (isName_responseAttrs serviceType) (by simp [responseAttrs])]
  refine ⟨by decide, hquotable, hargs _ _ ?_⟩
  rw [tokens_closeTag_eq_some h.action, tokens_closeTag_eq_some (by decide), hlast,
    tokens_closeTag_eq_some (by decide), tokens_nil]

theorem all_isChar_writeTextElement {name : Str} (value : Str) (hname : isName name = true) :
    (writeTextElement name value).all isChar = value.all isChar := by
  rw [writeTextElement_eq, List.all_append, List.all_append, all_isChar_openTag hname (by simp),
    all_isChar_writeEscapedText, all_isChar_closeTag hname, List.all_nil, Bool.true_and,
    Bool.and_true]

theorem all_isChar_response (h : Writable serviceType actionName arguments) :
    (writeActionResponse serviceType actionName arguments).all isChar = true ↔
      ∀ arg ∈ arguments, arg.value.all isChar = true := by
  have hdeclaration : "<?xml version=\"1.0\"?>".toList.all isChar = true := by decide
  have henvelope : (openTag "s:Envelope".toList envelopeAttrs).all isChar = true := by
    rw [all_isChar_openTag (by decide) (by decide)]
    decide
  have hbody : (openTag "s:Body".toList []).all isChar = true := by decide
  have hends : (closeTag "s:Body".toList).all isChar = true ∧
      (closeTag "s:Envelope".toList).all isChar = true := by decide
  have hopen : (openTag (responseName actionName) (responseAttrs serviceType)).all isChar = true := by
    rw [all_isChar_openTag h.action (isName_responseAttrs serviceType), responseAttrs, List.all_cons,
      List.all_nil, h.serviceChars, Bool.and_true]
  rw [writeActionResponse_eq, responseBody]
  simp only [List.all_append, hdeclaration, henvelope, hbody, hends, hopen, Bool.true_and,
    Bool.and_true, all_isChar_closeTag h.action, List.all_flatMap]
  rw [List.all_eq_true]
  exact forall₂_congr fun arg harg => by rw [all_isChar_writeTextElement _ (h.names arg harg)]

/-! Reading the document -/

/-- A response whose values have permitted characters only is read as its document. -/
theorem document_writeActionResponse (h : Writable serviceType actionName arguments)
    (hchars : ∀ arg ∈ arguments, arg.value.all isChar = true) :
    document (writeActionResponse serviceType actionName arguments) =
      some (responseTree serviceType actionName arguments) := by
  have hall := List.all_eq_true.mp ((all_isChar_response h).mpr hchars)
  rw [writeActionResponse_eq] at hall ⊢
  refine (document_eq_some (afterDeclaration_append _) ?_ ?_).mpr ⟨hall, tokens_responseBody h⟩
  · rintro _ ⟨⟩
    decide
  · have hend : (closeTag "s:Envelope".toList).getLast? = some '>' := by decide
    rw [responseBody]
    simp only [List.getLast?_append, hend]
    rintro _ ⟨⟩
    decide

theorem all_isChar_of_document {s : Str} {n : Node} (h : document s = some n) :
    s.all isChar = true := by
  obtain ⟨body, -, h⟩ := Option.bind_eq_some_iff.mp h
  obtain ⟨ts, -, h⟩ := Option.bind_eq_some_iff.mp h
  split at h
  · split at h
    · assumption
    · cases h
  · cases h

end RustyCastle.Upnp
