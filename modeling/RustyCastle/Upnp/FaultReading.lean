import RustyCastle.Upnp.DeviceReading
import RustyCastle.Upnp.ResponseReading

/-!
The document of a SOAP fault: a UPnP error with its code and its description.
-/

namespace RustyCastle.Upnp
open Foundation Foundation.Xml

def faultAttrs : List (Str × Str) := [("xmlns".toList, "urn:schemas-upnp-org:control-1-0".toList)]

/-- The document of a fault. -/
def faultTree (errorCode : UInt32) (errorDescription : Str) : Node :=
  .element "s:Envelope".toList envelopeAttrs
    [.element "s:Body".toList []
      [.element "s:Fault".toList []
        [textElement "faultcode".toList "s:Client".toList,
          textElement "faultstring".toList "UPnPError".toList,
          .element "detail".toList []
            [.element "UPnPError".toList faultAttrs
              [numberElement "errorCode".toList errorCode,
                textElement "errorDescription".toList errorDescription]]]]]

/-- The text after the declaration. -/
def faultBody (errorCode : UInt32) (errorDescription : Str) : Str :=
  openTag "s:Envelope".toList envelopeAttrs ++ openTag "s:Body".toList [] ++
    openTag "s:Fault".toList [] ++ writeTextElement "faultcode".toList "s:Client".toList ++
    writeTextElement "faultstring".toList "UPnPError".toList ++ openTag "detail".toList [] ++
    openTag "UPnPError".toList faultAttrs ++
    writeDisplayElement "errorCode".toList (Decimal.numeral errorCode.toNat) ++
    writeTextElement "errorDescription".toList errorDescription ++ closeTag "UPnPError".toList ++
    closeTag "detail".toList ++ closeTag "s:Fault".toList ++ closeTag "s:Body".toList ++
    closeTag "s:Envelope".toList

theorem writeFault_eq (errorCode : UInt32) (errorDescription : Str) :
    writeFault errorCode errorDescription =
      "<?xml version=\"1.0\"?>".toList ++ faultBody errorCode errorDescription := by
  have hstart : "<s:Envelope xmlns:s=\"http://schemas.xmlsoap.org/soap/envelope/\" ".toList ++
      "s:encodingStyle=\"http://schemas.xmlsoap.org/soap/encoding/\"><s:Body>".toList =
      openTag "s:Envelope".toList envelopeAttrs ++ openTag "s:Body".toList [] := by
    simp [openTag, writeAttributes, writeAttribute, envelopeAttrs]
  have hfault : "<s:Fault>".toList = openTag "s:Fault".toList [] := by decide
  have hdetail : "<detail><UPnPError xmlns=\"urn:schemas-upnp-org:control-1-0\">".toList =
      openTag "detail".toList [] ++ openTag "UPnPError".toList faultAttrs := by
    simp [openTag, writeAttributes, writeAttribute, faultAttrs]
  have hcode : "<errorCode>".toList = openTag "errorCode".toList [] := by decide
  have hmiddle : "</errorCode><errorDescription>".toList =
      closeTag "errorCode".toList ++ openTag "errorDescription".toList [] := by decide
  have hfinish : "</errorDescription></UPnPError></detail></s:Fault>".toList =
      closeTag "errorDescription".toList ++ (closeTag "UPnPError".toList ++
        (closeTag "detail".toList ++ closeTag "s:Fault".toList)) := by decide
  have hend : "</s:Body></s:Envelope>".toList =
      closeTag "s:Body".toList ++ closeTag "s:Envelope".toList := by decide
  unfold writeFault faultBody writeEnvelopeStart writeEnvelopeEnd
  simp only [writeDisplayElement_eq, writeTextElement_eq "errorDescription".toList, hfault, hdetail,
    hcode, hmiddle, hfinish, hend, List.append_assoc]
  rw [List.append_cancel_left_eq, ← List.append_assoc, hstart, List.append_assoc]

theorem written_fault (errorCode : UInt32) (errorDescription : Str) :
    Written (faultBody errorCode errorDescription) (faultTree errorCode errorDescription).tokens
      [.escaped errorDescription] := by
  have hfixed : ∀ value : Str, (Insert.escaped value).Readable →
      (Insert.escaped value).isPermitted = true →
      ∀ tag : Str, isName tag = true →
        Written (writeTextElement tag value) (textElement tag value).tokens [] := by
    intro value hread hpermitted tag htag
    exact (written_textElement tag htag value).replace (by simpa using hread)
      (by simpa using hpermitted)
  have henvelope := (Written.startTag "s:Envelope".toList envelopeAttrs (by decide) (by decide)
    (by decide) (by decide) (by decide)).append (Written.bareTag "s:Body".toList (by decide))
  have hfault := henvelope.append (Written.bareTag "s:Fault".toList (by decide))
  have hfaultcode := hfault.append
    (hfixed "s:Client".toList (by decide) (by decide) "faultcode".toList (by decide))
  have hfaultstring := hfaultcode.append
    (hfixed "UPnPError".toList (by decide) (by decide) "faultstring".toList (by decide))
  have hdetail := (hfaultstring.append (Written.bareTag "detail".toList (by decide))).append
    (Written.startTag "UPnPError".toList faultAttrs (by decide) (by decide) (by decide) (by decide)
      (by decide))
  have hcode := hdetail.append (written_numberElement "errorCode".toList (by decide) errorCode)
  have hdescription := hcode.append
    (written_textElement "errorDescription".toList (by decide) errorDescription)
  have hinner := ((hdescription.append (Written.endTag "UPnPError".toList (by decide))).append
    (Written.endTag "detail".toList (by decide))).append
    (Written.endTag "s:Fault".toList (by decide))
  refine ((hinner.append (Written.endTag "s:Body".toList (by decide))).append
    (Written.endTag "s:Envelope".toList (by decide))).congr rfl ?_ rfl
  simp only [faultTree, Node.tokens_element, Node.forestTokens_cons, Node.forestTokens_nil,
    List.append_nil, List.append_assoc, List.cons_append, List.nil_append]

theorem document_writeFault (errorCode : UInt32) {errorDescription : Str}
    (hchars : errorDescription.all isChar = true) (hends : '\r' ∉ errorDescription) :
    document (writeFault errorCode errorDescription) =
      some (faultTree errorCode errorDescription) := by
  have hdeclaration : "<?xml version=\"1.0\"?>".toList.all isChar = true := by decide
  have hend : (closeTag "s:Envelope".toList).getLast? = some '>' := by decide
  have hwritten := written_fault errorCode errorDescription
  have htokens := hwritten.read [] []
  rw [List.append_nil, List.append_nil] at htokens
  rw [writeFault_eq]
  refine (document_eq_some (afterDeclaration_append _) ?_ ?_).mpr ⟨?_, htokens.mpr ⟨?_, tokens_nil⟩⟩
  · rw [faultBody]
    rintro _ ⟨⟩
    decide
  · rw [faultBody, List.getLast?_append, hend]
    rintro _ ⟨⟩
    decide
  · rw [← List.all_eq_true, List.all_append, hdeclaration, Bool.true_and, hwritten.permitted,
      List.all_cons, List.all_nil, Bool.and_true]
    exact hchars
  · exact List.forall_mem_singleton.mpr hends

end RustyCastle.Upnp
