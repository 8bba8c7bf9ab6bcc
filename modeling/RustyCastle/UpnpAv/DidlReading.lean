import RustyCastle.UpnpAv.Didl

/-!
When a written DIDL-Lite document is read back as the objects it was written
from. Each element is read back exactly when its own values are, so the document
is, when the values of all its objects are.
-/

namespace RustyCastle.UpnpAv
open Foundation Foundation.Xml RustyCastle.Upnp RustyCastle.Dlna

/-! The writer as written markup -/

theorem writeResource_eq (res : ResourceRef) :
    writeResource res =
      openTag "res".toList res.attrs ++ (writeEscapedText res.url ++ closeTag "res".toList) := by
  have hstart : "<res protocolInfo=\"".toList =
      '<' :: ("res".toList ++ ' ' :: ("protocolInfo".toList ++ ['=', '"'])) := by decide
  have hsize : " size=\"".toList = ' ' :: ("size".toList ++ ['=', '"']) := by decide
  have hduration : " duration=\"".toList = ' ' :: ("duration".toList ++ ['=', '"']) := by decide
  have hclose : "</res>".toList = '<' :: '/' :: ("res".toList ++ ['>']) := by decide
  have hquote : "\"".toList = ['"'] := by decide
  have hgt : ">".toList = ['>'] := by decide
  obtain ⟨url, info, size, duration⟩ := res
  unfold writeResource
  cases size <;> cases duration <;>
    simp only [Str.whenSome_none, Str.whenSome_some, openTag, closeTag, writeAttributes, writeAttribute,
      ResourceRef.attrs, hstart, hsize, hduration, hclose, hquote, hgt, Option.map_none,
      Option.map_some, Option.toList_none, Option.toList_some, List.flatMap_cons,
      List.flatMap_nil, List.append_assoc, List.cons_append, List.nil_append]

theorem writeObject_eq (object : ObjectRef) :
    writeObject object =
      openTag object.tag object.attrs ++
        (openTag "dc:title".toList [] ++
          (writeEscapedText object.title ++ (closeTag "dc:title".toList ++
            (openTag "upnp:class".toList [] ++
              (object.upnpClass.asStr ++ (closeTag "upnp:class".toList ++
                (object.resources.flatMap writeResource ++ closeTag object.tag))))))) := by
  have hid : " id=\"".toList = ' ' :: ("id".toList ++ ['=', '"']) := by decide
  have hparent : "\" parentID=\"".toList = '"' :: ' ' :: ("parentID".toList ++ ['=', '"']) := by
    decide
  have hrestricted : "\" restricted=\"".toList =
      '"' :: ' ' :: ("restricted".toList ++ ['=', '"']) := by decide
  have hcount : " childCount=\"".toList = ' ' :: ("childCount".toList ++ ['=', '"']) := by decide
  have htitle : "<dc:title>".toList = '<' :: ("dc:title".toList ++ ['>']) := by decide
  have hclass : "</dc:title><upnp:class>".toList =
      '<' :: '/' :: ("dc:title".toList ++ '>' :: '<' :: ("upnp:class".toList ++ ['>'])) := by decide
  have hclose : "</upnp:class>".toList = '<' :: '/' :: ("upnp:class".toList ++ ['>']) := by decide
  have hlt : "<".toList = ['<'] := by decide
  have hend : "</".toList = ['<', '/'] := by decide
  have hquote : "\"".toList = ['"'] := by decide
  have hgt : ">".toList = ['>'] := by decide
  obtain ⟨id, parentId, restricted, title, upnpClass, childCount, resources⟩ := object
  unfold writeObject
  cases childCount <;>
    simp only [Str.whenSome_none, Str.whenSome_some, openTag, closeTag,
      writeAttributes, writeAttribute, ObjectRef.attrs, hid, hparent, hrestricted, hcount, htitle,
      hclass, hclose, hlt, hend, hquote, hgt, Option.map_none, Option.map_some,
      Option.toList_none, Option.toList_some, List.flatMap_cons, List.flatMap_nil,
      List.append_assoc, List.cons_append, List.nil_append]

theorem writeDidl_eq (objects : List ObjectRef) :
    writeDidl objects =
      openTag "DIDL-Lite".toList didlAttrs ++
        (objects.flatMap writeObject ++ closeTag "DIDL-Lite".toList) := by
  have hstart : "<DIDL-Lite xmlns=\"urn:schemas-upnp-org:metadata-1-0/DIDL-Lite/\" ".toList ++
      ("xmlns:dc=\"http://purl.org/dc/elements/1.1/\" ".toList ++
        "xmlns:upnp=\"urn:schemas-upnp-org:metadata-1-0/upnp/\">".toList) =
      openTag "DIDL-Lite".toList didlAttrs := by
    simp [openTag, writeAttributes, writeAttribute, didlAttrs]
  have hend : "</DIDL-Lite>".toList = closeTag "DIDL-Lite".toList := by decide
  unfold writeDidl
  rw [← hstart, ← hend]
  simp only [List.append_assoc]

/-! Reading the markup -/

theorem quotable_fmt {value : ProtocolInfoRef} :
    Quotable value.fmt ↔
      Quotable value.protocol ∧ Quotable value.network ∧ Quotable value.contentFormat := by
  have hcolon : Quotable [':'] := by decide
  have hinfo : Quotable (writeAdditionalInfo value) :=
    quotable_of_subset (writeAdditionalInfo_subset value) (by decide)
  unfold ProtocolInfoRef.fmt
  simp only [quotable_append, hcolon, hinfo, and_true, and_assoc]

theorem quotable_resourceAttrs {res : ResourceRef} :
    (∀ a ∈ res.attrs, Quotable a.2) ↔
      Quotable res.protocolInfo.fmt ∧ ∀ duration ∈ res.duration, Quotable duration := by
  obtain ⟨url, info, size, duration⟩ := res
  cases size <;> cases duration <;> simp [ResourceRef.attrs, quotable_numeral]

theorem isName_resourceAttrs (res : ResourceRef) : ∀ a ∈ res.attrs, isName a.1 = true := by
  have hnames : isName "protocolInfo".toList = true ∧ isName "size".toList = true ∧
      isName "duration".toList = true := by decide
  obtain ⟨url, info, size, duration⟩ := res
  cases size <;> cases duration <;>
    simp only [ResourceRef.attrs, Option.map_none, Option.map_some, Option.toList_none,
      Option.toList_some, List.nil_append, List.cons_append, List.forall_mem_cons, hnames,
      List.not_mem_nil, false_implies, implies_true, and_self]

theorem nodup_resourceAttrs (res : ResourceRef) : (res.attrs.map Prod.fst).Nodup := by
  have hall : ["protocolInfo".toList, "size".toList, "duration".toList].Nodup := by decide
  refine hall.sublist ?_
  obtain ⟨url, info, size, duration⟩ := res
  cases size <;> cases duration <;> simp [ResourceRef.attrs]

theorem tokens_resource {res : ResourceRef} {rest : Str} {us : List Token} :
    tokens (writeResource res ++ rest) = some (res.node.tokens ++ us) ↔
      res.Readable ∧ tokens rest = some us := by
  have hname : isName "res".toList = true := by decide
  have htree : res.node.tokens ++ us =
      .start "res".toList res.attrs :: (textTokens res.url ++ .finish "res".toList :: us) := by
    simp [ResourceRef.node]
  rw [htree, writeResource_eq, List.append_assoc, List.append_assoc,
    tokens_escapedElement hname (isName_resourceAttrs res) (nodup_resourceAttrs res),
    quotable_resourceAttrs, quotable_fmt]
  constructor
  · rintro ⟨⟨⟨hprotocol, hnetwork, hformat⟩, hduration⟩, hurl, hrest⟩
    exact ⟨⟨hurl, hprotocol, hnetwork, hformat, hduration⟩, hrest⟩
  · rintro ⟨⟨hurl, hprotocol, hnetwork, hformat, hduration⟩, hrest⟩
    exact ⟨⟨⟨hprotocol, hnetwork, hformat⟩, hduration⟩, hurl, hrest⟩

theorem quotable_objectAttrs {object : ObjectRef} :
    (∀ a ∈ object.attrs, Quotable a.2) ↔ Quotable object.id ∧ Quotable object.parentId := by
  have hflag : Quotable (if object.restricted then "1".toList else "0".toList) := by
    split <;> decide
  unfold ObjectRef.attrs
  cases object.childCount <;>
    simp only [Option.map_none, Option.map_some, Option.toList_none, Option.toList_some,
      List.forall_mem_cons, List.not_mem_nil, false_implies, implies_true, hflag,
      quotable_numeral, and_true]

theorem isName_objectAttrs (object : ObjectRef) : ∀ a ∈ object.attrs, isName a.1 = true := by
  have hnames : isName "id".toList = true ∧ isName "parentID".toList = true ∧
      isName "restricted".toList = true ∧ isName "childCount".toList = true := by decide
  unfold ObjectRef.attrs
  cases object.childCount <;>
    simp only [Option.map_none, Option.map_some, Option.toList_none, Option.toList_some,
      List.forall_mem_cons, hnames, List.not_mem_nil, false_implies, implies_true, and_self]

theorem nodup_objectAttrs (object : ObjectRef) : (object.attrs.map Prod.fst).Nodup := by
  have hall : ["id".toList, "parentID".toList, "restricted".toList, "childCount".toList].Nodup := by
    decide
  refine hall.sublist ?_
  unfold ObjectRef.attrs
  cases object.childCount <;> simp

theorem isName_tag (object : ObjectRef) : isName object.tag = true := by
  unfold ObjectRef.tag
  split <;> decide

theorem tokens_object {object : ObjectRef} {rest : Str} {us : List Token} :
    tokens (writeObject object ++ rest) = some (object.node.tokens ++ us) ↔
      object.Readable ∧ tokens rest = some us := by
  have htree : object.node.tokens ++ us =
      .start object.tag object.attrs :: (.start "dc:title".toList [] ::
        (textTokens object.title ++ .finish "dc:title".toList ::
          (.start "upnp:class".toList [] :: (textTokens object.upnpClass.asStr ++
            .finish "upnp:class".toList ::
              (Node.forestTokens (object.resources.map ResourceRef.node) ++
                .finish object.tag :: us))))) := by
    simp only [ObjectRef.node, Node.tokens_element, Node.forestTokens_cons,
      Node.forestTokens_textNodes, List.cons_append, List.append_assoc, List.nil_append]
  have hclass : ∀ rest, closeTag "upnp:class".toList ++ rest =
      '<' :: ('/' :: ("upnp:class".toList ++ ['>']) ++ rest) := fun _ => rfl
  rw [htree, writeObject_eq]
  simp only [List.append_assoc]
  rw [tokens_openTag (isName_tag object) (isName_objectAttrs object) (nodup_objectAttrs object),
    tokens_escapedElement (by decide) (by simp) (by simp), tokens_bareTag (by decide), hclass,
    tokens_plainText, ← hclass, tokens_closeTag_eq_some (by decide),
    Node.tokens_flatMap (fun _ _ _ => tokens_resource), tokens_closeTag_eq_some (isName_tag object),
    quotable_objectAttrs]
  constructor
  · rintro ⟨⟨hid, hparent⟩, -, htitle, hclass, hresources, hrest⟩
    exact ⟨⟨hid, hparent, htitle, hclass, hresources⟩, hrest⟩
  · rintro ⟨⟨hid, hparent, htitle, hclass, hresources⟩, hrest⟩
    exact ⟨⟨hid, hparent⟩, by simp, htitle, hclass, hresources, hrest⟩

theorem tokens_didl {objects : List ObjectRef} :
    tokens (writeDidl objects) = some (didlTree objects).tokens ↔
      ∀ object ∈ objects, object.Readable := by
  have htree : (didlTree objects).tokens = .start "DIDL-Lite".toList didlAttrs ::
      (Node.forestTokens (objects.map ObjectRef.node) ++ .finish "DIDL-Lite".toList :: []) := by
    simp only [didlTree, Node.tokens_element]
  have hclose : closeTag "DIDL-Lite".toList = closeTag "DIDL-Lite".toList ++ [] := by simp
  have hquotable : ∀ a ∈ didlAttrs, Quotable a.2 := by decide
  rw [htree, writeDidl_eq, tokens_openTag (by decide) (by decide) (by decide), hclose,
    Node.tokens_flatMap (fun _ _ _ => tokens_object), tokens_closeTag_eq_some (by decide)]
  exact ⟨fun h => h.2.1, fun h => ⟨hquotable, h, tokens_nil⟩⟩

/-! Permitted characters -/

theorem all_isChar_fmt (value : ProtocolInfoRef) :
    value.fmt.all isChar =
      (value.protocol.all isChar && (value.network.all isChar && value.contentFormat.all isChar)) := by
  have hcolon : isChar ':' = true := by decide
  have hinfo : (writeAdditionalInfo value).all isChar = true := by
    have halphabet : additionalAlphabet.all isChar = true := by decide
    rw [List.all_eq_true] at halphabet ⊢
    exact fun c hc => halphabet c (writeAdditionalInfo_subset value hc)
  unfold ProtocolInfoRef.fmt
  simp only [List.all_append, List.all_cons, List.all_nil, hcolon, hinfo, Bool.and_true,
    Bool.and_assoc]

theorem all_isChar_resource (res : ResourceRef) :
    (writeResource res).all isChar = true ↔ ∀ s ∈ res.texts, s.all isChar = true := by
  have hclose : (closeTag "res".toList).all isChar = true := all_isChar_closeTag (by decide)
  rw [writeResource_eq, List.all_append, List.all_append, hclose,
    all_isChar_openTag (by decide) (isName_resourceAttrs res), all_isChar_writeEscapedText]
  obtain ⟨url, info, size, duration⟩ := res
  cases size <;> cases duration <;>
    simp only [ResourceRef.attrs, ResourceRef.texts, Option.map_none, Option.map_some,
      Option.toList_none, Option.toList_some, List.nil_append, List.cons_append, List.all_cons,
      List.all_nil, all_isChar_fmt, all_isChar_numeral, Bool.and_true, Bool.true_and,
      Bool.and_eq_true, List.forall_mem_cons, List.not_mem_nil, false_implies, implies_true,
      and_true] <;>
    tauto

theorem all_isChar_object (object : ObjectRef) :
    (writeObject object).all isChar = true ↔ ∀ s ∈ object.texts, s.all isChar = true := by
  have hopen : ∀ name, isName name = true → (openTag name []).all isChar = true :=
    fun _ h => all_isChar_openTag h nofun
  have hclose : ∀ name, isName name = true → (closeTag name).all isChar = true :=
    fun _ => all_isChar_closeTag
  have hflag : (if object.restricted then "1".toList else "0".toList).all isChar = true := by
    split <;> decide
  have hattrs : (object.attrs.all fun a => a.2.all isChar) =
      (object.id.all isChar && object.parentId.all isChar) := by
    unfold ObjectRef.attrs
    cases object.childCount <;>
      simp only [Option.map_none, Option.map_some, Option.toList_none, Option.toList_some,
        List.all_cons, List.all_nil, all_isChar_numeral, hflag, Bool.and_true]
  have hresources : (object.resources.flatMap writeResource).all isChar = true ↔
      ∀ s ∈ object.resources.flatMap ResourceRef.texts, s.all isChar = true := by
    simp only [List.all_flatMap, List.all_eq_true (p := fun res => (writeResource res).all isChar),
      all_isChar_resource, List.mem_flatMap]
    exact ⟨fun h s ⟨res, hres, hs⟩ => h res hres s hs, fun h res hres s hs => h s ⟨res, hres, hs⟩⟩
  rw [writeObject_eq]
  simp only [List.all_append, all_isChar_openTag (isName_tag object) (isName_objectAttrs object),
    hopen "dc:title".toList (by decide), hopen "upnp:class".toList (by decide),
    hclose "dc:title".toList (by decide), hclose "upnp:class".toList (by decide),
    hclose _ (isName_tag object), hattrs, all_isChar_writeEscapedText, Bool.and_true, Bool.true_and,
    Bool.and_eq_true, hresources, ObjectRef.texts, List.cons_append, List.nil_append,
    List.forall_mem_cons, and_assoc]

theorem all_isChar_didl (objects : List ObjectRef) :
    (writeDidl objects).all isChar = true ↔
      ∀ object ∈ objects, ∀ s ∈ object.texts, s.all isChar = true := by
  have hopen : (openTag "DIDL-Lite".toList didlAttrs).all isChar = true := by
    rw [all_isChar_openTag (by decide) (by decide)]
    decide
  have hclose : (closeTag "DIDL-Lite".toList).all isChar = true := all_isChar_closeTag (by decide)
  rw [writeDidl_eq, List.all_append, List.all_append, hopen, hclose, Bool.true_and, Bool.and_true,
    List.all_flatMap, List.all_eq_true]
  simp only [all_isChar_object]

/-! Reading the document -/

theorem afterDeclaration_didl (objects : List ObjectRef) :
    afterDeclaration (writeDidl objects) = some (writeDidl objects) := by
  have hstrip : Str.stripPrefix "<?xml".toList (writeDidl objects) = none := by
    rw [writeDidl_eq]
    rfl
  rw [afterDeclaration, hstrip]

theorem readsBack_iff {objects : List ObjectRef} :
    ReadsBack objects ↔
      (∀ object ∈ objects, ∀ s ∈ object.texts, s.all isChar = true) ∧
        ∀ object ∈ objects, object.Readable := by
  have hhead : ∀ c ∈ (writeDidl objects).head?, isSpace c = false := by
    rw [writeDidl_eq]
    rintro _ ⟨⟩
    decide
  have hlast : ∀ c ∈ (writeDidl objects).getLast?, isSpace c = false := by
    have hend : (closeTag "DIDL-Lite".toList).getLast? = some '>' := by decide
    rw [writeDidl_eq, List.getLast?_append, List.getLast?_append, hend]
    rintro _ ⟨⟩
    decide
  rw [← all_isChar_didl, ← tokens_didl, List.all_eq_true]
  exact document_eq_some (afterDeclaration_didl objects) hhead hlast

/-- Objects of permitted characters are read back as they are exactly when the
values that are not escaped need no escape and the escaped ones have no
carriage return. -/
theorem didl_readsBack_iff_readable {objects : List ObjectRef}
    (hchars : ∀ object ∈ objects, ∀ s ∈ object.texts, s.all isChar = true) :
    ReadsBack objects ↔ ∀ object ∈ objects, object.Readable := by
  rw [readsBack_iff, and_iff_right hchars]

def clip : ObjectRef where
  id := "1".toList
  parentId := "0".toList
  restricted := true
  title := "Clip & Trailer".toList
  upnpClass := .videoItem
  childCount := none
  resources :=
    [{ url := "http://192.168.1.10:49152/media/1.mp4".toList
       protocolInfo := .sonyMp4
       size := some 1234
       duration := some "0:01:02".toList }]

theorem didl_readsBack_clip : ReadsBack [clip] ↔ ∀ object ∈ [clip], object.Readable :=
  didl_readsBack_iff_readable (by decide)

/-- An identifier with an ampersand is not read back. -/
theorem not_readsBack_ampersand :
    (∀ s ∈ { clip with id := "a&b".toList }.texts, s.all isChar = true) ∧
      ¬ ReadsBack [{ clip with id := "a&b".toList }] := by
  refine ⟨by decide, fun h => ?_⟩
  have hread := (readsBack_iff.mp h).2 _ (List.mem_singleton_self _)
  exact absurd hread.id (by decide)

end RustyCastle.UpnpAv
