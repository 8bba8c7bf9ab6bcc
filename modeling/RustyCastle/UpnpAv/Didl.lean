import RustyCastle.Dlna.ProtocolInfo
import RustyCastle.Upnp.Xml

/-!
The DIDL-Lite writer and the document it is meant to write. The title and the
resource URL are escaped. The identifiers, the class, the duration and the
protocolInfo go into the text as they are.
-/

namespace RustyCastle.UpnpAv
open Foundation Foundation.Xml RustyCastle.Upnp RustyCastle.Dlna

inductive UpnpClass where
  | container
  | videoItem
  | custom (value : Str)
  deriving DecidableEq, Repr

def UpnpClass.asStr : UpnpClass → Str
  | .container => "object.container".toList
  | .videoItem => "object.item.videoItem".toList
  | .custom value => value

structure ResourceRef where
  url : Str
  protocolInfo : ProtocolInfoRef
  size : Option UInt64
  duration : Option Str
  deriving DecidableEq, Repr

structure ObjectRef where
  id : Str
  parentId : Str
  restricted : Bool
  title : Str
  upnpClass : UpnpClass
  childCount : Option UInt32
  resources : List ResourceRef
  deriving DecidableEq, Repr

/-! The writer -/

def writeResource (res : ResourceRef) : Str :=
  "<res protocolInfo=\"".toList ++ res.protocolInfo.fmt ++ "\"".toList ++
  (Str.whenSome res.size fun size =>
    " size=\"".toList ++ Decimal.numeral size.toNat ++ "\"".toList) ++
  (Str.whenSome res.duration fun duration =>
    " duration=\"".toList ++ duration ++ "\"".toList) ++
  ">".toList ++ writeEscapedText res.url ++ "</res>".toList

def ObjectRef.tag (object : ObjectRef) : Str :=
  match object.upnpClass with
  | .container => "container".toList
  | _ => "item".toList

def writeObject (object : ObjectRef) : Str :=
  "<".toList ++ object.tag ++ " id=\"".toList ++ object.id ++ "\" parentID=\"".toList ++
  object.parentId ++ "\" restricted=\"".toList ++
  (if object.restricted then "1".toList else "0".toList) ++ "\"".toList ++
  (Str.whenSome object.childCount fun childCount =>
    " childCount=\"".toList ++ Decimal.numeral childCount.toNat ++ "\"".toList) ++
  ">".toList ++ "<dc:title>".toList ++ writeEscapedText object.title ++
  "</dc:title><upnp:class>".toList ++ object.upnpClass.asStr ++ "</upnp:class>".toList ++
  object.resources.flatMap writeResource ++ "</".toList ++ object.tag ++ ">".toList

/-- Writes a complete DIDL-Lite document. -/
def writeDidl (objects : List ObjectRef) : Str :=
  "<DIDL-Lite xmlns=\"urn:schemas-upnp-org:metadata-1-0/DIDL-Lite/\" ".toList ++
  "xmlns:dc=\"http://purl.org/dc/elements/1.1/\" ".toList ++
  "xmlns:upnp=\"urn:schemas-upnp-org:metadata-1-0/upnp/\">".toList ++
  objects.flatMap writeObject ++ "</DIDL-Lite>".toList

def didlToString (objects : List ObjectRef) : Str := writeDidl objects

/-! The document meant -/

def ResourceRef.attrs (res : ResourceRef) : List (Str × Str) :=
  ("protocolInfo".toList, res.protocolInfo.fmt) ::
    ((res.size.map fun size => ("size".toList, Decimal.numeral size.toNat)).toList ++
      (res.duration.map fun duration => ("duration".toList, duration)).toList)

def ResourceRef.node (res : ResourceRef) : Node :=
  .element "res".toList res.attrs (textNodes res.url)

def ObjectRef.attrs (object : ObjectRef) : List (Str × Str) :=
  ("id".toList, object.id) :: ("parentID".toList, object.parentId) ::
    ("restricted".toList, if object.restricted then "1".toList else "0".toList) ::
    (object.childCount.map fun n => ("childCount".toList, Decimal.numeral n.toNat)).toList

def ObjectRef.node (object : ObjectRef) : Node :=
  .element object.tag object.attrs
    (.element "dc:title".toList [] (textNodes object.title) ::
      .element "upnp:class".toList [] (textNodes object.upnpClass.asStr) ::
      object.resources.map ResourceRef.node)

def didlAttrs : List (Str × Str) :=
  [("xmlns".toList, "urn:schemas-upnp-org:metadata-1-0/DIDL-Lite/".toList),
    ("xmlns:dc".toList, "http://purl.org/dc/elements/1.1/".toList),
    ("xmlns:upnp".toList, "urn:schemas-upnp-org:metadata-1-0/upnp/".toList)]

/-- The document whose elements are the given objects in order. -/
def didlTree (objects : List ObjectRef) : Node :=
  .element "DIDL-Lite".toList didlAttrs (objects.map ObjectRef.node)

/-- What is written is a document, and its elements are the given objects. -/
def ReadsBack (objects : List ObjectRef) : Prop :=
  document (writeDidl objects) = some (didlTree objects)

/-! What a client reads from the elements -/

structure ReadResource where
  url : Str
  protocolInfo : Option Str
  size : Option Nat
  duration : Option Str
  deriving DecidableEq, Repr

structure ReadObject where
  tag : Str
  id : Option Str
  parentId : Option Str
  restricted : Option Str
  childCount : Option Nat
  title : Option Str
  upnpClass : Option Str
  resources : List ReadResource
  deriving DecidableEq, Repr

/-- The text in a list of nodes. -/
def content (nodes : List Node) : Str :=
  nodes.flatMap fun
    | .text value => value
    | .cdata value => value
    | _ => []

/-- The text of the first child element of a name. -/
def childText (name : Str) : List Node → Option Str
  | [] => none
  | .element tag _ children :: ns => if tag = name then some (content children) else childText name ns
  | _ :: ns => childText name ns

def readResource : Node → Option ReadResource
  | .element tag attrs children =>
      if tag = "res".toList then
        some
          { url := content children
            protocolInfo := attrs.lookup "protocolInfo".toList
            size := (attrs.lookup "size".toList).bind (Decimal.parseUnsigned 64)
            duration := attrs.lookup "duration".toList }
      else none
  | _ => none

def readObject : Node → Option ReadObject
  | .element tag attrs children =>
      some
        { tag := tag
          id := attrs.lookup "id".toList
          parentId := attrs.lookup "parentID".toList
          restricted := attrs.lookup "restricted".toList
          childCount := (attrs.lookup "childCount".toList).bind (Decimal.parseUnsigned 32)
          title := childText "dc:title".toList children
          upnpClass := childText "upnp:class".toList children
          resources := children.filterMap readResource }
  | _ => none

def readDidl : Node → List ReadObject
  | .element _ _ children => children.filterMap readObject
  | _ => []

def ResourceRef.read (res : ResourceRef) : ReadResource where
  url := res.url
  protocolInfo := some res.protocolInfo.fmt
  size := res.size.map UInt64.toNat
  duration := res.duration

def ObjectRef.read (object : ObjectRef) : ReadObject where
  tag := object.tag
  id := some object.id
  parentId := some object.parentId
  restricted := some (if object.restricted then "1".toList else "0".toList)
  childCount := object.childCount.map UInt32.toNat
  title := some object.title
  upnpClass := some object.upnpClass.asStr
  resources := object.resources.map ResourceRef.read

theorem content_textNodes (value : Str) : content (textNodes value) = value := by
  unfold textNodes
  split
  · rename_i h
    rw [h]
    rfl
  · simp [content]

theorem readResource_node (res : ResourceRef) : readResource res.node = some res.read := by
  have hsize : ∀ n : UInt64, Decimal.parseUnsigned 64 (Decimal.numeral n.toNat) = some n.toNat :=
    fun n => Decimal.parseUnsigned_numeral n.toNat_lt
  obtain ⟨url, info, size, duration⟩ := res
  cases size <;> cases duration <;>
    simp [readResource, ResourceRef.node, ResourceRef.attrs, ResourceRef.read, content_textNodes,
      List.lookup_cons, List.lookup_nil, hsize]

theorem lookup_objectAttrs (object : ObjectRef) :
    object.attrs.lookup "id".toList = some object.id ∧
      object.attrs.lookup "parentID".toList = some object.parentId ∧
      object.attrs.lookup "restricted".toList =
        some (if object.restricted then "1".toList else "0".toList) ∧
      object.attrs.lookup "childCount".toList =
        object.childCount.map fun n => Decimal.numeral n.toNat := by
  unfold ObjectRef.attrs
  cases object.childCount <;> exact ⟨rfl, rfl, rfl, rfl⟩

theorem readObject_node (object : ObjectRef) : readObject object.node = some object.read := by
  have hcount : (object.childCount.map fun n => Decimal.numeral n.toNat).bind
      (Decimal.parseUnsigned 32) = object.childCount.map UInt32.toNat := by
    cases object.childCount with
    | none => rfl
    | some n => exact Decimal.parseUnsigned_numeral n.toNat_lt
  have hresources : (object.resources.map ResourceRef.node).filterMap readResource =
      object.resources.map ResourceRef.read := by
    induction object.resources with
    | nil => rfl
    | cons res rs ih =>
        rw [List.map_cons, List.filterMap_cons, readResource_node, ih, List.map_cons]
  have htitle : ∀ title upnpClass ns,
      childText "dc:title".toList (.element "dc:title".toList [] (textNodes title) ::
        .element "upnp:class".toList [] (textNodes upnpClass) :: ns) = some title := by
    intro title upnpClass ns
    rw [childText, if_pos rfl, content_textNodes]
  have hclass : ∀ title upnpClass ns,
      childText "upnp:class".toList (.element "dc:title".toList [] (textNodes title) ::
        .element "upnp:class".toList [] (textNodes upnpClass) :: ns) = some upnpClass := by
    intro title upnpClass ns
    rw [childText, if_neg (by decide), childText, if_pos rfl, content_textNodes]
  obtain ⟨hid, hparent, hflag, hchild⟩ := lookup_objectAttrs object
  unfold readObject ObjectRef.node ObjectRef.read
  simp only [hid, hparent, hflag, hchild, hcount, htitle, hclass]
  rw [← hresources]
  rfl

/-- The elements of the document meant are read as the given objects. -/
theorem readDidl_didlTree (objects : List ObjectRef) :
    readDidl (didlTree objects) = objects.map ObjectRef.read := by
  simp only [readDidl, didlTree]
  induction objects with
  | nil => rfl
  | cons object objects ih =>
      rw [List.map_cons, List.filterMap_cons, readObject_node, ih, List.map_cons]

/-! Values that are read back -/

structure ResourceRef.Readable (res : ResourceRef) : Prop where
  url : '\r' ∉ res.url
  protocol : Quotable res.protocolInfo.protocol
  network : Quotable res.protocolInfo.network
  contentFormat : Quotable res.protocolInfo.contentFormat
  duration : ∀ duration ∈ res.duration, Quotable duration

structure ObjectRef.Readable (object : ObjectRef) : Prop where
  id : Quotable object.id
  parentId : Quotable object.parentId
  title : '\r' ∉ object.title
  upnpClass : PlainText object.upnpClass.asStr ∧ '<' ∉ object.upnpClass.asStr
  resources : ∀ res ∈ object.resources, res.Readable

/-- The texts of a resource that a caller chooses. -/
def ResourceRef.texts (res : ResourceRef) : List Str :=
  [res.url, res.protocolInfo.protocol, res.protocolInfo.network, res.protocolInfo.contentFormat] ++
    res.duration.toList

def ObjectRef.texts (object : ObjectRef) : List Str :=
  [object.id, object.parentId, object.title, object.upnpClass.asStr] ++
    object.resources.flatMap ResourceRef.texts

end RustyCastle.UpnpAv
