import RustyCastle.Upnp.ResponseReading
import RustyCastle.UpnpAv.ContentDirectory
import RustyCastle.UpnpAv.DidlReading

/-!
What a client reads from the response to a browse request: the text of the
result is itself a document. A carriage return in a title or a URL is read as a
line feed already in the outer document.
-/

namespace RustyCastle.UpnpAv
open Foundation Foundation.Xml RustyCastle.Upnp RustyCastle.Dlna

/-! The client -/

/-- The nodes in the first child element of a name. -/
def childNodes (name : Str) : List Node → Option (List Node)
  | [] => none
  | .element tag _ children :: ns => if tag = name then some children else childNodes name ns
  | _ :: ns => childNodes name ns

/-- The text of the result in the document of a browse response. -/
def resultText : Node → Option Str
  | .element _ _ children => do
      let body ← childNodes "s:Body".toList children
      let response ← childNodes "u:BrowseResponse".toList body
      childText "Result".toList response
  | _ => none

/-- The objects that a browse response lists, where it and its result are documents. -/
def readListing (body : Str) : Option (List ReadObject) := do
  let result ← resultText (← document body)
  (document result).map readDidl

/-- The titles that a client reads from a response are those of the objects. -/
def TitlesRead (body : Str) (objects : List ObjectRef) : Prop :=
  ∃ listed, readListing body = some listed ∧
    listed.map ReadObject.title = objects.map fun object => some object.title

/-! Line ends in a listing -/

def ResourceRef.withLineEnds (res : ResourceRef) : ResourceRef := { res with url := lineEnds res.url }

def ObjectRef.withLineEnds (object : ObjectRef) : ObjectRef :=
  { object with
    title := lineEnds object.title
    resources := object.resources.map ResourceRef.withLineEnds }

theorem cr_notMem_of_isName {name : Str} (h : isName name = true) : '\r' ∉ name :=
  notMem_name h (by decide)

theorem cr_notMem_of_plainAttribute {s : Str} (h : PlainAttribute s) : '\r' ∉ s := fun hm =>
  absurd (h.space _ hm) (by decide)

theorem cr_notMem_openTag {name : Str} {as : List (Str × Str)} (hname : isName name = true)
    (hnames : ∀ a ∈ as, isName a.1 = true) (hquotable : ∀ a ∈ as, Quotable a.2) :
    '\r' ∉ openTag name as := by
  have hattrs : '\r' ∉ writeAttributes as := by
    intro hm
    obtain ⟨a, ha, hm⟩ := List.mem_flatMap.mp hm
    have hkey := cr_notMem_of_isName (hnames a ha)
    have hvalue := cr_notMem_of_plainAttribute (hquotable a ha).toPlainAttribute
    simp [writeAttribute, hkey, hvalue] at hm
  simp [openTag, cr_notMem_of_isName hname, hattrs]

theorem cr_notMem_closeTag {name : Str} (hname : isName name = true) : '\r' ∉ closeTag name := by
  simp [closeTag, cr_notMem_of_isName hname]

/-- Escaped text before an end tag. -/
theorem lineEnds_escaped {name : Str} (s rest : Str) (hname : isName name = true) :
    lineEnds (writeEscapedText s ++ (closeTag name ++ rest)) =
      writeEscapedText (lineEnds s) ++ (closeTag name ++ lineEnds rest) := by
  have hhead : ∀ c ∈ (closeTag name ++ rest).head?, c ≠ '\n' := by
    rintro _ ⟨⟩
    decide
  rw [lineEnds_append hhead, lineEnds_writeEscapedText,
    lineEnds_append_left (cr_notMem_closeTag hname)]

theorem lineEnds_writeResource {res : ResourceRef} (h : res.withLineEnds.Readable) (rest : Str) :
    lineEnds (writeResource res ++ rest) = writeResource res.withLineEnds ++ lineEnds rest := by
  have hquotable : ∀ a ∈ res.attrs, Quotable a.2 :=
    quotable_resourceAttrs.mpr
      ⟨quotable_fmt.mpr ⟨h.protocol, h.network, h.contentFormat⟩, h.duration⟩
  rw [writeResource_eq, writeResource_eq]
  simp only [List.append_assoc]
  rw [lineEnds_append_left (cr_notMem_openTag (by decide) (isName_resourceAttrs res) hquotable),
    lineEnds_escaped _ _ (by decide)]
  rfl

theorem lineEnds_resources {rs : List ResourceRef} (h : ∀ res ∈ rs, res.withLineEnds.Readable)
    (rest : Str) :
    lineEnds (rs.flatMap writeResource ++ rest) =
      (rs.map ResourceRef.withLineEnds).flatMap writeResource ++ lineEnds rest := by
  induction rs with
  | nil => rfl
  | cons res rs ih =>
      obtain ⟨hres, h⟩ := List.forall_mem_cons.mp h
      rw [List.flatMap_cons, List.append_assoc, lineEnds_writeResource hres, ih h, List.map_cons,
        List.flatMap_cons, List.append_assoc]

theorem lineEnds_writeObject {object : ObjectRef} (h : object.withLineEnds.Readable) (rest : Str) :
    lineEnds (writeObject object ++ rest) = writeObject object.withLineEnds ++ lineEnds rest := by
  have hquotable : ∀ a ∈ object.attrs, Quotable a.2 := quotable_objectAttrs.mpr ⟨h.id, h.parentId⟩
  have hresources : ∀ res ∈ object.resources, res.withLineEnds.Readable := fun res hres =>
    h.resources _ (List.mem_map_of_mem hres)
  have hclass : '\r' ∉ object.upnpClass.asStr := h.upnpClass.1.cr
  rw [writeObject_eq, writeObject_eq]
  simp only [List.append_assoc]
  rw [lineEnds_append_left (cr_notMem_openTag (isName_tag object) (isName_objectAttrs object) hquotable),
    lineEnds_append_left (cr_notMem_openTag (by decide) (by simp) (by simp)), lineEnds_escaped _ _ (by decide),
    lineEnds_append_left (cr_notMem_openTag (by decide) (by simp) (by simp)), lineEnds_append_left hclass,
    lineEnds_append_left (cr_notMem_closeTag (by decide)), lineEnds_resources hresources,
    lineEnds_append_left (cr_notMem_closeTag (isName_tag object))]
  rfl

theorem lineEnds_didlToString {objects : List ObjectRef}
    (h : ∀ object ∈ objects, object.withLineEnds.Readable) :
    lineEnds (didlToString objects) = didlToString (objects.map ObjectRef.withLineEnds) := by
  have hobjects : ∀ rest, lineEnds (objects.flatMap writeObject ++ rest) =
      (objects.map ObjectRef.withLineEnds).flatMap writeObject ++ lineEnds rest := by
    intro rest
    induction objects with
    | nil => rfl
    | cons object objects ih =>
        obtain ⟨hobject, h⟩ := List.forall_mem_cons.mp h
        rw [List.flatMap_cons, List.append_assoc, lineEnds_writeObject hobject, ih h, List.map_cons,
          List.flatMap_cons, List.append_assoc]
  rw [didlToString, didlToString, writeDidl_eq, writeDidl_eq,
    lineEnds_append_left (cr_notMem_openTag (by decide) (by decide) (by decide)), hobjects,
    lineEnds_of_notMem (cr_notMem_closeTag (by decide))]

/-! Reading a response -/

theorem browse_writable (result numberReturned totalMatches updateId : Str) :
    Writable contentDirectoryService "Browse".toList
      (browseArguments result numberReturned totalMatches updateId) where
  action := by decide
  service := by decide
  serviceChars := by decide
  names := by
    have hnames : ∀ name ∈ ["Result".toList, "NumberReturned".toList, "TotalMatches".toList,
        "UpdateID".toList], isName name = true := by decide
    exact fun arg harg => hnames _ (List.mem_map_of_mem (f := ResponseArgumentRef.name) harg)

theorem resultText_responseTree (result numberReturned totalMatches updateId : Str) :
    resultText (responseTree contentDirectoryService "Browse".toList
      (browseArguments result numberReturned totalMatches updateId)) = some (lineEnds result) := by
  have hbody : ∀ children, childNodes "s:Body".toList
      [.element "s:Body".toList [] children] = some children := fun _ => if_pos rfl
  have hresponse : ∀ attrs children, childNodes "u:BrowseResponse".toList
      [.element (responseName "Browse".toList) attrs children] = some children := fun _ _ =>
    if_pos (by decide)
  have hresult : ∀ ns, childText "Result".toList
      (.element "Result".toList [] (textNodes (lineEnds result)) :: ns) = some (lineEnds result) :=
    fun ns => by rw [childText, if_pos rfl, content_textNodes]
  unfold resultText responseTree
  simp only [hbody, hresponse, Option.bind_eq_bind, Option.bind_some]
  exact hresult _

theorem all_isChar_lineEnds {s : Str} (h : s.all isChar = true) : (lineEnds s).all isChar = true := by
  rw [List.all_eq_true] at h ⊢
  intro c hc
  rcases mem_lineEnds hc with hc | rfl
  · exact h c hc
  · decide

/-- A response lists the objects with the line ends of their titles and URLs, exactly
when they have permitted characters only. -/
theorem readListing_eq_some {objects : List ObjectRef} {numberReturned totalMatches updateId : Str}
    (hnumber : ∀ s ∈ [numberReturned, totalMatches, updateId], s.all isChar = true)
    (h : ∀ object ∈ objects, object.withLineEnds.Readable) {listed : List ReadObject} :
    readListing (writeActionResponse contentDirectoryService "Browse".toList
        (browseArguments (didlToString objects) numberReturned totalMatches updateId)) = some listed ↔
      (∀ object ∈ objects, ∀ s ∈ object.texts, s.all isChar = true) ∧
        listed = objects.map fun object => object.withLineEnds.read := by
  have hwritable := browse_writable (didlToString objects) numberReturned totalMatches updateId
  have hchars : (∀ arg ∈ browseArguments (didlToString objects) numberReturned totalMatches updateId,
      arg.value.all isChar = true) ↔ ∀ object ∈ objects, ∀ s ∈ object.texts, s.all isChar = true := by
    rw [← all_isChar_didl]
    simp only [browseArguments, List.forall_mem_cons] at hnumber ⊢
    exact ⟨fun hall => hall.1, fun hall => ⟨hall, hnumber.1, hnumber.2.1, hnumber.2.2.1, by simp⟩⟩
  have hread : (∀ object ∈ objects, ∀ s ∈ object.texts, s.all isChar = true) →
      readListing (writeActionResponse contentDirectoryService "Browse".toList
        (browseArguments (didlToString objects) numberReturned totalMatches updateId)) =
          some (objects.map fun object => object.withLineEnds.read) := by
    intro hall
    have hinner : document (didlToString (objects.map ObjectRef.withLineEnds)) =
        some (didlTree (objects.map ObjectRef.withLineEnds)) := by
      refine readsBack_iff.mpr ⟨?_, List.forall_mem_map.mpr h⟩
      rw [← all_isChar_didl] at hall ⊢
      have := all_isChar_lineEnds hall
      rwa [← didlToString, lineEnds_didlToString h] at this
    rw [readListing, document_writeActionResponse hwritable (hchars.mpr hall)]
    simp only [Option.bind_eq_bind, Option.bind_some, resultText_responseTree,
      lineEnds_didlToString h, hinner, Option.map_some, readDidl_didlTree, List.map_map]
    rfl
  constructor
  · intro hlisted
    have hall : ∀ object ∈ objects, ∀ s ∈ object.texts, s.all isChar = true := by
      obtain ⟨node, hnode, -⟩ := Option.bind_eq_some_iff.mp hlisted
      exact hchars.mp ((all_isChar_response hwritable).mp (all_isChar_of_document hnode))
    rw [hread hall] at hlisted
    exact ⟨hall, (Option.some.inj hlisted).symm⟩
  · rintro ⟨hall, rfl⟩
    exact hread hall

/-- The titles are read as they are exactly when all texts have permitted characters
only and no title has a carriage return. -/
theorem titlesRead_iff {objects : List ObjectRef} {numberReturned totalMatches updateId : Str}
    (hnumber : ∀ s ∈ [numberReturned, totalMatches, updateId], s.all isChar = true)
    (h : ∀ object ∈ objects, object.withLineEnds.Readable) :
    TitlesRead (writeActionResponse contentDirectoryService "Browse".toList
        (browseArguments (didlToString objects) numberReturned totalMatches updateId)) objects ↔
      ∀ object ∈ objects, (∀ s ∈ object.texts, s.all isChar = true) ∧ '\r' ∉ object.title := by
  have htitles : (objects.map fun object => object.withLineEnds.read).map ReadObject.title =
      (objects.map fun object => some object.title) ↔ ∀ object ∈ objects, '\r' ∉ object.title := by
    rw [List.map_map, List.map_inj_left]
    refine forall₂_congr fun object _ => ?_
    rw [← lineEnds_eq_self]
    exact Option.some_inj
  simp only [TitlesRead, readListing_eq_some hnumber h, forall_and]
  constructor
  · rintro ⟨_, ⟨hall, rfl⟩, hmap⟩
    exact ⟨hall, htitles.mp hmap⟩
  · rintro ⟨hall, hcr⟩
    exact ⟨_, ⟨hall, rfl⟩, htitles.mpr hcr⟩

end RustyCastle.UpnpAv
