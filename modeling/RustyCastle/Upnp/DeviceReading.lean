import RustyCastle.Foundation.XmlFragment
import RustyCastle.Upnp.Device

/-!
When a written device description is read back as the devices it was written
from. Every text element is escaped; the device type, the service types and the
UDN are written by their display forms.
-/

namespace RustyCastle.Upnp
open Foundation Foundation.Xml

/-! The document meant -/

def textElement (name value : Str) : Node := .element name [] (textNodes value)

def optionalElement (name : Str) (value : Option Str) : List Node :=
  (value.map (textElement name)).toList

def numberElement (name : Str) (n : UInt32) : Node :=
  textElement name (Decimal.numeral n.toNat)

/-- An element around a list, left out where the list is empty. -/
def listElement (name : Str) (nodes : List Node) : List Node :=
  if nodes.isEmpty then [] else [.element name [] nodes]

def IconRef.node (icon : IconRef) : Node :=
  .element "icon".toList []
    [textElement "mimetype".toList icon.mimetype, numberElement "width".toList icon.width,
      numberElement "height".toList icon.height, numberElement "depth".toList icon.depth,
      textElement "url".toList icon.url]

def ServiceRef.node (service : ServiceRef) : Node :=
  .element "service".toList []
    [textElement "serviceType".toList service.serviceType.fmt,
      textElement "serviceId".toList service.serviceId,
      textElement "SCPDURL".toList service.scpdUrl,
      textElement "controlURL".toList service.controlUrl,
      textElement "eventSubURL".toList service.eventSubUrl]

mutual

/-- The element of a device, with those of the devices embedded in it. -/
def DeviceRef.node : DeviceRef → Node
  | .mk deviceType friendlyName manufacturer manufacturerUrl modelDescription modelName modelNumber
      modelUrl serialNumber udn upc dlnaDoc presentationUrl icons services devices =>
      .element "device".toList []
        ([textElement "deviceType".toList deviceType.fmt,
            textElement "friendlyName".toList friendlyName,
            textElement "manufacturer".toList manufacturer] ++
          optionalElement "manufacturerURL".toList manufacturerUrl ++
          optionalElement "modelDescription".toList modelDescription ++
          [textElement "modelName".toList modelName] ++
          optionalElement "modelNumber".toList modelNumber ++
          optionalElement "modelURL".toList modelUrl ++
          optionalElement "serialNumber".toList serialNumber ++
          [textElement "UDN".toList udn.fmt] ++
          optionalElement "UPC".toList upc ++
          optionalElement "dlna:X_DLNADOC".toList dlnaDoc ++
          listElement "iconList".toList (icons.map IconRef.node) ++
          listElement "serviceList".toList (services.map ServiceRef.node) ++
          listElement "deviceList".toList (deviceNodes devices) ++
          optionalElement "presentationURL".toList presentationUrl)

def deviceNodes : List DeviceRef → List Node
  | [] => []
  | device :: devices => device.node :: deviceNodes devices

end

def rootAttrs : List (Str × Str) :=
  [("xmlns".toList, "urn:schemas-upnp-org:device-1-0".toList),
    ("xmlns:dlna".toList, "urn:schemas-dlna-org:device-1-0".toList)]

/-- The document whose elements are the fields of the description. -/
def DeviceDescriptionRef.tree (desc : DeviceDescriptionRef) : Node :=
  .element "root".toList rootAttrs
    ([.element "specVersion".toList []
        [numberElement "major".toList desc.specVersion.major,
          numberElement "minor".toList desc.specVersion.minor]] ++
      optionalElement "URLBase".toList desc.urlBase ++ [desc.device.node])

/-! The texts of a description -/

def DeviceTypeRef.inserts (value : DeviceTypeRef) : List Insert :=
  [.verbatim value.domain, .verbatim value.kind]

def ServiceTypeRef.inserts (value : ServiceTypeRef) : List Insert :=
  [.verbatim value.domain, .verbatim value.kind]

def UdnRef.inserts (value : UdnRef) : List Insert := [.verbatim value.uuid]

def optionalInsert (value : Option Str) : List Insert := (value.map Insert.escaped).toList

def IconRef.inserts (icon : IconRef) : List Insert := [.escaped icon.mimetype, .escaped icon.url]

def ServiceRef.inserts (service : ServiceRef) : List Insert :=
  service.serviceType.inserts ++
    [.escaped service.serviceId, .escaped service.scpdUrl, .escaped service.controlUrl,
      .escaped service.eventSubUrl]

mutual

/-- The texts of a device and of those embedded in it. -/
def DeviceRef.inserts : DeviceRef → List Insert
  | .mk deviceType friendlyName manufacturer manufacturerUrl modelDescription modelName modelNumber
      modelUrl serialNumber udn upc dlnaDoc presentationUrl icons services devices =>
      deviceType.inserts ++ [.escaped friendlyName, .escaped manufacturer] ++
        optionalInsert manufacturerUrl ++ optionalInsert modelDescription ++ [.escaped modelName] ++
        optionalInsert modelNumber ++ optionalInsert modelUrl ++ optionalInsert serialNumber ++
        udn.inserts ++ optionalInsert upc ++ optionalInsert dlnaDoc ++
        icons.flatMap IconRef.inserts ++ services.flatMap ServiceRef.inserts ++
        deviceInserts devices ++ optionalInsert presentationUrl

def deviceInserts : List DeviceRef → List Insert
  | [] => []
  | device :: devices => device.inserts ++ deviceInserts devices

end

def DeviceDescriptionRef.inserts (desc : DeviceDescriptionRef) : List Insert :=
  optionalInsert desc.urlBase ++ desc.device.inserts

/-! Elements of one text -/

theorem readable_typeText (domain kind : Str) (sort : Str) (version : Nat)
    (hsort : (Insert.verbatim sort).Readable) :
    (Insert.verbatim ("urn:".toList ++ domain ++ (':' :: (sort ++ [':'])) ++ kind ++ [':'] ++
      Decimal.numeral version)).Readable ↔
      (Insert.verbatim domain).Readable ∧ (Insert.verbatim kind).Readable := by
  have hcolon : ∀ s t, (Insert.verbatim (s ++ ':' :: t)).Readable ↔
      (Insert.verbatim s).Readable ∧ (Insert.verbatim t).Readable :=
    fun s t => readable_verbatim_append (by decide) (by decide)
  have hurn : (Insert.verbatim "urn".toList).Readable := by decide
  have hsplit : "urn:".toList ++ domain ++ (':' :: (sort ++ [':'])) ++ kind ++ [':'] ++
      Decimal.numeral version = "urn".toList ++ ':' :: (domain ++ ':' :: (sort ++ ':' ::
        (kind ++ ':' :: Decimal.numeral version))) := by simp
  rw [hsplit]
  simp only [hcolon, hurn, hsort, readable_verbatim_numeral, true_and, and_true]

theorem written_textElement (name : Str) (hname : isName name = true) (value : Str) :
    Written (writeTextElement name value) (textElement name value).tokens [.escaped value] where
  read rest us := by
    have htree : (textElement name value).tokens ++ us =
        .start name [] :: (textTokens value ++ .finish name :: us) := by simp [textElement]
    rw [htree, writeTextElement_eq, List.append_assoc, List.append_assoc,
      tokens_escapedElement hname (by simp) (by simp), List.forall_mem_singleton]
    simp [Insert.Readable]
  permitted := by
    have hopen := @all_isChar_openTag name [] hname (by simp)
    rw [writeTextElement_eq, List.all_append, List.all_append, hopen, all_isChar_closeTag hname,
      all_isChar_writeEscapedText]
    simp [Insert.isPermitted, Insert.value]

theorem written_displayElement (name : Str) (hname : isName name = true) (value : Str) :
    Written (writeDisplayElement name value) (textElement name value).tokens [.verbatim value] where
  read rest us := by
    have htree : (textElement name value).tokens ++ us =
        .start name [] :: (textTokens value ++ .finish name :: us) := by simp [textElement]
    have hclose : closeTag name ++ rest = '<' :: ('/' :: (name ++ ['>']) ++ rest) := rfl
    rw [htree, writeDisplayElement_eq, List.append_assoc, List.append_assoc, tokens_bareTag hname,
      hclose, tokens_plainText, ← hclose, tokens_closeTag_eq_some hname, List.forall_mem_singleton]
    rfl
  permitted := by
    have hopen := @all_isChar_openTag name [] hname (by simp)
    rw [writeDisplayElement_eq, List.all_append, List.all_append, hopen, all_isChar_closeTag hname]
    simp [Insert.isPermitted, Insert.value]

theorem written_numberElement (name : Str) (hname : isName name = true) (n : UInt32) :
    Written (writeDisplayElement name (Decimal.numeral n.toNat)) (numberElement name n).tokens [] :=
  (written_displayElement name hname _).replace
    (by simp [readable_verbatim_numeral])
    (by simp [Insert.isPermitted, Insert.value, all_isChar_numeral])

theorem written_optional (name : Str) (hname : isName name = true) (value : Option Str) :
    Written (writeOptional name value) (Node.forestTokens (optionalElement name value))
      (optionalInsert value) := by
  cases value with
  | none =>
      rw [optionalElement, Option.map_none, Option.toList_none, Node.forestTokens_nil]
      exact Written.nil
  | some v =>
      rw [optionalElement, Option.map_some, Option.toList_some, Node.forestTokens_cons,
        Node.forestTokens_nil, List.append_nil]
      exact written_textElement name hname v

theorem written_typeElement {name : Str} (hname : isName name = true) (domain kind : Str)
    (version : UInt32) {sort : Str} (hsort : (Insert.verbatim sort).Readable)
    (hpermitted : sort.all isChar = true) :
    Written (writeDisplayElement name ("urn:".toList ++ domain ++ (':' :: (sort ++ [':'])) ++ kind ++
        [':'] ++ Decimal.numeral version.toNat))
      (textElement name ("urn:".toList ++ domain ++ (':' :: (sort ++ [':'])) ++ kind ++ [':'] ++
        Decimal.numeral version.toNat)).tokens [.verbatim domain, .verbatim kind] := by
  have hcolon : isChar ':' = true := by decide
  have hurn : "urn:".toList.all isChar = true := by decide
  refine (written_displayElement name hname _).replace ?_ ?_
  · rw [List.forall_mem_singleton, readable_typeText domain kind sort version.toNat hsort,
      List.forall_mem_cons, List.forall_mem_singleton]
  · simp only [List.all_cons, List.all_nil, Insert.isPermitted, Insert.value, List.all_append,
      hcolon, hurn, hpermitted, all_isChar_numeral, Bool.true_and, Bool.and_true]

theorem written_deviceType (name : Str) (hname : isName name = true) (value : DeviceTypeRef) :
    Written (writeDisplayElement name value.fmt) (textElement name value.fmt).tokens
      value.inserts := by
  have hsort : ":device:".toList = ':' :: ("device".toList ++ [':']) := by decide
  unfold DeviceTypeRef.fmt
  simp only [hsort]
  exact written_typeElement hname _ _ _ (by decide) (by decide)

theorem written_serviceType (name : Str) (hname : isName name = true) (value : ServiceTypeRef) :
    Written (writeDisplayElement name value.fmt) (textElement name value.fmt).tokens
      value.inserts := by
  have hsort : ":service:".toList = ':' :: ("service".toList ++ [':']) := by decide
  unfold ServiceTypeRef.fmt
  simp only [hsort]
  exact written_typeElement hname _ _ _ (by decide) (by decide)

theorem written_udn (name : Str) (hname : isName name = true) (value : UdnRef) :
    Written (writeDisplayElement name value.fmt) (textElement name value.fmt).tokens
      value.inserts := by
  have huuid : (Insert.verbatim "uuid".toList).Readable := by decide
  have hpermitted : "uuid:".toList.all isChar = true := by decide
  refine (written_displayElement name hname _).replace ?_ ?_
  · have hsplit : value.fmt = "uuid".toList ++ ':' :: value.uuid := by simp [UdnRef.fmt]
    rw [List.forall_mem_singleton, hsplit, readable_verbatim_append (by decide) (by decide),
      and_iff_right huuid, UdnRef.inserts, List.forall_mem_singleton]
  · simp only [List.all_cons, List.all_nil, Insert.isPermitted, Insert.value, UdnRef.fmt,
      List.all_append, hpermitted, UdnRef.inserts, Bool.true_and, Bool.and_true]

/-! Icons, services and devices -/

theorem written_icon (icon : IconRef) : Written (writeIcon icon) icon.node.tokens icon.inserts := by
  have hopen : "<icon>".toList = openTag "icon".toList [] := by decide
  have hclose : "</icon>".toList = closeTag "icon".toList := by decide
  have hmimetype := (Written.bareTag "icon".toList (by decide)).append
    (written_textElement "mimetype".toList (by decide) icon.mimetype)
  have hwidth := hmimetype.append
    (written_numberElement "width".toList (by decide) icon.width)
  have hheight := hwidth.append
    (written_numberElement "height".toList (by decide) icon.height)
  have hdepth := hheight.append
    (written_numberElement "depth".toList (by decide) icon.depth)
  have hurl := hdepth.append (written_textElement "url".toList (by decide) icon.url)
  refine (hurl.append (Written.endTag "icon".toList (by decide))).congr ?_ ?_ rfl
  · unfold writeIcon
    simp only [hopen, hclose]
  · simp only [IconRef.node, Node.tokens_element, Node.forestTokens_cons, Node.forestTokens_nil,
      List.append_nil, List.append_assoc, List.cons_append, List.nil_append]

theorem written_service (service : ServiceRef) :
    Written (writeService service) service.node.tokens service.inserts := by
  have hopen : "<service>".toList = openTag "service".toList [] := by decide
  have hclose : "</service>".toList = closeTag "service".toList := by decide
  have htype := (Written.bareTag "service".toList (by decide)).append
    (written_serviceType "serviceType".toList (by decide) service.serviceType)
  have hid := htype.append (written_textElement "serviceId".toList (by decide) service.serviceId)
  have hscpd := hid.append (written_textElement "SCPDURL".toList (by decide) service.scpdUrl)
  have hcontrol := hscpd.append
    (written_textElement "controlURL".toList (by decide) service.controlUrl)
  have hevent := hcontrol.append
    (written_textElement "eventSubURL".toList (by decide) service.eventSubUrl)
  refine (hevent.append (Written.endTag "service".toList (by decide))).congr ?_ ?_ rfl
  · unfold writeService
    simp only [hopen, hclose]
  · simp only [ServiceRef.node, Node.tokens_element, Node.forestTokens_cons, Node.forestTokens_nil,
      List.append_nil, List.append_assoc, List.cons_append, List.nil_append]

/-- A list of elements with an element around it. -/
theorem written_list (name : Str) (hname : isName name = true) {s : Str} {ns : List Node}
    {xs : List Insert} {b : Bool} (h : Written s (Node.forestTokens ns) xs)
    (hempty : ns.isEmpty = b) (hinserts : b = true → xs = []) :
    Written (if b then [] else openTag name [] ++ s ++ closeTag name)
      (Node.forestTokens (listElement name ns)) xs := by
  rw [listElement, hempty]
  cases b with
  | true =>
      rw [if_pos rfl, if_pos rfl, hinserts rfl, Node.forestTokens_nil]
      exact Written.nil
  | false =>
      rw [if_neg Bool.false_ne_true, if_neg Bool.false_ne_true, Node.forestTokens_cons,
        Node.forestTokens_nil, List.append_nil]
      exact h.element hname

theorem written_icons (icons : List IconRef) :
    Written (writeIcons icons)
      (Node.forestTokens (listElement "iconList".toList (icons.map IconRef.node)))
      (icons.flatMap IconRef.inserts) := by
  have hopen : "<iconList>".toList = openTag "iconList".toList [] := by decide
  have hclose : "</iconList>".toList = closeTag "iconList".toList := by decide
  rw [writeIcons, hopen, hclose]
  refine written_list _ (by decide) (Written.flatMap written_icon icons) List.isEmpty_map ?_
  rw [List.isEmpty_iff]
  rintro rfl
  rfl

theorem written_services (services : List ServiceRef) :
    Written (writeServices services)
      (Node.forestTokens (listElement "serviceList".toList (services.map ServiceRef.node)))
      (services.flatMap ServiceRef.inserts) := by
  have hopen : "<serviceList>".toList = openTag "serviceList".toList [] := by decide
  have hclose : "</serviceList>".toList = closeTag "serviceList".toList := by decide
  rw [writeServices, hopen, hclose]
  refine written_list _ (by decide) (Written.flatMap written_service services) List.isEmpty_map ?_
  rw [List.isEmpty_iff]
  rintro rfl
  rfl

theorem isEmpty_deviceNodes (devices : List DeviceRef) :
    (deviceNodes devices).isEmpty = devices.isEmpty := by
  cases devices <;> simp [deviceNodes]

mutual

theorem written_device (device : DeviceRef) :
    Written (writeDevice device) device.node.tokens device.inserts := by
  obtain ⟨deviceType, friendlyName, manufacturer, manufacturerUrl, modelDescription, modelName,
    modelNumber, modelUrl, serialNumber, udn, upc, dlnaDoc, presentationUrl, icons, services,
    devices⟩ := device
  have hopen : "<device>".toList = openTag "device".toList [] := by decide
  have hclose : "</device>".toList = closeTag "device".toList := by decide
  have hopenList : "<deviceList>".toList = openTag "deviceList".toList [] := by decide
  have hcloseList : "</deviceList>".toList = closeTag "deviceList".toList := by decide
  have hdevices := written_list "deviceList".toList (by decide) (written_devices devices)
    (isEmpty_deviceNodes devices) (by
      rw [List.isEmpty_iff]
      rintro rfl
      rw [deviceInserts])
  have htype := (Written.bareTag "device".toList (by decide)).append
    (written_deviceType "deviceType".toList (by decide) deviceType)
  have hfriendly := htype.append (written_textElement "friendlyName".toList (by decide) friendlyName)
  have hmanufacturer := hfriendly.append
    (written_textElement "manufacturer".toList (by decide) manufacturer)
  have hmanufacturerUrl := hmanufacturer.append
    (written_optional "manufacturerURL".toList (by decide) manufacturerUrl)
  have hdescription := hmanufacturerUrl.append
    (written_optional "modelDescription".toList (by decide) modelDescription)
  have hmodelName := hdescription.append
    (written_textElement "modelName".toList (by decide) modelName)
  have hmodelNumber := hmodelName.append
    (written_optional "modelNumber".toList (by decide) modelNumber)
  have hmodelUrl := hmodelNumber.append (written_optional "modelURL".toList (by decide) modelUrl)
  have hserialNumber := hmodelUrl.append
    (written_optional "serialNumber".toList (by decide) serialNumber)
  have hudn := hserialNumber.append (written_udn "UDN".toList (by decide) udn)
  have hupc := hudn.append (written_optional "UPC".toList (by decide) upc)
  have hdlnaDoc := hupc.append (written_optional "dlna:X_DLNADOC".toList (by decide) dlnaDoc)
  have hlists := ((hdlnaDoc.append (written_icons icons)).append (written_services services)).append
    hdevices
  have hpresentation := hlists.append
    (written_optional "presentationURL".toList (by decide) presentationUrl)
  refine (hpresentation.append (Written.endTag "device".toList (by decide))).congr ?_ ?_ ?_
  · unfold writeDevice
    simp only [hopen, hclose, hopenList, hcloseList]
  · simp only [DeviceRef.node, Node.tokens_element, Node.forestTokens_cons,
      Node.forestTokens_append, List.append_assoc, List.cons_append, List.nil_append]
  · simp only [DeviceRef.inserts, List.append_nil, List.append_assoc, List.cons_append,
      List.nil_append]

theorem written_devices (devices : List DeviceRef) :
    Written (writeDevices devices) (Node.forestTokens (deviceNodes devices))
      (deviceInserts devices) := by
  cases devices with
  | nil =>
      rw [writeDevices, deviceNodes, deviceInserts, Node.forestTokens_nil]
      exact Written.nil
  | cons device devices =>
      rw [writeDevices, deviceNodes, deviceInserts, Node.forestTokens_cons]
      exact (written_device device).append (written_devices devices)

end

/-! The document -/

/-- The text after the declaration. -/
def descriptionBody (desc : DeviceDescriptionRef) : Str :=
  openTag "root".toList rootAttrs ++ openTag "specVersion".toList [] ++
    writeDisplayElement "major".toList (Decimal.numeral desc.specVersion.major.toNat) ++
    writeDisplayElement "minor".toList (Decimal.numeral desc.specVersion.minor.toNat) ++
    closeTag "specVersion".toList ++ writeOptional "URLBase".toList desc.urlBase ++
    writeDevice desc.device ++ closeTag "root".toList

theorem writeDeviceDescription_eq (desc : DeviceDescriptionRef) :
    writeDeviceDescription desc = "<?xml version=\"1.0\"?>".toList ++ descriptionBody desc := by
  have hroot : "<root xmlns=\"urn:schemas-upnp-org:device-1-0\" xmlns:dlna=\"urn:schemas-dlna-org:device-1-0\">".toList =
      openTag "root".toList rootAttrs := by
    simp [openTag, writeAttributes, writeAttribute, rootAttrs]
  have hspec : "<specVersion>".toList = openTag "specVersion".toList [] := by decide
  have hspecEnd : "</specVersion>".toList = closeTag "specVersion".toList := by decide
  have hend : "</root>".toList = closeTag "root".toList := by decide
  unfold writeDeviceDescription descriptionBody
  simp only [hroot, hspec, hspecEnd, hend, List.append_assoc]

theorem written_description (desc : DeviceDescriptionRef) :
    Written (descriptionBody desc) desc.tree.tokens desc.inserts := by
  have hroot := (Written.startTag "root".toList rootAttrs (by decide) (by decide) (by decide)
    (by decide) (by decide)).append (Written.bareTag "specVersion".toList (by decide))
  have hmajor := hroot.append
    (written_numberElement "major".toList (by decide) desc.specVersion.major)
  have hminor := hmajor.append
    (written_numberElement "minor".toList (by decide) desc.specVersion.minor)
  have hspec := hminor.append (Written.endTag "specVersion".toList (by decide))
  have hbase := hspec.append (written_optional "URLBase".toList (by decide) desc.urlBase)
  have hdevice := hbase.append (written_device desc.device)
  refine (hdevice.append (Written.endTag "root".toList (by decide))).congr rfl ?_ ?_
  · simp only [DeviceDescriptionRef.tree, Node.tokens_element, Node.forestTokens_cons,
      Node.forestTokens_nil, Node.forestTokens_append, List.append_nil, List.append_assoc,
      List.cons_append, List.nil_append]
  · simp only [DeviceDescriptionRef.inserts, List.append_nil, List.nil_append]

/-- What is written is a document, and its elements hold the fields of the description. -/
def DeviceDescriptionRef.ReadsBack (desc : DeviceDescriptionRef) : Prop :=
  document (writeDeviceDescription desc) = some desc.tree

theorem readsBack_description_iff {desc : DeviceDescriptionRef} : desc.ReadsBack ↔
    (∀ x ∈ desc.inserts, x.isPermitted = true) ∧ ∀ x ∈ desc.inserts, x.Readable := by
  have hdeclaration : "<?xml version=\"1.0\"?>".toList.all isChar = true := by decide
  have hend : (closeTag "root".toList).getLast? = some '>' := by decide
  have hchars : (∀ c ∈ writeDeviceDescription desc, isChar c = true) ↔
      ∀ x ∈ desc.inserts, x.isPermitted = true := by
    rw [writeDeviceDescription_eq, ← List.all_eq_true, List.all_append, hdeclaration, Bool.true_and,
      (written_description desc).permitted, List.all_eq_true]
  have htokens : tokens (descriptionBody desc) = some desc.tree.tokens ↔
      ∀ x ∈ desc.inserts, x.Readable := by
    simpa using (written_description desc).read [] []
  rw [DeviceDescriptionRef.ReadsBack, ← hchars, ← htokens]
  refine document_eq_some ?_ ?_ ?_
  · rw [writeDeviceDescription_eq, afterDeclaration_append]
  · rw [descriptionBody]
    rintro _ ⟨⟩
    decide
  · rw [descriptionBody, List.getLast?_append, hend]
    rintro _ ⟨⟩
    decide

/-- A description of permitted characters is read back exactly when the type of
every device and service and every UDN needs no escape and no other text has a
carriage return. -/
theorem description_readsBack_iff_readable {desc : DeviceDescriptionRef}
    (hchars : ∀ x ∈ desc.inserts, x.isPermitted = true) :
    desc.ReadsBack ↔ ∀ x ∈ desc.inserts, x.Readable := by
  rw [readsBack_description_iff, and_iff_right hchars]

/-- A renderer with an icon and a service, inside a server. -/
def nestedDescription (uuid : Str) : DeviceDescriptionRef where
  urlBase := some "http://192.168.1.10:49152/".toList
  specVersion := .default
  device :=
    .mk ⟨"schemas-upnp-org".toList, "MediaServer".toList, 1⟩ "Tom & Jerry's <server>".toList
      "rusty-castle".toList none none "Castle".toList none none none ⟨uuid⟩ none
      (some "DMS-1.50".toList) (some "/".toList) [] []
      [.mk ⟨"schemas-upnp-org".toList, "MediaRenderer".toList, 1⟩ "Renderer".toList
        "rusty-castle".toList none none "Castle".toList none none none ⟨"b".toList⟩ none none none
        [⟨"image/png".toList, 48, 48, 24, "/icon.png".toList⟩]
        [⟨⟨"schemas-upnp-org".toList, "RenderingControl".toList, 1⟩,
          "urn:upnp-org:serviceId:RenderingControl".toList, "/r.xml".toList, "/control?a=1&b=2".toList,
          "/event".toList⟩] []]

theorem description_readsBack_nested : (nestedDescription "a".toList).ReadsBack ↔
    ∀ x ∈ (nestedDescription "a".toList).inserts, x.Readable :=
  description_readsBack_iff_readable (by decide)

/-- A UDN with an ampersand is not read back. -/
theorem not_readsBack_udn :
    (∀ x ∈ (nestedDescription "a&b".toList).inserts, x.isPermitted = true) ∧
      ¬ (nestedDescription "a&b".toList).ReadsBack := by
  refine ⟨by decide, fun h => ?_⟩
  have hread := (readsBack_description_iff.mp h).2 (.verbatim "a&b".toList) (by decide)
  exact absurd hread (by decide)

end RustyCastle.Upnp
