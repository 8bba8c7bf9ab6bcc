import RustyCastle.Upnp.Ids
import RustyCastle.Upnp.Xml

/-!
The device description document.
-/

namespace RustyCastle.Upnp
open Foundation

structure SpecVersion where
  major : UInt32
  minor : UInt32
  deriving DecidableEq, Repr

def SpecVersion.default : SpecVersion := { major := 1, minor := 0 }

structure ServiceRef where
  serviceType : ServiceTypeRef
  serviceId : Str
  scpdUrl : Str
  controlUrl : Str
  eventSubUrl : Str
  deriving DecidableEq, Repr

structure IconRef where
  mimetype : Str
  width : UInt32
  height : UInt32
  depth : UInt32
  url : Str
  deriving DecidableEq, Repr

/-- A device, with the devices embedded in it. -/
inductive DeviceRef where
  | mk (deviceType : DeviceTypeRef) (friendlyName manufacturer : Str)
      (manufacturerUrl modelDescription : Option Str) (modelName : Str)
      (modelNumber modelUrl serialNumber : Option Str) (udn : UdnRef)
      (upc dlnaDoc presentationUrl : Option Str) (icons : List IconRef)
      (services : List ServiceRef) (devices : List DeviceRef)

structure DeviceDescriptionRef where
  urlBase : Option Str
  specVersion : SpecVersion
  device : DeviceRef

def writeOptional (name : Str) (value : Option Str) : Str := Str.whenSome value (writeTextElement name)

def writeIcon (icon : IconRef) : Str :=
  "<icon>".toList ++ writeTextElement "mimetype".toList icon.mimetype ++
    writeDisplayElement "width".toList (Decimal.numeral icon.width.toNat) ++
    writeDisplayElement "height".toList (Decimal.numeral icon.height.toNat) ++
    writeDisplayElement "depth".toList (Decimal.numeral icon.depth.toNat) ++
    writeTextElement "url".toList icon.url ++ "</icon>".toList

def writeIcons (icons : List IconRef) : Str :=
  if icons.isEmpty then []
  else "<iconList>".toList ++ icons.flatMap writeIcon ++ "</iconList>".toList

def writeService (service : ServiceRef) : Str :=
  "<service>".toList ++ writeDisplayElement "serviceType".toList service.serviceType.fmt ++
    writeTextElement "serviceId".toList service.serviceId ++
    writeTextElement "SCPDURL".toList service.scpdUrl ++
    writeTextElement "controlURL".toList service.controlUrl ++
    writeTextElement "eventSubURL".toList service.eventSubUrl ++ "</service>".toList

def writeServices (services : List ServiceRef) : Str :=
  if services.isEmpty then []
  else "<serviceList>".toList ++ services.flatMap writeService ++ "</serviceList>".toList

mutual

def writeDevice : DeviceRef → Str
  | .mk deviceType friendlyName manufacturer manufacturerUrl modelDescription modelName modelNumber
      modelUrl serialNumber udn upc dlnaDoc presentationUrl icons services devices =>
      "<device>".toList ++ writeDisplayElement "deviceType".toList deviceType.fmt ++
        writeTextElement "friendlyName".toList friendlyName ++
        writeTextElement "manufacturer".toList manufacturer ++
        writeOptional "manufacturerURL".toList manufacturerUrl ++
        writeOptional "modelDescription".toList modelDescription ++
        writeTextElement "modelName".toList modelName ++
        writeOptional "modelNumber".toList modelNumber ++
        writeOptional "modelURL".toList modelUrl ++
        writeOptional "serialNumber".toList serialNumber ++
        writeDisplayElement "UDN".toList udn.fmt ++
        writeOptional "UPC".toList upc ++
        writeOptional "dlna:X_DLNADOC".toList dlnaDoc ++
        writeIcons icons ++ writeServices services ++
        (if devices.isEmpty then []
        else "<deviceList>".toList ++ writeDevices devices ++ "</deviceList>".toList) ++
        writeOptional "presentationURL".toList presentationUrl ++ "</device>".toList

/-- The devices of a list, without the element around them. -/
def writeDevices : List DeviceRef → Str
  | [] => []
  | device :: devices => writeDevice device ++ writeDevices devices

end

def writeDeviceDescription (desc : DeviceDescriptionRef) : Str :=
  "<?xml version=\"1.0\"?>".toList ++
    "<root xmlns=\"urn:schemas-upnp-org:device-1-0\" xmlns:dlna=\"urn:schemas-dlna-org:device-1-0\">".toList ++
    "<specVersion>".toList ++
    writeDisplayElement "major".toList (Decimal.numeral desc.specVersion.major.toNat) ++
    writeDisplayElement "minor".toList (Decimal.numeral desc.specVersion.minor.toNat) ++
    "</specVersion>".toList ++ writeOptional "URLBase".toList desc.urlBase ++
    writeDevice desc.device ++ "</root>".toList

def deviceDescriptionToString (desc : DeviceDescriptionRef) : Str := writeDeviceDescription desc

/-! The UDN of a description -/

def udnTag : Str := '<' :: ("UDN".toList ++ ['>'])

/-- The uuid in the first UDN element of a description. -/
def udnUuid (xml : Str) : Option Str := do
  let (_, rest) ← Str.cut udnTag xml
  let (udn, _) ← Str.cut ['<'] rest
  Str.stripPrefix "uuid:".toList udn

theorem udnUuid_skip {u : Str} (h : Str.Skips udnTag u) (t : Str) :
    udnUuid (u ++ t) = udnUuid t := by
  rw [udnUuid, udnUuid, Str.cut_of_skips h]
  cases Str.cut udnTag t <;> rfl

theorem udnUuid_append {s uuid : Str} (h : udnUuid s = some uuid) (t : Str) :
    udnUuid (s ++ t) = some uuid := by
  obtain ⟨⟨before, rest⟩, hcut, h⟩ := Option.bind_eq_some_iff.mp h
  obtain ⟨⟨udn, after⟩, hend, h⟩ := Option.bind_eq_some_iff.mp h
  rw [udnUuid, Str.cut_append_right (by decide) hcut t]
  dsimp only [Option.bind_eq_bind, Option.bind_some] at hend ⊢
  rw [Str.cut_append_right (List.cons_ne_nil _ _) hend t]
  exact h

theorem udnUuid_writeDisplayElement {udn : UdnRef} (h : '<' ∉ udn.uuid) :
    udnUuid (writeDisplayElement "UDN".toList udn.fmt) = some udn.uuid := by
  have hlt : '<' ∉ udn.fmt := by
    unfold UdnRef.fmt
    simp only [List.mem_append, not_or]
    exact ⟨by decide, h⟩
  have hsplit : writeDisplayElement "UDN".toList udn.fmt =
      [] ++ udnTag ++ (udn.fmt ++ '<' :: "/UDN>".toList) := by
    simp [writeDisplayElement, udnTag]
  rw [hsplit, udnUuid, Str.cut_append _ (by decide)]
  dsimp only [Option.bind_eq_bind, Option.bind_some]
  rw [Str.cut_char _ hlt]
  exact Str.stripPrefix_append _ _

/-- A tag of another name. -/
theorem skips_tag {tag : Str} (name : Str) (htag : tag = '<' :: (name ++ ['>']))
    (hname : ¬ "UDN".toList <+: name) (hlt : '<' ∉ name) : Str.Skips udnTag tag := by
  have hrest : '<' ∉ name ++ ['>'] := by simpa using hlt
  rw [htag]
  refine Str.Skips.cons (Str.skips_of_notMem hrest) fun t hp => ?_
  have hpre := (List.prefix_append _ _).trans (List.cons_prefix_cons.mp hp).2
  rw [List.append_assoc] at hpre
  exact hname (Str.prefix_of_notMem hpre (by decide))

theorem skips_writeDisplayElement (name : Str) (hname : ¬ "UDN".toList <+: name)
    (hlt : '<' ∉ name) {value : Str} (hvalue : '<' ∉ value) :
    Str.Skips udnTag (writeDisplayElement name value) := by
  have hopen := skips_tag name rfl hname hlt
  have hclose : Str.Skips udnTag ('<' :: ('/' :: name ++ ['>'])) := by
    refine skips_tag ('/' :: name) rfl (fun hp => ?_) (by simpa using hlt)
    exact absurd (List.cons_prefix_cons.mp hp).1 (by decide)
  have hsplit : writeDisplayElement name value =
      '<' :: (name ++ ['>']) ++ value ++ '<' :: ('/' :: name ++ ['>']) := by
    simp [writeDisplayElement]
  rw [hsplit]
  exact (hopen.append (Str.skips_of_notMem hvalue)).append hclose

theorem skips_writeTextElement (name : Str) (hname : ¬ "UDN".toList <+: name) (hlt : '<' ∉ name)
    (value : Str) : Str.Skips udnTag (writeTextElement name value) :=
  skips_writeDisplayElement name hname hlt (notMem_writeEscapedText (.inl rfl) value)

theorem skips_writeOptional (name : Str) (hname : ¬ "UDN".toList <+: name) (hlt : '<' ∉ name)
    (value : Option Str) : Str.Skips udnTag (writeOptional name value) := by
  cases value with
  | none => exact Str.skips_nil _
  | some v => exact skips_writeTextElement name hname hlt v

theorem udnUuid_writeDevice {deviceType : DeviceTypeRef} (friendlyName manufacturer : Str)
    (manufacturerUrl modelDescription : Option Str) (modelName : Str)
    (modelNumber modelUrl serialNumber : Option Str) {udn : UdnRef}
    (upc dlnaDoc presentationUrl : Option Str) (icons : List IconRef) (services : List ServiceRef)
    (devices : List DeviceRef) (htype : '<' ∉ deviceType.fmt) (hudn : '<' ∉ udn.uuid) :
    udnUuid (writeDevice (.mk deviceType friendlyName manufacturer manufacturerUrl modelDescription
      modelName modelNumber modelUrl serialNumber udn upc dlnaDoc presentationUrl icons services
      devices)) = some udn.uuid := by
  have hdevice : Str.Skips udnTag "<device>".toList :=
    skips_tag "device".toList (by decide) (by decide) (by decide)
  have hbefore := hdevice.append
    (skips_writeDisplayElement "deviceType".toList (by decide) (by decide) htype)
  have hfriendly := hbefore.append
    (skips_writeTextElement "friendlyName".toList (by decide) (by decide) friendlyName)
  have hmanufacturer := hfriendly.append
    (skips_writeTextElement "manufacturer".toList (by decide) (by decide) manufacturer)
  have hmanufacturerUrl := hmanufacturer.append (skips_writeOptional
    "manufacturerURL".toList (by decide) (by decide) manufacturerUrl)
  have hdescription := hmanufacturerUrl.append (skips_writeOptional
    "modelDescription".toList (by decide) (by decide) modelDescription)
  have hmodelName := hdescription.append
    (skips_writeTextElement "modelName".toList (by decide) (by decide) modelName)
  have hmodelNumber := hmodelName.append
    (skips_writeOptional "modelNumber".toList (by decide) (by decide) modelNumber)
  have hmodelUrl := hmodelNumber.append
    (skips_writeOptional "modelURL".toList (by decide) (by decide) modelUrl)
  have hserialNumber := hmodelUrl.append
    (skips_writeOptional "serialNumber".toList (by decide) (by decide) serialNumber)
  have hread := (udnUuid_skip hserialNumber _).trans (udnUuid_writeDisplayElement hudn)
  unfold writeDevice
  iterate 7 refine udnUuid_append ?_ _
  exact hread

/-- The UDN that a description is written with is the one it is read with. -/
theorem udnUuid_writeDeviceDescription (urlBase : Option Str) (specVersion : SpecVersion)
    {device : DeviceRef} {uuid : Str} (h : udnUuid (writeDevice device) = some uuid) :
    udnUuid (writeDeviceDescription ⟨urlBase, specVersion, device⟩) = some uuid := by
  have hnumeral : ∀ n, '<' ∉ Decimal.numeral n := Decimal.notMem_numeral (by decide)
  have hxml : Str.Skips udnTag "<?xml version=\"1.0\"?>".toList :=
    skips_tag "?xml version=\"1.0\"?".toList (by decide) (by decide) (by decide)
  have hroot : Str.Skips udnTag "<root xmlns=\"urn:schemas-upnp-org:device-1-0\" xmlns:dlna=\"urn:schemas-dlna-org:device-1-0\">".toList :=
    skips_tag "root xmlns=\"urn:schemas-upnp-org:device-1-0\" xmlns:dlna=\"urn:schemas-dlna-org:device-1-0\"".toList
      (by decide) (by decide) (by decide)
  have hspec : Str.Skips udnTag "<specVersion>".toList :=
    skips_tag "specVersion".toList (by decide) (by decide) (by decide)
  have hend : Str.Skips udnTag "</specVersion>".toList :=
    skips_tag "/specVersion".toList (by decide) (by decide) (by decide)
  have hmajor := ((hxml.append hroot).append hspec).append (skips_writeDisplayElement
    "major".toList (by decide) (by decide) (hnumeral specVersion.major.toNat))
  have hminor := hmajor.append (skips_writeDisplayElement "minor".toList (by decide)
    (by decide) (hnumeral specVersion.minor.toNat))
  have hbase := (hminor.append hend).append
    (skips_writeOptional "URLBase".toList (by decide) (by decide) urlBase)
  exact udnUuid_append ((udnUuid_skip hbase _).trans h) _

end RustyCastle.Upnp
