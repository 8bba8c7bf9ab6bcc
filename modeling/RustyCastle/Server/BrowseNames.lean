import RustyCastle.Server.Listings
import RustyCastle.Server.MediaIds

/-!
Which file names can be browsed. A name is text that is escaped, and what the
escapes leave are the characters that no document may have and the carriage
return, which is read as a line feed.
-/

namespace RustyCastle.Server
open Foundation Foundation.Xml RustyCastle.Upnp RustyCastle.UpnpAv

/-! Values that are not escaped -/

/-- The characters of identifiers and durations. -/
def plainAlphabet : Str := 'c' :: 'm' :: '-' :: ':' :: '.' :: Hexadecimal.digits

theorem quotable_of_plain {s : Str} (h : s ⊆ plainAlphabet) : Quotable s :=
  quotable_of_subset h (by decide)

theorem all_isChar_of_plain {s : Str} (h : s ⊆ plainAlphabet) : s.all isChar = true := by
  have halphabet : ∀ c ∈ plainAlphabet, isChar c = true := by decide
  exact List.all_eq_true.mpr fun c hc => halphabet c (h hc)

theorem stableContainerId_subset (p : Path) : stableContainerId p ⊆ plainAlphabet :=
  List.Subset.trans (stableObjectId_subset ['c'] p) (by decide)

theorem directoryId_subset (p : Path) : directoryId p ⊆ plainAlphabet := by
  rw [directoryId]
  split
  · decide
  · exact stableContainerId_subset p

theorem MediaFile.id_subset (f : MediaFile) : f.id ⊆ plainAlphabet :=
  List.Subset.trans (stableObjectId_subset ['m'] f.path) (by decide)

theorem formatDlnaDuration_subset (duration : UInt64) (timescale : UInt32) :
    formatDlnaDuration duration timescale ⊆ plainAlphabet := by
  have hdigits : Decimal.digits ⊆ plainAlphabet := by decide
  have hnumeral : ∀ n, Decimal.numeral n ⊆ plainAlphabet := fun n =>
    List.Subset.trans (Decimal.numeral_subset n) hdigits
  have hpadded : ∀ width n, Decimal.padded width n ⊆ plainAlphabet := fun width n =>
    List.Subset.trans (Decimal.padded_subset width n) hdigits
  have hmarks : ':' ∈ plainAlphabet ∧ '.' ∈ plainAlphabet := by decide
  unfold formatDlnaDuration
  simp only [List.append_subset, List.cons_subset, hnumeral, hpadded, hmarks, true_and]
  split
  · exact List.nil_subset _
  · exact List.cons_subset.mpr ⟨hmarks.2, hpadded 3 _⟩

theorem fileDuration_subset {file : File} {duration : Str}
    (h : fileDuration file = .ok (some duration)) : duration ⊆ plainAlphabet := by
  unfold fileDuration at h
  cases hfind : findMp4Mvhd file 0 file.bytes.length with
  | error e =>
      rw [hfind] at h
      cases h
  | ok r =>
      rw [hfind] at h
      simp only [bind, Except.bind] at h
      split at h
      · cases h
      · split at h
        · cases h
        · cases h
          exact formatDlnaDuration_subset _ _

theorem MediaFile.duration_subset {f : MediaFile} {duration : Str} (h : duration ∈ f.duration) :
    duration ⊆ plainAlphabet := by
  rw [MediaFile.duration] at h
  split at h
  · cases hread : fileDuration f.content with
    | error e =>
        rw [hread] at h
        cases h
    | ok r =>
        rw [hread] at h
        obtain rfl : r = some duration := h
        exact fileDuration_subset hread
  · cases h

theorem mediaKind_cases {name : FileName} {kind : MediaKind} (h : mediaKind name = some kind) :
    kind = .mp4 ∨ ∃ profile, kind = .mpegPs "video/mpeg".toList profile := by
  obtain ⟨extension, -, h⟩ := Option.bind_eq_some_iff.mp h
  obtain ⟨ext, -, h⟩ := Option.bind_eq_some_iff.mp h
  dsimp only at h
  split at h
  · exact .inl (Option.some.inj h).symm
  · split at h
    · exact .inr ⟨_, (Option.some.inj h).symm⟩
    · split at h
      · exact .inr ⟨_, (Option.some.inj h).symm⟩
      · cases h

/-! Objects of a scanned library -/

variable {fs : FileSystem} {t : FileTree} {config : RuntimeConfig} {state : RuntimeState}

theorem rootObject_readable (catalog : StaticCatalog) :
    (rootObject catalog).withLineEnds.Readable ∧
      (∀ s ∈ (rootObject catalog).texts, s.all isChar = true) ∧ '\r' ∉ (rootObject catalog).title := by
  have htexts : ∀ s ∈ ["0".toList, "-1".toList, "Media".toList, UpnpClass.container.asStr],
      s.all isChar = true := by decide
  have htitle : '\r' ∉ "Media".toList := by decide
  refine ⟨⟨?_, ?_, ?_, ?_, nofun⟩, htexts, htitle⟩
  · exact (by decide : Quotable "0".toList)
  · exact (by decide : Quotable "-1".toList)
  · exact cr_notMem_lineEnds _
  · exact (by decide : PlainText UpnpClass.container.asStr ∧ '<' ∉ UpnpClass.container.asStr)

theorem containerObject_readable (catalog : StaticCatalog) (d : Path) :
    (objectForContainer catalog (containerOf d)).withLineEnds.Readable where
  id := quotable_of_plain (stableContainerId_subset d)
  parentId := quotable_of_plain (directoryId_subset d.dropLast)
  title := cr_notMem_lineEnds _
  upnpClass := (by decide : PlainText UpnpClass.container.asStr ∧ '<' ∉ UpnpClass.container.asStr)
  resources := nofun

theorem containerObject_chars (catalog : StaticCatalog) (d : Path) :
    (∀ s ∈ (objectForContainer catalog (containerOf d)).texts, s.all isChar = true) ↔
      (containerOf d).title.all isChar = true := by
  have hid := all_isChar_of_plain (stableContainerId_subset d)
  have hparent := all_isChar_of_plain (directoryId_subset d.dropLast)
  have hclass : UpnpClass.container.asStr.all isChar = true := by decide
  constructor
  · intro h
    exact h _ (by simp [ObjectRef.texts, objectForContainer])
  · intro h
    have hall : ∀ s ∈ [stableContainerId d, directoryId d.dropLast, (containerOf d).title,
        UpnpClass.container.asStr], s.all isChar = true :=
      List.forall_mem_cons.mpr ⟨hid, List.forall_mem_cons.mpr ⟨hparent,
        List.forall_mem_cons.mpr ⟨h, List.forall_mem_singleton.mpr hclass⟩⟩⟩
    exact hall

/-- The resource of an item has values that are not escaped of a few characters only. -/
theorem itemResource_plain {f : MediaFile} (hf : f ∈ t.mediaFiles []) (publicBaseUrl : Str) :
    Quotable (f.item publicBaseUrl).protocolInfo.protocol ∧
      Quotable (f.item publicBaseUrl).protocolInfo.network ∧
      Quotable (f.item publicBaseUrl).protocolInfo.contentFormat ∧
      ∀ s ∈ [(f.item publicBaseUrl).protocolInfo.protocol, (f.item publicBaseUrl).protocolInfo.network,
        (f.item publicBaseUrl).protocolInfo.contentFormat], s.all isChar = true := by
  obtain ⟨-, -, hkind, -⟩ := FileTree.mem_mediaFiles.mp hf
  have hvalues : ∀ s ∈ ["http-get".toList, "*".toList, "video/mp4".toList, "video/mpeg".toList],
      Quotable s ∧ s.all isChar = true := by decide
  simp only [List.forall_mem_cons, List.not_mem_nil, false_implies, implies_true, and_true] at hvalues
  obtain ⟨⟨hget, hget'⟩, ⟨hstar, hstar'⟩, ⟨hmp4, hmp4'⟩, hmpeg, hmpeg'⟩ := hvalues
  have hall : ∀ {a b c : Str}, a.all isChar = true → b.all isChar = true → c.all isChar = true →
      ∀ s ∈ [a, b, c], s.all isChar = true := by
    intro a b c ha hb hc
    exact List.forall_mem_cons.mpr ⟨ha, List.forall_mem_cons.mpr ⟨hb,
      List.forall_mem_singleton.mpr hc⟩⟩
  rw [MediaFile.item]
  rcases mediaKind_cases hkind with hk | ⟨profile, hk⟩
  · rw [hk]
    exact ⟨hget, hstar, hmp4, hall hget' hstar' hmp4'⟩
  · rw [hk]
    exact ⟨hget, hstar, hmpeg, hall hget' hstar' hmpeg'⟩

theorem itemObject_readable {f : MediaFile} (hf : f ∈ t.mediaFiles []) (publicBaseUrl : Str) :
    (itemObject (f.item publicBaseUrl)).withLineEnds.Readable := by
  obtain ⟨hprotocol, hnetwork, hformat, -⟩ := itemResource_plain hf publicBaseUrl
  have hid : (itemObject (f.item publicBaseUrl)).id = f.id := f.item_id publicBaseUrl
  refine ⟨?_, quotable_of_plain (directoryId_subset f.dir), cr_notMem_lineEnds _, ?_, ?_⟩
  · change Quotable (itemObject (f.item publicBaseUrl)).id
    rw [hid]
    exact quotable_of_plain f.id_subset
  · exact (by decide : PlainText UpnpClass.videoItem.asStr ∧ '<' ∉ UpnpClass.videoItem.asStr)
  · intro res hres
    obtain rfl : res = (resourceForItem (f.item publicBaseUrl)).withLineEnds :=
      List.mem_singleton.mp hres
    exact ⟨cr_notMem_lineEnds _, hprotocol, hnetwork, hformat, fun duration hduration =>
      quotable_of_plain (f.duration_subset hduration)⟩

theorem itemObject_chars {f : MediaFile} (hf : f ∈ t.mediaFiles []) (publicBaseUrl : Str) :
    (∀ s ∈ (itemObject (f.item publicBaseUrl)).texts, s.all isChar = true) ↔
      f.title.all isChar = true ∧ publicBaseUrl.all isChar = true := by
  obtain ⟨-, -, -, hinfo⟩ := itemResource_plain hf publicBaseUrl
  have hid := all_isChar_of_plain f.id_subset
  have hparent := all_isChar_of_plain (directoryId_subset f.dir)
  have hclass : UpnpClass.videoItem.asStr.all isChar = true := by decide
  have hmedia : "media/".toList.all isChar = true := by decide
  have hduration : ∀ s ∈ f.duration.toList, s.all isChar = true := fun s hs =>
    all_isChar_of_plain (f.duration_subset (Option.mem_toList.mp hs))
  have hurl : (publicBaseUrl ++ "media/".toList ++ f.id).all isChar = publicBaseUrl.all isChar := by
    rw [List.all_append, List.all_append, hmedia, hid, Bool.and_true, Bool.and_true]
  have htexts : (itemObject (f.item publicBaseUrl)).texts =
      [f.id, directoryId f.dir, f.title, UpnpClass.videoItem.asStr] ++
        (((publicBaseUrl ++ "media/".toList ++ f.id) ::
          [(f.item publicBaseUrl).protocolInfo.protocol, (f.item publicBaseUrl).protocolInfo.network,
            (f.item publicBaseUrl).protocolInfo.contentFormat]) ++ f.duration.toList) := by
    rw [← f.item_url publicBaseUrl, ← f.item_title publicBaseUrl]
    conv_rhs => rw [← f.item_id publicBaseUrl]
    exact congrArg _ (List.flatMap_singleton ..)
  rw [htexts]
  simp only [List.forall_mem_append, List.forall_mem_cons, hid, hparent, hclass, hurl, true_and]
  constructor
  · rintro ⟨⟨htitle, -⟩, ⟨hbase, -⟩, -⟩
    exact ⟨htitle, hbase⟩
  · rintro ⟨htitle, hbase⟩
    refine ⟨⟨htitle, by simp⟩, ⟨hbase, ?_⟩, hduration⟩
    simpa only [List.forall_mem_cons] using hinfo

/-! Titles and names -/

/-- Text of permitted characters without a carriage return. -/
def IsXmlText (bytes : List UInt8) : Prop :=
  ∃ s, Str.fromUtf8 bytes = some s ∧ s.all isChar = true ∧ '\r' ∉ s

theorem isXmlText_bytes {s : Str} : IsXmlText s.bytes ↔ s.all isChar = true ∧ '\r' ∉ s := by
  rw [IsXmlText, Str.fromUtf8_bytes]
  exact ⟨fun ⟨_, hs, h⟩ => Option.some.inj hs ▸ h, fun h => ⟨s, rfl, h⟩⟩

/-- The title of a directory is its name. -/
theorem exists_name_of_mem {d : Path} (hd : d ∈ t.directories []) (hutf8 : IsUtf8 d) :
    ∃ name, d.getLast? = some name ∧ (containerOf d).title.bytes = name.bytes := by
  have hlast := List.getLast?_eq_some_getLast (FileTree.ne_nil_of_mem_directories hd)
  obtain ⟨s, hs⟩ := Option.isSome_iff_exists.mp (hutf8 _ (List.mem_of_getLast? hlast))
  refine ⟨_, hlast, ?_⟩
  rw [containerOf, hlast]
  simp only [Option.bind_some, hs, Option.getD_some]
  exact Str.bytes_of_fromUtf8 hs

/-- The title of a media file is its stem. -/
theorem fileStem_eq_title {f : MediaFile} (hutf8 : IsUtf8 f.path) :
    f.name.fileStem = some f.title.bytes := by
  obtain ⟨stem, hstem⟩ := FileName.exists_fileStem_text
    (hutf8 f.name (List.mem_append_right _ (List.mem_singleton_self _)))
  rw [MediaFile.title, hstem]
  simp only [Option.bind_some, Str.fromUtf8_bytes, Option.getD_some]

/-- The titles of the catalog are the names and stems, and they are read from every
response that lists objects. -/
structure NamesBrowsed (t : FileTree) (state : RuntimeState) : Prop where
  containers : List.Forall₂ (fun d container => ∃ name, d.getLast? = some name ∧
    container.title.bytes = name.bytes) (t.directories []) state.catalog.containers
  items : List.Forall₂ (fun f item => f.name.fileStem = some (Str.bytes item.title))
    (t.mediaFiles []) state.catalog.items
  read : EveryListingRead state.catalog

/-- The names of directories, the stems of media files and the base URL of their
addresses have permitted characters only, and the names no carriage return. -/
structure XmlNames (t : FileTree) (config : RuntimeConfig) : Prop where
  directories : ∀ d ∈ t.directories [], ∀ name ∈ d.getLast?, IsXmlText name.bytes
  media : ∀ f ∈ t.mediaFiles [], ∀ stem ∈ f.name.fileStem, IsXmlText stem
  url : t.mediaFiles [] ≠ [] → config.publicBaseUrl.all isChar = true

theorem FileTree.readable (t : FileTree) (config : RuntimeConfig) :
    ∀ object, object = rootObject (t.library config).catalog ∨
        object ∈ catalogObjects (t.library config).catalog → object.withLineEnds.Readable := by
  rintro object (rfl | ho)
  · exact (rootObject_readable _).1
  · rcases List.mem_append.mp ho with ho | ho
    · rw [library_containers, List.map_map] at ho
      obtain ⟨d, -, rfl⟩ := List.mem_map.mp ho
      exact containerObject_readable _ d
    · rw [library_items, List.map_map] at ho
      obtain ⟨f, hf, rfl⟩ := List.mem_map.mp ho
      exact itemObject_readable hf config.publicBaseUrl

/-- Every listing is read exactly when every object of the library can be. -/
theorem everyListingRead_iff (t : FileTree) (config : RuntimeConfig) :
    EveryListingRead (t.library config).catalog ↔
      ∀ object ∈ catalogObjects (t.library config).catalog,
        (∀ s ∈ object.texts, s.all isChar = true) ∧ '\r' ∉ object.title := by
  have hreadable := t.readable config
  constructor
  · intro hread object ho
    obtain ⟨hbrowsable, hchild⟩ := FileTree.mem_children ho
    obtain ⟨d, hd⟩ := FileTree.parentId_mem ho
    obtain ⟨hlt, htrim⟩ := directoryId_plain d
    rw [← hd] at hlt htrim
    have hask := browseMessage_asksChildren hlt htrim 0 0
    have hlisting := hask.listing hbrowsable
    have hcalls := hask.toIsBrowse.callsBrowse
    exact (titlesRead_of_listing hreadable hcalls hlisting).mp (hread _ _ hcalls _ hlisting) object
      hchild
  · intro hall soapXml action ha objects hlisting
    refine (titlesRead_of_listing hreadable ha hlisting).mpr fun object ho => ?_
    rcases mem_listing hlisting object ho with rfl | ho
    · exact (rootObject_readable _).2
    · exact hall object ho

/-- A tree of UTF-8 names can be browsed by name exactly when its names are XML text
and the base URL can be written. -/
theorem namesBrowsed_iff_xmlNames (h : Scanned fs t config state)
    (hdirs : ∀ d ∈ t.directories [], IsUtf8 d) (hmedia : ∀ p ∈ t.mediaPaths, IsUtf8 p) :
    NamesBrowsed t state ↔ XmlNames t config := by
  obtain rfl := h.eq_library
  have hdir : ∀ d ∈ t.directories [], (∀ name ∈ d.getLast?, IsXmlText name.bytes) ↔
      (containerOf d).title.all isChar = true ∧ '\r' ∉ (containerOf d).title := by
    intro d hd
    obtain ⟨name, hlast, hname⟩ := exists_name_of_mem hd (hdirs d hd)
    rw [hlast, ← isXmlText_bytes, hname]
    exact ⟨fun hall => hall name rfl, fun hx _ hn => Option.some.inj hn ▸ hx⟩
  have hfile : ∀ f ∈ t.mediaFiles [], (∀ stem ∈ f.name.fileStem, IsXmlText stem) ↔
      f.title.all isChar = true ∧ '\r' ∉ f.title := by
    intro f hf
    rw [fileStem_eq_title (hmedia _ (List.mem_map_of_mem hf)), ← isXmlText_bytes]
    exact ⟨fun hall => hall _ rfl, fun hx _ hn => Option.some.inj hn ▸ hx⟩
  have hobjects : EveryListingRead (t.library config).catalog ↔ XmlNames t config := by
    rw [everyListingRead_iff, catalogObjects, FileTree.library_containers, FileTree.library_items,
      List.map_map, List.map_map, List.forall_mem_append, List.forall_mem_map, List.forall_mem_map]
    constructor
    · rintro ⟨hcontainers, hitems⟩
      refine ⟨fun d hd => (hdir d hd).mpr ?_, fun f hf => (hfile f hf).mpr ?_, fun hne => ?_⟩
      · obtain ⟨hchars, hcr⟩ := hcontainers d hd
        exact ⟨(containerObject_chars _ d).mp hchars, hcr⟩
      · obtain ⟨hchars, hcr⟩ := hitems f hf
        have htitle : (itemObject (f.item config.publicBaseUrl)).title = f.title :=
          f.item_title config.publicBaseUrl
        exact ⟨((itemObject_chars hf _).mp hchars).1, htitle ▸ hcr⟩
      · obtain ⟨f, hf⟩ := List.exists_mem_of_ne_nil _ hne
        exact ((itemObject_chars hf _).mp (hitems f hf).1).2
    · intro hx
      refine ⟨fun d hd => ?_, fun f hf => ?_⟩
      · obtain ⟨hchars, hcr⟩ := (hdir d hd).mp (hx.directories d hd)
        exact ⟨(containerObject_chars _ d).mpr hchars, hcr⟩
      · obtain ⟨hchars, hcr⟩ := (hfile f hf).mp (hx.media f hf)
        have htitle : (itemObject (f.item config.publicBaseUrl)).title = f.title :=
          f.item_title config.publicBaseUrl
        exact ⟨(itemObject_chars hf _).mpr ⟨hchars, hx.url (List.ne_nil_of_mem hf)⟩, htitle ▸ hcr⟩
  rw [← hobjects]
  refine ⟨NamesBrowsed.read, fun hread => ⟨?_, ?_, hread⟩⟩
  · rw [FileTree.library_containers, List.forall₂_map_right_iff, List.forall₂_same]
    exact fun d hd => exists_name_of_mem hd (hdirs d hd)
  · rw [FileTree.library_items, List.forall₂_map_right_iff, List.forall₂_same]
    intro f hf
    rw [f.item_title]
    exact fileStem_eq_title (hmedia _ (List.mem_map_of_mem hf))

theorem namesBrowsed_seasonTree :
    NamesBrowsed seasonTree (seasonTree.library .default) ↔ XmlNames seasonTree .default := by
  have hseason : IsUtf8 [seasonName] := isUtf8_singleton (s := "Season 1".toList) rfl
  have hmovie : IsUtf8 [movieName] := isUtf8_singleton (s := "clip.mp4".toList) rfl
  refine namesBrowsed_iff_xmlNames seasonTree_scanned (fun d hd => ?_) (fun p hp => ?_)
  · rw [seasonTree_walk.1] at hd
    rw [List.mem_singleton.mp hd]
    exact hseason
  · rw [FileTree.mediaPaths, seasonTree_walk.2] at hp
    rw [List.mem_singleton.mp hp]
    exact List.forall_mem_append.mpr ⟨hseason, hmovie⟩

def controlName : FileName := { bytes := Str.bytes "\u0001.mp4".toList, isFileName := by decide }

/-- A directory with a movie file whose name starts with a control character. -/
def controlTree : FileTree :=
  .dir [controlName] (List.nodup_singleton _) fun _ => .file emptyMovie

def controlMovie : MediaFile where
  dir := []
  name := controlName
  kind := .mp4
  entryLen := emptyMovie.len
  content := emptyMovie

theorem controlTree_walk :
    controlTree.directories [] = [] ∧ controlTree.mediaFiles [] = [controlMovie] := ⟨rfl, rfl⟩

/-- The listing of the file is not a document. -/
theorem not_namesBrowsed_controlTree :
    Scanned (controlTree.fileSystem []) controlTree .default (controlTree.library .default) ∧
      (∀ d ∈ controlTree.directories [], IsUtf8 d) ∧ (∀ p ∈ controlTree.mediaPaths, IsUtf8 p) ∧
      ¬ NamesBrowsed controlTree (controlTree.library .default) := by
  have hmem : controlMovie ∈ controlTree.mediaFiles [] := by
    rw [controlTree_walk.2]
    exact List.mem_singleton_self _
  have htitle : controlMovie.title = "\u0001".toList := by
    have hstem : controlName.fileStem = some (Str.bytes "\u0001".toList) := by decide
    rw [MediaFile.title, controlMovie, hstem]
    simp only [Option.bind_some, Str.fromUtf8_bytes, Option.getD_some]
  refine ⟨?_, ?_, fun p hp => ?_, fun h => ?_⟩
  · refine FileTree.scanned_library (controlTree.fileSystem_shows []) rfl fun f hf => ?_
    rw [controlTree_walk.2, List.mem_singleton] at hf
    rw [hf]
    exact fun _ => headersComplete_emptyMovie
  · rw [controlTree_walk.1]
    exact nofun
  · rw [FileTree.mediaPaths, controlTree_walk.2] at hp
    rw [List.mem_singleton.mp hp]
    exact isUtf8_singleton (s := "\u0001.mp4".toList) rfl
  · have hobject : itemObject (controlMovie.item RuntimeConfig.default.publicBaseUrl) ∈
        catalogObjects (controlTree.library .default).catalog := by
      rw [catalogObjects, FileTree.library_items]
      exact List.mem_append_right _ (List.mem_map_of_mem (List.mem_map_of_mem hmem))
    have hchars := ((everyListingRead_iff _ _).mp h.read _ hobject).1
    have := ((itemObject_chars hmem _).mp hchars).1
    rw [htitle] at this
    exact absurd this (by decide)

end RustyCastle.Server
