import RustyCastle.Server.BrowseAgreement
import RustyCastle.Server.EmptyElements
import RustyCastle.Server.Runtime
import RustyCastle.Server.SourceProtocols
import RustyCastle.Upnp.FaultReading
import RustyCastle.Upnp.ScpdReading

/-!
The contract of the services. A control point reads the actions of a service and the values that
they give at the URL of its description; every control request is answered as these descriptions
say, or with a fault.
-/

namespace RustyCastle.Server
open Foundation Foundation.Xml RustyCastle.Dlna RustyCastle.Upnp RustyCastle.UpnpAv

/-- The services of the device description. -/
def serviceRefs : List ServiceRef := [contentDirectoryServiceRef, connectionManagerServiceRef]

/-- The names of the values that an action gives. -/
def outputs (action : Scpd.ActionRef) : List Str :=
  (action.arguments.filter fun arg => arg.direction == .output).map Scpd.ArgumentRef.name

/-- A request for the description of a service is answered with this description. -/
def Publishes (shared : SharedRuntimeState) (service : ServiceRef) (scpd : Scpd.ScpdRef) : Prop :=
  ∀ fs depth now elapsed request, request.method = "GET".toList → request.path = service.scpdUrl →
    ∃ text, routeRequest fs depth now elapsed shared request =
        some (.ok (xmlResponse text), shared) ∧
      (document text).bind Scpd.readScpd = some scpd

/-- A browse request for an object that is not there. -/
structure Missing (catalog : StaticCatalog) (call : ActionRequestRef) : Prop where
  kind : call.serviceType.kind = "ContentDirectory".toList
  action : call.actionName = "Browse".toList
  root : requestedId call ≠ "0".toList
  container : catalog.container (requestedId call) = none
  item : catalog.item (requestedId call) = none

/-- The answer to a request, by the descriptions of the services. -/
inductive Promised (catalog : StaticCatalog) (described : List (ServiceRef × Scpd.ScpdRef)) :
    Except ParseError ActionRequestRef → Nat → Node → Prop
  | unreadable (e) : Promised catalog described (.error e) 500 (faultTree 402 "Invalid Args".toList)
  | undescribed (call)
      (h : ∀ d ∈ described, d.1.serviceType.kind = call.serviceType.kind →
        ∀ action ∈ d.2.actions, action.name ≠ call.actionName) :
      Promised catalog described (.ok call) 500 (faultTree 401 "Invalid Action".toList)
  | missing (call) (h : Missing catalog call) :
      Promised catalog described (.ok call) 500 (faultTree 701 "No Such Object".toList)
  | answered (call) (service scpd action values) (hd : (service, scpd) ∈ described)
      (hkind : service.serviceType.kind = call.serviceType.kind) (ha : action ∈ scpd.actions)
      (hname : action.name = call.actionName) (hthere : ¬ Missing catalog call)
      (hlength : values.length = (outputs action).length) :
      Promised catalog described (.ok call) 200
        (responseTree service.serviceType action.name
          (List.zipWith ResponseArgumentRef.mk (outputs action) values))

/-- The texts of the catalog have characters that a document may have. -/
def XmlTexts (catalog : StaticCatalog) : Prop :=
  ∀ object ∈ catalogObjects catalog, ∀ s ∈ object.texts, s.all isChar = true

/-! The descriptions -/

/-- The actions of a description with the values that they give. -/
def interface (scpd : Scpd.ScpdRef) : List (Str × List Str) :=
  scpd.actions.map fun action => (action.name, outputs action)

def contentDirectoryInterface : List (Str × List Str) :=
  [("Browse".toList,
      ["Result".toList, "NumberReturned".toList, "TotalMatches".toList, "UpdateID".toList]),
    ("GetSearchCapabilities".toList, ["SearchCaps".toList]),
    ("GetSortCapabilities".toList, ["SortCaps".toList]),
    ("GetSystemUpdateID".toList, ["Id".toList])]

def connectionManagerInterface : List (Str × List Str) :=
  [("GetProtocolInfo".toList, ["Source".toList, "Sink".toList]),
    ("GetCurrentConnectionIDs".toList, ["ConnectionIDs".toList])]

theorem contentDirectory_interface : ∃ scpd, contentDirectoryScpdXml = Scpd.writeScpd scpd ∧
    (∀ s ∈ scpd.texts, s.all isChar = true ∧ '\r' ∉ s) ∧
    interface scpd = contentDirectoryInterface :=
  ⟨_, rfl, by decide, by decide⟩

theorem connectionManager_interface : ∃ scpd, connectionManagerScpdXml = Scpd.writeScpd scpd ∧
    (∀ s ∈ scpd.texts, s.all isChar = true ∧ '\r' ∉ s) ∧
    interface scpd = connectionManagerInterface :=
  ⟨_, rfl, by decide, by decide⟩

theorem readScpd_text {scpd : Scpd.ScpdRef}
    (h : ∀ s ∈ scpd.texts, s.all isChar = true ∧ '\r' ∉ s) :
    (document (Scpd.writeScpd scpd)).bind Scpd.readScpd = some scpd := by
  rw [Scpd.document_writeScpd.mpr fun s hs => (h s hs).1, Option.bind_some, Scpd.readScpd_tree,
    Scpd.withLineEnds_scpd.mpr fun s hs => (h s hs).2]

theorem publishes_contentDirectory (shared : SharedRuntimeState) {scpd : Scpd.ScpdRef}
    (htext : contentDirectoryScpdXml = Scpd.writeScpd scpd)
    (h : ∀ s ∈ scpd.texts, s.all isChar = true ∧ '\r' ∉ s) :
    Publishes shared contentDirectoryServiceRef scpd := by
  intro fs depth now elapsed request hmethod hpath
  have hother : contentDirectoryServiceRef.scpdUrl ≠ "/device.xml".toList := by decide
  refine ⟨contentDirectoryScpdXml, ?_, by rw [htext, readScpd_text h]⟩
  rw [routeRequest, if_neg fun hc => hother (hpath.symm.trans hc.2), if_pos ⟨hmethod, hpath⟩]

theorem publishes_connectionManager (shared : SharedRuntimeState) {scpd : Scpd.ScpdRef}
    (htext : connectionManagerScpdXml = Scpd.writeScpd scpd)
    (h : ∀ s ∈ scpd.texts, s.all isChar = true ∧ '\r' ∉ s) :
    Publishes shared connectionManagerServiceRef scpd := by
  intro fs depth now elapsed request hmethod hpath
  have hdevice : connectionManagerServiceRef.scpdUrl ≠ "/device.xml".toList := by decide
  have hother : connectionManagerServiceRef.scpdUrl ≠ "/ContentDirectory/scpd.xml".toList := by decide
  refine ⟨connectionManagerScpdXml, ?_, by rw [htext, readScpd_text h]⟩
  rw [routeRequest, if_neg fun hc => hdevice (hpath.symm.trans hc.2),
    if_neg fun hc => hother (hpath.symm.trans hc.2), if_pos ⟨hmethod, hpath⟩]

/-! Answers -/

/-- The answer is a document that the descriptions promise. -/
def Keeps (catalog : StaticCatalog) (described : List (ServiceRef × Scpd.ScpdRef))
    (request : Except ParseError ActionRequestRef) (response : ControlResponse) : Prop :=
  ∃ answer, document response.body = some answer ∧
    Promised catalog described request response.statusCode.toNat answer

section
variable {catalog : StaticCatalog} {described : List (ServiceRef × Scpd.ScpdRef)}
  {call : ActionRequestRef}

theorem keeps_unreadable (e : ParseError) :
    Keeps catalog described (.error e) ControlError.badRequest.intoResponse :=
  ⟨_, document_writeFault 402 (by decide) (by decide), .unreadable e⟩

theorem keeps_undescribed
    (h : ∀ d ∈ described, d.1.serviceType.kind = call.serviceType.kind →
      ∀ action ∈ d.2.actions, action.name ≠ call.actionName) :
    Keeps catalog described (.ok call) ControlError.invalidAction.intoResponse :=
  ⟨_, document_writeFault 401 (by decide) (by decide), .undescribed call h⟩

theorem keeps_missing (h : Missing catalog call) :
    Keeps catalog described (.ok call) ControlError.noSuchObject.intoResponse :=
  ⟨_, document_writeFault 701 (by decide) (by decide), .missing call h⟩

theorem mem_zipWith_arguments {names values : List Str} {arg : ResponseArgumentRef}
    (h : arg ∈ List.zipWith ResponseArgumentRef.mk names values) :
    arg.name ∈ names ∧ arg.value ∈ values := by
  rw [← List.map_uncurry_zip_eq_zipWith] at h
  obtain ⟨⟨name, value⟩, hmem, rfl⟩ := List.mem_map.mp h
  exact List.of_mem_zip hmem

/-- A response that gives the values of a described action. -/
theorem keeps_answered (service : ServiceRef) (name : Str) (names values : List Str)
    {scpd : Scpd.ScpdRef} (hd : (service, scpd) ∈ described)
    (hkind : service.serviceType.kind = call.serviceType.kind) (hname : call.actionName = name)
    (haction : (name, names) ∈ interface scpd) (hthere : ¬ Missing catalog call)
    (hlength : values.length = names.length)
    (hwritable : isName (responseName name) = true ∧ Quotable service.serviceType.fmt ∧
      service.serviceType.fmt.all isChar = true ∧ ∀ n ∈ names, isName n = true)
    (hchars : ∀ value ∈ values, value.all isChar = true) :
    Keeps catalog described (.ok call)
      (okResponse (writeActionResponse service.serviceType name
        (List.zipWith ResponseArgumentRef.mk names values))) := by
  obtain ⟨action, ha, he⟩ := List.mem_map.mp haction
  obtain ⟨rfl, rfl⟩ := Prod.mk.inj he
  obtain ⟨hresponse, hservice, hserviceChars, hnames⟩ := hwritable
  have harguments : Writable service.serviceType action.name
      (List.zipWith ResponseArgumentRef.mk (outputs action) values) :=
    ⟨hresponse, hservice, hserviceChars, fun arg harg => hnames _ (mem_zipWith_arguments harg).1⟩
  refine ⟨_, document_writeActionResponse harguments fun arg harg =>
    hchars _ (mem_zipWith_arguments harg).2, ?_⟩
  exact .answered call service scpd action values hd hkind ha hname.symm hthere hlength

end

/-! Values -/

section
variable {catalog : StaticCatalog}

/-- What a browse request lists are the root and objects of the catalog. -/
theorem exists_objects {id : Str} {flag : BrowseFlag} {r : Str × UInt32 × UInt32}
    (h : browseResult catalog id flag = .ok r) :
    ∃ objects, r.1 = didlToString objects ∧
      ∀ object ∈ objects, object = rootObject catalog ∨ object ∈ catalogObjects catalog := by
  unfold browseResult at h
  split at h
  · cases flag with
    | metadata =>
        cases h
        exact ⟨_, rfl, fun object ho => .inl (List.mem_singleton.mp ho)⟩
    | directChildren =>
        cases h
        exact ⟨_, rfl, fun object ho => .inr (childrenObjects_subset catalog _ ho)⟩
  · cases flag with
    | metadata =>
        dsimp only at h
        split at h
        · rename_i container hc
          cases h
          refine ⟨_, rfl, fun object ho => .inr ?_⟩
          rw [List.mem_singleton.mp ho]
          exact List.mem_append_left _ (List.mem_map_of_mem (List.mem_of_find?_eq_some hc))
        · split at h
          · rename_i item hi
            cases h
            refine ⟨_, rfl, fun object ho => .inr ?_⟩
            rw [List.mem_singleton.mp ho]
            exact List.mem_append_right _ (List.mem_map_of_mem (List.mem_of_find?_eq_some hi))
          · cases h
    | directChildren =>
        dsimp only at h
        split at h
        · cases h
          exact ⟨_, rfl, fun object ho => .inr (childrenObjects_subset catalog _ ho)⟩
        · split at h
          · cases h
            exact ⟨[], rfl, List.forall_mem_nil _⟩
          · cases h

theorem all_isChar_browseResult (hchars : XmlTexts catalog) {id : Str} {flag : BrowseFlag}
    {r : Str × UInt32 × UInt32} (h : browseResult catalog id flag = .ok r) :
    r.1.all isChar = true := by
  obtain ⟨objects, hr, hall⟩ := exists_objects h
  have hroot : ∀ s ∈ (rootObject catalog).texts, s.all isChar = true := by
    have hfixed : ∀ s ∈ ["0".toList, "-1".toList, "Media".toList, UpnpClass.container.asStr],
        s.all isChar = true := by decide
    exact hfixed
  rw [hr, didlToString, all_isChar_didl]
  intro object ho
  obtain rfl | ho := hall object ho
  · exact hroot
  · exact hchars object ho

theorem browseResult_eq_error {id : Str} {flag : BrowseFlag} {e : ControlError}
    (h : browseResult catalog id flag = .error e) :
    e = .noSuchObject ∧ id ≠ "0".toList ∧ catalog.container id = none ∧ catalog.item id = none := by
  refine ⟨browseResult_error h, ?_⟩
  unfold browseResult at h
  split at h
  · cases flag <;> cases h
  · rename_i hid
    refine ⟨hid, ?_⟩
    cases flag with
    | metadata =>
        dsimp only at h
        split at h
        · cases h
        · split at h
          · cases h
          · exact ⟨‹_›, ‹_›⟩
    | directChildren =>
        dsimp only at h
        split at h
        · cases h
        · rename_i hc
          split at h
          · cases h
          · rename_i hi
            exact ⟨Option.not_isSome_iff_eq_none.mp hc, Option.not_isSome_iff_eq_none.mp hi⟩

theorem browseResult_ok_of_there {id : Str} (flag : BrowseFlag) {r : Str × UInt32 × UInt32}
    (h : browseResult catalog id flag = .ok r) :
    ¬ (id ≠ "0".toList ∧ catalog.container id = none ∧ catalog.item id = none) := by
  rintro ⟨hid, hc, hi⟩
  unfold browseResult at h
  rw [if_neg hid] at h
  cases flag <;> simp [hc, hi] at h

theorem all_isChar_source (hchars : XmlTexts catalog) :
    (writeProtocolInfoList (collectProtocolInfo catalog)).all isChar = true := by
  have hmp4 : (ProtocolInfoRef.sonyMp4).fmt.all isChar = true := by
    rw [all_isChar_fmt]
    decide
  refine all_isChar_protocolInfoList fun info hinfo => ?_
  obtain rfl | ⟨item, hitem, rfl⟩ := mem_collectProtocolInfo hinfo
  · exact hmp4
  · have htexts := hchars (itemObject item) (List.mem_append_right _ (List.mem_map_of_mem hitem))
    have hres : ∀ s ∈ (resourceForItem item).texts, s.all isChar = true := fun s hs =>
      htexts s (List.mem_append_right _ (by simpa [itemObject, objectForItem] using hs))
    rw [all_isChar_fmt, hres _ (by simp [ResourceRef.texts, resourceForItem]),
      hres _ (by simp [ResourceRef.texts, resourceForItem]),
      hres _ (by simp [ResourceRef.texts, resourceForItem])]
    rfl

end

/-! Every control request -/

/-- The descriptions of the two services. -/
structure Describe (contents connections : Scpd.ScpdRef) : Prop where
  contents : interface contents = contentDirectoryInterface
  connections : interface connections = connectionManagerInterface

def describedBy (contents connections : Scpd.ScpdRef) : List (ServiceRef × Scpd.ScpdRef) :=
  [(contentDirectoryServiceRef, contents), (connectionManagerServiceRef, connections)]

/-- The response to the outcome of a handler. -/
def respond (outcome : Except ControlError ControlResponse) : ControlResponse :=
  match outcome with
  | .ok response => response
  | .error err => err.intoResponse

theorem mem_names_interface {scpd : Scpd.ScpdRef} {action : Scpd.ActionRef}
    (h : action ∈ scpd.actions) : action.name ∈ (interface scpd).map Prod.fst :=
  List.mem_map.mpr ⟨_, List.mem_map_of_mem h, rfl⟩

section
variable {catalog : StaticCatalog} {contents connections : Scpd.ScpdRef} {call : ActionRequestRef}

/-- A name that is in neither interface of the kind of service is not described. -/
theorem undescribed_of_names (h : Describe contents connections)
    (hcontents : call.serviceType.kind = "ContentDirectory".toList →
      call.actionName ∉ contentDirectoryInterface.map Prod.fst)
    (hconnections : call.serviceType.kind = "ConnectionManager".toList →
      call.actionName ∉ connectionManagerInterface.map Prod.fst) :
    ∀ d ∈ describedBy contents connections, d.1.serviceType.kind = call.serviceType.kind →
      ∀ action ∈ d.2.actions, action.name ≠ call.actionName := by
  intro d hd hkind action ha hname
  have hmem := mem_names_interface ha
  rw [hname] at hmem
  simp only [describedBy, List.mem_cons, List.not_mem_nil, or_false] at hd
  obtain rfl | rfl := hd
  · exact hcontents hkind.symm (h.contents ▸ hmem)
  · exact hconnections hkind.symm (h.connections ▸ hmem)

/-- The values of the answer to a browse request. -/
def browseValues (catalog : StaticCatalog) (r : Str × UInt32 × UInt32) : List Str :=
  [r.1, u32Display r.2.1, u32Display r.2.2, u32Display catalog.updateId]

theorem browse_eq (call : ActionRequestRef) (catalog : StaticCatalog) :
    browse call catalog = (browseResult catalog (requestedId call) (requestedFlag call)).map fun r =>
      okResponse (writeActionResponse contentDirectoryService "Browse".toList
        (List.zipWith ResponseArgumentRef.mk
          ["Result".toList, "NumberReturned".toList, "TotalMatches".toList, "UpdateID".toList]
          (browseValues catalog r))) := by
  rw [browse]
  change (browseResult catalog (requestedId call) (requestedFlag call) >>= _) = _
  cases browseResult catalog (requestedId call) (requestedFlag call) with
  | error e => rfl
  | ok r => rfl

theorem keeps_browse (h : Describe contents connections) (hchars : XmlTexts catalog)
    (hkind : call.serviceType.kind = "ContentDirectory".toList)
    (hname : call.actionName = "Browse".toList) :
    Keeps catalog (describedBy contents connections) (.ok call) (respond (browse call catalog)) := by
  rw [browse_eq]
  cases hresult : browseResult catalog (requestedId call) (requestedFlag call) with
  | error e =>
      obtain ⟨rfl, hid, hc, hi⟩ := browseResult_eq_error hresult
      exact keeps_missing ⟨hkind, hname, hid, hc, hi⟩
  | ok r =>
      have hvalues : ∀ value ∈ browseValues catalog r, value.all isChar = true := by
        have hresultChars := all_isChar_browseResult hchars hresult
        simp only [browseValues, List.forall_mem_cons, u32Display_eq, all_isChar_numeral,
          hresultChars, true_and]
        exact List.forall_mem_nil _
      have hdescribed : ("Browse".toList, ["Result".toList, "NumberReturned".toList,
          "TotalMatches".toList, "UpdateID".toList]) ∈ interface contents := by
        rw [h.contents]
        exact List.mem_cons_self
      exact keeps_answered contentDirectoryServiceRef "Browse".toList _ (browseValues catalog r)
        List.mem_cons_self hkind.symm hname hdescribed
        (fun hm => browseResult_ok_of_there _ hresult ⟨hm.root, hm.container, hm.item⟩) rfl
        (by decide) hvalues

/-- An action of one value. -/
theorem keeps_value (service : ServiceRef) (name output value : Str) {scpd : Scpd.ScpdRef}
    (hd : (service, scpd) ∈ describedBy contents connections)
    (hkind : service.serviceType.kind = call.serviceType.kind) (hname : call.actionName = name)
    (hbrowse : name ≠ "Browse".toList) (haction : (name, [output]) ∈ interface scpd)
    (hwritable : isName (responseName name) = true ∧ Quotable service.serviceType.fmt ∧
      service.serviceType.fmt.all isChar = true ∧ ∀ n ∈ [output], isName n = true)
    (hchars : value.all isChar = true) :
    Keeps catalog (describedBy contents connections) (.ok call)
      (okResponse (writeActionResponse service.serviceType name [⟨output, value⟩])) :=
  keeps_answered service name [output] [value] hd hkind hname haction
    (fun hm => hbrowse (hname.symm.trans hm.action)) rfl hwritable
    (List.forall_mem_singleton.mpr hchars)

theorem keeps_contentDirectory (h : Describe contents connections) (hchars : XmlTexts catalog)
    (hkind : call.serviceType.kind = "ContentDirectory".toList) :
    Keeps catalog (describedBy contents connections) (.ok call)
      (respond (handleContentDirectory call catalog)) := by
  have hd : (contentDirectoryServiceRef, contents) ∈ describedBy contents connections :=
    List.mem_cons_self
  have hupdate : (u32Display catalog.updateId).all isChar = true := by
    rw [u32Display_eq]
    exact all_isChar_numeral _
  have hmem : ∀ entry ∈ contentDirectoryInterface, entry ∈ interface contents := fun _ he =>
    h.contents.symm ▸ he
  rw [handleContentDirectory]
  split
  · rename_i hname
    exact keeps_browse h hchars hkind hname
  split
  · rename_i hname
    exact keeps_value contentDirectoryServiceRef "GetSystemUpdateID".toList "Id".toList
      (u32Display catalog.updateId) hd hkind.symm hname (by decide) (hmem _ (by decide)) (by decide)
      hupdate
  split
  · rename_i hname
    exact keeps_value contentDirectoryServiceRef "GetSearchCapabilities".toList "SearchCaps".toList []
      hd hkind.symm hname (by decide) (hmem _ (by decide)) (by decide) rfl
  split
  · rename_i hname
    exact keeps_value contentDirectoryServiceRef "GetSortCapabilities".toList "SortCaps".toList []
      hd hkind.symm hname (by decide) (hmem _ (by decide)) (by decide) rfl
  · rename_i hbrowse hupdateId hsearch hsort
    refine keeps_undescribed (undescribed_of_names h (fun _ hm => ?_) fun hother => ?_)
    · simp only [contentDirectoryInterface, List.map_cons, List.map_nil, List.mem_cons,
        List.not_mem_nil, or_false] at hm
      rcases hm with hm | hm | hm | hm
      · exact hbrowse hm
      · exact hsearch hm
      · exact hsort hm
      · exact hupdateId hm
    · exact absurd (hkind.symm.trans hother) (by decide)

theorem keeps_connectionManager (h : Describe contents connections) (hchars : XmlTexts catalog)
    (hkind : call.serviceType.kind = "ConnectionManager".toList) :
    Keeps catalog (describedBy contents connections) (.ok call)
      (respond (handleConnectionManager call catalog)) := by
  have hd : (connectionManagerServiceRef, connections) ∈ describedBy contents connections :=
    List.mem_cons_of_mem _ List.mem_cons_self
  have hmem : ∀ entry ∈ connectionManagerInterface, entry ∈ interface connections := fun _ he =>
    h.connections.symm ▸ he
  have hother : ¬ Missing catalog call := fun hm => absurd (hkind.symm.trans hm.kind) (by decide)
  rw [handleConnectionManager]
  split
  · rename_i hname
    exact keeps_answered connectionManagerServiceRef "GetProtocolInfo".toList
      ["Source".toList, "Sink".toList]
      [writeProtocolInfoList (collectProtocolInfo catalog), []] hd hkind.symm hname
      (hmem _ (by decide)) hother rfl (by decide)
      (List.forall_mem_cons.mpr ⟨all_isChar_source hchars, List.forall_mem_singleton.mpr rfl⟩)
  split
  · rename_i hname
    exact keeps_value connectionManagerServiceRef "GetCurrentConnectionIDs".toList
      "ConnectionIDs".toList "0".toList hd hkind.symm hname (by decide) (hmem _ (by decide))
      (by decide) (by decide)
  · rename_i hinfo hids
    refine keeps_undescribed (undescribed_of_names h (fun hcontents => ?_) fun _ hm => ?_)
    · exact absurd (hkind.symm.trans hcontents) (by decide)
    · simp only [connectionManagerInterface, List.map_cons, List.map_nil, List.mem_cons,
        List.not_mem_nil, or_false] at hm
      rcases hm with hm | hm
      · exact hinfo hm
      · exact hids hm

theorem keeps_control (h : Describe contents connections) (hchars : XmlTexts catalog)
    (soapXml : Str) :
    Keeps catalog (describedBy contents connections) (parseActionRequest soapXml)
      (respond (handleControl soapXml catalog)) := by
  rw [handleControl]
  cases parseActionRequest soapXml with
  | error e => exact keeps_unreadable e
  | ok call =>
      dsimp only
      split
      · rename_i hkind
        exact keeps_contentDirectory h hchars hkind
      · rename_i hcontents
        split
        · rename_i hkind
          exact keeps_connectionManager h hchars hkind
        · rename_i hconnections
          exact keeps_undescribed (undescribed_of_names h (fun hkind => absurd hkind hcontents)
            fun hkind => absurd hkind hconnections)

end

theorem routeRequest_control {shared : SharedRuntimeState} {state : RuntimeState}
    (hcurrent : shared.getCurrent = .ok state) {request : HttpRequest}
    (hmethod : request.method = "POST".toList)
    (hpath : request.path ∈ serviceRefs.map ServiceRef.controlUrl) (fs : FileSystem)
    (depth elapsed : Nat) (now : Int) :
    routeRequest fs depth now elapsed shared request =
      some (.ok (.new (respond (handleControl request.body state.catalog)).statusCode.toNat textXml
        (respond (handleControl request.body state.catalog)).body.bytes), shared) := by
  have hget : "POST".toList ≠ "GET".toList := by decide
  have hpaths : request.path = "/ContentDirectory/control".toList ∨
      request.path = "/ConnectionManager/control".toList := by
    simpa [serviceRefs, contentDirectoryServiceRef, connectionManagerServiceRef] using hpath
  have hrescan : request.path ≠ "/ui/rescan".toList := by
    rintro he
    rw [he] at hpaths
    exact absurd hpaths (by decide)
  have hno : ¬ request.method = "GET".toList := hmethod ▸ hget
  rw [routeRequest, if_neg fun hc => hno hc.1, if_neg fun hc => hno hc.1, if_neg fun hc => hno hc.1,
    if_neg fun hc => hno hc.1, if_neg fun hc => hno hc.1, if_neg fun hc => hrescan hc.2,
    if_pos ⟨hmethod, hpaths⟩, controlResponse, hcurrent]
  rfl

/-- Every control request is answered as the descriptions say that are published at the URLs of the
services: an action that they list gives exactly the values that they name, in their order; one
that they do not list is invalid; and only a browse request for what is not there fails. -/
theorem services_keep_contract (shared : SharedRuntimeState) (state : RuntimeState)
    (hcurrent : shared.getCurrent = .ok state) (hchars : XmlTexts state.catalog) :
    ∃ described, described.map Prod.fst = serviceRefs ∧
      (∀ d ∈ described, Publishes shared d.1 d.2) ∧
      ∀ fs depth now elapsed request, request.method = "POST".toList →
        request.path ∈ serviceRefs.map ServiceRef.controlUrl →
        ∃ response text answer, routeRequest fs depth now elapsed shared request =
            some (.ok response, shared) ∧
          response.body = Str.bytes text ∧ document text = some answer ∧
          Promised state.catalog described (parseActionRequest request.body) response.status
            answer := by
  obtain ⟨contents, hcontentsText, hcontentsChars, hcontents⟩ := contentDirectory_interface
  obtain ⟨connections, hconnectionsText, hconnectionsChars, hconnections⟩ :=
    connectionManager_interface
  refine ⟨describedBy contents connections, rfl, ?_, ?_⟩
  · refine List.forall_mem_cons.mpr ⟨?_, List.forall_mem_singleton.mpr ?_⟩
    · exact publishes_contentDirectory shared hcontentsText hcontentsChars
    · exact publishes_connectionManager shared hconnectionsText hconnectionsChars
  · intro fs depth now elapsed request hmethod hpath
    obtain ⟨answer, hanswer, hpromised⟩ :=
      keeps_control ⟨hcontents, hconnections⟩ hchars request.body
    exact ⟨_, _, answer, routeRequest_control hcurrent hmethod hpath fs depth elapsed now, rfl,
      hanswer, hpromised⟩

/-- A server with the two clips. -/
def clipServer : SharedRuntimeState :=
  .new .default { config := .new [] [] [], catalog := twoClips, media := [], webUiEnabled := false } 0 0

theorem services_keep_contract_twoClips :
    ∃ described, described.map Prod.fst = serviceRefs ∧
      (∀ d ∈ described, Publishes clipServer d.1 d.2) ∧
      ∀ fs depth now elapsed request, request.method = "POST".toList →
        request.path ∈ serviceRefs.map ServiceRef.controlUrl →
        ∃ response text answer, routeRequest fs depth now elapsed clipServer request =
            some (.ok response, clipServer) ∧
          response.body = Str.bytes text ∧ document text = some answer ∧
          Promised twoClips described (parseActionRequest request.body) response.status answer :=
  services_keep_contract clipServer _ rfl (by
    unfold XmlTexts
    decide)

end RustyCastle.Server
