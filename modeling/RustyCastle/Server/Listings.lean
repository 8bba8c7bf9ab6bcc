import RustyCastle.Server.Addressing
import RustyCastle.UpnpAv.BrowseReading

/-!
The objects that a browse request lists, and when a client reads their titles
from the response.
-/

namespace RustyCastle.Server
open Foundation Foundation.Xml RustyCastle.Upnp RustyCastle.UpnpAv

/-- The objects that a request lists. -/
def listing (catalog : StaticCatalog) (objectId : Str) : BrowseFlag → Except ControlError (List ObjectRef)
  | .metadata =>
      if objectId = "0".toList then .ok [rootObject catalog]
      else
        match catalog.container objectId, catalog.item objectId with
        | some container, _ => .ok [objectForContainer catalog container]
        | none, some item => .ok [itemObject item]
        | none, none => .error .noSuchObject
  | .directChildren =>
      if objectId = "0".toList ∨ (catalog.container objectId).isSome then
        .ok (childrenObjects catalog objectId)
      else if (catalog.item objectId).isSome then .ok []
      else .error .noSuchObject

/-- What a response shows of the objects listed. -/
def shown (objects : List ObjectRef) : Str × UInt32 :=
  (didlToString objects, .ofNat objects.length)

/-- A browse request is answered with the objects listed, counted twice. -/
theorem browseResult_eq_shown (catalog : StaticCatalog) (objectId : Str) (flag : BrowseFlag) :
    browseResult catalog objectId flag =
      ((listing catalog objectId flag).map shown).map fun r => (r.1, r.2, r.2) := by
  have hcount : ∀ p, catalog.childCount p = .ofNat (childrenObjects catalog p).length := fun p => by
    rw [length_childrenObjects, StaticCatalog.childCount]
  by_cases hroot : objectId = "0".toList
  · subst hroot
    cases flag with
    | metadata => rfl
    | directChildren => exact congrArg (fun n => Except.ok (_, n, n)) (hcount _)
  · cases flag with
    | metadata =>
        rw [browseResult, if_neg hroot, listing, if_neg hroot]
        cases catalog.container objectId with
        | some container => rfl
        | none =>
            cases catalog.item objectId with
            | some item => rfl
            | none => rfl
    | directChildren =>
        have hor : objectId = "0".toList ∨ (catalog.container objectId).isSome ↔
            (catalog.container objectId).isSome = true := or_iff_right hroot
        rw [browseResult, if_neg hroot, listing]
        dsimp only
        by_cases hcontainer : (catalog.container objectId).isSome = true
        · rw [if_pos hcontainer, if_pos (hor.mpr hcontainer)]
          exact congrArg (fun n => Except.ok (_, n, n)) (hcount _)
        · rw [if_neg hcontainer, if_neg (hor.not.mpr hcontainer)]
          split <;> rfl

theorem browseResult_eq_listing (catalog : StaticCatalog) (objectId : Str) (flag : BrowseFlag) :
    (browseResult catalog objectId flag).map Prod.fst =
      (listing catalog objectId flag).map didlToString := by
  rw [browseResult_eq_shown]
  cases listing catalog objectId flag <;> rfl

theorem listing_children {catalog : StaticCatalog} {p : Str} (h : Browsable catalog p) :
    listing catalog p .directChildren = .ok (childrenObjects catalog p) := if_pos h

/-- A listing has the root object and objects of the catalog only. -/
theorem mem_listing {catalog : StaticCatalog} {objectId : Str} {flag : BrowseFlag}
    {objects : List ObjectRef} (h : listing catalog objectId flag = .ok objects) :
    ∀ object ∈ objects, object = rootObject catalog ∨ object ∈ catalogObjects catalog := by
  cases flag with
  | metadata =>
      rw [listing] at h
      split at h
      · cases h
        exact fun object ho => .inl (List.mem_singleton.mp ho)
      · split at h
        · rename_i container hfind
          cases h
          intro object ho
          rw [List.mem_singleton.mp ho]
          exact .inr (List.mem_append_left _ (List.mem_map_of_mem (List.mem_of_find?_eq_some hfind)))
        · rename_i item _ hfind
          cases h
          intro object ho
          rw [List.mem_singleton.mp ho]
          exact .inr (List.mem_append_right _ (List.mem_map_of_mem (List.mem_of_find?_eq_some hfind)))
        · cases h
  | directChildren =>
      rw [listing] at h
      split at h
      · cases h
        intro object ho
        rcases List.mem_append.mp ho with ho | ho
        · obtain ⟨c, hc, rfl⟩ := List.mem_map.mp ho
          exact .inr (List.mem_append_left _ (List.mem_map_of_mem (List.mem_of_mem_filter hc)))
        · obtain ⟨i, hi, rfl⟩ := List.mem_map.mp ho
          exact .inr (List.mem_append_right _ (List.mem_map_of_mem (List.mem_of_mem_filter hi)))
      · split at h
        · cases h
          simp
        · cases h

/-! Requests -/

def requestedId (action : ActionRequestRef) : Str := (arg action "ObjectID".toList).getD "0".toList

def requestedFlag (action : ActionRequestRef) : BrowseFlag :=
  ((arg action "BrowseFlag".toList).bind BrowseFlag.parse).getD .directChildren

/-- A control request, well formed or not, that is taken as a call of the Browse action. -/
structure CallsBrowse (soapXml : Str) (action : ActionRequestRef) : Prop where
  parsed : parseActionRequest soapXml = .ok action
  kind_eq : action.serviceType.kind = "ContentDirectory".toList
  action_eq : action.actionName = "Browse".toList

theorem IsBrowse.callsBrowse {m : Message} (h : IsBrowse m) :
    CallsBrowse m.text ⟨m.service, m.action.name, m.inner⟩ where
  parsed := Message.parseActionRequest_text h.toValid
  kind_eq := h.kind_eq
  action_eq := h.action_eq

/-- Every request that lists objects is answered, and the titles are read from the answer. -/
def EveryListingRead (catalog : StaticCatalog) : Prop :=
  ∀ soapXml action, CallsBrowse soapXml action → ∀ objects,
    listing catalog (requestedId action) (requestedFlag action) = .ok objects →
      ∃ response, handleControl soapXml catalog = .ok response ∧ TitlesRead response.body objects

/-- What a call of the Browse action is answered. -/
theorem handleControl_callsBrowse {soapXml : Str} {action : ActionRequestRef}
    (ha : CallsBrowse soapXml action) (catalog : StaticCatalog) :
    handleControl soapXml catalog =
      (browseResult catalog (requestedId action) (requestedFlag action)).map fun r =>
        okResponse (writeActionResponse contentDirectoryService "Browse".toList
          (browseArguments r.1 (Decimal.numeral r.2.1.toNat) (Decimal.numeral r.2.2.toNat)
            (Decimal.numeral catalog.updateId.toNat))) := by
  rw [handleControl, ha.parsed]
  dsimp only
  rw [if_pos ha.kind_eq, handleContentDirectory, if_pos ha.action_eq, browse]
  change (browseResult catalog (requestedId action) (requestedFlag action) >>= _) = _
  cases browseResult catalog (requestedId action) (requestedFlag action) with
  | error e => rfl
  | ok r => simp only [bind, Except.bind, Except.map, writeBrowseResponse, u32Display_eq]

/-- The answer to a request that lists objects. -/
theorem handleControl_listing {catalog : StaticCatalog} {soapXml : Str} {action : ActionRequestRef}
    (ha : CallsBrowse soapXml action) {objects : List ObjectRef}
    (h : listing catalog (requestedId action) (requestedFlag action) = .ok objects) :
    ∃ number total : Nat, handleControl soapXml catalog =
      .ok (okResponse (writeActionResponse contentDirectoryService "Browse".toList
        (browseArguments (didlToString objects) (Decimal.numeral number) (Decimal.numeral total)
          (Decimal.numeral catalog.updateId.toNat)))) := by
  have hresult := browseResult_eq_listing catalog (requestedId action) (requestedFlag action)
  rw [h] at hresult
  rw [handleControl_callsBrowse ha]
  cases hr : browseResult catalog (requestedId action) (requestedFlag action) with
  | error e =>
      rw [hr] at hresult
      cases hresult
  | ok r =>
      rw [hr] at hresult
      have hfst : r.1 = didlToString objects := Except.ok.inj hresult
      refine ⟨r.2.1.toNat, r.2.2.toNat, ?_⟩
      rw [Except.map, hfst]

/-- The objects of a catalog are read where the values that are not escaped need no escape. -/
theorem titlesRead_of_listing {catalog : StaticCatalog}
    (hreadable : ∀ object, object = rootObject catalog ∨ object ∈ catalogObjects catalog →
      object.withLineEnds.Readable)
    {soapXml : Str} {action : ActionRequestRef} (ha : CallsBrowse soapXml action)
    {objects : List ObjectRef}
    (h : listing catalog (requestedId action) (requestedFlag action) = .ok objects) :
    (∃ response, handleControl soapXml catalog = .ok response ∧ TitlesRead response.body objects) ↔
      ∀ object ∈ objects, (∀ s ∈ object.texts, s.all isChar = true) ∧ '\r' ∉ object.title := by
  obtain ⟨number, total, hanswer⟩ := handleControl_listing ha h
  have hnumber : ∀ s ∈ [Decimal.numeral number, Decimal.numeral total,
      Decimal.numeral catalog.updateId.toNat], s.all isChar = true := by
    simp only [List.forall_mem_cons, all_isChar_numeral, List.not_mem_nil, false_implies,
      implies_true, and_self]
  have hobjects : ∀ object ∈ objects, object.withLineEnds.Readable := fun object ho =>
    hreadable object (mem_listing h object ho)
  rw [← titlesRead_iff hnumber hobjects, hanswer]
  constructor
  · rintro ⟨response, hresponse, hread⟩
    cases hresponse
    exact hread
  · exact fun hread => ⟨_, rfl, hread⟩

/-- A request that asks for the children of an object lists them. -/
theorem AsksChildren.listing {catalog : StaticCatalog} {m : Message} {p : Str} {s c : UInt32}
    (h : AsksChildren m p s c) (hp : Browsable catalog p) :
    Server.listing catalog (requestedId ⟨m.service, m.action.name, m.inner⟩)
      (requestedFlag ⟨m.service, m.action.name, m.inner⟩) = .ok (childrenObjects catalog p) := by
  have hflag : BrowseFlag.parse "BrowseDirectChildren".toList = some .directChildren := by decide
  rw [requestedId, requestedFlag, arg_message h.toValid, arg_message h.toValid, h.objectId, h.flag,
    Option.bind_some, hflag]
  exact listing_children hp

end RustyCastle.Server
