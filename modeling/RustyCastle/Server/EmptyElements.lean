import RustyCastle.Server.Listings
import RustyCastle.Upnp.SoapElements

/-!
The two forms of an empty element in a control request. Where a tag closes itself the action is
not found and an argument is passed over, so the request is answered as one without it.
-/

namespace RustyCastle.Server
open Foundation RustyCastle.Upnp RustyCastle.UpnpAv

/-! What a browse request asks for -/

/-- The first value of the name. -/
def valueOf (args : List ArgumentRef) (name : Str) : Option Str :=
  (args.find? fun arg => arg.name == name).map ArgumentRef.value

theorem valueOf_append (before after : List ArgumentRef) (name : Str) :
    valueOf (before ++ after) name = (valueOf before name).or (valueOf after name) := by
  rw [valueOf, List.find?_append, Option.map_or]
  rfl

theorem valueOf_cons (a : ArgumentRef) (args : List ArgumentRef) (name : Str) :
    valueOf (a :: args) name = if a.name = name then some a.value else valueOf args name := by
  rw [valueOf, List.find?_cons]
  by_cases h : a.name = name
  · simp [h]
  · have hfalse : (a.name == name) = false := beq_false_of_ne h
    simp only [hfalse, if_neg h, valueOf]

def askedId (args : List ArgumentRef) : Str := (valueOf args "ObjectID".toList).getD "0".toList

def askedFlag (args : List ArgumentRef) : BrowseFlag :=
  ((valueOf args "BrowseFlag".toList).bind BrowseFlag.parse).getD .directChildren

/-- Two pairs of an identifier and a flag that a catalog answers with the same listing. -/
def ListedAlike (catalog : StaticCatalog) (a b : Str × BrowseFlag) : Prop :=
  (listing catalog a.1 a.2).map shown = (listing catalog b.1 b.2).map shown

theorem map_eq_map_iff {ε α β : Type} {f : α → β} (hf : f.Injective) {x y : Except ε α} :
    x.map f = y.map f ↔ x = y := by
  cases x <;> cases y <;> simp [Except.map, hf.eq_iff]

/-- Two calls of the Browse action have one answer exactly when the catalog lists what they ask
for alike. -/
theorem handleControl_eq_iff {soapXml soapXml' : Str} {action action' : ActionRequestRef}
    (h : CallsBrowse soapXml action) (h' : CallsBrowse soapXml' action') (catalog : StaticCatalog) :
    handleControl soapXml catalog = handleControl soapXml' catalog ↔
      ListedAlike catalog (askedId action.arguments, askedFlag action.arguments)
        (askedId action'.arguments, askedFlag action'.arguments) := by
  have hanswer : Function.Injective fun r : Str × UInt32 × UInt32 =>
      okResponse (writeActionResponse contentDirectoryService "Browse".toList
        (browseArguments r.1 (Decimal.numeral r.2.1.toNat) (Decimal.numeral r.2.2.toNat)
          (Decimal.numeral catalog.updateId.toNat))) := by
    rintro ⟨result, number, total⟩ ⟨result', number', total'⟩ heq
    obtain ⟨hresult, hnumber, htotal, -⟩ :=
      browseArguments_injective (congrArg ControlResponse.body heq)
    exact Prod.ext hresult (Prod.ext (UInt32.toNat_inj.mp (Decimal.numeral_injective hnumber))
      (UInt32.toNat_inj.mp (Decimal.numeral_injective htotal)))
  have hcounts : Function.Injective fun r : Str × UInt32 => (r.1, r.2, r.2) := by
    rintro ⟨result, count⟩ ⟨result', count'⟩ heq
    simpa using heq
  rw [handleControl_callsBrowse h, handleControl_callsBrowse h', map_eq_map_iff hanswer,
    browseResult_eq_shown, browseResult_eq_shown, map_eq_map_iff hcounts]
  rfl

/-- Other actions do not depend on their arguments. -/
theorem handleControl_arguments {soapXml soapXml' inner inner' : Str} {service : ServiceTypeRef}
    {name : Str} (h : parseActionRequest soapXml = .ok ⟨service, name, inner⟩)
    (h' : parseActionRequest soapXml' = .ok ⟨service, name, inner'⟩)
    (hbrowse : ¬ (service.kind = "ContentDirectory".toList ∧ name = "Browse".toList))
    (catalog : StaticCatalog) : handleControl soapXml catalog = handleControl soapXml' catalog := by
  rw [handleControl, handleControl, h, h']
  dsimp only
  by_cases hkind : service.kind = "ContentDirectory".toList
  · have hname : name ≠ "Browse".toList := fun hn => hbrowse ⟨hkind, hn⟩
    rw [if_pos hkind, if_pos hkind, handleContentDirectory, handleContentDirectory, if_neg hname,
      if_neg hname]
  · rw [if_neg hkind, if_neg hkind]
    rfl

theorem browseResult_error {catalog : StaticCatalog} {objectId : Str} {flag : BrowseFlag}
    {error : ControlError} (h : browseResult catalog objectId flag = .error error) :
    error = .noSuchObject := by
  unfold browseResult at h
  grind

/-- A request that is parsed is not answered as a bad one. -/
theorem handleControl_ne_badRequest {soapXml : Str} {action : ActionRequestRef}
    (h : parseActionRequest soapXml = .ok action) (catalog : StaticCatalog) :
    handleControl soapXml catalog ≠ .error .badRequest := by
  by_cases hbrowse : action.actionName = "Browse".toList
  · by_cases hkind : action.serviceType.kind = "ContentDirectory".toList
    · rw [handleControl_callsBrowse ⟨h, hkind, hbrowse⟩]
      cases hresult : browseResult catalog (requestedId action) (requestedFlag action) with
      | error error =>
          rw [browseResult_error hresult]
          exact fun heq => by cases heq
      | ok r => exact fun heq => by cases heq
    · rw [handleControl, h]
      dsimp only
      rw [if_neg hkind, handleConnectionManager]
      split_ifs <;> exact fun heq => by cases heq
  · rw [handleControl, h]
    dsimp only
    rw [handleContentDirectory, if_neg hbrowse, handleConnectionManager]
    split_ifs <;> exact fun heq => by cases heq

/-! The two forms -/

/-- An empty argument with a start tag and an end tag. -/
def emptyValue (name : Str) : ArgumentRef := { name := name, value := [] }

theorem valueOf_insert_of_ne {name name' : Str} (hne : name ≠ name') (before after : List ArgumentRef) :
    valueOf (before ++ emptyValue name :: after) name' = valueOf (before ++ after) name' := by
  rw [valueOf_append, valueOf_append, valueOf_cons, if_neg (show (emptyValue name).name ≠ name' from hne)]

theorem valueOf_insert_of_some {before : List ArgumentRef} {name : Str} (h : valueOf before name ≠ none)
    (after : List ArgumentRef) (name' : Str) :
    valueOf (before ++ emptyValue name :: after) name' = valueOf (before ++ after) name' := by
  by_cases hne : name = name'
  · subst hne
    obtain ⟨value, hvalue⟩ := Option.ne_none_iff_exists'.mp h
    rw [valueOf_append, valueOf_append, hvalue, Option.some_or, Option.some_or]
  · exact valueOf_insert_of_ne hne before after

theorem valueOf_insert_of_none {before : List ArgumentRef} {name : Str} (h : valueOf before name = none)
    (after : List ArgumentRef) :
    valueOf (before ++ emptyValue name :: after) name = some [] ∧
      valueOf (before ++ after) name = valueOf after name := by
  rw [valueOf_append, valueOf_append, valueOf_cons, h, Option.none_or, Option.none_or]
  exact ⟨if_pos rfl, rfl⟩

/-- The arguments before and after an empty one between which it makes no difference. -/
def HarmlessBetween (catalog : StaticCatalog) (before after : List ArgumentRef) (name : Str) : Prop :=
  (name ≠ "ObjectID".toList ∧ name ≠ "BrowseFlag".toList) ∨
  valueOf before name ≠ none ∨
  (name = "ObjectID".toList ∧
    ListedAlike catalog ([], askedFlag (before ++ after)) (askedId after, askedFlag (before ++ after))) ∨
  (name = "BrowseFlag".toList ∧
    ListedAlike catalog (askedId (before ++ after), .directChildren)
      (askedId (before ++ after), askedFlag after))

theorem listedAlike_insert_iff (catalog : StaticCatalog) (before after : List ArgumentRef) (name : Str) :
    ListedAlike catalog
        (askedId (before ++ emptyValue name :: after), askedFlag (before ++ emptyValue name :: after))
        (askedId (before ++ after), askedFlag (before ++ after)) ↔
      HarmlessBetween catalog before after name := by
  have hsame : (∀ name' ∈ ["ObjectID".toList, "BrowseFlag".toList],
      valueOf (before ++ emptyValue name :: after) name' = valueOf (before ++ after) name') →
        ListedAlike catalog
          (askedId (before ++ emptyValue name :: after), askedFlag (before ++ emptyValue name :: after))
          (askedId (before ++ after), askedFlag (before ++ after)) := by
    intro h
    rw [askedId, askedFlag, h _ (by simp), h _ (by simp)]
    rfl
  have hdiffer : "ObjectID".toList ≠ "BrowseFlag".toList := by decide
  unfold HarmlessBetween
  by_cases hsome : valueOf before name = none
  · obtain ⟨hinsert, hwithout⟩ := valueOf_insert_of_none hsome after
    by_cases hid : name = "ObjectID".toList
    · subst hid
      have hflag := valueOf_insert_of_ne hdiffer before after
      simp only [ne_eq, not_true_eq_false, false_and, hsome, hdiffer, or_false, false_or, true_and]
      rw [askedId, hinsert, askedFlag, hflag, askedId, hwithout]
      rfl
    · by_cases hflag : name = "BrowseFlag".toList
      · subst hflag
        have hid' := valueOf_insert_of_ne hdiffer.symm before after
        have hparse : BrowseFlag.parse [] = none := by decide
        simp only [ne_eq, not_true_eq_false, and_false, hsome, hdiffer.symm, false_and, false_or,
          true_and]
        rw [askedFlag, hinsert, askedId, hid', Option.bind_some, hparse]
        rw [show askedFlag (before ++ after) = askedFlag after by rw [askedFlag, hwithout, askedFlag]]
        rfl
      · refine iff_of_true (hsame ?_) (.inl ⟨hid, hflag⟩)
        simp only [List.forall_mem_cons]
        exact ⟨valueOf_insert_of_ne hid .., valueOf_insert_of_ne hflag .., nofun⟩
  · exact iff_of_true (hsame fun name' _ => valueOf_insert_of_some hsome after name')
      (.inr (.inl hsome))

/-- An empty element of a request: the action, or an argument with what is around it. -/
inductive EmptyElement where
  | action (frame : Frame)
  | argument (frame : Frame) (before : List Element) (element : Element) (after : List Element)
      (blank : Str)

namespace EmptyElement

/-- The request with a start tag and an end tag for the element. -/
def opened : EmptyElement → Str
  | .action frame => frame.text []
  | .argument frame before element after blank =>
      Request.text ⟨frame, before ++ element :: after, blank⟩

/-- The request with one tag for the element, which closes itself. -/
def selfClosed : EmptyElement → Str
  | .action frame =>
      frame.wrap (frame.beforeAction ++ (selfClosingTag frame.action frame.actionAttrs ++
        frame.beforeBodyEnd))
  | .argument frame before element after blank =>
      Request.text ⟨frame, before ++ { element with text := none } :: after, blank⟩

def WellFormed : EmptyElement → Prop
  | .action frame => frame.WellFormed ∧ frame.Legible
  | .argument frame before element after blank =>
      Request.WellFormed ⟨frame, before ++ element :: after, blank⟩ ∧ element.text = some []

/-- Where the form of the element makes no difference: nowhere for the action, and for an argument
in other actions than Browse, or where Browse does not look at it or would list the same. -/
def Harmless (catalog : StaticCatalog) : EmptyElement → Prop
  | .action _ => False
  | .argument frame before element after _ =>
      ¬ (frame.service.kind = "ContentDirectory".toList ∧ frame.action.name = "Browse".toList) ∨
        HarmlessBetween catalog (before.filterMap Element.read) (after.filterMap Element.read)
          element.name.name

end EmptyElement

theorem Request.WellFormed.selfClosed {frame : Frame} {before after : List Element} {e : Element}
    {blank : Str} (h : Request.WellFormed ⟨frame, before ++ e :: after, blank⟩) :
    Request.WellFormed ⟨frame, before ++ { e with text := none } :: after, blank⟩ := by
  have helement := h.elements e (by simp)
  have hname := h.elements_ne e (by simp)
  have hall : ∀ {p : Element → Prop}, (∀ x ∈ before ++ e :: after, p x) → p { e with text := none } →
      ∀ x ∈ before ++ { e with text := none } :: after, p x := by
    intro p hp he x hx
    rcases List.mem_append.mp hx with hx | hx
    · exact hp x (List.mem_append_left _ hx)
    · rcases List.mem_cons.mp hx with rfl | hx
      · exact he
      · exact hp x (List.mem_append_right _ (List.mem_cons_of_mem _ hx))
  exact
    { frame := h.frame
      legible := h.legible
      elements := hall h.elements
        { gap := helement.gap
          name := helement.name
          kept := helement.kept
          attrs := helement.attrs
          attrs_end := helement.attrs_end
          text := nofun }
      elements_ne := hall h.elements_ne hname
      blank := h.blank }

/-- The form of an empty element makes no difference to the answer exactly where it is harmless. -/
theorem handleControl_emptyElement_iff {x : EmptyElement} (h : x.WellFormed) (catalog : StaticCatalog) :
    handleControl x.opened catalog = handleControl x.selfClosed catalog ↔ x.Harmless catalog := by
  cases x with
  | action frame =>
      obtain ⟨hframe, hlegible⟩ := h
      have hopened : parseActionRequest (frame.text []) = .ok ⟨frame.service, frame.action.name, []⟩ := by
        have hempty : ∀ name, NoEnd name [] := noEnd_blank isBlank_nil
        rw [Frame.parseActionRequest_text hframe hlegible.headKept (hempty _) (hempty _),
          hlegible.read_eq]
      have hclosed : handleControl (EmptyElement.action frame).selfClosed catalog = .error .badRequest := by
        rw [handleControl, EmptyElement.selfClosed, Frame.parseActionRequest_selfClosing hframe]
      refine iff_of_false (fun heq => ?_) id
      exact handleControl_ne_badRequest hopened catalog (heq.trans hclosed)
  | argument frame before element after blank =>
      obtain ⟨hrequest, hempty⟩ := h
      have hclosed := Request.WellFormed.selfClosed hrequest
      have hparse := Request.parseActionRequest_text hrequest
      have hparse' := Request.parseActionRequest_text hclosed
      by_cases hbrowse : frame.service.kind = "ContentDirectory".toList ∧
          frame.action.name = "Browse".toList
      · have harguments := Request.arguments_inner hrequest
        have harguments' := Request.arguments_inner hclosed
        have hread : element.read = some (emptyValue element.name.name) := by
          rw [Element.read, hempty]
          rfl
        rw [List.filterMap_append, List.filterMap_cons, hread] at harguments
        rw [List.filterMap_append, List.filterMap_cons] at harguments'
        have heq := handleControl_eq_iff ⟨hparse, hbrowse.1, hbrowse.2⟩ ⟨hparse', hbrowse.1, hbrowse.2⟩
          catalog
        simp only [ActionRequestRef.arguments, harguments, harguments'] at heq
        refine heq.trans ((listedAlike_insert_iff ..).trans ?_)
        exact (or_iff_right (not_not_intro hbrowse)).symm
      · exact iff_of_true (handleControl_arguments hparse hparse' hbrowse catalog) (.inl hbrowse)

/-! A Browse request with an empty argument -/

def emptyElement (name : Str) : Element where
  gap := []
  name := ⟨none, name⟩
  attrs := []
  text := some []

/-- What a call of Browse is answered, by its elements. -/
theorem handleControl_request {r : Request} (h : r.WellFormed)
    (hkind : r.frame.service.kind = "ContentDirectory".toList)
    (hname : r.frame.action.name = "Browse".toList) (catalog : StaticCatalog) :
    handleControl r.text catalog =
      (browseResult catalog (askedId (r.elements.filterMap Element.read))
        (askedFlag (r.elements.filterMap Element.read))).map fun r =>
          okResponse (writeActionResponse contentDirectoryService "Browse".toList
            (browseArguments r.1 (Decimal.numeral r.2.1.toNat) (Decimal.numeral r.2.2.toNat)
              (Decimal.numeral catalog.updateId.toNat))) := by
  rw [handleControl_callsBrowse ⟨Request.parseActionRequest_text h, hkind, hname⟩,
    ← Request.arguments_inner h]
  rfl

/-- A call of Browse with one argument, which is empty. -/
def emptyArgument (name : Str) : EmptyElement := .argument browseFrame [] (emptyElement name) [] []

theorem emptyArgument_wellFormed {name : Str} (hname : IsXmlNcName name)
    (hspace : ∀ c ∈ name, Str.isWhitespace c = false) (haction : name ≠ "Browse".toList)
    (hbody : name ≠ "Body".toList) : (emptyArgument name).WellFormed := by
  refine ⟨?_, rfl⟩
  exact
    { frame := browseFrame_wellFormed
      legible := browseFrame_legible
      elements := by
        intro e he
        obtain rfl := List.mem_singleton.mp he
        exact ⟨isBlank_nil, ⟨nofun, hname⟩, kept_of_letters hspace, isAttrs_nil, by simp [emptyElement],
          by simp [emptyElement]⟩
      elements_ne := by
        intro e he
        obtain rfl := List.mem_singleton.mp he
        exact ⟨haction, hbody⟩
      blank := isBlank_nil }

theorem handleControl_emptySortCriteria :
    handleControl (emptyArgument "SortCriteria".toList).opened twoClips =
      handleControl (emptyArgument "SortCriteria".toList).selfClosed twoClips :=
  (handleControl_emptyElement_iff
    (emptyArgument_wellFormed (by decide) (by decide) (by decide) (by decide)) twoClips).mpr
    (.inr (.inl ⟨by decide, by decide⟩))

/-- An empty identifier names no object and is not taken for the root; without the argument the
root is listed. The action alone is a call with a start tag and an end tag, and a bad request
as one tag. -/
theorem emptyElements_differ :
    (emptyArgument "ObjectID".toList).WellFormed ∧
      handleControl (emptyArgument "ObjectID".toList).opened twoClips = .error .noSuchObject ∧
      (∃ response,
        handleControl (emptyArgument "ObjectID".toList).selfClosed twoClips = .ok response) ∧
      (EmptyElement.action browseFrame).WellFormed ∧
      (∃ response, handleControl (EmptyElement.action browseFrame).opened twoClips = .ok response) ∧
      handleControl (EmptyElement.action browseFrame).selfClosed twoClips = .error .badRequest := by
  have hid : (emptyArgument "ObjectID".toList).WellFormed :=
    emptyArgument_wellFormed (by decide) (by decide) (by decide) (by decide)
  refine ⟨hid, ?_, ?_, ⟨browseFrame_wellFormed, browseFrame_legible⟩, ?_, ?_⟩
  · refine (handleControl_request hid.1 rfl rfl twoClips).trans ?_
    have hresult : browseResult twoClips [] .directChildren = .error .noSuchObject := by decide
    exact congrArg (Except.map _) hresult
  · exact ⟨_, handleControl_request (Request.WellFormed.selfClosed hid.1) rfl rfl twoClips⟩
  · exact ⟨_, handleControl_request browseRequest_wellFormed rfl rfl twoClips⟩
  · rw [handleControl, EmptyElement.selfClosed, Frame.parseActionRequest_selfClosing browseFrame_wellFormed]

end RustyCastle.Server
