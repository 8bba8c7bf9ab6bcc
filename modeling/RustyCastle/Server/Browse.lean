import Mathlib.Data.List.Flatten
import RustyCastle.Server.Control
import RustyCastle.Upnp.SoapReading
import RustyCastle.UpnpAv.DidlReading

/-!
Browse requests and the listings they get. The answer to a request for the
direct children is the whole list, whatever index and count the request names.
-/

namespace RustyCastle.Server
open Foundation RustyCastle.Upnp RustyCastle.UpnpAv

/-! Requests -/

/-- The raw text of the first argument of a name. -/
def argumentText (m : Message) (name : Str) : Option Str :=
  (m.arguments.find? fun a => a.name.name == name).map ArgumentElement.text

/-- A message that calls the Browse action of the ContentDirectory. -/
structure IsBrowse (m : Message) : Prop extends m.Valid where
  kind_eq : m.service.kind = "ContentDirectory".toList
  action_eq : m.action.name = "Browse".toList

theorem find_read (as : List ArgumentElement) (name : Str) :
    ((as.map ArgumentElement.read).find? fun arg => arg.name == name).map ArgumentRef.value =
      ((as.find? fun a => a.name.name == name).map ArgumentElement.text).map Str.trim := by
  rw [List.find?_map, Option.map_map, Option.map_map]
  rfl

theorem arg_message {m : Message} (h : m.Valid) (actionName name : Str) :
    arg ⟨m.service, actionName, m.inner⟩ name = (argumentText m name).map Str.trim := by
  rw [arg, ActionRequestRef.arguments, Message.arguments_inner h, find_read, argumentText]

/-- What a browse request is answered. -/
theorem handleControl_browse {m : Message} (h : IsBrowse m) (catalog : StaticCatalog) :
    handleControl m.text catalog =
      (browseResult catalog (((argumentText m "ObjectID".toList).map Str.trim).getD "0".toList)
        ((((argumentText m "BrowseFlag".toList).map Str.trim).bind BrowseFlag.parse).getD
          .directChildren)).map fun r =>
        okResponse (writeActionResponse contentDirectoryService "Browse".toList
          (browseArguments r.1 (Decimal.numeral r.2.1.toNat) (Decimal.numeral r.2.2.toNat)
            (Decimal.numeral catalog.updateId.toNat))) := by
  rw [handleControl, Message.parseActionRequest_text h.toValid]
  simp only [h.kind_eq, if_true, handleContentDirectory, h.action_eq, browse, arg_message h.toValid]
  cases browseResult catalog (((argumentText m "ObjectID".toList).map Str.trim).getD "0".toList)
      ((((argumentText m "BrowseFlag".toList).map Str.trim).bind BrowseFlag.parse).getD
        .directChildren) with
  | error e => rfl
  | ok r =>
      simp only [bind, Except.bind, Except.map, writeBrowseResponse, u32Display_eq]

/-! The request that a control point usually writes -/

def plainArgument (name text : Str) : ArgumentElement where
  gap := []
  name := ⟨none, name⟩
  text := text

def browseMessage (objectId flag : Str) (startingIndex requestedCount : UInt32) : Message where
  declaration := some " version=\"1.0\"".toList
  start := []
  envelope := some "s".toList
  envelopeAttrs := " xmlns:s=\"http://schemas.xmlsoap.org/soap/envelope/\"".toList
  beforeBody := []
  body := some "s".toList
  bodyAttrs := []
  beforeAction := []
  action := ⟨some "u".toList, "Browse".toList⟩
  declarations :=
    [{ gap := [' ']
       pre := some "u".toList
       left := []
       right := []
       quote := '"'
       value := contentDirectoryService.fmt }]
  tail := []
  arguments :=
    [plainArgument "ObjectID".toList objectId, plainArgument "BrowseFlag".toList flag,
      plainArgument "Filter".toList ['*'],
      plainArgument "StartingIndex".toList (Decimal.numeral startingIndex.toNat),
      plainArgument "RequestedCount".toList (Decimal.numeral requestedCount.toNat),
      plainArgument "SortCriteria".toList []]
  beforeActionEnd := []
  beforeBodyEnd := []
  beforeEnvelopeEnd := []
  finish := []
  service := contentDirectoryService

theorem plainArgument_valid {name text : Str} (hname : IsNcName name) (htext : '<' ∉ text) :
    (plainArgument name text).Valid where
  gap := nofun
  name := ⟨nofun, hname⟩
  text := htext

instance (s : Str) : Decidable (IsNcName s) :=
  decidable_of_iff (Xml.isName s = true ∧ ':' ∉ s ∧ ∀ c ∈ s, Str.isWhitespace c = false)
    ⟨fun h => ⟨h.1, h.2.1, h.2.2⟩, fun h => ⟨h.name, h.colon, h.space⟩⟩

theorem browseMessage_isBrowse {objectId flag : Str} (hid : '<' ∉ objectId) (hflag : '<' ∉ flag)
    (startingIndex requestedCount : UInt32) :
    IsBrowse (browseMessage objectId flag startingIndex requestedCount) := by
  have hs : ∀ p ∈ some "s".toList, IsNcName p := by decide
  have hu : ∀ p ∈ some "u".toList, IsNcName p ∧ Str.find "xmlns".toList p = none := by decide
  have hdeclaration : " version=\"1.0\"".toList ≠ [] ∧ IsAttrs " version=\"1.0\"".toList :=
    ⟨by decide, by decide, by decide, by decide⟩
  have henvelope : IsAttrs " xmlns:s=\"http://schemas.xmlsoap.org/soap/envelope/\"".toList :=
    ⟨by decide, by decide, by decide⟩
  have haction : IsNcName "Browse".toList ∧ "Browse".toList ≠ "Body".toList := by decide
  have hspace : IsGap [' '] := by
    unfold IsGap
    decide
  have hvalue : '"' ∉ contentDirectoryService.fmt ∧ '\'' ∉ contentDirectoryService.fmt ∧
      '<' ∉ contentDirectoryService.fmt ∧ '>' ∉ contentDirectoryService.fmt := by decide
  have hxmlns : Str.find "xmlns".toList contentDirectoryService.fmt = none := by decide
  have hservice : ':' ∉ contentDirectoryService.domain ∧ ':' ∉ contentDirectoryService.kind := by
    decide
  have hnames : ∀ name ∈ ["ObjectID".toList, "BrowseFlag".toList, "Filter".toList,
      "StartingIndex".toList, "RequestedCount".toList, "SortCriteria".toList],
      name ≠ "Browse".toList ∧ name ≠ "Body".toList := by decide
  have hnumeral : ∀ n, '<' ∉ Decimal.numeral n := Decimal.notMem_numeral (by decide)
  have hvalid : (browseMessage objectId flag startingIndex requestedCount).Valid :=
    { declaration := by
        rintro _ ⟨⟩
        exact hdeclaration
      start := nofun
      envelope := hs
      envelopeAttrs := henvelope
      beforeBody := nofun
      body := hs
      bodyAttrs := isAttrs_nil
      beforeAction := nofun
      action := ⟨fun p hp => (hu p hp).1, haction.1⟩
      action_ne_body := haction.2
      declarations := by
        rintro _ (_ | ⟨_, ⟨⟩⟩)
        exact ⟨hspace, List.cons_ne_nil _ _, hu, nofun, nofun, .inl rfl, hvalue, hxmlns⟩
      tail := nofun
      service := rfl
      domain := hservice.1
      kind := hservice.2
      arguments := by
        simp only [browseMessage, List.forall_mem_cons, List.not_mem_nil, false_implies,
          implies_true, and_true]
        exact ⟨plainArgument_valid (by decide) hid, plainArgument_valid (by decide) hflag,
          plainArgument_valid (by decide) (by decide), plainArgument_valid (by decide) (hnumeral _),
          plainArgument_valid (by decide) (hnumeral _), plainArgument_valid (by decide) (by decide)⟩
      arguments_ne := fun a ha =>
        hnames _ (List.mem_map_of_mem (f := fun a : ArgumentElement => a.name.name) ha)
      beforeActionEnd := nofun
      beforeBodyEnd := nofun
      beforeEnvelopeEnd := nofun
      finish := nofun }
  exact { hvalid with kind_eq := rfl, action_eq := rfl }

/-! Listings of children -/

/-- An object whose children a client may ask for. -/
def Browsable (catalog : StaticCatalog) (p : Str) : Prop :=
  p = "0".toList ∨ (catalog.container p).isSome

theorem browseResult_children {catalog : StaticCatalog} {p : Str} (h : Browsable catalog p) :
    browseResult catalog p .directChildren =
      .ok (childrenDidl catalog p, catalog.childCount p, catalog.childCount p) := by
  unfold browseResult
  by_cases hp : p = "0".toList
  · rw [if_pos hp, hp]
  · rw [if_neg hp]
    exact if_pos (h.resolve_left hp)

theorem length_childrenObjects (catalog : StaticCatalog) (p : Str) :
    (childrenObjects catalog p).length =
      (catalog.childContainers p).length + (catalog.childItems p).length := by
  rw [childrenObjects, List.length_append, List.length_map, List.length_map]

theorem toNat_childCount (catalog : StaticCatalog) (p : Str) :
    (catalog.childCount p).toNat = (childrenObjects catalog p).length % 2 ^ 32 := by
  rw [length_childrenObjects, StaticCatalog.childCount, UInt32.toNat_ofNat']

/-- A listing whose objects are left out in part is a shorter text. -/
theorem eq_of_length_flatMap {α β : Type} {f : α → List β} (hf : ∀ a, f a ≠ []) {l l' : List α}
    (h : l.Sublist l') (hlen : (l'.flatMap f).length ≤ (l.flatMap f).length) : l = l' := by
  induction h with
  | slnil => rfl
  | @cons l l' a hsub ih =>
      have hle := (hsub.flatMap f).length_le
      have hpos := List.length_pos_of_ne_nil (hf a)
      rw [List.flatMap_cons, List.length_append] at hlen
      omega
  | @cons_cons l l' a hsub ih =>
      rw [List.flatMap_cons, List.flatMap_cons, List.length_append, List.length_append] at hlen
      rw [ih (Nat.le_of_add_le_add_left hlen)]

theorem writeObject_ne_nil (object : ObjectRef) : writeObject object ≠ [] := by
  rw [writeObject_eq]
  exact List.cons_ne_nil _ _

theorem didlToString_inj_of_sublist {l l' : List ObjectRef} (h : l.Sublist l')
    (he : didlToString l = didlToString l') : l = l' := by
  refine eq_of_length_flatMap writeObject_ne_nil h ?_
  rw [didlToString, didlToString, writeDidl_eq, writeDidl_eq, List.append_cancel_left_eq,
    List.append_cancel_right_eq] at he
  rw [he]

/-- The positions `s`, `s + 1`, ... of a list: at most `c` of them, or all where `c` is zero. -/
def page {α : Type} (s c : UInt32) (l : List α) : List α :=
  if c = 0 then l.drop s.toNat else (l.drop s.toNat).take c.toNat

theorem page_sublist {α : Type} (s c : UInt32) (l : List α) : (page s c l).Sublist l := by
  unfold page
  split
  · exact List.drop_sublist ..
  · exact (List.take_sublist ..).trans (List.drop_sublist ..)

theorem page_eq_self {α : Type} {s c : UInt32} {l : List α} :
    page s c l = l ↔ l = [] ∨ s = 0 ∧ (c = 0 ∨ l.length ≤ c.toNat) := by
  have hzero : ∀ n : UInt32, n = 0 ↔ n.toNat = 0 := fun n => UInt32.toNat_inj.symm
  constructor
  · intro h
    have hlen := congrArg List.length h
    by_cases hl : l = []
    · exact .inl hl
    · have hpos := List.length_pos_of_ne_nil hl
      refine .inr ?_
      unfold page at hlen
      split at hlen
      · rename_i hc
        rw [List.length_drop] at hlen
        exact ⟨(hzero s).mpr (by omega), .inl hc⟩
      · rw [List.length_take, List.length_drop] at hlen
        exact ⟨(hzero s).mpr (by omega), .inr (by omega)⟩
  · rintro (rfl | ⟨rfl, hc⟩)
    · simp [page]
    · unfold page
      split
      · rfl
      · rename_i hne
        exact List.take_of_length_le (hc.resolve_left hne)

/-- A response that lists the objects, with their number and a number of matches. -/
def Lists (r : Except ControlError ControlResponse) (objects : List ObjectRef) (total : Nat) : Prop :=
  ∃ updateId, r = .ok (okResponse (writeActionResponse contentDirectoryService "Browse".toList
    (browseArguments (didlToString objects) (Decimal.numeral objects.length)
      (Decimal.numeral total) updateId)))

/-- A request for the direct children of `p` from index `s` on, at most `c` of them. -/
structure AsksChildren (m : Message) (p : Str) (s c : UInt32) : Prop extends IsBrowse m where
  objectId : (argumentText m "ObjectID".toList).map Str.trim = some p
  flag : (argumentText m "BrowseFlag".toList).map Str.trim = some "BrowseDirectChildren".toList
  startingIndex : (argumentText m "StartingIndex".toList).map Str.trim =
    some (Decimal.numeral s.toNat)
  requestedCount : (argumentText m "RequestedCount".toList).map Str.trim =
    some (Decimal.numeral c.toNat)

/-- The answer lists every child. -/
theorem handleControl_children {catalog : StaticCatalog} {p : Str} {m : Message} {s c : UInt32}
    (hp : Browsable catalog p) (h : AsksChildren m p s c) :
    handleControl m.text catalog =
      .ok (okResponse (writeActionResponse contentDirectoryService "Browse".toList
        (browseArguments (didlToString (childrenObjects catalog p))
          (Decimal.numeral (catalog.childCount p).toNat)
          (Decimal.numeral (catalog.childCount p).toNat)
          (Decimal.numeral catalog.updateId.toNat)))) := by
  have hflag : BrowseFlag.parse "BrowseDirectChildren".toList = some .directChildren := by decide
  rw [handleControl_browse h.toIsBrowse, h.objectId, h.flag, Option.bind_some, hflag,
    Option.getD_some, Option.getD_some, browseResult_children hp]
  rfl

/-- What a listing of the children is, for any objects and counts. -/
theorem lists_children_iff {catalog : StaticCatalog} {p : Str} {m : Message} {s c : UInt32}
    (hp : Browsable catalog p) (h : AsksChildren m p s c) {objects : List ObjectRef} {total : Nat}
    (hsub : objects.Sublist (childrenObjects catalog p)) :
    Lists (handleControl m.text catalog) objects total ↔
      objects = childrenObjects catalog p ∧ (catalog.childCount p).toNat = objects.length ∧
        (catalog.childCount p).toNat = total := by
  rw [Lists, handleControl_children hp h]
  constructor
  · rintro ⟨u, hu⟩
    have hbody := congrArg ControlResponse.body (Except.ok.inj hu)
    obtain ⟨hresult, hnumber, htotal, -⟩ := browseArguments_injective hbody
    exact ⟨didlToString_inj_of_sublist hsub hresult.symm, Decimal.numeral_injective hnumber,
      Decimal.numeral_injective htotal⟩
  · rintro ⟨rfl, hnumber, htotal⟩
    exact ⟨_, by rw [← hnumber, ← htotal]⟩

/-- The page that a request names is listed exactly when it is the whole list:
there are no children, or the request starts at the first one and does not ask
for fewer than there are. -/
theorem browse_lists_page_iff {catalog : StaticCatalog} {p : Str} {m : Message} {s c : UInt32}
    (hp : Browsable catalog p) (h : AsksChildren m p s c) :
    Lists (handleControl m.text catalog) (page s c (childrenObjects catalog p))
        (childrenObjects catalog p).length ↔
      childrenObjects catalog p = [] ∨
        s = 0 ∧ (c = 0 ∧ (childrenObjects catalog p).length < 2 ^ 32 ∨
          c ≠ 0 ∧ (childrenObjects catalog p).length ≤ c.toNat) := by
  rw [lists_children_iff hp h (page_sublist s c _), page_eq_self, toNat_childCount]
  have hlt : c.toNat < 2 ^ 32 := c.toNat_lt
  constructor
  · rintro ⟨hall | ⟨hs, hc⟩, -, htotal⟩
    · exact .inl hall
    · by_cases hc0 : c = 0
      · exact .inr ⟨hs, .inl ⟨hc0, by omega⟩⟩
      · exact .inr ⟨hs, .inr ⟨hc0, hc.resolve_left hc0⟩⟩
  · intro hcond
    have hpage : page s c (childrenObjects catalog p) = childrenObjects catalog p := by
      rw [page_eq_self]
      exact hcond.imp_right fun ⟨hs, hc⟩ => ⟨hs, hc.imp (·.1) (·.2)⟩
    have hmod : (childrenObjects catalog p).length % 2 ^ 32 = (childrenObjects catalog p).length := by
      refine Nat.mod_eq_of_lt ?_
      rcases hcond with hnil | ⟨-, ⟨-, hlen⟩ | ⟨-, hlen⟩⟩
      · rw [hnil]
        exact Nat.two_pow_pos 32
      · exact hlen
      · omega
    exact ⟨page_eq_self.mp hpage, by rw [hpage, hmod], hmod⟩

/-! A client that pages through the children -/

theorem browseMessage_asksChildren {p : Str} (hlt : '<' ∉ p) (htrim : Str.Trimmed p)
    (s c : UInt32) : AsksChildren (browseMessage p "BrowseDirectChildren".toList s c) p s c := by
  have hnumeral : ∀ n, Str.trim (Decimal.numeral n) = Decimal.numeral n := fun n => by
    have hne : Decimal.numeral n ≠ [] := Nat.toDigits_ne_nil
    exact Str.trim_word hne fun d hd => Decimal.isDigit_not_whitespace (Decimal.numeral_isDigit hd)
  have hflag : Str.trim "BrowseDirectChildren".toList = "BrowseDirectChildren".toList := by decide
  have hread : ∀ name text, argumentText (browseMessage p "BrowseDirectChildren".toList s c) name =
      some text → Str.trim text = text → (argumentText (browseMessage p
        "BrowseDirectChildren".toList s c) name).map Str.trim = some text := by
    intro name text h ht
    rw [h, Option.map_some, ht]
  exact
    { browseMessage_isBrowse hlt (by decide) s c with
      objectId := hread _ p rfl (Str.trim_of_trimmed htrim)
      flag := hread _ _ rfl hflag
      startingIndex := hread _ _ rfl (hnumeral _)
      requestedCount := hread _ _ rfl (hnumeral _) }

/-- The objects that a client receives which asks for a page, moves on by the
number returned, and stops when the number of matches is reached. -/
inductive Receives (answer : UInt32 → Except ControlError ControlResponse) :
    UInt32 → List ObjectRef → Prop where
  | last {start : UInt32} {objects : List ObjectRef} {total : Nat}
      (hpage : Lists (answer start) objects total) (hend : total ≤ start.toNat + objects.length) :
      Receives answer start objects
  | more {start : UInt32} {objects rest : List ObjectRef} {total : Nat}
      (hpage : Lists (answer start) objects total) (hmore : start.toNat + objects.length < total)
      (hne : objects ≠ []) (hrest : Receives answer (start + .ofNat objects.length) rest) :
      Receives answer start (objects ++ rest)

/-- Such a client still receives every child once: the first page has them all. -/
theorem receives_children {catalog : StaticCatalog} {p : Str} {ask : UInt32 → Message} {c : UInt32}
    (hp : Browsable catalog p) (h : ∀ s, AsksChildren (ask s) p s c)
    (hlen : (childrenObjects catalog p).length < 2 ^ 32) :
    Receives (fun s => handleControl (ask s).text catalog) 0 (childrenObjects catalog p) := by
  have hcount : (catalog.childCount p).toNat = (childrenObjects catalog p).length := by
    rw [toNat_childCount, Nat.mod_eq_of_lt hlen]
  exact .last ((lists_children_iff hp (h 0) (List.Sublist.refl _)).mpr ⟨rfl, hcount, hcount⟩)
    (Nat.le_add_left ..)

/-- Two items under the root. -/
def twoClips : StaticCatalog :=
  .fromItems [.mp4 "1".toList "A".toList "http://h/media/1".toList,
    .mp4 "2".toList "B".toList "http://h/media/2".toList]

theorem browse_lists_page_twoClips :
    Lists (handleControl (browseMessage "0".toList "BrowseDirectChildren".toList 0 2).text twoClips)
        (page 0 2 (childrenObjects twoClips "0".toList)) (childrenObjects twoClips "0".toList).length ↔
      childrenObjects twoClips "0".toList = [] ∨
        (0 : UInt32) = 0 ∧ ((2 : UInt32) = 0 ∧ (childrenObjects twoClips "0".toList).length < 2 ^ 32 ∨
          (2 : UInt32) ≠ 0 ∧ (childrenObjects twoClips "0".toList).length ≤ (2 : UInt32).toNat) :=
  browse_lists_page_iff (.inl rfl) (browseMessage_asksChildren (by decide) (by decide) 0 2)

/-- A request for the first of two children is answered with both. -/
theorem not_lists_page_twoClips :
    AsksChildren (browseMessage "0".toList "BrowseDirectChildren".toList 0 1) "0".toList 0 1 ∧
      ¬ Lists (handleControl (browseMessage "0".toList "BrowseDirectChildren".toList 0 1).text twoClips)
        (page 0 1 (childrenObjects twoClips "0".toList))
        (childrenObjects twoClips "0".toList).length := by
  have hask := browseMessage_asksChildren (p := "0".toList) (by decide) (by decide) 0 1
  refine ⟨hask, fun h => ?_⟩
  have hall := ((lists_children_iff (.inl rfl) hask (page_sublist 0 1 _)).mp h).1
  exact absurd (congrArg List.length hall) (by decide)

end RustyCastle.Server
