import RustyCastle.Server.Listings

/-!
The two flags of a browse request agree with each other: the counts of a listing of children
with the child count in the metadata of their parent, and the elements of the listing with
the metadata of each child.
-/

namespace RustyCastle.Server
open Foundation RustyCastle.Upnp RustyCastle.UpnpAv

/-! The children as the source collects them -/

/-- The children of an object with their resources collected first, each item then zipped
with its own. -/
def zippedChildren (catalog : StaticCatalog) (parentId : Str) : List ObjectRef :=
  let resources := (catalog.childItems parentId).map fun item => [resourceForItem item]
  (catalog.childContainers parentId).map (objectForContainer catalog) ++
    ((catalog.childItems parentId).zip resources).map fun (item, res) => objectForItem item res

theorem zip_map_self {α β : Type} (f : α → β) (l : List α) :
    l.zip (l.map f) = l.map fun a => (a, f a) := by
  induction l with
  | nil => rfl
  | cons a l ih => rw [List.map_cons, List.zip_cons_cons, ih, List.map_cons]

theorem zippedChildren_eq (catalog : StaticCatalog) (parentId : Str) :
    zippedChildren catalog parentId = childrenObjects catalog parentId := by
  unfold zippedChildren childrenObjects
  simp only [zip_map_self, List.map_map]
  rfl

/-! Counts -/

/-- The number of objects of a catalog. -/
def StaticCatalog.size (catalog : StaticCatalog) : Nat :=
  catalog.containers.length + catalog.items.length

theorem length_childrenObjects_le (catalog : StaticCatalog) (p : Str) :
    (childrenObjects catalog p).length ≤ catalog.size := by
  rw [length_childrenObjects]
  exact Nat.add_le_add (List.length_filter_le ..) (List.length_filter_le ..)

theorem toNat_childCount_of_size {catalog : StaticCatalog} (hsize : catalog.size < 2 ^ 32)
    (p : Str) : (catalog.childCount p).toNat = (childrenObjects catalog p).length := by
  rw [toNat_childCount,
    Nat.mod_eq_of_lt (Nat.lt_of_le_of_lt (length_childrenObjects_le catalog p) hsize)]

/-- The object that metadata describe has the identifier asked for and, where it may have
children, their number. -/
theorem browseResult_metadata_childCount {catalog : StaticCatalog} {p : Str}
    (h : Browsable catalog p) : ∃ object : ObjectRef, object.id = p ∧
      object.childCount = some (catalog.childCount p) ∧
        browseResult catalog p .metadata = .ok (didlToString [object], 1, 1) := by
  unfold browseResult
  by_cases hroot : p = "0".toList
  · rw [if_pos hroot]
    subst hroot
    exact ⟨rootObject catalog, rfl, rfl, rfl⟩
  · obtain ⟨container, hfind⟩ := Option.isSome_iff_exists.mp (h.resolve_left hroot)
    have hid : container.id = p := by simpa using List.find?_some hfind
    rw [if_neg hroot]
    simp only [hfind]
    subst hid
    exact ⟨objectForContainer catalog container, rfl, rfl, rfl⟩

/-! Identifiers that a request carries as they are -/

/-- A character that neither escaping nor trimming changes. -/
def LiteralChar (c : Char) : Prop := escapeChar c = [c] ∧ Str.isWhitespace c = false

/-- Letters, digits and hyphens are literal. -/
theorem literalChar_of_alphanum {c : Char} (h : c.isAlphanum = true ∨ c = '-') : LiteralChar c := by
  have hspecial : ∀ d ∈ "&<>\"'".toList, d.isAlphanum = false ∧ d ≠ '-' := by decide
  have hliteral : ∀ d ∈ "&<>\"'".toList, c ≠ d := by
    rintro d hd rfl
    rcases h with h | h
    · rw [(hspecial c hd).1] at h
      cases h
    · exact (hspecial c hd).2 h
  constructor
  · unfold escapeChar
    split <;> first | rfl | exact absurd rfl (hliteral _ (by decide))
  · rcases h with h | rfl
    · change ((decide (c.val ≥ 'A'.val ∧ c.val ≤ 'Z'.val) || (decide (c.val ≥ 'a'.val) &&
        decide (c.val ≤ 'z'.val))) || (decide (c.val ≥ '0'.val) && decide (c.val ≤ '9'.val))) = true at h
      simp only [Bool.or_eq_true, Bool.and_eq_true, decide_eq_true_eq, ge_iff_le,
        UInt32.le_iff_toNat_le] at h
      have hval : c.val.toNat = c.toNat := rfl
      simp only [Str.isWhitespace, Bool.or_eq_false_iff, Bool.and_eq_false_iff,
        decide_eq_false_iff_not, beq_eq_false_iff_ne]
      simp at h
      omega
    · decide

theorem writeEscapedText_of_literal {s : Str} (h : ∀ c ∈ s, LiteralChar c) : writeEscapedText s = s := by
  induction s with
  | nil => rfl
  | cons c s ih =>
      obtain ⟨hc, h⟩ := List.forall_mem_cons.mp h
      rw [writeEscapedText_cons, hc.1, ih h, List.singleton_append]

/-- Identifiers that are distinct, not the root's and written in literal characters. -/
structure LiteralIds (catalog : StaticCatalog) : Prop where
  distinct : (objectIds catalog).Nodup
  root : "0".toList ∉ objectIds catalog
  chars : ∀ id ∈ objectIds catalog, ∀ c ∈ id, LiteralChar c

theorem mem_objectIds {catalog : StaticCatalog} {object : ObjectRef}
    (h : object ∈ catalogObjects catalog) : object.id ∈ objectIds catalog := by
  rcases List.mem_append.mp h with h | h
  · obtain ⟨container, hc, rfl⟩ := List.mem_map.mp h
    exact List.mem_append_left _ (List.mem_map_of_mem hc)
  · obtain ⟨item, hi, rfl⟩ := List.mem_map.mp h
    exact List.mem_append_right _ (List.mem_map_of_mem hi)

theorem childrenObjects_subset (catalog : StaticCatalog) (p : Str) :
    childrenObjects catalog p ⊆ catalogObjects catalog := by
  intro object ho
  rcases List.mem_append.mp ho with ho | ho
  · exact List.mem_append_left _ (List.map_subset _ (List.filter_sublist.subset) ho)
  · exact List.mem_append_right _ (List.map_subset _ (List.filter_sublist.subset) ho)

/-! Answers -/

theorem lists_children {catalog : StaticCatalog} (hsize : catalog.size < 2 ^ 32) {soapXml : Str}
    {action : ActionRequestRef} (ha : CallsBrowse soapXml action)
    (hid : Browsable catalog (requestedId action)) (hflag : requestedFlag action = .directChildren) :
    Lists (handleControl soapXml catalog) (childrenObjects catalog (requestedId action))
      (childrenObjects catalog (requestedId action)).length := by
  rw [Lists, handleControl_callsBrowse ha, hflag, browseResult_children hid, Except.map,
    toNat_childCount_of_size hsize]
  exact ⟨_, rfl⟩

theorem lists_metadata {catalog : StaticCatalog} {soapXml : Str} {action : ActionRequestRef}
    (ha : CallsBrowse soapXml action) (hflag : requestedFlag action = .metadata)
    {object : ObjectRef} (hresult : browseResult catalog (requestedId action) .metadata =
      .ok (didlToString [object], 1, 1)) :
    Lists (handleControl soapXml catalog) [object] 1 := by
  rw [Lists, handleControl_callsBrowse ha, hflag, hresult]
  exact ⟨_, rfl⟩

/-- The request for the metadata of an object by its escaped identifier. -/
theorem AsksMetadata.requested {m : Message} {id : Str} (h : AsksMetadata m (writeEscapedText id))
    (hliteral : ∀ c ∈ id, LiteralChar c) :
    requestedId ⟨m.service, m.action.name, m.inner⟩ = id ∧
      requestedFlag ⟨m.service, m.action.name, m.inner⟩ = .metadata := by
  have hflag : BrowseFlag.parse "BrowseMetadata".toList = some .metadata := by decide
  have htrim : Str.trim id = id :=
    Str.trim_of_trimmed (Str.trimmed_of_forall fun c hc => (hliteral c hc).2)
  constructor
  · rw [requestedId, arg_message h.toValid, h.objectId, writeEscapedText_of_literal hliteral,
      Option.map_some, htrim, Option.getD_some]
  · rw [requestedFlag, arg_message h.toValid, h.flag, Option.bind_some, hflag, Option.getD_some]

/-- Browse is consistent with itself: a listing of children has as many objects as it
announces and as the metadata of their parent count, and each of its elements is the one
that the metadata of that object have. -/
theorem browse_selfConsistent (catalog : StaticCatalog) (hsize : catalog.size < 2 ^ 32) (p : Str)
    (hp : Browsable catalog p) :
    (∀ soapXml action, CallsBrowse soapXml action → requestedId action = p →
      requestedFlag action = .directChildren →
        Lists (handleControl soapXml catalog) (childrenObjects catalog p)
          (childrenObjects catalog p).length) ∧
    (∀ soapXml action, CallsBrowse soapXml action → requestedId action = p →
      requestedFlag action = .metadata →
        ∃ object, Lists (handleControl soapXml catalog) [object] 1 ∧ object.id = p ∧
          object.childCount.map UInt32.toNat = some (childrenObjects catalog p).length) ∧
    (LiteralIds catalog → ∀ object ∈ childrenObjects catalog p, ∀ m,
      AsksMetadata m (writeEscapedText object.id) →
        Lists (handleControl m.text catalog) [object] 1) := by
  refine ⟨?_, ?_, ?_⟩
  · rintro soapXml action ha rfl hflag
    exact lists_children hsize ha hp hflag
  · rintro soapXml action ha rfl hflag
    obtain ⟨object, hid, hcount, hresult⟩ := browseResult_metadata_childCount hp
    refine ⟨object, lists_metadata ha hflag hresult, hid, ?_⟩
    rw [hcount, Option.map_some, toNat_childCount_of_size hsize]
  · intro hliteral object ho m hask
    have hmem := childrenObjects_subset catalog p ho
    obtain ⟨hid, hflag⟩ := hask.requested (hliteral.chars _ (mem_objectIds hmem))
    refine lists_metadata hask.toIsBrowse.callsBrowse hflag ?_
    rw [hid]
    exact browseResult_of_mem hliteral.distinct hliteral.root hmem

/-- The root of two clips lists both, and the second one is described as it is listed. -/
theorem browse_selfConsistent_twoClips :
    Lists (handleControl (browseMessage "0".toList "BrowseDirectChildren".toList 0 0).text twoClips)
        (childrenObjects twoClips "0".toList) (childrenObjects twoClips "0".toList).length ∧
      Lists (handleControl (browseMessage "2".toList "BrowseMetadata".toList 0 0).text twoClips)
        [itemObject (.mp4 "2".toList "B".toList "http://h/media/2".toList)] 1 := by
  have hchildren := browseMessage_asksChildren (p := "0".toList) (by decide) (by decide) 0 0
  have hliteral : LiteralIds twoClips := by
    refine ⟨by decide, by decide, ?_⟩
    intro id hid c hc
    have halphanum : ∀ id ∈ objectIds twoClips, ∀ c ∈ id, c.isAlphanum = true := by decide
    exact literalChar_of_alphanum (.inl (halphanum id hid c hc))
  obtain ⟨hlists, -, hdescribes⟩ :=
    browse_selfConsistent twoClips (by decide) "0".toList (.inl rfl)
  have hflag : BrowseFlag.parse "BrowseDirectChildren".toList = some .directChildren := by decide
  refine ⟨hlists _ _ hchildren.toIsBrowse.callsBrowse ?_ ?_,
    hdescribes hliteral _ (by decide) _ (browseMessage_asksMetadata (by decide))⟩
  · rw [requestedId, arg_message hchildren.toValid, hchildren.objectId, Option.getD_some]
  · rw [requestedFlag, arg_message hchildren.toValid, hchildren.flag, Option.bind_some, hflag,
      Option.getD_some]

end RustyCastle.Server
