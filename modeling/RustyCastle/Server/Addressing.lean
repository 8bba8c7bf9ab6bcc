import RustyCastle.Server.Browse

/-!
Requests for one object by its identifier. The identifier in the request is
raw text, trimmed and not decoded, so it names the object exactly when the text
is the identifier itself.
-/

namespace RustyCastle.Server
open Foundation Foundation.Xml RustyCastle.Upnp RustyCastle.UpnpAv

/-! Trimmed raw text and its decoded value -/

theorem whitespace_ne {c : Char} (h : Str.isWhitespace c = true) : c ≠ '&' ∧ c ≠ ';' ∧ c ≠ '"' := by
  refine ⟨?_, ?_, ?_⟩ <;> rintro rfl <;> exact absurd h (by decide)

theorem whitespace_lineEnds {s : Str} (h : ∀ c ∈ s, Str.isWhitespace c = true) :
    ∀ c ∈ lineEnds s, Str.isWhitespace c = true := by
  intro c hc
  rcases mem_lineEnds hc with hm | rfl
  · exact h c hm
  · decide

/-- Leading white space is left at the head of the decoded text. -/
theorem expand_whitespace {c : Char} {s value : Str} (hc : Str.isWhitespace c = true)
    (h : expand id none (lineEnds (c :: s)) = some value) :
    ∃ d u, value = d :: u ∧ Str.isWhitespace d = true := by
  obtain ⟨d, t, hcs, hd⟩ := exists_lineEnds_cons c s
  have hspace : Str.isWhitespace d = true := by
    rcases hd with rfl | rfl
    · exact hc
    · decide
  rw [hcs, expand_cons id (whitespace_ne hspace).1] at h
  obtain ⟨u, -, rfl⟩ := Option.map_eq_some_iff.mp h
  exact ⟨d, u, rfl, hspace⟩

/-- Text whose decoded value is what is left of it after trimming has nothing to trim. -/
theorem raw_eq_of_trim_eq {raw value after u : Str} (hraw : raw = Str.trim raw ++ after)
    (hafter : ∀ c ∈ after, Str.isWhitespace c = true) (hsplit : value = u ++ lineEnds after)
    (he : value = Str.trim raw) : raw = value ∧ Str.Trimmed value := by
  have htrimmed := Str.trimmed_trim raw
  have hnil : lineEnds after = [] := by
    by_contra hne
    have hl := htrimmed.2 _ (by
      rw [← he, hsplit, List.getLast?_append_of_ne_nil _ hne]
      exact List.getLast?_eq_some_getLast hne)
    rw [whitespace_lineEnds hafter _ (List.getLast_mem hne)] at hl
    cases hl
  rw [lineEnds_eq_nil.mp hnil, List.append_nil] at hraw
  rw [he]
  exact ⟨hraw, htrimmed⟩

/-- Trimmed raw text and the decoded text, each before a quotation mark, are told
apart by what follows unless the text stands for itself. -/
theorem raw_eq_of_trim_append {raw value r r' : Str} (hvalue : textValue raw = some value)
    (h : Str.trim raw ++ '"' :: r = value ++ '"' :: r') :
    raw = value ∧ Str.Trimmed value := by
  have hexpand : expand id none (lineEnds raw) = some value := by
    rw [textValue] at hvalue
    split at hvalue
    · exact hvalue
    · cases hvalue
  obtain ⟨before, after, hraw, hbefore, hafter⟩ := Str.exists_trim_append raw
  have htrimmed := Str.trimmed_trim raw
  -- the text starts where the trimmed text does, since the value does
  have hstart : before = [] := by
    cases before with
    | nil => rfl
    | cons c before =>
        rw [hraw, List.cons_append] at hexpand
        obtain ⟨d, u, rfl, hd⟩ := expand_whitespace (hbefore c (List.mem_cons_self ..)) hexpand
        cases ht : Str.trim raw with
        | nil =>
            rw [ht] at h
            exact absurd (List.cons.inj h).1.symm (whitespace_ne hd).2.2
        | cons e t =>
            rw [ht] at h htrimmed
            have := htrimmed.1 e rfl
            rw [(List.cons.inj h).1, hd] at this
            cases this
  subst hstart
  rw [List.nil_append] at hraw
  have hends := whitespace_lineEnds hafter
  have hcount : raw.count '"' ≤ value.count '"' := by
    have := count_quote_expand hexpand
    rwa [Option.getD_none, List.count_nil, Nat.zero_add,
      count_lineEnds (by decide) (by decide)] at this
  have hlines : lineEnds raw = lineEnds (Str.trim raw) ++ lineEnds after := by
    conv_lhs => rw [hraw]
    exact lineEnds_append_of_last (fun hcr => absurd (htrimmed.2 _ hcr) (by decide)) after
  rw [hlines] at hexpand
  obtain ⟨u, hu, hsplit⟩ := expand_append id
    (fun c hc => ⟨(whitespace_ne (hends c hc)).1, (whitespace_ne (hends c hc)).2.1⟩) hexpand
  rw [List.map_id] at hsplit
  have hlen : u.length ≤ (Str.trim raw).length :=
    (length_expand_le id hu).trans (length_lineEnds_le _)
  rcases List.append_eq_append_iff.mp h with ⟨a, ha, ha'⟩ | ⟨a, ha, ha'⟩
  · cases a with
    | nil => exact raw_eq_of_trim_eq hraw hafter hsplit (by rw [ha, List.append_nil])
    | cons q a =>
        -- the quotation mark would be one of the trailing white space
        obtain ⟨rfl, -⟩ := List.cons.inj ha'
        rw [hsplit] at ha
        rcases List.append_eq_append_iff.mp ha with ⟨b, hb, hb'⟩ | ⟨b, hb, hb'⟩
        · exact absurd rfl (whitespace_ne (hends '"' (by rw [hb']; simp))).2.2
        · have hb0 : b = [] := List.eq_nil_of_length_eq_zero (by
            rw [hb, List.length_append] at hlen
            omega)
          rw [hb0, List.nil_append] at hb'
          exact absurd rfl (whitespace_ne (hends '"' (by rw [← hb']; simp))).2.2
  · cases a with
    | nil => exact raw_eq_of_trim_eq hraw hafter hsplit (by rw [ha, List.append_nil])
    | cons q a =>
        obtain ⟨rfl, -⟩ := List.cons.inj ha'
        have hle : (Str.trim raw).count '"' ≤ raw.count '"' := (Str.trim_isInfix raw).sublist.count_le _
        rw [ha, List.count_append, List.count_cons_self] at hle
        omega

/-! Objects by identifier -/

/-- The objects of a catalog, containers first. -/
def catalogObjects (catalog : StaticCatalog) : List ObjectRef :=
  catalog.containers.map (objectForContainer catalog) ++ catalog.items.map itemObject

def objectIds (catalog : StaticCatalog) : List Str :=
  catalog.containers.map MediaContainer.id ++ catalog.items.map MediaItem.id

/-- A request for one object, with the raw text of its identifier. -/
structure AsksMetadata (m : Message) (raw : Str) : Prop extends IsBrowse m where
  objectId : argumentText m "ObjectID".toList = some raw
  flag : (argumentText m "BrowseFlag".toList).map Str.trim = some "BrowseMetadata".toList

/-- A response with the element of one object. -/
def Describes (r : Except ControlError ControlResponse) (object : ObjectRef) : Prop :=
  ∃ total updateId, r = .ok (okResponse (writeActionResponse contentDirectoryService
    "Browse".toList (browseArguments (didlToString [object]) (Decimal.numeral 1) total updateId)))

theorem find_of_nodup {α : Type} {f : α → Str} {l : List α} (h : (l.map f).Nodup) {a : α}
    (ha : a ∈ l) : (l.find? fun x => f x == f a) = some a := by
  induction l with
  | nil => cases ha
  | cons b l ih =>
      rw [List.map_cons, List.nodup_cons] at h
      rcases List.mem_cons.mp ha with rfl | hm
      · simp
      · have hne : f b ≠ f a := fun he => h.1 (he ▸ List.mem_map_of_mem hm)
        rw [List.find?_cons, beq_eq_false_iff_ne.mpr hne]
        exact ih h.2 hm

theorem browseResult_metadata {catalog : StaticCatalog} {id : Str} {r : Str × UInt32 × UInt32}
    (h : browseResult catalog id .metadata = .ok r) :
    ∃ object : ObjectRef, object.id = id ∧ r = (didlToString [object], 1, 1) := by
  unfold browseResult at h
  split at h
  · rename_i hid
    cases h
    exact ⟨rootObject catalog, hid.symm, rfl⟩
  · dsimp only at h
    split at h
    · rename_i container hfind
      cases h
      have hid : container.id = id := by simpa using List.find?_some hfind
      exact ⟨objectForContainer catalog container, hid, rfl⟩
    · split at h
      · rename_i item hfind
        cases h
        have hid : item.id = id := by simpa using List.find?_some hfind
        exact ⟨itemObject item, hid, rfl⟩
      · cases h

/-- An object with an identifier of its own is found by it. -/
theorem browseResult_of_mem {catalog : StaticCatalog} (hdistinct : (objectIds catalog).Nodup)
    (hroot : "0".toList ∉ objectIds catalog) {object : ObjectRef}
    (ho : object ∈ catalogObjects catalog) :
    browseResult catalog object.id .metadata = .ok (didlToString [object], 1, 1) := by
  obtain ⟨hcontainers, hitems, hdisjoint⟩ := List.nodup_append.mp hdistinct
  rcases List.mem_append.mp ho with ho | ho
  · obtain ⟨container, hc, rfl⟩ := List.mem_map.mp ho
    have hid : container.id ≠ "0".toList := fun he =>
      hroot (he ▸ List.mem_append_left _ (List.mem_map_of_mem hc))
    have hfind : catalog.container container.id = some container := find_of_nodup hcontainers hc
    change browseResult catalog container.id .metadata = _
    unfold browseResult
    rw [if_neg hid]
    simp only [hfind]
    rfl
  · obtain ⟨item, hi, rfl⟩ := List.mem_map.mp ho
    have hid : item.id ≠ "0".toList := fun he =>
      hroot (he ▸ List.mem_append_right _ (List.mem_map_of_mem hi))
    have hnone : catalog.container item.id = none := by
      rw [StaticCatalog.container, List.find?_eq_none]
      intro container hc he
      exact hdisjoint _ (List.mem_map_of_mem hc) _ (List.mem_map_of_mem hi) (by simpa using he)
    have hfind : catalog.item item.id = some item := find_of_nodup hitems hi
    change browseResult catalog item.id .metadata = _
    unfold browseResult
    rw [if_neg hid]
    simp only [hnone, hfind]
    rfl

theorem exists_id_append {a b : ObjectRef} (h : didlToString [a] = didlToString [b]) :
    ∃ r r', a.id ++ '"' :: r = b.id ++ '"' :: r' := by
  have hsplit : ∀ o : ObjectRef, ∃ r,
      writeObject o = '<' :: (o.tag ++ (' ' :: 'i' :: 'd' :: '=' :: '"' :: (o.id ++ '"' :: r))) := by
    intro o
    rw [writeObject_eq]
    exact ⟨_, by
      simp only [openTag, ObjectRef.attrs, writeAttributes, writeAttribute, List.flatMap_cons,
        List.append_assoc, List.cons_append, List.nil_append]
      rfl⟩
  have htag : ∀ o : ObjectRef, o.tag = "container".toList ∨ o.tag = "item".toList := by
    intro o
    unfold ObjectRef.tag
    split
    · exact .inl rfl
    · exact .inr rfl
  rw [didlToString, didlToString, writeDidl_eq, writeDidl_eq, List.append_cancel_left_eq,
    List.append_cancel_right_eq, List.flatMap_singleton, List.flatMap_singleton] at h
  obtain ⟨r, hr⟩ := hsplit a
  obtain ⟨r', hr'⟩ := hsplit b
  rw [hr, hr', List.cons.injEq] at h
  have hcontainer : "container".toList = 'c' :: "ontainer".toList := by decide
  have hitem : "item".toList = 'i' :: "tem".toList := by decide
  rcases htag a with ha | ha <;> rcases htag b with hb | hb <;> rw [ha, hb] at h
  · exact ⟨r, r', by simpa using h.2⟩
  · rw [hcontainer, hitem] at h
    exact absurd (List.cons.inj h.2).1 (by decide)
  · rw [hcontainer, hitem] at h
    exact absurd (List.cons.inj h.2).1 (by decide)
  · exact ⟨r, r', by simpa using h.2⟩

/-- A request whose text of the identifier decodes to that of an object is
answered with the object exactly when the text is the identifier itself and has
no white space at its ends. -/
theorem browse_describes_iff {catalog : StaticCatalog} (hdistinct : (objectIds catalog).Nodup)
    (hroot : "0".toList ∉ objectIds catalog) {object : ObjectRef}
    (ho : object ∈ catalogObjects catalog) {m : Message} {raw : Str} (h : AsksMetadata m raw)
    (hraw : textValue raw = some object.id) :
    Describes (handleControl m.text catalog) object ↔ raw = object.id ∧ Str.Trimmed object.id := by
  have hflag : BrowseFlag.parse "BrowseMetadata".toList = some .metadata := by decide
  rw [Describes, handleControl_browse h.toIsBrowse, h.objectId, h.flag, Option.bind_some, hflag,
    Option.map_some, Option.getD_some, Option.getD_some]
  constructor
  · rintro ⟨total, updateId, he⟩
    cases hr : browseResult catalog (Str.trim raw) .metadata with
    | error e =>
        rw [hr] at he
        cases he
    | ok r =>
        obtain ⟨found, hid, rfl⟩ := browseResult_metadata hr
        rw [hr] at he
        have hbody := congrArg ControlResponse.body (Except.ok.inj he)
        obtain ⟨s, s', hs⟩ := exists_id_append (browseArguments_injective hbody).1
        rw [hid] at hs
        exact raw_eq_of_trim_append hraw hs
  · rintro ⟨rfl, htrimmed⟩
    rw [Str.trim_of_trimmed htrimmed, browseResult_of_mem hdistinct hroot ho]
    exact ⟨_, _, rfl⟩

theorem browseMessage_asksMetadata {raw : Str} (hlt : '<' ∉ raw) :
    AsksMetadata (browseMessage raw "BrowseMetadata".toList 0 0) raw := by
  have hflag : Str.trim "BrowseMetadata".toList = "BrowseMetadata".toList := by decide
  exact
    { browseMessage_isBrowse hlt (by decide) 0 0 with
      objectId := rfl
      flag := congrArg some hflag }

theorem browse_describes_twoClips :
    Describes (handleControl (browseMessage "1".toList "BrowseMetadata".toList 0 0).text twoClips)
        (itemObject (.mp4 "1".toList "A".toList "http://h/media/1".toList)) ↔
      "1".toList = "1".toList ∧ Str.Trimmed "1".toList :=
  browse_describes_iff (by decide) (by decide) (by decide) (browseMessage_asksMetadata (by decide))
    (by decide)

/-- A catalog with an item whose identifier has an ampersand. -/
def ampersandClip : StaticCatalog :=
  .fromItems [.mp4 "a&b".toList "A".toList "http://h/media/a".toList]

/-- The item is not found by its escaped identifier. -/
theorem not_describes_ampersand :
    ((objectIds ampersandClip).Nodup ∧ "0".toList ∉ objectIds ampersandClip) ∧
      AsksMetadata (browseMessage "a&amp;b".toList "BrowseMetadata".toList 0 0) "a&amp;b".toList ∧
      textValue "a&amp;b".toList = some "a&b".toList ∧
      ∀ object ∈ catalogObjects ampersandClip, ¬ Describes
        (handleControl (browseMessage "a&amp;b".toList "BrowseMetadata".toList 0 0).text
          ampersandClip) object := by
  have hask : AsksMetadata (browseMessage "a&amp;b".toList "BrowseMetadata".toList 0 0)
      "a&amp;b".toList := browseMessage_asksMetadata (by decide)
  have hflag : BrowseFlag.parse "BrowseMetadata".toList = some .metadata := by decide
  have hnone : browseResult ampersandClip (Str.trim "a&amp;b".toList) .metadata =
      .error .noSuchObject := by decide
  refine ⟨by decide, hask, by decide, fun object _ h => ?_⟩
  rw [Describes, handleControl_browse hask.toIsBrowse, hask.objectId, hask.flag, Option.bind_some,
    hflag, Option.map_some, Option.getD_some, Option.getD_some, hnone] at h
  obtain ⟨_, _, he⟩ := h
  cases he

end RustyCastle.Server
