import RustyCastle.Foundation.Terminated
import RustyCastle.Server.Catalog

/-!
The bytes that the update identifier is a hash of. They determine the sequence of
the texts that were hashed, but not the records: an absent field leaves no trace,
nothing separates the containers from the items, and the protocol info is not
hashed.
-/

namespace RustyCastle.Server
open Foundation RustyCastle.Dlna

/-- The texts of a container in the order of the hash. -/
def MediaContainer.fieldTexts (container : MediaContainer) : List Str :=
  [container.id, container.parentId, container.title]

/-- The texts of an item in the order of the hash, without those of absent fields. -/
def MediaItem.fieldTexts (item : MediaItem) : List Str :=
  [item.id, item.parentId, item.title, item.url, item.mimeType] ++
    ((item.size.map fun size => Decimal.numeral size.toNat).toList ++ item.duration.toList)

def fieldTexts (containers : List MediaContainer) (items : List MediaItem) : List Str :=
  containers.flatMap MediaContainer.fieldTexts ++ items.flatMap MediaItem.fieldTexts

/-- The byte stream that is fed to the hash. -/
def updateBytes (containers : List MediaContainer) (items : List MediaItem) : List UInt8 :=
  terminated 0xff ((fieldTexts containers items).map Str.bytes)

/-! The stream is what is hashed -/

theorem hashContainer_eq (hash : UInt32) (container : MediaContainer) :
    hashContainer hash container = container.fieldTexts.foldl hashField hash := rfl

theorem hashItem_eq (hash : UInt32) (item : MediaItem) :
    hashItem hash item = item.fieldTexts.foldl hashField hash := by
  obtain ⟨id, parentId, title, url, mimeType, size, duration, info⟩ := item
  cases size <;> cases duration <;> rfl

theorem catalogUpdateId_eq (containers : List MediaContainer) (items : List MediaItem) :
    catalogUpdateId containers items =
      max ((updateBytes containers items).foldl hashByte 0x811c9dc5) 1 := by
  have hcontainer : hashContainer = fun hash c => c.fieldTexts.foldl hashField hash := by
    funext hash c
    exact hashContainer_eq hash c
  have hitem : hashItem = fun hash i => i.fieldTexts.foldl hashField hash := by
    funext hash i
    exact hashItem_eq hash i
  rw [catalogUpdateId, updateBytes, foldl_terminated, List.foldl_map, fieldTexts, List.foldl_append,
    List.foldl_flatMap, List.foldl_flatMap, hcontainer, hitem]
  rfl

/-! The stream determines the texts -/

theorem terminator_notMem_bytes (s : Str) : 0xff ∉ s.bytes := by
  intro h
  obtain ⟨c, -, hc⟩ := Str.mem_bytes.mp h
  exact absurd (Str.encode_lt c 0xff hc) (by decide)

theorem bytes_injective : Function.Injective Str.bytes := by
  intro s t h
  have := Str.fromUtf8_bytes s
  rw [h, Str.fromUtf8_bytes] at this
  exact (Option.some.inj this).symm

theorem updateBytes_inj {cs cs' : List MediaContainer} {is is' : List MediaItem} :
    updateBytes cs is = updateBytes cs' is' ↔ fieldTexts cs is = fieldTexts cs' is' := by
  constructor
  · intro h
    have hfields : ∀ texts : List Str, ∀ field ∈ texts.map Str.bytes, 0xff ∉ field := by
      intro texts field hfield
      obtain ⟨s, -, rfl⟩ := List.mem_map.mp hfield
      exact terminator_notMem_bytes s
    exact bytes_injective.list_map (terminated_injective (hfields _) (hfields _) h)
  · intro h
    rw [updateBytes, updateBytes, h]

/-! Catalogs of one form -/

/-- The items agree in everything but the protocol info. -/
def MediaItem.SameButInfo (i j : MediaItem) : Prop := { i with protocolInfo := j.protocolInfo } = j

instance (i j : MediaItem) : Decidable (i.SameButInfo j) := inferInstanceAs (Decidable (_ = _))

/-- The same fields of the items are present. -/
def MediaItem.SameFields (i j : MediaItem) : Prop :=
  i.size.isSome = j.size.isSome ∧ i.duration.isSome = j.duration.isSome

/-- There are as many containers and as many items, with the same fields. -/
structure SameForm (cs cs' : List MediaContainer) (is is' : List MediaItem) : Prop where
  containers : cs.length = cs'.length
  items : List.Forall₂ MediaItem.SameFields is is'

theorem containerTexts_append_inj {c d : MediaContainer} {s t : List Str} :
    c.fieldTexts ++ s = d.fieldTexts ++ t ↔ c = d ∧ s = t := by
  obtain ⟨id, parentId, title⟩ := c
  obtain ⟨id', parentId', title'⟩ := d
  simp [MediaContainer.fieldTexts, and_assoc]

theorem itemTexts_append_inj {i j : MediaItem} {s t : List Str} (h : i.SameFields j) :
    i.fieldTexts ++ s = j.fieldTexts ++ t ↔ i.SameButInfo j ∧ s = t := by
  have hsize : ∀ m n : UInt64, Decimal.numeral m.toNat = Decimal.numeral n.toNat ↔ m = n := by
    intro m n
    exact ⟨fun hmn => UInt64.toNat_inj.mp (Decimal.numeral_injective hmn), fun hmn => by rw [hmn]⟩
  obtain ⟨id, parentId, title, url, mimeType, size, duration, info⟩ := i
  obtain ⟨id', parentId', title', url', mimeType', size', duration', info'⟩ := j
  obtain ⟨hs, hd⟩ := h
  cases size <;> cases size' <;> simp at hs <;> cases duration <;> cases duration' <;> simp at hd <;>
    simp [MediaItem.fieldTexts, MediaItem.SameButInfo, hsize, and_assoc]

theorem fieldTexts_inj {cs cs' : List MediaContainer} {is is' : List MediaItem}
    (h : SameForm cs cs' is is') :
    fieldTexts cs is = fieldTexts cs' is' ↔ cs = cs' ∧ List.Forall₂ MediaItem.SameButInfo is is' := by
  obtain ⟨hlen, hitems⟩ := h
  have hi : is.flatMap MediaItem.fieldTexts = is'.flatMap MediaItem.fieldTexts ↔
      List.Forall₂ MediaItem.SameButInfo is is' := by
    induction hitems with
    | nil => simp
    | cons hfields _ ih =>
        rw [List.flatMap_cons, List.flatMap_cons, itemTexts_append_inj hfields, ih,
          List.forall₂_cons]
  unfold fieldTexts
  induction cs generalizing cs' with
  | nil =>
      obtain rfl := List.length_eq_zero_iff.mp hlen.symm
      simpa using hi
  | cons c cs ih =>
      cases cs' with
      | nil => cases hlen
      | cons d cs' =>
          have hrest : cs.flatMap MediaContainer.fieldTexts ++ is.flatMap MediaItem.fieldTexts =
              cs'.flatMap MediaContainer.fieldTexts ++ is'.flatMap MediaItem.fieldTexts ↔
                cs = cs' ∧ List.Forall₂ MediaItem.SameButInfo is is' := ih (Nat.succ.inj hlen)
          rw [List.flatMap_cons, List.flatMap_cons, List.append_assoc, List.append_assoc,
            containerTexts_append_inj, hrest, List.cons.injEq, and_assoc]

/-- The streams that two catalogs are hashed from differ exactly when their sequences of
texts do. Those of catalogs of one form differ exactly when something else than a
protocol info does. -/
theorem streams_differ_iff (cs cs' : List MediaContainer) (is is' : List MediaItem) :
    (StaticCatalog.fromParts cs is).updateId =
        max ((updateBytes cs is).foldl hashByte 0x811c9dc5) 1 ∧
      (updateBytes cs is ≠ updateBytes cs' is' ↔ fieldTexts cs is ≠ fieldTexts cs' is') ∧
      (SameForm cs cs' is is' → (updateBytes cs is ≠ updateBytes cs' is' ↔
        ¬ (cs = cs' ∧ List.Forall₂ MediaItem.SameButInfo is is'))) := by
  refine ⟨catalogUpdateId_eq cs is, not_congr updateBytes_inj, fun h => not_congr ?_⟩
  rw [updateBytes_inj, fieldTexts_inj h]

/-- A clip of five bytes and no known duration. -/
def sizedClip : MediaItem := { MediaItem.mp4 ['1'] ['A'] ['u'] with size := some 5 }

/-- A clip of unknown size that lasts "5". -/
def timedClip : MediaItem := { MediaItem.mp4 ['1'] ['A'] ['u'] with duration := some ['5'] }

theorem streams_differ_iff_sample :
    updateBytes [] [sizedClip] ≠ updateBytes [] [{ sizedClip with title := ['B'] }] :=
  ((streams_differ_iff [] [] [sizedClip] [{ sizedClip with title := ['B'] }]).2.2
    ⟨rfl, .cons ⟨rfl, rfl⟩ .nil⟩).mpr fun h => absurd h.2 (by decide)

/-- A size and a duration of one text are hashed alike. -/
theorem size_read_as_duration :
    StaticCatalog.fromParts [] [sizedClip] ≠ StaticCatalog.fromParts [] [timedClip] ∧
      updateBytes [] [sizedClip] = updateBytes [] [timedClip] := by
  refine ⟨fun h => ?_, by decide⟩
  have hitems : [sizedClip] = [timedClip] := congrArg StaticCatalog.items h
  exact absurd hitems (by decide)

end RustyCastle.Server
