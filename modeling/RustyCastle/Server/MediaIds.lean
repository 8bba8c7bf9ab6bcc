import RustyCastle.Server.Exploration
import RustyCastle.Server.MediaServing

/-!
Whether an identifier names one file. The hash is taken of the lossy reading of
the names, so it tells paths apart that are UTF-8 and need not tell others.
-/

namespace RustyCastle.Server
open Foundation

/-! Bytes that are hashed -/

def lossyNames (p : Path) : List (List UInt8) := p.map fun name => Utf8.lossy name.bytes

def exactNames (p : Path) : List (List UInt8) := p.map FileName.bytes

def IsUtf8 (p : Path) : Prop := ∀ name ∈ p, (Str.fromUtf8 name.bytes).isSome

theorem isUtf8_singleton {name : FileName} {s : Str} (h : name.bytes = s.bytes) : IsUtf8 [name] := by
  intro n hn
  rw [List.mem_singleton.mp hn, h, Str.fromUtf8_bytes]
  rfl

theorem lossyNames_of_isUtf8 {p : Path} (h : IsUtf8 p) : lossyNames p = exactNames p := by
  refine List.map_congr_left fun name hname => ?_
  obtain ⟨s, hs⟩ := Option.isSome_iff_exists.mp (h name hname)
  exact Utf8.lossy_of_fromUtf8 hs

theorem exactNames_injective : Function.Injective exactNames :=
  List.map_injective_iff.mpr fun _ _ => FileName.ext_bytes

theorem separator_not_mem_exactNames (p : Path) : ∀ c ∈ exactNames p, 0x2F ∉ c := by
  intro c hc
  obtain ⟨name, -, rfl⟩ := List.mem_map.mp hc
  exact name.isFileName.2.1

theorem separator_not_mem_lossyNames (p : Path) : ∀ c ∈ lossyNames p, 0x2F ∉ c := by
  intro c hc hmem
  obtain ⟨name, -, rfl⟩ := List.mem_map.mp hc
  rcases Utf8.mem_lossy hmem with h | h
  · exact name.isFileName.2.1 h
  · exact absurd h (by decide)

/-- The hash has no collision on the exact bytes of the paths. -/
def HashApart (ps : List Path) : Prop :=
  ∀ p ∈ ps, ∀ q ∈ ps, fnv1a (separated (exactNames p)) = fnv1a (separated (exactNames q)) →
    separated (exactNames p) = separated (exactNames q)

theorem HashApart.eq {ps : List Path} (h : HashApart ps) {p q : Path} (hp : p ∈ ps) (hq : q ∈ ps)
    (he : fnv1a (separated (exactNames p)) = fnv1a (separated (exactNames q))) : p = q :=
  exactNames_injective (separated_injective (separator_not_mem_exactNames p)
    (separator_not_mem_exactNames q) (h p hp q hq he))

/-- Different paths, one of them not UTF-8, are read lossily as different names, and
the hash has no collision on the bytes of these. -/
structure LossyApart (ps : List Path) : Prop where
  names : ∀ p ∈ ps, ∀ q ∈ ps, ¬ (IsUtf8 p ∧ IsUtf8 q) → lossyNames p = lossyNames q → p = q
  hash : ∀ p ∈ ps, ∀ q ∈ ps, ¬ (IsUtf8 p ∧ IsUtf8 q) →
    fnv1a (separated (lossyNames p)) = fnv1a (separated (lossyNames q)) →
      separated (lossyNames p) = separated (lossyNames q)

theorem pathHash_injOn_iff {ps : List Path} (h : HashApart ps) :
    (∀ p ∈ ps, ∀ q ∈ ps, pathHash p = pathHash q → p = q) ↔ LossyApart ps := by
  have hhash : ∀ p, pathHash p = fnv1a (separated (lossyNames p)) := pathHash_eq
  constructor
  · intro hinj
    constructor
    · intro p hp q hq _ he
      exact hinj p hp q hq (by rw [hhash, hhash, he])
    · intro p hp q hq _ he
      rw [hinj p hp q hq (by rw [hhash, hhash, he])]
  · intro hapart p hp q hq he
    rw [hhash, hhash] at he
    by_cases hutf8 : IsUtf8 p ∧ IsUtf8 q
    · rw [lossyNames_of_isUtf8 hutf8.1, lossyNames_of_isUtf8 hutf8.2] at he
      exact h.eq hp hq he
    · exact hapart.names p hp q hq hutf8 (separated_injective (separator_not_mem_lossyNames p)
        (separator_not_mem_lossyNames q) (hapart.hash p hp q hq hutf8 he))

theorem lossyApart_of_isUtf8 {ps : List Path} (h : ∀ p ∈ ps, IsUtf8 p) : LossyApart ps where
  names p hp q hq hnot := absurd ⟨h p hp, h q hq⟩ hnot
  hash p hp q hq hnot := absurd ⟨h p hp, h q hq⟩ hnot

/-! The identifiers of a scanned library -/

variable {fs : FileSystem} {t : FileTree} {config : RuntimeConfig} {state : RuntimeState}

def FileTree.mediaPaths (t : FileTree) : List Path := (t.mediaFiles []).map MediaFile.path

/-- A request for an identifier is answered with the content of a file. -/
def Serves (fs : FileSystem) (state : RuntimeState) (id : Str) (content : File) : Prop :=
  ∀ shared request, GetsMedia shared state request id → ∀ depth now elapsed,
    ∃ response, routeRequest fs depth now elapsed shared request = some (.ok response, shared) ∧
      response.status = 200 ∧ response.body = content.bytes

/-- Every identifier names one directory or one media file, which is what it finds. -/
structure NameOneFile (fs : FileSystem) (t : FileTree) (state : RuntimeState) : Prop where
  containers : (state.catalog.containers.map MediaContainer.id).Nodup
  items : (state.catalog.items.map MediaItem.id).Nodup
  serves : ∀ f ∈ t.mediaFiles [], Serves fs state f.id f.content

theorem FileTree.distinctIds_iff (hd : HashApart (t.directories [])) (hm : HashApart t.mediaPaths) :
    t.DistinctIds ↔ LossyApart (t.directories []) ∧ LossyApart t.mediaPaths := by
  rw [← pathHash_injOn_iff hd, ← pathHash_injOn_iff hm]
  constructor
  · intro h
    constructor
    · intro p hp q hq he
      exact h.directories p hp q hq (stableObjectId_inj.mpr he)
    · rw [mediaPaths, List.forall_mem_map]
      intro f hf
      rw [List.forall_mem_map]
      intro g hg he
      exact h.media f hf g hg (stableObjectId_inj.mpr he)
  · rintro ⟨hdirs, hmedia⟩
    exact
      { directories := fun p hp q hq he => hdirs p hp q hq (stableObjectId_inj.mp he)
        media := fun f hf g hg he => hmedia _ (List.mem_map_of_mem hf) _ (List.mem_map_of_mem hg)
          (stableObjectId_inj.mp he) }

theorem FileTree.DistinctIds.named {f : MediaFile} (h : t.DistinctIds) (hf : f ∈ t.mediaFiles []) :
    t.named f.id = some f := by
  obtain ⟨g, hnamed, hg, hid⟩ := exists_named hf
  rwa [List.inj_on_of_nodup_map (t.nodup_mediaFiles []) hg hf (h.media g hg f hf hid)] at hnamed

theorem FileTree.library_containerIds (t : FileTree) (config : RuntimeConfig) :
    (t.library config).catalog.containers.map MediaContainer.id =
      (t.directories []).map stableContainerId := by
  rw [library_containers, List.map_map]
  rfl

theorem FileTree.library_itemIds (t : FileTree) (config : RuntimeConfig) :
    (t.library config).catalog.items.map MediaItem.id = (t.mediaFiles []).map MediaFile.id := by
  rw [library_items, List.map_map]
  exact List.map_congr_left fun f _ => f.item_id config.publicBaseUrl

theorem nameOneFile_iff (h : Scanned fs t config state) :
    NameOneFile fs t state ↔ t.DistinctIds := by
  obtain rfl := h.eq_library
  constructor
  · rintro ⟨hcontainers, hitems, -⟩
    rw [FileTree.library_containerIds] at hcontainers
    rw [FileTree.library_itemIds] at hitems
    exact
      { directories := fun p hp q hq he => List.inj_on_of_nodup_map hcontainers hp hq he
        media := fun f hf g hg he => by rw [List.inj_on_of_nodup_map hitems hf hg he] }
  · intro hids
    refine ⟨?_, ?_, fun f hf shared request hrequest depth now elapsed => ?_⟩
    · rw [FileTree.library_containerIds]
      exact t.nodup_containerIds hids
    · rw [FileTree.library_itemIds]
      exact t.nodup_mediaIds hids
    · obtain ⟨g, hnamed, response, hroute, hstatus, -, hbody⟩ :=
        h.getMedia hf hrequest depth elapsed now
      obtain rfl : f = g := Option.some.inj ((hids.named hf).symm.trans hnamed)
      exact ⟨response, hroute, hstatus, hbody⟩

/-- Where the hash has no collision on the exact bytes of the paths, every identifier
names one file exactly when paths that are not UTF-8 are told apart by their
lossy reading. -/
theorem nameOneFile_iff_lossyApart (h : Scanned fs t config state)
    (hd : HashApart (t.directories [])) (hm : HashApart t.mediaPaths) :
    NameOneFile fs t state ↔ LossyApart (t.directories []) ∧ LossyApart t.mediaPaths :=
  (nameOneFile_iff h).trans (FileTree.distinctIds_iff hd hm)

theorem hashApart_singleton (p : Path) : HashApart [p] := by
  intro a ha b hb _
  rw [List.mem_singleton.mp ha, List.mem_singleton.mp hb]

theorem nameOneFile_seasonTree :
    NameOneFile (seasonTree.fileSystem []) seasonTree (seasonTree.library .default) ↔
      LossyApart (seasonTree.directories []) ∧ LossyApart seasonTree.mediaPaths :=
  nameOneFile_iff_lossyApart seasonTree_scanned (hashApart_singleton [seasonName])
    (hashApart_singleton seasonMovie.path)

/-! Two names that are not UTF-8 -/

/-- A movie name that starts with a byte that no UTF-8 text has. -/
def invalidName (b : UInt8) (h : b = 0xFE ∨ b = 0xFF) : FileName where
  bytes := b :: Str.bytes ".mp4".toList
  isFileName := by rcases h with rfl | rfl <;> decide

def firstName : FileName := invalidName 0xFE (.inl rfl)

def secondName : FileName := invalidName 0xFF (.inr rfl)

/-- Two movie files whose names differ in a byte that is not UTF-8. -/
def invalidTree : FileTree :=
  .dir [firstName, secondName] (by decide) fun _ => .file emptyMovie

def invalidMovie (name : FileName) : MediaFile where
  dir := []
  name := name
  kind := .mp4
  entryLen := emptyMovie.len
  content := emptyMovie

theorem invalidTree_walk :
    invalidTree.directories [] = [] ∧
      invalidTree.mediaFiles [] = [invalidMovie firstName, invalidMovie secondName] :=
  ⟨rfl, rfl⟩

/-- The two files get one identifier, while the hash tells their paths apart. -/
theorem not_nameOneFile_invalidTree :
    Scanned (invalidTree.fileSystem []) invalidTree .default (invalidTree.library .default) ∧
      HashApart (invalidTree.directories []) ∧ HashApart invalidTree.mediaPaths ∧
      ¬ NameOneFile (invalidTree.fileSystem []) invalidTree (invalidTree.library .default) := by
  have hscanned : Scanned (invalidTree.fileSystem []) invalidTree .default
      (invalidTree.library .default) := by
    refine FileTree.scanned_library (invalidTree.fileSystem_shows []) rfl fun f hf => ?_
    rw [invalidTree_walk.2] at hf
    have hcontent : f.content = emptyMovie := by
      rcases List.mem_pair.mp hf with rfl | rfl <;> rfl
    intro _
    rw [hcontent]
    exact headersComplete_emptyMovie
  have hpaths : invalidTree.mediaPaths = [[firstName], [secondName]] := by
    rw [FileTree.mediaPaths, invalidTree_walk.2]
    rfl
  have hhash : fnv1a (separated (exactNames [firstName])) ≠
      fnv1a (separated (exactNames [secondName])) := by decide
  have hlossy : lossyNames [firstName] = lossyNames [secondName] := by decide
  refine ⟨hscanned, ?_, ?_, fun h => ?_⟩
  · rw [invalidTree_walk.1]
    exact nofun
  · intro p hp q hq he
    rw [hpaths] at hp hq
    rcases List.mem_pair.mp hp with rfl | rfl <;> rcases List.mem_pair.mp hq with rfl | rfl
    · rfl
    · exact absurd he hhash
    · exact absurd he.symm hhash
    · rfl
  · have hid : (invalidMovie firstName).id = (invalidMovie secondName).id :=
      stableObjectId_inj.mpr (by
        rw [pathHash_eq, pathHash_eq]
        exact congrArg (fun names => fnv1a (separated names)) hlossy)
    have hnodup := h.items
    rw [FileTree.library_itemIds, invalidTree_walk.2] at hnodup
    exact (List.nodup_cons.mp hnodup).1 (by rw [hid]; exact List.mem_singleton_self _)

end RustyCastle.Server
