import RustyCastle.Server.Addressing
import RustyCastle.Server.Library

/-!
A client that browses a scanned library from the root. It is told of every
directory and of every media file once.
-/

namespace RustyCastle.Server
open Foundation Foundation.ParentLinks RustyCastle.Upnp RustyCastle.UpnpAv

/-- Requests for the children of `p` exist, and each is answered with the listing of
the objects. -/
def Answered (catalog : StaticCatalog) (p : Str) (objects : List ObjectRef) : Prop :=
  (∃ m, AsksChildren m p 0 0) ∧
    ∀ m s c, AsksChildren m p s c → ∃ number total updateId,
      handleControl m.text catalog =
        .ok (okResponse (writeActionResponse contentDirectoryService "Browse".toList
          (browseArguments (didlToString objects) number total updateId)))

theorem answered_children {catalog : StaticCatalog} {p : Str} (hp : Browsable catalog p)
    (hlt : '<' ∉ p) (htrim : Str.Trimmed p) : Answered catalog p (childrenObjects catalog p) :=
  ⟨⟨_, browseMessage_asksChildren hlt htrim 0 0⟩, fun _ _ _ h =>
    ⟨_, _, _, handleControl_children hp h⟩⟩

/-- The children of a container can be asked for. -/
def containerKey (object : ObjectRef) : Option Str :=
  if object.upnpClass = .container then some object.id else none

/-- What a client finds that asks for the children of the root, and then of every
container it is told of. -/
def browseTree (catalog : StaticCatalog) (depth : Nat) : List ObjectRef :=
  explore (childrenObjects catalog) containerKey depth "0".toList

theorem childrenObjects_eq (catalog : StaticCatalog) :
    childrenObjects catalog = childrenIn ObjectRef.parentId (catalogObjects catalog) := by
  funext p
  rw [childrenIn, catalogObjects, List.filter_append, List.filter_map, List.filter_map,
    childrenObjects, StaticCatalog.childContainers, StaticCatalog.childItems]
  simp only [beq_eq_decide]
  rfl

theorem filterMap_containerKey (catalog : StaticCatalog) :
    (catalogObjects catalog).filterMap containerKey = catalog.containers.map MediaContainer.id := by
  have hc : ∀ c : MediaContainer, containerKey (objectForContainer catalog c) = some c.id :=
    fun _ => rfl
  have hi : ∀ i : MediaItem, containerKey (itemObject i) = none := fun _ => rfl
  rw [catalogObjects, List.filterMap_append, List.filterMap_map, List.filterMap_map]
  simp [hc, hi]

/-! Catalogs whose containers come before what they hold -/

/-- Every parent is the root or a container, and that of a container comes before it. -/
structure ParentsBefore (catalog : StaticCatalog) : Prop where
  containers : ∀ before container after, catalog.containers = before ++ container :: after →
    container.parentId = "0".toList ∨ container.parentId ∈ before.map MediaContainer.id
  items : ∀ item ∈ catalog.items,
    item.parentId = "0".toList ∨ item.parentId ∈ catalog.containers.map MediaContainer.id

theorem ParentsBefore.grows {catalog : StaticCatalog} (h : ParentsBefore catalog) :
    Grows ObjectRef.parentId containerKey (· = "0".toList) (catalogObjects catalog) := by
  have hkeys : ∀ l : List MediaContainer,
      (l.map (objectForContainer catalog)).filterMap containerKey = l.map MediaContainer.id := by
    intro l
    rw [List.filterMap_map]
    exact congrFun List.filterMap_eq_map l
  rw [catalogObjects, grows_append]
  constructor
  · rw [grows_map, grows_iff]
    intro before container after hl
    refine (h.containers before container after hl).imp_right fun hm => ?_
    rw [← hkeys, List.filterMap_map] at hm
    exact hm
  · rw [hkeys, grows_map, grows_iff]
    intro before item after hl
    exact .inl (h.items item (by simp [hl]))

/-- The client finishes, and is told of every object of the catalog once. -/
theorem browseTree_perm {catalog : StaticCatalog} (h : ParentsBefore catalog)
    (hids : ("0".toList :: catalog.containers.map MediaContainer.id).Nodup) {depth : Nat}
    (hdepth : (catalogObjects catalog).length < depth) :
    Finishes (childrenObjects catalog) containerKey depth "0".toList ∧
      (browseTree catalog depth).Perm (catalogObjects catalog) := by
  rw [browseTree, childrenObjects_eq]
  exact explore_perm h.grows (by rwa [filterMap_containerKey]) hdepth

/-! The library of a directory tree -/

variable {fs : FileSystem} {t : FileTree} {config : RuntimeConfig}

/-- Different relative paths have different identifiers. -/
structure FileTree.DistinctIds (t : FileTree) : Prop where
  directories : ∀ p ∈ t.directories [], ∀ q ∈ t.directories [],
    stableContainerId p = stableContainerId q → p = q
  media : ∀ f ∈ t.mediaFiles [], ∀ g ∈ t.mediaFiles [], f.id = g.id → f.path = g.path

theorem FileTree.parentsBefore (t : FileTree) (config : RuntimeConfig) :
    ParentsBefore (t.library config).catalog where
  containers := by
    intro before container after hl
    rw [library_containers, List.map_eq_append_iff] at hl
    obtain ⟨ds, l, hl, rfl, hrest⟩ := hl
    obtain ⟨d, ds', rfl, rfl, -⟩ := List.map_eq_cons_iff.mp hrest
    have hwalk : Grows List.dropLast some (· = []) (t.directories []) := t.directories_grow rfl
    have hgrows : Grows (directoryId ∘ List.dropLast) (fun d => (some d).map directoryId)
        (· = "0".toList) (t.directories []) :=
      hwalk.map_keys fun k hk => by rw [hk]; rfl
    refine (grows_iff.mp hgrows ds d ds' hl).imp id fun hm => ?_
    obtain ⟨b, hb, hkey⟩ := List.mem_filterMap.mp hm
    rw [List.map_map]
    refine List.mem_map.mpr ⟨b, hb, ?_⟩
    have hmem : b ∈ t.directories [] := by
      rw [hl]
      exact List.mem_append_left _ hb
    exact (directoryId_of_mem hmem).symm.trans (Option.some.inj hkey)
  items := by
    intro item hitem
    rw [library_items] at hitem
    obtain ⟨f, hf, rfl⟩ := List.mem_map.mp hitem
    rw [library_containers]
    exact mem_containers_of_mediaFile hf

theorem head_stableObjectId (c : Char) (p : Path) : (stableObjectId [c] p).head? = some c := rfl

theorem stableContainerId_ne_zero (p : Path) : "0".toList ≠ stableContainerId p := fun h => by
  have := congrArg List.head? h
  rw [stableContainerId, head_stableObjectId] at this
  exact absurd this (by decide)

theorem stableContainerId_ne_stableMediaId (p q : Path) : stableContainerId p ≠ stableMediaId q :=
  fun h => by
    have := congrArg List.head? h
    rw [stableContainerId, stableMediaId, head_stableObjectId, head_stableObjectId] at this
    exact absurd this (by decide)

theorem FileTree.nodup_containerIds (h : t.DistinctIds) :
    ((t.directories []).map stableContainerId).Nodup :=
  (t.nodup_directories []).map_on fun p hp q hq => h.directories p hp q hq

theorem FileTree.nodup_mediaIds (h : t.DistinctIds) : ((t.mediaFiles []).map MediaFile.id).Nodup := by
  have hpaths := t.nodup_mediaFiles []
  refine List.Nodup.map_on (fun f hf g hg he => ?_) (List.Nodup.of_map _ hpaths)
  exact List.inj_on_of_nodup_map hpaths hf hg (h.media f hf g hg he)

/-- An identifier has no markup and no white space. -/
theorem stableContainerId_plain (p : Path) :
    '<' ∉ stableContainerId p ∧ Str.Trimmed (stableContainerId p) := by
  have hplain : ∀ c ∈ ['c'] ++ '-' :: Hexadecimal.digits, c ≠ '<' ∧ Str.isWhitespace c = false := by
    decide
  have hsub := stableObjectId_subset ['c'] p
  exact ⟨fun h => (hplain _ (hsub h)).1 rfl,
    Str.trimmed_of_forall fun c hc => (hplain c (hsub hc)).2⟩

theorem directoryId_plain (p : Path) : '<' ∉ directoryId p ∧ Str.Trimmed (directoryId p) := by
  rw [directoryId]
  split
  · decide
  · exact stableContainerId_plain p

/-- The parent of an object is the identifier of a directory. -/
theorem FileTree.parentId_mem {object : ObjectRef}
    (h : object ∈ catalogObjects (t.library config).catalog) : ∃ d, object.parentId = directoryId d := by
  rcases List.mem_append.mp h with h | h
  · rw [library_containers, List.map_map] at h
    obtain ⟨d, -, rfl⟩ := List.mem_map.mp h
    exact ⟨d.dropLast, rfl⟩
  · rw [library_items, List.map_map] at h
    obtain ⟨f, -, rfl⟩ := List.mem_map.mp h
    exact ⟨f.dir, rfl⟩

theorem browsable_of_mem {catalog : StaticCatalog} {p : Str}
    (h : p = "0".toList ∨ p ∈ catalog.containers.map MediaContainer.id) : Browsable catalog p := by
  refine h.imp_right fun hm => ?_
  obtain ⟨c, hc, rfl⟩ := List.mem_map.mp hm
  exact List.find?_isSome.mpr ⟨c, hc, beq_self_eq_true c.id⟩

/-- Every object of a scanned library is among the children of its parent, and these
can be asked for. -/
theorem FileTree.mem_children {object : ObjectRef}
    (h : object ∈ catalogObjects (t.library config).catalog) :
    Browsable (t.library config).catalog object.parentId ∧
      object ∈ childrenObjects (t.library config).catalog object.parentId := by
  have hparents := t.parentsBefore config
  refine ⟨browsable_of_mem ?_, ?_⟩
  · rcases List.mem_append.mp h with ho | ho
    · obtain ⟨c, hc, rfl⟩ := List.mem_map.mp ho
      obtain ⟨before, after, hl⟩ := List.append_of_mem hc
      refine (hparents.containers before c after hl).imp_right fun hm => ?_
      rw [hl, List.map_append]
      exact List.mem_append_left _ hm
    · obtain ⟨i, hi, rfl⟩ := List.mem_map.mp ho
      exact hparents.items i hi
  · rw [childrenObjects_eq]
    exact List.mem_filter.mpr ⟨h, decide_eq_true rfl⟩

/-- A scan succeeds and its library is browsed completely: parents come before what
they hold, every container answers with its children, and a client that asks
for all of them is told once of every directory and of every media file. -/
theorem scan_browsed_once {depth : Nat} (hs : fs.Shows t config.mediaDir)
    (hdir : t.isDirectory = true) (hdepth : t.depth ≤ depth)
    (hread : ∀ f ∈ t.mediaFiles [], f.Readable) (hids : t.DistinctIds) :
    ∃ state, RuntimeState.scan fs depth config = ExceptT.mk (some (.ok state)) ∧
      ParentsBefore state.catalog ∧
      (∀ p, p = "0".toList ∨ p ∈ state.catalog.containers.map MediaContainer.id →
        Answered state.catalog p (childrenObjects state.catalog p)) ∧
      ∀ n, (catalogObjects state.catalog).length < n →
        Finishes (childrenObjects state.catalog) containerKey n "0".toList ∧
          (browseTree state.catalog n).Perm
            ((t.directories []).map (fun d => objectForContainer state.catalog (containerOf d)) ++
              (t.mediaFiles []).map fun f => itemObject (f.item config.publicBaseUrl)) ∧
          ((browseTree state.catalog n).map ObjectRef.id).Nodup := by
  refine ⟨t.library config, by rw [scan_eq hs hdir hdepth, if_pos hread],
    t.parentsBefore config, ?_, fun n hn => ?_⟩
  · intro p hp
    have hbrowsable := browsable_of_mem hp
    rcases hp with rfl | hp
    · exact answered_children hbrowsable (by decide) (by decide)
    · rw [FileTree.library_containers, List.map_map] at hp
      obtain ⟨d, -, rfl⟩ := List.mem_map.mp hp
      exact answered_children hbrowsable (stableContainerId_plain d).1 (stableContainerId_plain d).2
  · have hcontainers : (t.library config).catalog.containers.map MediaContainer.id =
        (t.directories []).map stableContainerId := by
      rw [FileTree.library_containers, List.map_map]
      rfl
    have hobjects : catalogObjects (t.library config).catalog =
        (t.directories []).map (fun d =>
          objectForContainer (t.library config).catalog (containerOf d)) ++
          (t.mediaFiles []).map fun f => itemObject (f.item config.publicBaseUrl) := by
      rw [catalogObjects, FileTree.library_items, List.map_map]
      conv_lhs => rw [FileTree.library_containers, List.map_map]
      rfl
    have hnodup : ("0".toList :: (t.library config).catalog.containers.map MediaContainer.id).Nodup := by
      rw [hcontainers, List.nodup_cons]
      refine ⟨fun h => ?_, t.nodup_containerIds hids⟩
      obtain ⟨d, -, hd⟩ := List.mem_map.mp h
      exact stableContainerId_ne_zero d hd.symm
    obtain ⟨hfinishes, hperm⟩ := browseTree_perm (t.parentsBefore config) hnodup hn
    rw [hobjects] at hperm
    refine ⟨hfinishes, hperm, ?_⟩
    have hitems : ((t.mediaFiles []).map fun f => itemObject (f.item config.publicBaseUrl)).map
        ObjectRef.id = (t.mediaFiles []).map MediaFile.id := by
      rw [List.map_map]
      exact List.map_congr_left fun f _ => f.item_id config.publicBaseUrl
    rw [(hperm.map ObjectRef.id).nodup_iff, List.map_append, List.map_map, hitems]
    refine List.nodup_append.mpr ⟨t.nodup_containerIds hids, t.nodup_mediaIds hids, ?_⟩
    intro a ha b hb hab
    obtain ⟨d, -, rfl⟩ := List.mem_map.mp ha
    obtain ⟨f, -, rfl⟩ := List.mem_map.mp hb
    exact stableContainerId_ne_stableMediaId d f.path hab

def seasonName : FileName := { bytes := Str.bytes "Season 1".toList, isFileName := by decide }

/-- A directory with one movie file in a directory. -/
def seasonTree : FileTree :=
  .dir [seasonName] (List.nodup_singleton _) fun _ => movieTree emptyMovie

theorem headersComplete_emptyMovie : HeadersComplete emptyMovie := by
  simp [HeadersComplete, headersRead, emptyMovie]

def seasonMovie : MediaFile where
  dir := [seasonName]
  name := movieName
  kind := .mp4
  entryLen := emptyMovie.len
  content := emptyMovie

theorem seasonTree_walk :
    seasonTree.directories [] = [[seasonName]] ∧ seasonTree.mediaFiles [] = [seasonMovie] :=
  ⟨rfl, rfl⟩

theorem seasonTree_distinctIds : seasonTree.DistinctIds where
  directories := by
    intro p hp q hq _
    rw [seasonTree_walk.1, List.mem_singleton] at hp hq
    rw [hp, hq]
  media := by
    intro f hf g hg _
    rw [seasonTree_walk.2, List.mem_singleton] at hf hg
    rw [hf, hg]

theorem seasonTree_scanned :
    Scanned (seasonTree.fileSystem []) seasonTree .default (seasonTree.library .default) := by
  refine FileTree.scanned_library (seasonTree.fileSystem_shows []) rfl fun f hf => ?_
  rw [seasonTree_walk.2, List.mem_singleton] at hf
  rw [hf]
  exact fun _ => headersComplete_emptyMovie

theorem seasonTree_browsed_once :
    ∃ state, RuntimeState.scan (seasonTree.fileSystem []) 2 .default = ExceptT.mk (some (.ok state)) ∧
      ParentsBefore state.catalog ∧
      (∀ p, p = "0".toList ∨ p ∈ state.catalog.containers.map MediaContainer.id →
        Answered state.catalog p (childrenObjects state.catalog p)) ∧
      ∀ n, (catalogObjects state.catalog).length < n →
        Finishes (childrenObjects state.catalog) containerKey n "0".toList ∧
          (browseTree state.catalog n).Perm
            ((seasonTree.directories []).map
                (fun d => objectForContainer state.catalog (containerOf d)) ++
              (seasonTree.mediaFiles []).map fun f =>
                itemObject (f.item RuntimeConfig.default.publicBaseUrl)) ∧
          ((browseTree state.catalog n).map ObjectRef.id).Nodup := by
  have hread : ∀ f ∈ seasonTree.mediaFiles [], f.Readable := by
    intro f hf
    rw [seasonTree_walk.2, List.mem_singleton] at hf
    rw [hf]
    exact fun _ => headersComplete_emptyMovie
  exact scan_browsed_once (seasonTree.fileSystem_shows []) rfl (Nat.le_refl 2) hread
    seasonTree_distinctIds

end RustyCastle.Server
