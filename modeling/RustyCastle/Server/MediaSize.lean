import RustyCastle.Server.Exploration
import RustyCastle.Server.MediaServing

/-!
The size that a listing gives an item, and the length of what is served for it.
The size is that of the directory entry, which for a symbolic link is the
length of the link.
-/

namespace RustyCastle.Server
open Foundation RustyCastle.UpnpAv

variable {fs : FileSystem} {t : FileTree} {config : RuntimeConfig} {state : RuntimeState}

/-- The object is in the listing of a container. -/
def Listed (catalog : StaticCatalog) (object : ObjectRef) : Prop :=
  ∃ p objects, Answered catalog p objects ∧ object ∈ objects

/-- A request for the whole of an item is answered with the length that a listing gives. -/
def SizeServed (fs : FileSystem) (state : RuntimeState) (item : MediaItem) : Prop :=
  ∀ shared request, GetsMedia shared state request item.id → ∀ depth now elapsed,
    ∃ response size, routeRequest fs depth now elapsed shared request = some (.ok response, shared) ∧
      (itemObject item).resources.map ResourceRef.size = [some size] ∧
      announced response.headers = [Decimal.numeral size.toNat]

theorem MediaFile.resource_size (f : MediaFile) (publicBaseUrl : Str) :
    (itemObject (f.item publicBaseUrl)).resources.map ResourceRef.size = [some f.entryLen] := rfl

/-- An item of a scanned library is listed under its directory. -/
theorem FileTree.listed_item {f : MediaFile} (hf : f ∈ t.mediaFiles []) (config : RuntimeConfig) :
    Listed (t.library config).catalog (itemObject (f.item config.publicBaseUrl)) := by
  have hmem : itemObject (f.item config.publicBaseUrl) ∈ catalogObjects (t.library config).catalog := by
    rw [catalogObjects, library_items]
    exact List.mem_append_right _ (List.mem_map_of_mem (List.mem_map_of_mem hf))
  obtain ⟨hbrowsable, hchild⟩ := mem_children hmem
  obtain ⟨hlt, htrim⟩ := directoryId_plain f.dir
  exact ⟨_, _, answered_children hbrowsable hlt htrim, hchild⟩

theorem sizeServed_iff (h : Scanned fs t config state) {f : MediaFile} (hf : f ∈ t.mediaFiles []) :
    SizeServed fs state (f.item config.publicBaseUrl) ↔
      ∀ g ∈ t.named f.id, f.entryLen = g.content.len := by
  constructor
  · intro hserved g hg
    have hgets : GetsMedia (libraryServer state) state (mediaRequest f.id)
        (f.item config.publicBaseUrl).id := by
      rw [f.item_id]
      exact libraryServer_getsMedia state f.id
    obtain ⟨response, size, hroute, hsize, hlen⟩ := hserved _ _ hgets 0 0 0
    obtain ⟨g', hg', response', hroute', -, hlen', -⟩ :=
      h.getMedia hf (libraryServer_getsMedia state f.id) 0 0 0
    obtain rfl : g' = g := Option.some.inj (hg'.symm.trans hg)
    rw [hroute] at hroute'
    cases hroute'
    have hlisted : f.entryLen = size := by simpa [f.resource_size] using hsize
    have hnumeral := List.cons.inj (hlen.symm.trans hlen')
    exact hlisted.trans (UInt64.toNat_inj.mp (Decimal.numeral_injective hnumeral.1))
  · intro hcond shared request hrequest depth now elapsed
    rw [f.item_id] at hrequest
    obtain ⟨g, hg, response, hroute, -, hlen, -⟩ := h.getMedia hf hrequest depth elapsed now
    refine ⟨response, f.entryLen, hroute, f.resource_size _, ?_⟩
    rw [hcond g hg, hlen]

/-- Every item of a scanned library is listed, and the sizes are those served exactly
when the entry of every media file has the length of the content that its
identifier finds. -/
theorem sizes_served_iff (h : Scanned fs t config state) :
    (∀ item ∈ state.catalog.items, Listed state.catalog (itemObject item)) ∧
      ((∀ item ∈ state.catalog.items, SizeServed fs state item) ↔
        ∀ f ∈ t.mediaFiles [], ∀ g ∈ t.named f.id, f.entryLen = g.content.len) := by
  have hstate := h.eq_library
  have hitems : state.catalog.items = (t.mediaFiles []).map fun f => f.item config.publicBaseUrl := by
    rw [hstate, FileTree.library_items]
  rw [hitems]
  constructor
  · intro item hitem
    obtain ⟨f, hf, rfl⟩ := List.mem_map.mp hitem
    rw [hstate]
    exact FileTree.listed_item hf config
  · rw [List.forall_mem_map]
    exact forall₂_congr fun f hf => sizeServed_iff h hf

theorem sizes_served_seasonTree :
    (∀ item ∈ (seasonTree.library .default).catalog.items,
        Listed (seasonTree.library .default).catalog (itemObject item)) ∧
      ((∀ item ∈ (seasonTree.library .default).catalog.items,
          SizeServed (seasonTree.fileSystem []) (seasonTree.library .default) item) ↔
        ∀ f ∈ seasonTree.mediaFiles [], ∀ g ∈ seasonTree.named f.id, f.entryLen = g.content.len) :=
  sizes_served_iff seasonTree_scanned

/-- A directory with a symbolic link of nine bytes to an empty movie file. -/
def linkTree : FileTree :=
  .dir [movieName] (List.nodup_singleton _) fun _ => .link 9 (.file emptyMovie)

def linkedMovie : MediaFile where
  dir := []
  name := movieName
  kind := .mp4
  entryLen := 9
  content := emptyMovie

theorem linkTree_walk : linkTree.mediaFiles [] = [linkedMovie] := rfl

/-- The link is listed with its own length, and the empty file is served. -/
theorem not_sizeServed_linkTree :
    Scanned (linkTree.fileSystem []) linkTree .default (linkTree.library .default) ∧
      ∃ item ∈ (linkTree.library .default).catalog.items,
        ¬ SizeServed (linkTree.fileSystem []) (linkTree.library .default) item := by
  have hscanned : Scanned (linkTree.fileSystem []) linkTree .default (linkTree.library .default) := by
    refine FileTree.scanned_library (linkTree.fileSystem_shows []) rfl fun f hf => ?_
    rw [linkTree_walk, List.mem_singleton] at hf
    rw [hf]
    exact fun _ => headersComplete_emptyMovie
  have hmem : linkedMovie ∈ linkTree.mediaFiles [] := List.mem_singleton_self _
  refine ⟨hscanned, linkedMovie.item RuntimeConfig.default.publicBaseUrl, ?_, fun h => ?_⟩
  · rw [FileTree.library_items]
    exact List.mem_map_of_mem hmem
  · obtain ⟨g, hg, hgm, -⟩ := FileTree.exists_named hmem
    have hlen := (sizeServed_iff hscanned hmem).mp h g hg
    rw [linkTree_walk, List.mem_singleton] at hgm
    rw [hgm] at hlen
    exact absurd hlen (by decide)

end RustyCastle.Server
