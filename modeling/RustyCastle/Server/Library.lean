import RustyCastle.Server.Runtime
import RustyCastle.Server.ScanTree
import RustyCastle.Server.TreeWalk

/-!
The library of a directory tree: what the state of a scan holds for its
directories and media files.
-/

namespace RustyCastle.Server
open Foundation

variable {fs : FileSystem} {t : FileTree} {config : RuntimeConfig} {state : RuntimeState}

/-- The state was scanned from a directory tree, with a depth that is enough for it. -/
structure Scanned (fs : FileSystem) (t : FileTree) (config : RuntimeConfig) (state : RuntimeState) :
    Prop where
  shows : fs.Shows t config.mediaDir
  isDirectory : t.isDirectory = true
  scan : ∃ depth, t.depth ≤ depth ∧ RuntimeState.scan fs depth config = ExceptT.mk (some (.ok state))

/-- The state of a library with the directories and the media files of a tree. -/
def FileTree.library (t : FileTree) (config : RuntimeConfig) : RuntimeState :=
  .ofScanned config (t.scanned config.mediaDir config.publicBaseUrl)

theorem scan_eq {depth : Nat} (hs : fs.Shows t config.mediaDir) (hdir : t.isDirectory = true)
    (hdepth : t.depth ≤ depth) :
    RuntimeState.scan fs depth config =
      ExceptT.mk (some
        (if ∀ f ∈ t.mediaFiles [], f.Readable then .ok (t.library config) else .error unexpectedEof)) := by
  rw [RuntimeState.scan, scanMediaTree_eq hs hdir hdepth]
  split <;> rfl

theorem Scanned.eq_library (h : Scanned fs t config state) : state = t.library config := by
  obtain ⟨depth, hdepth, hscan⟩ := h.scan
  rw [scan_eq h.shows h.isDirectory hdepth] at hscan
  split at hscan
  · cases hscan
    rfl
  · cases hscan

theorem FileTree.scanned_library (hs : fs.Shows t config.mediaDir) (hdir : t.isDirectory = true)
    (hread : ∀ f ∈ t.mediaFiles [], f.Readable) : Scanned fs t config (t.library config) where
  shows := hs
  isDirectory := hdir
  scan := ⟨t.depth, Nat.le_refl _, by rw [scan_eq hs hdir (Nat.le_refl _), if_pos hread]⟩

namespace FileTree

theorem library_containers (t : FileTree) (config : RuntimeConfig) :
    (t.library config).catalog.containers = (t.directories []).map containerOf := rfl

theorem library_media (t : FileTree) (config : RuntimeConfig) :
    (t.library config).media =
      (t.mediaFiles []).map fun f => f.served config.mediaDir config.publicBaseUrl := rfl

theorem library_items (t : FileTree) (config : RuntimeConfig) :
    (t.library config).catalog.items =
      (t.mediaFiles []).map fun f => f.item config.publicBaseUrl := by
  rw [library, RuntimeState.ofScanned, StaticCatalog.fromParts, scanned, List.map_map]
  rfl

theorem ne_nil_of_mem_directories {t : FileTree} {d : Path} (h : d ∈ t.directories []) : d ≠ [] := by
  obtain ⟨p, hp, rfl, -⟩ := mem_directories.mp h
  exact hp

/-- The identifier of a directory below the media directory. -/
theorem directoryId_of_mem {t : FileTree} {d : Path} (h : d ∈ t.directories []) :
    directoryId d = stableContainerId d := if_neg (ne_nil_of_mem_directories h)

/-- The directory of a media file is the root object or a container. -/
theorem mem_containers_of_mediaFile {t : FileTree} {f : MediaFile} (h : f ∈ t.mediaFiles []) :
    directoryId f.dir = "0".toList ∨
      directoryId f.dir ∈ ((t.directories []).map containerOf).map MediaContainer.id := by
  rcases mediaFiles_dir_mem h with hnil | hmem
  · exact .inl (by rw [hnil]; rfl)
  · refine .inr (List.mem_map.mpr ⟨containerOf f.dir, List.mem_map_of_mem hmem, ?_⟩)
    exact (directoryId_of_mem hmem).symm

end FileTree

end RustyCastle.Server
