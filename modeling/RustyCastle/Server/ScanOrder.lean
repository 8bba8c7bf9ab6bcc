import RustyCastle.Server.Library

/-!
The scan does not depend on the order in which a directory lists its entries: the
entries of a directory are sorted before any of them is looked at.
-/

namespace RustyCastle.Server
open Foundation

/-! Sorting -/

/-- Names that are listed in different orders are sorted alike. -/
theorem sortByName_perm {names names' : List FileName} (h : names.Perm names') :
    sortByName names = sortByName names' := by
  have htrans : IsTrans FileName fun a b => a.bytes ≤ b.bytes := ⟨fun _ _ _ => List.le_trans⟩
  have htotal : Std.Total fun a b : FileName => a.bytes ≤ b.bytes := ⟨fun _ _ => List.le_total _ _⟩
  have hanti : Std.Antisymm fun a b : FileName => a.bytes ≤ b.bytes :=
    ⟨fun _ _ hab hba => FileName.ext_bytes (List.le_antisymm hab hba)⟩
  have hperm : (sortByName names).Perm (sortByName names') :=
    (List.perm_insertionSort _ names).trans (h.trans (List.perm_insertionSort _ names').symm)
  exact hperm.eq_of_pairwise' (List.pairwise_insertionSort _ names) (List.pairwise_insertionSort _ names')

/-! File systems that list in different orders -/

/-- The same entries in any order, or the same error. -/
inductive SameListing : Except IoError (List FileName) → Except IoError (List FileName) → Prop
  | names {l l' : List FileName} : l.Perm l' → SameListing (.ok l) (.ok l')
  | failed (e : IoError) : SameListing (.error e) (.error e)

/-- The file systems differ in the order at most in which a directory lists its entries. -/
structure FileSystem.SameEntries (fs fs' : FileSystem) : Prop where
  readDir : ∀ path, SameListing (fs.readDir path) (fs'.readDir path)
  isDir : fs.isDir = fs'.isDir
  isFile : fs.isFile = fs'.isFile
  entryLen : fs.entryLen = fs'.entryLen
  openFile : fs.openFile = fs'.openFile

namespace FileSystem.SameEntries
variable {fs fs' : FileSystem} (h : fs.SameEntries fs') (root : Path) (publicBaseUrl : Str)
include h

theorem scanMedia_eq (path : Path) (name : FileName) (kind : MediaKind) (parentId : Str) :
    scanMedia fs root publicBaseUrl path name kind parentId =
      scanMedia fs' root publicBaseUrl path name kind parentId := by
  simp only [scanMedia, mp4Duration, h.entryLen, h.openFile]

theorem scanEntry_eq (scanDir : Path → Str → ScannedMediaTree → Scan ScannedMediaTree) (dir : Path)
    (parentId : Str) (tree : ScannedMediaTree) (name : FileName) :
    scanEntry fs root publicBaseUrl scanDir dir parentId tree name =
      scanEntry fs' root publicBaseUrl scanDir dir parentId tree name := by
  simp only [scanEntry, h.isDir, h.isFile, h.scanMedia_eq]

/-- By induction on the depth: the entries are sorted alike, and each is scanned alike. -/
theorem scanMediaDirInto_eq (depth : Nat) (dir : Path) (parentId : Str) (tree : ScannedMediaTree) :
    scanMediaDirInto fs root publicBaseUrl depth dir parentId tree =
      scanMediaDirInto fs' root publicBaseUrl depth dir parentId tree := by
  induction depth generalizing dir parentId tree with
  | zero => rfl
  | succ depth ih =>
      have hscan : scanMediaDirInto fs root publicBaseUrl depth =
          scanMediaDirInto fs' root publicBaseUrl depth := by
        funext dir parentId tree
        exact ih dir parentId tree
      have hentry : scanEntry fs root publicBaseUrl (scanMediaDirInto fs root publicBaseUrl depth) dir
            parentId =
          scanEntry fs' root publicBaseUrl (scanMediaDirInto fs' root publicBaseUrl depth) dir
            parentId := by
        funext tree name
        rw [hscan, h.scanEntry_eq]
      have hlisted := h.readDir dir
      rw [scanMediaDirInto, scanMediaDirInto, hentry]
      generalize fs.readDir dir = listed at hlisted ⊢
      generalize fs'.readDir dir = listed' at hlisted ⊢
      cases hlisted with
      | failed e => rfl
      | names hperm =>
          have hsort := sortByName_perm hperm
          change List.foldlM _ tree (sortByName _) = List.foldlM _ tree (sortByName _)
          rw [hsort]

theorem scanMediaTree_eq (depth : Nat) (mediaDir : Path) :
    scanMediaTree fs publicBaseUrl depth mediaDir = scanMediaTree fs' publicBaseUrl depth mediaDir :=
  h.scanMediaDirInto_eq mediaDir publicBaseUrl depth mediaDir _ _

end FileSystem.SameEntries

/-- A file system that lists the entries of each directory in an order of its own. -/
def FileSystem.reorder (fs : FileSystem) (order : Path → List FileName → List FileName) :
    FileSystem :=
  { fs with readDir := fun path => (fs.readDir path).map (order path) }

theorem FileSystem.sameEntries_reorder (fs : FileSystem)
    {order : Path → List FileName → List FileName}
    (h : ∀ path names, List.Perm names (order path names)) : fs.SameEntries (fs.reorder order) where
  readDir path := by
    cases hread : fs.readDir path with
    | error e =>
        simp only [reorder, hread]
        exact .failed e
    | ok names =>
        simp only [reorder, hread]
        exact .names (h path names)
  isDir := rfl
  isFile := rfl
  entryLen := rfl
  openFile := rfl

/-- Two scans of a finite directory tree that differ in the order of the entries of its
directories end with the same containers and media in the same order, and so with the
same library: the same identifiers, positions and update identifier. -/
theorem scan_order_irrelevant {fs fs' : FileSystem} (h : fs.SameEntries fs') {t : FileTree}
    {config : RuntimeConfig} (hs : fs.Shows t config.mediaDir) (hdir : t.isDirectory = true)
    {depth : Nat} (hdepth : t.depth ≤ depth) :
    (∃ outcome,
      (scanMediaTree fs config.publicBaseUrl depth config.mediaDir).run = some outcome ∧
        (scanMediaTree fs' config.publicBaseUrl depth config.mediaDir).run = some outcome) ∧
      ∀ state state', (RuntimeState.scan fs depth config).run = some (.ok state) →
        (RuntimeState.scan fs' depth config).run = some (.ok state') →
        state.catalog.containers = state'.catalog.containers ∧ state.media = state'.media ∧
          state.catalog.updateId = state'.catalog.updateId ∧
          ∀ id, state.mediaByIdOrLegacyIndex id = state'.mediaByIdOrLegacyIndex id := by
  have htree := h.scanMediaTree_eq config.publicBaseUrl depth config.mediaDir
  have hscan : RuntimeState.scan fs depth config = RuntimeState.scan fs' depth config := by
    rw [RuntimeState.scan, RuntimeState.scan, htree]
  refine ⟨⟨_, congrArg ExceptT.run (scanMediaTree_eq hs hdir hdepth), ?_⟩, ?_⟩
  · rw [← htree]
    exact congrArg ExceptT.run (scanMediaTree_eq hs hdir hdepth)
  · intro state state' hstate hstate'
    rw [hscan, hstate'] at hstate
    cases hstate
    exact ⟨rfl, rfl, rfl, fun _ => rfl⟩

/-- Two empty directories. -/
def twoDirectories : FileTree :=
  .dir [⟨[0x62], by decide⟩, ⟨[0x61], by decide⟩] (by decide)
    fun _ => .dir [] List.nodup_nil fun _ => .other

theorem scan_order_irrelevant_sample :
    ∃ outcome, (scanMediaTree (twoDirectories.fileSystem []) [] 2 []).run = some outcome ∧
      (scanMediaTree ((twoDirectories.fileSystem []).reorder fun _ => List.reverse) [] 2 []).run =
        some outcome := by
  let config : RuntimeConfig := { RuntimeConfig.default with publicBaseUrl := [] }
  have hreverse : (twoDirectories.fileSystem []).SameEntries
      ((twoDirectories.fileSystem []).reorder fun _ => List.reverse) :=
    FileSystem.sameEntries_reorder _ fun _ names => names.reverse_perm.symm
  have hshows : (twoDirectories.fileSystem []).Shows twoDirectories config.mediaDir :=
    twoDirectories.fileSystem_shows []
  exact (scan_order_irrelevant hreverse hshows rfl (Nat.le_refl 2)).1

end RustyCastle.Server
