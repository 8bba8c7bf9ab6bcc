import RustyCastle.Server.FileTree
import RustyCastle.Server.Mp4Reading

/-!
What a scan gives for a directory tree: the containers of its directories and the
items of its media files, in the order of the walk. It fails exactly when a
movie file has a truncated header.
-/

namespace RustyCastle.Server
open Foundation RustyCastle.Dlna

/-- The object of a directory: the media directory itself is the root object. -/
def directoryId (rel : Path) : Str := if rel = [] then "0".toList else stableContainerId rel

def containerOf (rel : Path) : MediaContainer where
  id := stableContainerId rel
  parentId := directoryId rel.dropLast
  title := (rel.getLast?.bind fun name => Str.fromUtf8 name.bytes).getD (stableContainerId rel)

namespace MediaFile

def id (f : MediaFile) : Str := stableMediaId f.path

def title (f : MediaFile) : Str := (f.name.fileStem.bind Str.fromUtf8).getD f.id

/-- A movie file without a truncated header, or a file of another kind. -/
def Readable (f : MediaFile) : Prop := f.kind = .mp4 → HeadersComplete f.content

instance (f : MediaFile) : Decidable f.Readable := inferInstanceAs (Decidable (_ → _))

def duration (f : MediaFile) : Option Str :=
  if f.kind = .mp4 then (fileDuration f.content).toOption.join else none

def item (f : MediaFile) (publicBaseUrl : Str) : MediaItem :=
  { mediaItem f.kind f.id (directoryId f.dir) f.title (publicBaseUrl ++ "media/".toList ++ f.id) with
    parentId := directoryId f.dir
    size := some f.entryLen
    duration := f.duration }

@[simp] theorem item_id (f : MediaFile) (publicBaseUrl : Str) : (f.item publicBaseUrl).id = f.id := by
  rw [item]
  cases f.kind <;> rfl

@[simp] theorem item_title (f : MediaFile) (publicBaseUrl : Str) :
    (f.item publicBaseUrl).title = f.title := by
  rw [item]
  cases f.kind <;> rfl

@[simp] theorem item_url (f : MediaFile) (publicBaseUrl : Str) :
    (f.item publicBaseUrl).url = publicBaseUrl ++ "media/".toList ++ f.id := by
  rw [item]
  cases f.kind <;> rfl

def served (f : MediaFile) (root : Path) (publicBaseUrl : Str) : ServedMedia where
  item := f.item publicBaseUrl
  path := root ++ f.path

end MediaFile

/-- The result of a scan with these directories and media files added. -/
def ScannedMediaTree.add (tree : ScannedMediaTree) (root : Path) (publicBaseUrl : Str)
    (directories : List Path) (media : List MediaFile) : ScannedMediaTree where
  containers := tree.containers ++ directories.map containerOf
  media := tree.media ++ media.map fun f => f.served root publicBaseUrl

/-- What a scan gives that adds these directories and media files. -/
def scanResult (root : Path) (publicBaseUrl : Str) (tree : ScannedMediaTree)
    (directories : List Path) (media : List MediaFile) : Scan ScannedMediaTree :=
  ExceptT.mk (some
    (if ∀ f ∈ media, f.Readable then .ok (tree.add root publicBaseUrl directories media)
    else .error unexpectedEof))

variable {fs : FileSystem} {root : Path} {publicBaseUrl : Str}

theorem scanResult_nil (tree : ScannedMediaTree) :
    scanResult root publicBaseUrl tree [] [] = pure tree := by
  rw [scanResult, if_pos nofun, ScannedMediaTree.add, List.map_nil, List.map_nil, List.append_nil,
    List.append_nil]
  rfl

theorem scanResult_of_readable {tree : ScannedMediaTree} {ds : List Path} {ms : List MediaFile}
    (h : ∀ f ∈ ms, f.Readable) :
    scanResult root publicBaseUrl tree ds ms = pure (tree.add root publicBaseUrl ds ms) := by
  rw [scanResult, if_pos h]
  rfl

theorem scanResult_of_unreadable {tree : ScannedMediaTree} {ds : List Path} {ms : List MediaFile}
    {f : MediaFile} (hf : f ∈ ms) (h : ¬ f.Readable) :
    scanResult root publicBaseUrl tree ds ms = throw unexpectedEof := by
  rw [scanResult, if_neg fun hall => h (hall f hf)]
  rfl

theorem add_add (tree : ScannedMediaTree) (ds ds' : List Path) (ms ms' : List MediaFile) :
    (tree.add root publicBaseUrl ds ms).add root publicBaseUrl ds' ms' =
      tree.add root publicBaseUrl (ds ++ ds') (ms ++ ms') := by
  simp [ScannedMediaTree.add]

/-- Scanning more after a scan that added something adds both. -/
theorem scanResult_bind {tree : ScannedMediaTree} {ds ds' : List Path} {ms ms' : List MediaFile}
    {next : ScannedMediaTree → Scan ScannedMediaTree}
    (h : ∀ tree, next tree = scanResult root publicBaseUrl tree ds' ms') :
    scanResult root publicBaseUrl tree ds ms >>= next =
      scanResult root publicBaseUrl tree (ds ++ ds') (ms ++ ms') := by
  by_cases hms : ∀ f ∈ ms, f.Readable
  · rw [scanResult_of_readable hms, pure_bind, h]
    by_cases hms' : ∀ f ∈ ms', f.Readable
    · rw [scanResult_of_readable hms', add_add, scanResult_of_readable]
      intro f hf
      exact (List.mem_append.mp hf).elim (hms f) (hms' f)
    · simp only [not_forall] at hms'
      obtain ⟨f, hf, hr⟩ := hms'
      rw [scanResult_of_unreadable hf hr, scanResult_of_unreadable (List.mem_append_right _ hf) hr]
  · simp only [not_forall] at hms
    obtain ⟨f, hf, hr⟩ := hms
    rw [scanResult_of_unreadable hf hr, scanResult_of_unreadable (List.mem_append_left _ hf) hr]
    rfl

/-- A scan of entries adds what each of them adds. -/
theorem scanResult_foldlM {step : ScannedMediaTree → FileName → Scan ScannedMediaTree}
    {ds : FileName → List Path} {ms : FileName → List MediaFile} {names : List FileName}
    (h : ∀ name ∈ names, ∀ tree,
      step tree name = scanResult root publicBaseUrl tree (ds name) (ms name))
    (tree : ScannedMediaTree) :
    names.foldlM step tree =
      scanResult root publicBaseUrl tree (names.flatMap ds) (names.flatMap ms) := by
  induction names generalizing tree with
  | nil => exact (scanResult_nil tree).symm
  | cons name names ih =>
      rw [List.foldlM_cons, h name (List.mem_cons_self ..), List.flatMap_cons, List.flatMap_cons]
      exact scanResult_bind fun tree => ih (fun a ha => h a (List.mem_cons_of_mem name ha)) tree

theorem relativePath_append (rel : Path) : relativePath root (root ++ rel) = rel := by
  rw [relativePath, FileTree.isPrefixOf?_append, Option.getD_some]

theorem scanContainer_eq (rel : Path) (name : FileName) :
    scanContainer root (root ++ rel ++ [name]) name (directoryId rel) = containerOf (rel ++ [name]) := by
  rw [scanContainer, List.append_assoc, relativePath_append, containerOf, List.dropLast_concat,
    List.getLast?_concat, Option.bind_some]

theorem scanMedia_eq {f : MediaFile} (hlen : fs.entryLen (root ++ f.path) = .ok f.entryLen)
    (hopen : fs.openFile (root ++ f.path) = .ok f.content) :
    scanMedia fs root publicBaseUrl (root ++ f.path) f.name f.kind (directoryId f.dir) =
      if f.Readable then .ok (f.served root publicBaseUrl) else .error unexpectedEof := by
  have hread : mp4Duration fs (root ++ f.path) = fileDuration f.content := by
    rw [mp4Duration, hopen]
    rfl
  have hduration : (if f.kind = .mp4 then mp4Duration fs (root ++ f.path) else .ok none) =
      if f.Readable then .ok f.duration else .error unexpectedEof := by
    rw [hread, MediaFile.duration]
    by_cases hk : f.kind = .mp4
    · rw [if_pos hk, if_pos hk]
      by_cases hc : HeadersComplete f.content
      · obtain ⟨duration, hd⟩ := fileDuration_of_complete hc
        have hr : f.Readable := fun _ => hc
        rw [if_pos hr, hd]
        rfl
      · have hr : ¬ f.Readable := fun h => hc (h hk)
        rw [if_neg hr, fileDuration_of_incomplete hc]
    · have hr : f.Readable := fun h => absurd h hk
      rw [if_neg hk, if_neg hk, if_pos hr]
  rw [scanMedia, relativePath_append, hlen, hduration]
  by_cases hr : f.Readable
  · rw [if_pos hr, if_pos hr]
    rfl
  · rw [if_neg hr, if_neg hr]
    rfl

/-! Entries and directories -/

/-- What a scan of a subdirectory gives, at any depth that is enough for it. -/
def ScansTo (scanDir : Path → Str → ScannedMediaTree → Scan ScannedMediaTree) (root : Path)
    (publicBaseUrl : Str) (t : FileTree) (rel : Path) : Prop :=
  ∀ tree, scanDir (root ++ rel) (directoryId rel) tree =
    scanResult root publicBaseUrl tree (t.directories rel) (t.mediaFiles rel)

theorem scanEntry_directory {scanDir : Path → Str → ScannedMediaTree → Scan ScannedMediaTree}
    {t : FileTree} {rel : Path} {name : FileName} (hs : fs.Shows t (root ++ rel ++ [name]))
    (hdir : t.isDirectory = true) (hscan : ScansTo scanDir root publicBaseUrl t (rel ++ [name]))
    (tree : ScannedMediaTree) :
    scanEntry fs root publicBaseUrl scanDir (root ++ rel) (directoryId rel) tree name =
      scanResult root publicBaseUrl tree (t.entryDirectories rel name) (t.entryMedia rel name) := by
  have hid : (containerOf (rel ++ [name])).id = directoryId (rel ++ [name]) :=
    (if_neg (List.concat_ne_nil name rel)).symm
  have hpush : { tree with containers := tree.containers ++ [containerOf (rel ++ [name])] } =
      tree.add root publicBaseUrl [rel ++ [name]] [] := by
    rw [ScannedMediaTree.add, List.map_nil, List.append_nil]
    rfl
  have hnone : scanResult root publicBaseUrl tree [rel ++ [name]] [] =
      pure (tree.add root publicBaseUrl [rel ++ [name]] []) := scanResult_of_readable nofun
  rw [scanEntry, hs.isDir, if_pos hdir, scanContainer_eq]
  dsimp only
  rw [hid, hpush, List.append_assoc, hscan, FileTree.entryDirectories, if_pos hdir,
    FileTree.entryMedia, FileTree.mediaFile_of_isDirectory hdir,
    ← scanResult_bind fun _ => rfl, hnone, pure_bind]

theorem scanEntry_file {scanDir : Path → Str → ScannedMediaTree → Scan ScannedMediaTree}
    {t : FileTree} {rel : Path} {name : FileName} (hs : fs.Shows t (root ++ rel ++ [name]))
    (hlen : ∀ n ∈ t.entryLen?, fs.entryLen (root ++ rel ++ [name]) = .ok n)
    (hdir : t.isDirectory = false) (tree : ScannedMediaTree) :
    scanEntry fs root publicBaseUrl scanDir (root ++ rel) (directoryId rel) tree name =
      scanResult root publicBaseUrl tree (t.entryDirectories rel name) (t.entryMedia rel name) := by
  obtain ⟨hds, hms⟩ := FileTree.directories_of_not_isDirectory hdir (rel ++ [name])
  rw [FileTree.entryDirectories, FileTree.entryMedia, hds, hms, hdir, List.append_nil, scanEntry,
    hs.isDir, hdir, hs.isFile hdir, FileTree.mediaFile]
  dsimp only
  rw [if_neg Bool.false_ne_true, if_neg Bool.false_ne_true]
  cases hc : t.content? with
  | none =>
      rw [Option.isSome_none, Bool.not_false, if_pos rfl]
      split <;> first | exact (scanResult_nil tree).symm | simp_all
  | some content =>
      obtain ⟨n, hn⟩ := FileTree.entryLen?_of_content? hc
      rw [Option.isSome_some, Bool.not_true, if_neg Bool.false_ne_true, hn]
      cases hk : mediaKind name with
      | none => exact (scanResult_nil tree).symm
      | some kind =>
          let f : MediaFile :=
            { dir := rel, name := name, kind := kind, entryLen := n, content := content }
          have hpath : root ++ f.path = root ++ rel ++ [name] := (List.append_assoc ..).symm
          have hserved : scanMedia fs root publicBaseUrl (root ++ rel ++ [name]) name kind
              (directoryId rel) =
                if f.Readable then .ok (f.served root publicBaseUrl) else .error unexpectedEof := by
            rw [← hpath]
            exact scanMedia_eq (by rw [hpath]; exact hlen n hn) (by rw [hpath]; exact (hs.content hc).2)
          simp only [hserved]
          by_cases hr : f.Readable
          · have hall : ∀ g ∈ [f], g.Readable := by simpa using hr
            rw [if_pos hr]
            refine Eq.trans ?_ (scanResult_of_readable hall).symm
            rw [ScannedMediaTree.add, List.map_nil, List.append_nil]
            rfl
          · rw [if_neg hr]
            exact (scanResult_of_unreadable (List.mem_singleton_self f) hr).symm

/-- A scan of a directory adds the directories and the media files of the walk. -/
theorem scanMediaDirInto_eq {t : FileTree} {rel : Path} {depth : Nat}
    (hs : fs.Shows t (root ++ rel)) (hdir : t.isDirectory = true) (hdepth : t.depth ≤ depth) :
    ScansTo (scanMediaDirInto fs root publicBaseUrl depth) root publicBaseUrl t rel := by
  induction t generalizing rel depth with
  | file _ | other => cases hdir
  | link _ t ih => exact ih hs hdir hdepth
  | dir names nodup child ih =>
      obtain ⟨depth, rfl⟩ : ∃ d, depth = d + 1 := by
        refine ⟨depth - 1, ?_⟩
        rw [FileTree.depth] at hdepth
        omega
      obtain ⟨-, hread, hchild⟩ := hs
      intro tree
      rw [scanMediaDirInto, hread, FileTree.directories_dir, FileTree.mediaFiles_dir]
      refine scanResult_foldlM (fun name hname tree => ?_) tree
      have hmem : name ∈ names := (List.perm_insertionSort _ names).mem_iff.mp hname
      obtain ⟨hlen, hshows⟩ := hchild name hmem
      cases hc : (child name).isDirectory with
      | false => exact scanEntry_file hshows hlen hc tree
      | true =>
          have hlt : (child name).depth < (FileTree.dir names nodup child).depth :=
            FileTree.depth_child nodup hmem
          rw [List.append_assoc] at hshows
          refine scanEntry_directory (by rwa [List.append_assoc]) hc ?_ tree
          exact ih name hshows hc (by omega)

/-! The whole scan -/

/-- What a scan of a tree is to give. -/
def FileTree.scanned (t : FileTree) (root : Path) (publicBaseUrl : Str) : ScannedMediaTree where
  containers := (t.directories []).map containerOf
  media := (t.mediaFiles []).map fun f => f.served root publicBaseUrl

theorem scanMediaTree_eq {t : FileTree} {depth : Nat} (hs : fs.Shows t root)
    (hdir : t.isDirectory = true) (hdepth : t.depth ≤ depth) :
    scanMediaTree fs publicBaseUrl depth root =
      ExceptT.mk (some
        (if ∀ f ∈ t.mediaFiles [], f.Readable then .ok (t.scanned root publicBaseUrl)
        else .error unexpectedEof)) := by
  have hs' : fs.Shows t (root ++ []) := by rwa [List.append_nil]
  have hscan : ScansTo (scanMediaDirInto fs root publicBaseUrl depth) root publicBaseUrl t [] :=
    scanMediaDirInto_eq hs' hdir hdepth
  have hscan := hscan { containers := [], media := [] }
  rw [List.append_nil] at hscan
  exact hscan

/-- A movie file is read exactly when its headers are complete, and one truncated
header fails the scan of the whole tree. -/
theorem movie_read_iff_headersComplete (publicBaseUrl : Str) {t : FileTree} {depth : Nat}
    (hs : fs.Shows t root) (hdir : t.isDirectory = true) (hdepth : t.depth ≤ depth) :
    (∀ path content, fs.openFile path = .ok content →
        ((∃ duration, mp4Duration fs path = .ok duration) ↔ HeadersComplete content)) ∧
      ((∃ scanned, scanMediaTree fs publicBaseUrl depth root = ExceptT.mk (some (.ok scanned))) ↔
        ∀ f ∈ t.mediaFiles [], f.kind = .mp4 → HeadersComplete f.content) := by
  constructor
  · intro path content hopen
    have hread : mp4Duration fs path = fileDuration content := by
      rw [mp4Duration, hopen]
      rfl
    rw [hread]
    constructor
    · rintro ⟨duration, hd⟩
      by_contra hc
      rw [fileDuration_of_incomplete hc] at hd
      cases hd
    · exact fileDuration_of_complete
  · rw [scanMediaTree_eq hs hdir hdepth]
    constructor
    · rintro ⟨scanned, h⟩
      by_contra hc
      have hnot : ¬ ∀ f ∈ t.mediaFiles [], f.Readable := hc
      rw [if_neg hnot] at h
      cases h
    · intro h
      have hall : ∀ f ∈ t.mediaFiles [], f.Readable := h
      exact ⟨_, by rw [if_pos hall]⟩

/-! One movie file in a directory -/

def movieName : FileName := { bytes := Str.bytes "clip.mp4".toList, isFileName := by decide }

/-- A directory with one movie file. -/
def movieTree (content : File) : FileTree :=
  .dir [movieName] (List.nodup_singleton _) fun _ => .file content

/-- The header announces a large size, and the file ends. -/
def truncatedMovie : File where
  bytes := [0, 0, 0, 1] ++ Str.bytes "ftyp".toList
  length_lt := by decide

def emptyMovie : File := { bytes := [], length_lt := by decide }

theorem movie_read_iff_emptyMovie :
    ((∃ duration, mp4Duration ((movieTree emptyMovie).fileSystem []) [movieName] = .ok duration) ↔
        HeadersComplete emptyMovie) ∧
      ((∃ scanned, scanMediaTree ((movieTree emptyMovie).fileSystem []) [] 1 [] =
          ExceptT.mk (some (.ok scanned))) ↔
        ∀ f ∈ (movieTree emptyMovie).mediaFiles [], f.kind = .mp4 → HeadersComplete f.content) := by
  have h := movie_read_iff_headersComplete [] ((movieTree emptyMovie).fileSystem_shows []) rfl
    (Nat.le_refl 1)
  exact ⟨h.1 [movieName] emptyMovie rfl, h.2⟩

/-- Eight bytes as the content of a movie file fail the scan of the library. -/
theorem not_scan_truncatedMovie :
    mp4Duration ((movieTree truncatedMovie).fileSystem []) [movieName] = .error unexpectedEof ∧
      scanMediaTree ((movieTree truncatedMovie).fileSystem []) [] 1 [] =
        ExceptT.mk (some (.error unexpectedEof)) := by
  have hincomplete : ¬ HeadersComplete truncatedMovie := fun h =>
    h 0 (mem_headersRead (by decide)) (by decide)
  have hkind : mediaKind movieName = some .mp4 := by decide
  constructor
  · exact fileDuration_of_incomplete hincomplete
  · rw [scanMediaTree_eq ((movieTree truncatedMovie).fileSystem_shows []) rfl (Nat.le_refl 1),
      if_neg]
    intro h
    refine hincomplete (h
      { dir := []
        name := movieName
        kind := .mp4
        entryLen := truncatedMovie.len
        content := truncatedMovie } ?_ rfl)
    simp [movieTree, FileTree.mediaFiles, FileTree.mediaFile, sortByName, hkind,
      FileTree.entryLen?, FileTree.content?]

end RustyCastle.Server
