import Mathlib.Data.List.Sort
import RustyCastle.Server.Catalog
import RustyCastle.Server.Mp4

/-!
The scan of a media directory. Entries are visited in the byte order of their
names; a directory becomes a container and is scanned before the next entry, a
file of a supported kind becomes an item. The recursion is bounded by a depth,
since a file system with a loop of links has no last directory.
-/

namespace RustyCastle.Server
open Foundation RustyCastle.Dlna

structure ServedMedia where
  item : MediaItem
  path : Path
  deriving DecidableEq

structure ScannedMediaTree where
  containers : List MediaContainer
  media : List ServedMedia
  deriving DecidableEq

/-- A computation that can fail with an I/O error, or use up its depth. -/
abbrev Scan := ExceptT IoError Option

def sortByName (names : List FileName) : List FileName :=
  names.insertionSort fun a b => a.bytes ≤ b.bytes

variable (fs : FileSystem) (root : Path) (publicBaseUrl : Str)

/-- The path without the root in front. -/
def relativePath (path : Path) : Path := (root.isPrefixOf? path).getD path

/-- The item of a file before its parent, size and duration are known. -/
def mediaItem (kind : MediaKind) (id parentId title url : Str) : MediaItem :=
  match kind with
  | .mp4 => .mp4 id title url
  | .mpegPs mime profile =>
      { id := id
        parentId := parentId
        title := title
        url := url
        mimeType := mime
        size := none
        duration := none
        protocolInfo :=
          { protocol := "http-get".toList
            network := "*".toList
            contentFormat := mime
            profile := some profile
            op := some .rangeOnly
            flags := some .streamingTransferMode } }

def scanContainer (path : Path) (name : FileName) (parentId : Str) : MediaContainer :=
  let id := stableContainerId (relativePath root path)
  { id := id, parentId := parentId, title := (Str.fromUtf8 name.bytes).getD id }

def scanMedia (path : Path) (name : FileName) (kind : MediaKind) (parentId : Str) :
    Except IoError ServedMedia := do
  let id := stableMediaId (relativePath root path)
  let title := (name.fileStem.bind Str.fromUtf8).getD id
  let size ← fs.entryLen path
  let url := publicBaseUrl ++ "media/".toList ++ id
  let duration ← (if kind = .mp4 then mp4Duration fs path else .ok none : Except IoError (Option Str))
  let item := mediaItem kind id parentId title url
  .ok
    { item := { item with parentId := parentId, size := some size, duration := duration }
      path := path }

/-- One entry of a directory, given the scan of its subdirectories. -/
def scanEntry (scanDir : Path → Str → ScannedMediaTree → Scan ScannedMediaTree) (dir : Path)
    (parentId : Str) (tree : ScannedMediaTree) (name : FileName) : Scan ScannedMediaTree :=
  let path := dir ++ [name]
  if fs.isDir path then
    let container := scanContainer root path name parentId
    scanDir path container.id { tree with containers := tree.containers ++ [container] }
  else if ! fs.isFile path then pure tree
  else
    match mediaKind name with
    | none => pure tree
    | some kind => do
        let served ← ExceptT.mk (some (scanMedia fs root publicBaseUrl path name kind parentId))
        pure { tree with media := tree.media ++ [served] }

def scanMediaDirInto : Nat → Path → Str → ScannedMediaTree → Scan ScannedMediaTree
  | 0, _, _, _ => ExceptT.mk none
  | depth + 1, dir, parentId, tree => do
      let entries ← ExceptT.mk (some (fs.readDir dir))
      (sortByName entries).foldlM (scanEntry fs root publicBaseUrl (scanMediaDirInto depth) dir parentId)
        tree

def scanMediaTree (depth : Nat) (mediaDir : Path) : Scan ScannedMediaTree :=
  scanMediaDirInto fs mediaDir publicBaseUrl depth mediaDir "0".toList { containers := [], media := [] }

end RustyCastle.Server
