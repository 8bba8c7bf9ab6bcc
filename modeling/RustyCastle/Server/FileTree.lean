import RustyCastle.Server.Scan

/-!
Finite directory trees, and what a scan is to find in one: its directories and
its media files in the order of a walk that enters a directory where it lists it.
-/

namespace RustyCastle.Server
open Foundation

/-- What a name in a directory stands for. A symbolic link has a length of its own
and leads to what it stands for; `other` is neither a file nor a directory,
among them a link that leads nowhere. -/
inductive FileTree where
  | file (content : File)
  | link (ownLen : UInt64) (target : FileTree)
  | dir (names : List FileName) (nodup : names.Nodup) (child : FileName → FileTree)
  | other

namespace FileTree

/-- What a link leads to. -/
def target : FileTree → FileTree
  | .link _ t => t.target
  | t => t

def isDirectory : FileTree → Bool
  | .link _ t => t.isDirectory
  | .dir .. => true
  | .file _ | .other => false

/-- The content of a file, links followed. -/
def content? : FileTree → Option File
  | .link _ t => t.content?
  | .file content => some content
  | .dir .. | .other => none

/-- The length that a directory entry reports of itself. -/
def entryLen? : FileTree → Option UInt64
  | .link ownLen _ => some ownLen
  | .file content => some content.len
  | .dir .. | .other => none

def depth : FileTree → Nat
  | .link _ t => t.depth
  | .dir names _ child => (names.map fun name => (child name).depth).foldr max 0 + 1
  | .file _ | .other => 0

/-! The walk -/

/-- The directories below a directory, with their paths from `rel` on. -/
def directories : FileTree → Path → List Path
  | .link _ t, rel => t.directories rel
  | .dir names _ child, rel =>
      (sortByName names).flatMap fun name =>
        (if (child name).isDirectory then [rel ++ [name]] else []) ++
          (child name).directories (rel ++ [name])
  | .file _, _ | .other, _ => []

end FileTree

/-- A file of a supported kind. -/
structure MediaFile where
  dir : Path
  name : FileName
  kind : MediaKind
  entryLen : UInt64
  content : File

def MediaFile.path (f : MediaFile) : Path := f.dir ++ [f.name]

namespace FileTree

/-- The media file that a name in a directory is, if it is one. -/
def mediaFile (t : FileTree) (rel : Path) (name : FileName) : List MediaFile :=
  match mediaKind name, t.entryLen?, t.content? with
  | some kind, some entryLen, some content =>
      [{ dir := rel, name := name, kind := kind, entryLen := entryLen, content := content }]
  | _, _, _ => []

/-- The media files below a directory, with their paths from `rel` on. -/
def mediaFiles : FileTree → Path → List MediaFile
  | .link _ t, rel => t.mediaFiles rel
  | .dir names _ child, rel =>
      (sortByName names).flatMap fun name =>
        (child name).mediaFile rel name ++ (child name).mediaFiles (rel ++ [name])
  | .file _, _ | .other, _ => []

/-- The directories that a name in a directory adds to the walk. -/
def entryDirectories (t : FileTree) (rel : Path) (name : FileName) : List Path :=
  (if t.isDirectory then [rel ++ [name]] else []) ++ t.directories (rel ++ [name])

/-- The media files that a name in a directory adds to the walk. -/
def entryMedia (t : FileTree) (rel : Path) (name : FileName) : List MediaFile :=
  t.mediaFile rel name ++ t.mediaFiles (rel ++ [name])

theorem directories_dir {names : List FileName} (nodup : names.Nodup) (child : FileName → FileTree)
    (rel : Path) :
    (dir names nodup child).directories rel =
      (sortByName names).flatMap fun name => (child name).entryDirectories rel name := rfl

theorem mediaFiles_dir {names : List FileName} (nodup : names.Nodup) (child : FileName → FileTree)
    (rel : Path) :
    (dir names nodup child).mediaFiles rel =
      (sortByName names).flatMap fun name => (child name).entryMedia rel name := rfl

theorem depth_child {names : List FileName} (nodup : names.Nodup) {child : FileName → FileTree}
    {name : FileName} (h : name ∈ names) : (child name).depth < (dir names nodup child).depth := by
  rw [depth]
  induction names with
  | nil => cases h
  | cons a names ih =>
      rw [List.map_cons, List.foldr_cons]
      rcases List.mem_cons.mp h with rfl | h
      · omega
      · have := ih (List.nodup_cons.mp nodup).2 h
        omega

theorem directories_of_not_isDirectory {t : FileTree} (h : t.isDirectory = false) (rel : Path) :
    t.directories rel = [] ∧ t.mediaFiles rel = [] := by
  induction t with
  | file _ | other => exact ⟨rfl, rfl⟩
  | link _ t ih => exact ih h
  | dir => cases h

theorem entryLen?_of_content? {t : FileTree} {content : File} (h : t.content? = some content) :
    ∃ n, t.entryLen? = some n := by
  cases t with
  | file content => exact ⟨content.len, rfl⟩
  | link ownLen t => exact ⟨ownLen, rfl⟩
  | dir | other => cases h

theorem content?_of_isDirectory {t : FileTree} (h : t.isDirectory = true) : t.content? = none := by
  induction t with
  | file _ | other => cases h
  | link _ t ih => exact ih h
  | dir => rfl

theorem mediaFile_of_isDirectory {t : FileTree} (h : t.isDirectory = true) (rel : Path)
    (name : FileName) : t.mediaFile rel name = [] := by
  rw [mediaFile, content?_of_isDirectory h]
  split <;> simp_all

end FileTree

/-! File systems that show a tree -/

/-- The calls on a path, and on the paths below it, answer as the tree says. -/
def FileSystem.Shows (fs : FileSystem) : FileTree → Path → Prop
  | .file content, path =>
      fs.isDir path = false ∧ fs.isFile path = true ∧ fs.len path = .ok content.len ∧
        fs.openFile path = .ok content
  | .link _ t, path => fs.Shows t path
  | .dir names _ child, path =>
      fs.isDir path = true ∧ fs.readDir path = .ok names ∧
        ∀ name ∈ names, (∀ n ∈ (child name).entryLen?, fs.entryLen (path ++ [name]) = .ok n) ∧
          fs.Shows (child name) (path ++ [name])
  | .other, path => fs.isDir path = false ∧ fs.isFile path = false

theorem FileSystem.Shows.isDir {fs : FileSystem} {t : FileTree} {path : Path}
    (h : fs.Shows t path) : fs.isDir path = t.isDirectory := by
  induction t with
  | file _ | other => exact h.1
  | link _ t ih => exact ih h
  | dir => exact h.1

theorem FileSystem.Shows.isFile {fs : FileSystem} {t : FileTree} {path : Path}
    (h : fs.Shows t path) (hdir : t.isDirectory = false) :
    fs.isFile path = t.content?.isSome := by
  induction t with
  | file _ => exact h.2.1
  | other => exact h.2
  | link _ t ih => exact ih h hdir
  | dir => cases hdir

theorem FileSystem.Shows.content {fs : FileSystem} {t : FileTree} {path : Path}
    (h : fs.Shows t path) {content : File} (hc : t.content? = some content) :
    fs.len path = .ok content.len ∧ fs.openFile path = .ok content := by
  induction t with
  | file f =>
      obtain rfl := Option.some.inj hc
      exact ⟨h.2.2.1, h.2.2.2⟩
  | other | dir => cases hc
  | link _ t ih => exact ih h hc

/-! The file system of a tree -/

namespace FileTree

/-- What a path in a directory leads to. -/
def find : FileTree → Path → Option FileTree
  | t, [] => some t
  | t, name :: rest =>
      match t.target with
      | .dir names _ child => if name ∈ names then (child name).find rest else none
      | _ => none

def names? (t : FileTree) : Option (List FileName) :=
  match t.target with
  | .dir names _ _ => some names
  | _ => none

def notFound : IoError := { message := "No such file or directory (os error 2)".toList }

/-- The file system that has the tree at `root` and nothing else. -/
def fileSystem (t : FileTree) (root : Path) : FileSystem :=
  let at? (path : Path) : Option FileTree := (root.isPrefixOf? path).bind t.find
  { readDir := fun path => ((at? path).bind names?).elim (.error notFound) .ok
    isDir := fun path => (at? path).any isDirectory
    isFile := fun path => ((at? path).bind content?).isSome
    entryLen := fun path => ((at? path).bind entryLen?).elim (.error notFound) .ok
    len := fun path => (((at? path).bind content?).map File.len).elim (.error notFound) .ok
    openFile := fun path => ((at? path).bind content?).elim (.error notFound) .ok
    len_of_open := by
      intro path n file hn hfile
      cases hc : (at? path).bind content? with
      | none =>
          rw [hc] at hfile
          cases hfile
      | some content =>
          rw [hc] at hn hfile
          cases hn
          cases hfile
          rfl }

theorem find_append (t : FileTree) (p q : Path) : t.find (p ++ q) = (t.find p).bind (find · q) := by
  induction p generalizing t with
  | nil => rfl
  | cons name p ih =>
      rw [List.cons_append, find, find]
      split
      · split
        · exact ih _
        · rfl
      · rfl

theorem isPrefixOf?_append (root rel : Path) : root.isPrefixOf? (root ++ rel) = some rel := by
  induction root with
  | nil => rfl
  | cons a root ih => simp [List.isPrefixOf?, ih]

theorem isDirectory_target (t : FileTree) : t.target.isDirectory = t.isDirectory := by
  induction t with
  | link _ t ih => exact ih
  | file _ | dir | other => rfl

theorem content?_target (t : FileTree) : t.target.content? = t.content? := by
  induction t with
  | link _ t ih => exact ih
  | file _ | dir | other => rfl

/-- The tree that a link leads to is shown where the link is. -/
theorem fileSystem_shows_at {t s s' : FileTree} {root rel : Path} (hfind : t.find rel = some s')
    (htarget : s'.target = s.target) : (t.fileSystem root).Shows s (root ++ rel) := by
  have hat : (root.isPrefixOf? (root ++ rel)).bind t.find = some s' := by
    rw [isPrefixOf?_append, Option.bind_some, hfind]
  have hdir : s'.isDirectory = s.target.isDirectory := by rw [← isDirectory_target s', htarget]
  have hcontent : s'.content? = s.target.content? := by rw [← content?_target s', htarget]
  induction s generalizing rel s' with
  | file content => simp_all [FileSystem.Shows, fileSystem, target, isDirectory, content?]
  | other => simp_all [FileSystem.Shows, fileSystem, target, isDirectory, content?]
  | link _ s ih => exact ih hfind htarget hat hdir hcontent
  | dir names nodup child ih =>
      refine ⟨?_, ?_, fun name hname => ?_⟩
      · simp [fileSystem, hat, hdir, target, isDirectory]
      · simp [fileSystem, hat, names?, htarget, target]
      · have hchild : t.find (rel ++ [name]) = some (child name) := by
          rw [find_append, hfind, Option.bind_some, find, htarget]
          simp [target, hname, find]
        have hatChild : (root.isPrefixOf? (root ++ rel ++ [name])).bind t.find =
            some (child name) := by
          rw [List.append_assoc, isPrefixOf?_append, Option.bind_some, hchild]
        refine ⟨fun n hn => ?_, ?_⟩
        · rw [Option.mem_def] at hn
          simp only [fileSystem, hatChild, Option.bind_some, hn, Option.elim_some]
        · rw [List.append_assoc]
          exact ih name hchild rfl (by rwa [← List.append_assoc]) (isDirectory_target _).symm
            (content?_target _).symm

theorem fileSystem_shows (t : FileTree) (root : Path) : (t.fileSystem root).Shows t root := by
  have hfind : t.find [] = some t := rfl
  have h : (t.fileSystem root).Shows t (root ++ []) := fileSystem_shows_at hfind rfl
  rwa [List.append_nil] at h

end FileTree

end RustyCastle.Server
