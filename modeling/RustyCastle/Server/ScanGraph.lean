import RustyCastle.Foundation.DepthFirst
import RustyCastle.Server.Mp4Reading
import RustyCastle.Server.FileTree

/-!
The scan of a file system whose directories, files and links form a finite graph. Nothing
notes which directories the scan has been in, so a link to a directory on the way to it is
scanned without end, and a directory that two paths lead to becomes two containers.
-/

namespace RustyCastle.Server
open Foundation Foundation.DepthFirst RustyCastle.Dlna

/-! The walk of a scan -/

/-- A media file that does not fail the scan. -/
def servable (fs : FileSystem) (path : Path) (kind : MediaKind) : Bool :=
  (fs.entryLen path).toBool && (decide (kind ≠ .mp4) || (mp4Duration fs path).toBool)

/-- What a name in a directory is to the walk, if it is anything: a directory to enter, or a
file that stops the scan. -/
def scanStep (fs : FileSystem) (dir : Path) (name : FileName) : Option (Option Path) :=
  let path := dir ++ [name]
  if fs.isDir path then some (some path)
  else if ! fs.isFile path then none
  else
    match mediaKind name with
    | none => none
    | some kind => if servable fs path kind then none else some none

def scanSteps (fs : FileSystem) (dir : Path) : List (Option Path) :=
  match fs.readDir dir with
  | .error _ => [none]
  | .ok names => (sortByName names).filterMap (scanStep fs dir)

/-- The directories that a scan pushes a container for, in this order. -/
def pushedDirectories (fs : FileSystem) (depth : Nat) (mediaDir : Path) : List Path :=
  (walk (scanSteps fs) depth mediaDir).entered

/-- The scan ends as the walk does, with a container more for every directory entered. -/
def Follows (root : Path) (tree : ScannedMediaTree) (scan : Scan ScannedMediaTree)
    (walk : Walk Path) : Prop :=
  match walk.outcome with
  | .deep => scan.run = none
  | .stopped => ∃ e, scan.run = some (.error e)
  | .finished => ∃ scanned, scan.run = some (.ok scanned) ∧
      scanned.containers.map MediaContainer.id = tree.containers.map MediaContainer.id ++
        walk.entered.map fun path => stableContainerId (relativePath root path)

variable {fs : FileSystem} {root : Path} {publicBaseUrl : Str}

theorem follows_pure (tree : ScannedMediaTree) :
    Follows root tree (pure tree) { entered := [], outcome := .finished } :=
  ⟨tree, rfl, (List.append_nil _).symm⟩

theorem Follows.bind {tree : ScannedMediaTree} {scan : Scan ScannedMediaTree}
    {next : ScannedMediaTree → Scan ScannedMediaTree} {a b : Walk Path}
    (h : Follows root tree scan a) (hnext : ∀ tree, Follows root tree (next tree) b) :
    Follows root tree (scan >>= next) (a.andThen b) := by
  obtain ⟨as, _ | _ | _⟩ := a
  · obtain ⟨scanned, hscan, hcontainers⟩ := h
    have hbind : (scan >>= next).run = (next scanned).run := by
      rw [ExceptT.run_bind, hscan]
      rfl
    have hb := hnext scanned
    obtain ⟨bs, _ | _ | _⟩ := b
    · obtain ⟨scanned', hscan', hcontainers'⟩ := hb
      refine ⟨scanned', hbind.trans hscan', ?_⟩
      rw [hcontainers', hcontainers, List.append_assoc, ← List.map_append]
      rfl
    · obtain ⟨e, he⟩ := hb
      exact ⟨e, hbind.trans he⟩
    · exact hbind.trans hb
  · obtain ⟨e, he⟩ := h
    refine ⟨e, ?_⟩
    rw [ExceptT.run_bind, he]
    rfl
  · change (scan >>= next).run = none
    rw [ExceptT.run_bind, show scan.run = none from h]
    rfl

/-- The container of a directory is pushed before the directory is entered. -/
theorem Follows.enter {tree tree' : ScannedMediaTree} {scan : Scan ScannedMediaTree}
    {walk : Walk Path} {path : Path} (h : Follows root tree' scan walk)
    (hpush : tree'.containers.map MediaContainer.id =
      tree.containers.map MediaContainer.id ++ [stableContainerId (relativePath root path)]) :
    Follows root tree scan ((walk.enter path).andThen { entered := [], outcome := .finished }) := by
  obtain ⟨ps, _ | _ | _⟩ := walk
  · obtain ⟨scanned, hscan, hcontainers⟩ := h
    refine ⟨scanned, hscan, ?_⟩
    rw [hcontainers, hpush, List.append_assoc]
    simp [Walk.andThen, Walk.enter]
  · exact h
  · exact h

theorem scanMedia_of_servable {path : Path} {name : FileName} {kind : MediaKind} (parentId : Str) :
    (scanMedia fs root publicBaseUrl path name kind parentId).toBool = servable fs path kind := by
  rw [scanMedia, servable]
  cases hlen : fs.entryLen path with
  | error e => rfl
  | ok n =>
      by_cases hkind : kind = .mp4
      · rw [if_pos hkind]
        cases hduration : mp4Duration fs path with
        | error e => simp [hkind]; rfl
        | ok d => simp [hkind]; rfl
      · rw [if_neg hkind]
        simp [hkind]
        rfl

theorem scanEntry_follows {scanDir : Path → Str → ScannedMediaTree → Scan ScannedMediaTree}
    {visit : Path → Walk Path}
    (h : ∀ path parentId tree, Follows root tree (scanDir path parentId tree) (visit path))
    (dir : Path) (parentId : Str) (tree : ScannedMediaTree) (name : FileName) :
    Follows root tree (scanEntry fs root publicBaseUrl scanDir dir parentId tree name)
      (through visit (scanStep fs dir name).toList) := by
  rw [scanEntry, scanStep]
  dsimp only
  cases hdir : fs.isDir (dir ++ [name]) with
  | true =>
      rw [if_pos rfl, if_pos rfl, Option.toList_some, through, through]
      exact (h _ _ _).enter (by rw [List.map_append]; rfl)
  | false =>
      rw [if_neg Bool.false_ne_true, if_neg Bool.false_ne_true]
      cases hfile : fs.isFile (dir ++ [name]) with
      | false =>
          rw [Bool.not_false, if_pos rfl, if_pos rfl]
          exact follows_pure tree
      | true =>
          rw [Bool.not_true, if_neg Bool.false_ne_true, if_neg Bool.false_ne_true]
          cases mediaKind name with
          | none => exact follows_pure tree
          | some kind =>
              have hserves : (scanMedia fs root publicBaseUrl (dir ++ [name]) name kind parentId).toBool =
                  servable fs (dir ++ [name]) kind := scanMedia_of_servable parentId
              dsimp only
              rw [← hserves]
              cases scanMedia fs root publicBaseUrl (dir ++ [name]) name kind parentId with
              | error e => exact ⟨e, rfl⟩
              | ok served => exact ⟨_, rfl, (List.append_nil _).symm⟩

theorem scanMediaDirInto_follows (depth : Nat) (dir : Path) (parentId : Str)
    (tree : ScannedMediaTree) :
    Follows root tree (scanMediaDirInto fs root publicBaseUrl depth dir parentId tree)
      (walk (scanSteps fs) depth dir) := by
  induction depth generalizing dir parentId tree with
  | zero => rfl
  | succ depth ih =>
      rw [scanMediaDirInto, walk]
      cases hread : fs.readDir dir with
      | error e =>
          rw [scanSteps, hread]
          exact ⟨e, rfl⟩
      | ok names =>
          have hsteps : scanSteps fs dir = (sortByName names).filterMap (scanStep fs dir) := by
            rw [scanSteps, hread]
          rw [hsteps]
          change Follows root tree (List.foldlM _ tree (sortByName names)) _
          generalize sortByName names = names
          induction names generalizing tree with
          | nil => exact follows_pure tree
          | cons name names ih' =>
              have hsplit : (name :: names).filterMap (scanStep fs dir) =
                  (scanStep fs dir name).toList ++ names.filterMap (scanStep fs dir) := by
                cases hstep : scanStep fs dir name <;> simp [hstep]
              rw [List.foldlM_cons, hsplit, through_append]
              exact (scanEntry_follows ih dir parentId tree name).bind ih'

/-! Graphs of directories, files and links -/

/-- What a node of a file system is. A link has a length of its own; `other` is neither a
file nor a directory. -/
inductive FileNode (ν : Type) where
  | file (content : File)
  | link (ownLen : UInt64) (target : ν)
  | dir (names : List FileName) (nodup : names.Nodup) (child : FileName → ν)
  | other

namespace FileNode
variable {ν : Type}

def isDirectory : FileNode ν → Bool
  | dir .. => true
  | _ => false

def names? : FileNode ν → Option (List FileName)
  | dir names _ _ => some names
  | _ => none

def content? : FileNode ν → Option File
  | file content => some content
  | _ => none

/-- The length that a directory entry reports of itself. -/
def entryLen? : FileNode ν → Option UInt64
  | file content => some content.len
  | link ownLen _ => some ownLen
  | dir .. | other => none

end FileNode

/-- The nodes of a file system. Links may lead anywhere. -/
abbrev FileGraph (ν : Type) := ν → FileNode ν

namespace FileGraph
variable {ν : Type} (g : FileGraph ν) (links : Nat)

/-- Where a lookup comes to that follows so many links in a row. -/
def follow : Nat → ν → ν
  | 0, v => v
  | links + 1, v =>
      match g v with
      | .link _ target => follow links target
      | _ => v

/-- The entry at a path from a node, its own link not followed. -/
def find : ν → Path → Option ν
  | v, [] => some v
  | v, name :: rest =>
      match g (g.follow links v) with
      | .dir names _ child => if name ∈ names then find (child name) rest else none
      | _ => none

/-- The node that a path below the media directory leads to. -/
def nodeAt (mediaDir : ν) (root path : Path) : Option ν :=
  ((root.isPrefixOf? path).bind (g.find links mediaDir)).map (g.follow links)

/-- The file system that has the graph at `root` and nothing else. -/
def fileSystem (mediaDir : ν) (root : Path) : FileSystem :=
  let at? (path : Path) : Option (FileNode ν) := (g.nodeAt links mediaDir root path).map g
  let foundAt (path : Path) : Option (FileNode ν) :=
    ((root.isPrefixOf? path).bind (g.find links mediaDir)).map g
  { readDir := fun path => ((at? path).bind FileNode.names?).elim (.error FileTree.notFound) .ok
    isDir := fun path => (at? path).any FileNode.isDirectory
    isFile := fun path => ((at? path).bind FileNode.content?).isSome
    entryLen := fun path => ((foundAt path).bind FileNode.entryLen?).elim (.error FileTree.notFound) .ok
    len := fun path => (((at? path).bind FileNode.content?).map File.len).elim (.error FileTree.notFound) .ok
    openFile := fun path => ((at? path).bind FileNode.content?).elim (.error FileTree.notFound) .ok
    len_of_open := by
      intro path n file hn hfile
      cases hc : (at? path).bind FileNode.content? with
      | none =>
          rw [hc] at hfile
          cases hfile
      | some content =>
          rw [hc] at hn hfile
          cases hn
          cases hfile
          rfl }

/-- What a name in a directory of the graph is to a scan. -/
def entryStep (name : FileName) (v : ν) : Option (Option ν) :=
  match g (g.follow links v) with
  | .dir .. => some (some (g.follow links v))
  | .file content => if mediaKind name = some .mp4 ∧ ¬ HeadersComplete content then some none else none
  | .link .. | .other => none

/-- The subdirectories of a directory and its movie files with a truncated header, in the
order of a scan. What is not a directory cannot be listed. -/
def scanEntries (v : ν) : List (Option ν) :=
  match g v with
  | .dir names _ child => (sortByName names).filterMap fun name => g.entryStep links name (child name)
  | _ => [none]

/-! The scan walks the graph -/

variable {g links}

theorem follow_of_not_link {v : ν} (h : ∀ ownLen target, g v ≠ .link ownLen target) :
    g.follow links v = v := by
  cases links with
  | zero => rfl
  | succ links =>
      rw [follow]
      split
      · rename_i hlink
        exact absurd hlink (h _ _)
      · rfl

/-- What leads to a file has a length of its own. -/
theorem entryLen?_of_content? {v : ν} {content : File}
    (h : (g (g.follow links v)).content? = some content) : ∃ n, (g v).entryLen? = some n := by
  cases hv : g v with
  | file content => exact ⟨content.len, rfl⟩
  | link ownLen target => exact ⟨ownLen, rfl⟩
  | dir | other =>
      rw [follow_of_not_link (by rw [hv]; simp), hv] at h
      cases h

theorem find_concat {v w : ν} {rel : Path} {name : FileName} {names : List FileName}
    {nodup : names.Nodup} {child : FileName → ν} (h : g.find links v rel = some w)
    (hw : g (g.follow links w) = .dir names nodup child) (hname : name ∈ names) :
    g.find links v (rel ++ [name]) = some (child name) := by
  induction rel generalizing v with
  | nil =>
      obtain rfl : v = w := Option.some.inj h
      rw [List.nil_append, find, hw]
      exact if_pos hname
  | cons a rel ih =>
      rw [find] at h
      rw [List.cons_append, find]
      split at h
      · split at h
        · rename_i ha
          rw [if_pos ha]
          exact ih h
        · cases h
      · cases h

/-- The path of a node, from the media directory on. -/
def Reaches (g : FileGraph ν) (links : Nat) (mediaDir : ν) (root path : Path) (v : ν) : Prop :=
  ∃ rel w, path = root ++ rel ∧ g.find links mediaDir rel = some w ∧ v = g.follow links w

variable {mediaDir : ν} {root : Path}

theorem Reaches.nodeAt {path : Path} {v : ν} (h : g.Reaches links mediaDir root path v) :
    g.nodeAt links mediaDir root path = some v := by
  obtain ⟨rel, w, rfl, hfind, rfl⟩ := h
  rw [FileGraph.nodeAt, FileTree.isPrefixOf?_append, Option.bind_some, hfind, Option.map_some]

theorem Reaches.child {path : Path} {v : ν} (h : g.Reaches links mediaDir root path v)
    {name : FileName} {names : List FileName} {nodup : names.Nodup} {child : FileName → ν}
    (hv : g v = .dir names nodup child) (hname : name ∈ names) :
    g.Reaches links mediaDir root (path ++ [name]) (g.follow links (child name)) := by
  obtain ⟨rel, w, rfl, hfind, rfl⟩ := h
  exact ⟨rel ++ [name], child name, List.append_assoc .., find_concat hfind hv hname, rfl⟩

theorem Reaches.isDir {path : Path} {v : ν} (h : g.Reaches links mediaDir root path v) :
    (g.fileSystem links mediaDir root).isDir path = (g v).isDirectory := by
  simp only [fileSystem, h.nodeAt, Option.map_some, Option.any_some]

theorem Reaches.isFile {path : Path} {v : ν} (h : g.Reaches links mediaDir root path v) :
    (g.fileSystem links mediaDir root).isFile path = (g v).content?.isSome := by
  simp only [fileSystem, h.nodeAt, Option.map_some, Option.bind_some]

theorem Reaches.readDir {path : Path} {v : ν} (h : g.Reaches links mediaDir root path v) :
    (g.fileSystem links mediaDir root).readDir path =
      (g v).names?.elim (.error FileTree.notFound) .ok := by
  simp only [fileSystem, h.nodeAt, Option.map_some, Option.bind_some]

theorem Reaches.servable {path : Path} {v : ν} (h : g.Reaches links mediaDir root path v)
    {content : File} (hv : g v = .file content) (kind : MediaKind) :
    servable (g.fileSystem links mediaDir root) path kind =
      decide (kind = .mp4 → HeadersComplete content) := by
  have hnode := h.nodeAt
  obtain ⟨rel, w, rfl, hfind, rfl⟩ := h
  have hopen : (g.fileSystem links mediaDir root).openFile (root ++ rel) = .ok content := by
    simp only [fileSystem, hnode, Option.map_some, Option.bind_some, hv]
    rfl
  have hread : mp4Duration (g.fileSystem links mediaDir root) (root ++ rel) = fileDuration content := by
    rw [mp4Duration, hopen]
    rfl
  have hcontent : (g (g.follow links w)).content? = some content := by rw [hv, FileNode.content?]
  obtain ⟨n, hn⟩ := entryLen?_of_content? hcontent
  have hlen : (g.fileSystem links mediaDir root).entryLen (root ++ rel) = .ok n := by
    simp only [fileSystem, FileTree.isPrefixOf?_append, Option.bind_some, hfind, Option.map_some, hn,
      Option.elim_some]
  rw [RustyCastle.Server.servable, hlen, hread]
  by_cases hc : HeadersComplete content
  · obtain ⟨duration, hd⟩ := fileDuration_of_complete hc
    simp [hd, hc, Except.toBool]
  · simp [fileDuration_of_incomplete hc, hc, Except.toBool]

theorem scanStep_related {path : Path} {v : ν} (h : g.Reaches links mediaDir root path v)
    {name : FileName} {names : List FileName} {nodup : names.Nodup} {child : FileName → ν}
    (hv : g v = .dir names nodup child) (hname : name ∈ names) :
    Option.Rel (Option.Rel (g.Reaches links mediaDir root))
      (scanStep (g.fileSystem links mediaDir root) path name)
      (g.entryStep links name (child name)) := by
  have hchild := h.child hv hname
  rw [scanStep, entryStep, hchild.isDir, hchild.isFile]
  cases hu : g (g.follow links (child name)) with
  | dir names nodup child => exact .some (.some hchild)
  | link ownLen target => exact .none
  | other => exact .none
  | file content =>
      have hdir : (FileNode.file content : FileNode ν).isDirectory = false := rfl
      have hfile : (FileNode.file content : FileNode ν).content?.isSome = true := rfl
      rw [hdir, hfile, if_neg Bool.false_ne_true, Bool.not_true, if_neg Bool.false_ne_true]
      cases hkind : mediaKind name with
      | none => exact .none
      | some kind =>
          dsimp only
          rw [hchild.servable hu]
          by_cases hc : kind = .mp4 ∧ ¬ HeadersComplete content
          · have hnot : ¬ (kind = .mp4 → HeadersComplete content) := fun himp => hc.2 (himp hc.1)
            rw [if_neg (by rwa [decide_eq_true_eq]), if_pos ⟨congrArg some hc.1, hc.2⟩]
            exact .some .none
          · have himp : kind = .mp4 → HeadersComplete content :=
              fun hk => not_not.mp fun hn => hc ⟨hk, hn⟩
            rw [if_pos (decide_eq_true himp), if_neg fun h => hc ⟨Option.some.inj h.1, h.2⟩]
            exact .none

theorem forall₂_filterMap {α β γ : Type} {r : β → γ → Prop} {f : α → Option β} {f' : α → Option γ}
    {l : List α} (h : ∀ a ∈ l, Option.Rel r (f a) (f' a)) :
    List.Forall₂ r (l.filterMap f) (l.filterMap f') := by
  induction l with
  | nil => exact .nil
  | cons a l ih =>
      have hrest := ih fun b hb => h b (List.mem_cons_of_mem a hb)
      have ha := h a (List.mem_cons_self ..)
      cases hf : f a with
      | none =>
          cases hf' : f' a with
          | none => rwa [List.filterMap_cons_none hf, List.filterMap_cons_none hf']
          | some c =>
              rw [hf, hf'] at ha
              cases ha
      | some b =>
          cases hf' : f' a with
          | none =>
              rw [hf, hf'] at ha
              cases ha
          | some c =>
              rw [hf, hf'] at ha
              obtain ⟨hbc⟩ := ha
              rw [List.filterMap_cons_some hf, List.filterMap_cons_some hf']
              exact .cons hbc hrest

theorem scanSteps_related (path : Path) (v : ν) (h : g.Reaches links mediaDir root path v) :
    List.Forall₂ (Option.Rel (g.Reaches links mediaDir root))
      (scanSteps (g.fileSystem links mediaDir root) path) (g.scanEntries links v) := by
  have hread := h.readDir
  rw [scanSteps, scanEntries]
  cases hv : g v with
  | file | link | other =>
      rw [hv] at hread
      rw [hread]
      exact .cons .none .nil
  | dir names nodup child =>
      rw [hv] at hread
      rw [hread]
      refine forall₂_filterMap fun name hname => scanStep_related h hv ?_
      exact (List.perm_insertionSort _ names).mem_iff.mp hname

theorem reaches_mediaDir (g : FileGraph ν) (links : Nat) (mediaDir : ν) (root : Path) :
    g.Reaches links mediaDir root root (g.follow links mediaDir) :=
  ⟨[], mediaDir, (List.append_nil root).symm, rfl, rfl⟩

end FileGraph

/-! Scans that end -/

theorem Follows.returns_iff {root : Path} {tree : ScannedMediaTree} {scan : Scan ScannedMediaTree}
    {walk : Walk Path} (h : Follows root tree scan walk) :
    (∃ result, scan = ExceptT.mk (some result)) ↔ walk.outcome ≠ .deep := by
  obtain ⟨ps, _ | _ | _⟩ := walk
  · obtain ⟨scanned, hscan, -⟩ := h
    exact ⟨fun _ => by simp, fun _ => ⟨_, hscan⟩⟩
  · obtain ⟨e, he⟩ := h
    exact ⟨fun _ => by simp, fun _ => ⟨_, he⟩⟩
  · have hnone : scan.run = none := h
    constructor
    · rintro ⟨result, rfl⟩
      cases hnone
    · exact fun hne => absurd rfl hne

/-- Some depth is enough for the scan, and it pushes at most one container for a directory. -/
def ScansOnce {ν : Type} (fs : FileSystem) (directoryAt : Path → Option ν) (publicBaseUrl : Str)
    (mediaDir : Path) : Prop :=
  ∃ depth, (∃ result, scanMediaTree fs publicBaseUrl depth mediaDir = ExceptT.mk (some result)) ∧
    ((pushedDirectories fs depth mediaDir).map directoryAt).Nodup

/-- The scan of a graph ends as the walk of its directories does, and pushes a container for
every directory that the walk enters. -/
theorem scansOnce_iff_walk {ν : Type} (g : FileGraph ν) (links : Nat) (mediaDir : ν) (root : Path)
    (publicBaseUrl : Str) :
    ScansOnce (g.fileSystem links mediaDir root) (g.nodeAt links mediaDir root) publicBaseUrl root ↔
      ∃ depth, (walk (g.scanEntries links) depth (g.follow links mediaDir)).outcome ≠ .deep ∧
        (walk (g.scanEntries links) depth (g.follow links mediaDir)).entered.Nodup := by
  refine exists_congr fun depth => ?_
  obtain ⟨hentered, houtcome⟩ := walk_related FileGraph.scanSteps_related depth
    (FileGraph.reaches_mediaDir g links mediaDir root)
  refine and_congr ?_ ?_
  · rw [← houtcome]
    exact (scanMediaDirInto_follows depth root _ _).returns_iff
  · have hnodes : (pushedDirectories (g.fileSystem links mediaDir root) depth root).map
          (g.nodeAt links mediaDir root) =
        (walk (g.scanEntries links) depth (g.follow links mediaDir)).entered.map some := by
      rw [pushedDirectories, ← List.forall₂_eq_eq_eq, List.forall₂_map_left_iff,
        List.forall₂_map_right_iff]
      exact hentered.imp fun _ _ h => h.nodeAt
    rw [hnodes, List.nodup_map_iff (Option.some_injective _)]

/-- In a finite graph the scan ends and pushes at most one container for a directory exactly when
every directory is come to by one path, among the paths with nothing before them that fails the
scan, and the media directory by none but the empty one. -/
theorem scan_ends_iff {ν : Type} [Finite ν] (g : FileGraph ν) (links : Nat) (mediaDir : ν)
    (root : Path) (publicBaseUrl : Str) :
    ScansOnce (g.fileSystem links mediaDir root) (g.nodeAt links mediaDir root) publicBaseUrl root ↔
      ∀ p q v, Live (g.scanEntries links) (g.follow links mediaDir) p v →
        Live (g.scanEntries links) (g.follow links mediaDir) q v → p = q :=
  (scansOnce_iff_walk g links mediaDir root publicBaseUrl).trans
    (exists_nodup_walk_iff_branching _)

/-! Two small graphs -/

def subdirName : FileName := { bytes := Str.bytes "Extras".toList, isFileName := by decide }

/-- A directory with an empty one in it. -/
def nestedGraph : FileGraph Bool
  | true => .dir [subdirName] (List.nodup_singleton _) fun _ => false
  | false => .dir [] List.nodup_nil fun _ => false

/-- A directory with a link to itself. -/
def loopGraph : FileGraph Bool
  | true => .dir [subdirName] (List.nodup_singleton _) fun _ => false
  | false => .link 1 true

theorem scan_ends_nested :
    ScansOnce (nestedGraph.fileSystem 0 true []) (nestedGraph.nodeAt 0 true [])
      "http://127.0.0.1:49152/".toList [] := by
  refine (scan_ends_iff nestedGraph 0 true [] _).mpr ?_
  have hbelow : ∀ p v, Live (nestedGraph.scanEntries 0) false p v → p = [] := by
    intro p v hp
    cases p with
    | nil => rfl
    | cons i p =>
        obtain ⟨before, w, after, hes, -⟩ := hp
        have hnil : nestedGraph.scanEntries 0 false = [] := rfl
        rw [hnil] at hes
        simp at hes
  have hpath : ∀ p v, Live (nestedGraph.scanEntries 0) true p v →
      p = [] ∧ v = true ∨ p = [0] ∧ v = false := by
    intro p v hp
    cases p with
    | nil => exact .inl ⟨rfl, hp.symm⟩
    | cons i p =>
        obtain ⟨before, w, after, hes, rfl, -, hp⟩ := hp
        have hone : nestedGraph.scanEntries 0 true = [some false] := rfl
        rw [hone] at hes
        cases before with
        | cons e before => simp at hes
        | nil =>
            obtain ⟨hw, -⟩ := List.cons.inj hes
            obtain rfl := Option.some.inj hw
            obtain rfl := hbelow p v hp
            exact .inr ⟨rfl, hp.symm⟩
  intro p q v hp hq
  rcases hpath p v hp with ⟨rfl, rfl⟩ | ⟨rfl, rfl⟩ <;>
    rcases hpath q _ hq with ⟨rfl, h⟩ | ⟨rfl, h⟩ <;> first | rfl | cases h

/-- No depth is enough for the scan of a directory with a link to itself. -/
theorem scan_loop_endless :
    (∀ depth, scanMediaTree (loopGraph.fileSystem 1 true []) "http://127.0.0.1:49152/".toList depth [] =
        ExceptT.mk none) ∧
      ¬ ScansOnce (loopGraph.fileSystem 1 true []) (loopGraph.nodeAt 1 true [])
        "http://127.0.0.1:49152/".toList [] := by
  have hdeep : ∀ depth, (walk (loopGraph.scanEntries 1) depth true).outcome = .deep := by
    intro depth
    induction depth with
    | zero => rfl
    | succ depth ih =>
        have hself : loopGraph.scanEntries 1 true = [some true] := rfl
        rw [walk, hself, through_some_of_not_finished (by rw [ih]; decide), Walk.enter_outcome, ih]
  have hnone : ∀ depth, scanMediaTree (loopGraph.fileSystem 1 true [])
      "http://127.0.0.1:49152/".toList depth [] = ExceptT.mk none := by
    intro depth
    obtain ⟨-, houtcome⟩ := walk_related FileGraph.scanSteps_related depth
      (FileGraph.reaches_mediaDir loopGraph 1 true [])
    have hfollows : Follows [] { containers := [], media := [] }
        (scanMediaTree (loopGraph.fileSystem 1 true []) "http://127.0.0.1:49152/".toList depth [])
        (walk (scanSteps (loopGraph.fileSystem 1 true [])) depth []) :=
      scanMediaDirInto_follows depth [] "0".toList _
    have hstart : loopGraph.follow 1 true = true := rfl
    rw [Follows, houtcome, hstart, hdeep depth] at hfollows
    exact hfollows
  refine ⟨hnone, ?_⟩
  rintro ⟨depth, ⟨result, hresult⟩, -⟩
  rw [hnone depth] at hresult
  cases hresult

end RustyCastle.Server
