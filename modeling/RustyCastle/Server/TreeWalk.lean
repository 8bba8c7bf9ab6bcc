import RustyCastle.Foundation.ParentLinks
import RustyCastle.Server.FileTree

/-!
The walk of a directory tree meets every directory and every media file once, and
a directory before what is in it.
-/

namespace RustyCastle.Server.FileTree
open Foundation Foundation.ParentLinks

theorem mem_sortByName {names : List FileName} {name : FileName} :
    name ∈ sortByName names ↔ name ∈ names := (List.perm_insertionSort _ names).mem_iff

theorem nodup_sortByName {names : List FileName} (h : names.Nodup) : (sortByName names).Nodup :=
  (List.perm_insertionSort _ names).nodup_iff.mpr h

theorem find_dir {names : List FileName} {nodup : names.Nodup} {child : FileName → FileTree}
    {name : FileName} {p : Path} {s : FileTree} :
    (dir names nodup child).find (name :: p) = some s ↔
      name ∈ names ∧ (child name).find p = some s := by
  by_cases h : name ∈ names <;> simp [find, target, h]

/-- A path that leads somewhere behind a name starts in a directory. -/
theorem isDirectory_of_find {t s : FileTree} {name : FileName} {p : Path}
    (h : t.find (name :: p) = some s) : t.isDirectory = true := by
  induction t with
  | file _ | other => cases h
  | link _ t ih => exact ih h
  | dir => rfl

/-- The directories of the walk are the non-empty paths that lead to a directory. -/
theorem mem_directories {t : FileTree} {rel d : Path} :
    d ∈ t.directories rel ↔
      ∃ p, p ≠ [] ∧ d = rel ++ p ∧ ∃ s, t.find p = some s ∧ s.isDirectory = true := by
  induction t generalizing rel with
  | file _ | other =>
      constructor
      · exact nofun
      · rintro ⟨p, hp, -, s, hs, -⟩
        cases p with
        | nil => exact absurd rfl hp
        | cons name p => cases hs
  | link ownLen t ih =>
      refine ih.trans (exists_congr fun p => and_congr_right fun hp => ?_)
      cases p with
      | nil => exact absurd rfl hp
      | cons name p => rfl
  | dir names nodup child ih =>
      rw [directories_dir, List.mem_flatMap]
      constructor
      · rintro ⟨name, hname, hd⟩
        rw [mem_sortByName] at hname
        rcases List.mem_append.mp hd with hd | hd
        · split at hd
          · rename_i hdir
            refine ⟨[name], List.cons_ne_nil _ _, List.mem_singleton.mp hd, child name, ?_, hdir⟩
            exact find_dir.mpr ⟨hname, rfl⟩
          · cases hd
        · obtain ⟨p, -, rfl, s, hs, hdir⟩ := (ih name).mp hd
          refine ⟨name :: p, List.cons_ne_nil _ _, by simp, s, find_dir.mpr ⟨hname, hs⟩, hdir⟩
      · rintro ⟨p, hp, rfl, s, hs, hdir⟩
        cases p with
        | nil => exact absurd rfl hp
        | cons name p =>
            obtain ⟨hname, hs⟩ := find_dir.mp hs
            refine ⟨name, mem_sortByName.mpr hname, ?_⟩
            cases p with
            | nil =>
                obtain rfl := Option.some.inj hs
                exact List.mem_append_left _ (by rw [if_pos hdir]; exact List.mem_singleton_self _)
            | cons name' p =>
                refine List.mem_append_right _ ((ih name).mpr ?_)
                exact ⟨name' :: p, List.cons_ne_nil _ _, by simp, s, hs, hdir⟩

theorem mem_mediaFile {t : FileTree} {rel : Path} {name : FileName} {f : MediaFile} :
    f ∈ t.mediaFile rel name ↔
      f.dir = rel ∧ f.name = name ∧ mediaKind name = some f.kind ∧ t.entryLen? = some f.entryLen ∧
        t.content? = some f.content := by
  rw [mediaFile]
  constructor
  · intro h
    split at h
    · rename_i hkind hlen hcontent
      obtain rfl := List.mem_singleton.mp h
      exact ⟨rfl, rfl, hkind, hlen, hcontent⟩
    · cases h
  · rintro ⟨rfl, rfl, hkind, hlen, hcontent⟩
    rw [hkind, hlen, hcontent]
    exact List.mem_singleton_self f

/-- The media files of the walk are the paths that lead to a file of a supported kind. -/
theorem mem_mediaFiles {t : FileTree} {rel : Path} {f : MediaFile} :
    f ∈ t.mediaFiles rel ↔
      ∃ p, f.dir = rel ++ p ∧ mediaKind f.name = some f.kind ∧
        ∃ s, t.find (p ++ [f.name]) = some s ∧ s.entryLen? = some f.entryLen ∧
          s.content? = some f.content := by
  induction t generalizing rel with
  | file _ | other =>
      constructor
      · exact nofun
      · rintro ⟨p, -, -, s, hs, -⟩
        cases p <;> cases hs
  | link ownLen t ih =>
      refine ih.trans (exists_congr fun p => and_congr_right fun _ => ?_)
      cases p <;> rfl
  | dir names nodup child ih =>
      rw [mediaFiles_dir, List.mem_flatMap]
      constructor
      · rintro ⟨name, hname, hf⟩
        rw [mem_sortByName] at hname
        rcases List.mem_append.mp hf with hf | hf
        · obtain ⟨hdir, rfl, hkind, hlen, hcontent⟩ := mem_mediaFile.mp hf
          exact ⟨[], by simp [hdir], hkind, child f.name, find_dir.mpr ⟨hname, rfl⟩, hlen, hcontent⟩
        · obtain ⟨p, hdir, hkind, s, hs, hrest⟩ := (ih name).mp hf
          exact ⟨name :: p, by simp [hdir], hkind, s, find_dir.mpr ⟨hname, hs⟩, hrest⟩
      · rintro ⟨p, hdir, hkind, s, hs, hlen, hcontent⟩
        cases p with
        | nil =>
            obtain ⟨hname, hs⟩ := find_dir.mp hs
            obtain rfl := Option.some.inj hs
            refine ⟨f.name, mem_sortByName.mpr hname, List.mem_append_left _ ?_⟩
            exact mem_mediaFile.mpr ⟨by simpa using hdir, rfl, hkind, hlen, hcontent⟩
        | cons name p =>
            obtain ⟨hname, hs⟩ := find_dir.mp hs
            refine ⟨name, mem_sortByName.mpr hname, List.mem_append_right _ ((ih name).mpr ?_)⟩
            exact ⟨p, by simp [hdir], hkind, s, hs, hlen, hcontent⟩

/-- A media file is in the directory that the walk started from or in one that it met. -/
theorem mediaFiles_dir_mem {t : FileTree} {rel : Path} {f : MediaFile} (h : f ∈ t.mediaFiles rel) :
    f.dir = rel ∨ f.dir ∈ t.directories rel := by
  obtain ⟨p, hdir, -, s, hs, -⟩ := mem_mediaFiles.mp h
  rw [find_append] at hs
  obtain ⟨s', hs', hs⟩ := Option.bind_eq_some_iff.mp hs
  by_cases hp : p = []
  · exact .inl (by rw [hdir, hp, List.append_nil])
  · exact .inr (mem_directories.mpr ⟨p, hp, hdir, s', hs', isDirectory_of_find hs⟩)

/-- Lists behind different names have nothing in common. -/
theorem nodup_flatMap_names {α : Type} {path : α → Path} {names : List FileName}
    {f : FileName → List α} (rel : Path) (hnodup : names.Nodup) (hf : ∀ name ∈ names, ((f name).map path).Nodup)
    (hpath : ∀ name ∈ names, ∀ a ∈ f name, rel ++ [name] <+: path a) :
    ((names.flatMap f).map path).Nodup := by
  rw [List.map_flatMap, List.nodup_flatMap]
  refine ⟨hf, hnodup.imp_of_mem fun {a b} ha hb hne => ?_⟩
  intro p hpa hpb
  obtain ⟨x, hx, rfl⟩ := List.mem_map.mp hpa
  obtain ⟨y, hy, hxy⟩ := List.mem_map.mp hpb
  have hxa := hpath a ha x hx
  have hxb := hpath b hb y hy
  rw [hxy] at hxb
  have := List.prefix_of_prefix_length_le hxa hxb (by simp)
  exact hne (by simpa using this.eq_of_length (by simp))

theorem nodup_directories (t : FileTree) (rel : Path) : (t.directories rel).Nodup := by
  induction t generalizing rel with
  | file _ | other => exact List.nodup_nil
  | link _ t ih => exact ih rel
  | dir names nodup child ih =>
      have hbehind : ∀ name, ∀ d ∈ (child name).directories (rel ++ [name]),
          rel ++ [name] <+: d ∧ d ≠ rel ++ [name] := by
        intro name d hd
        obtain ⟨p, hp, rfl, -⟩ := mem_directories.mp hd
        exact ⟨List.prefix_append .., by simpa using hp⟩
      rw [directories_dir, ← List.map_id (List.flatMap _ _)]
      refine nodup_flatMap_names rel (nodup_sortByName nodup) (fun name _ => ?_) (fun name _ d hd => ?_)
      · rw [List.map_id, entryDirectories]
        split
        · rw [List.singleton_append, List.nodup_cons]
          exact ⟨fun h => (hbehind name _ h).2 rfl, ih name _⟩
        · exact ih name _
      · rcases List.mem_append.mp hd with hd | hd
        · split at hd
          · rw [List.mem_singleton.mp hd]
            exact List.prefix_rfl
          · cases hd
        · exact (hbehind name d hd).1

theorem nodup_mediaFiles (t : FileTree) (rel : Path) :
    ((t.mediaFiles rel).map MediaFile.path).Nodup := by
  induction t generalizing rel with
  | file _ | other => exact List.nodup_nil
  | link _ t ih => exact ih rel
  | dir names nodup child ih =>
      rw [mediaFiles_dir]
      refine nodup_flatMap_names rel (nodup_sortByName nodup) (fun name _ => ?_) (fun name _ f hf => ?_)
      · rw [entryMedia]
        cases hdir : (child name).isDirectory with
        | true =>
            rw [mediaFile_of_isDirectory hdir]
            exact ih name _
        | false =>
            rw [(directories_of_not_isDirectory hdir _).2, List.append_nil, mediaFile]
            split
            · exact List.nodup_singleton _
            · exact List.nodup_nil
      · rcases List.mem_append.mp hf with hf | hf
        · obtain ⟨hdir, hname, -⟩ := mem_mediaFile.mp hf
          rw [MediaFile.path, hdir, hname]
        · obtain ⟨p, hdir, -⟩ := mem_mediaFiles.mp hf
          rw [MediaFile.path, hdir, List.append_assoc]
          exact List.prefix_append ..

/-- The walk meets the parent of a directory before the directory. -/
theorem directories_grow (t : FileTree) {rel : Path} {known : Path → Prop} (h : known rel) :
    Grows List.dropLast some known (t.directories rel) := by
  induction t generalizing rel known with
  | file _ | other => trivial
  | link _ t ih => exact ih h
  | dir names nodup child ih =>
      rw [directories_dir]
      generalize sortByName names = names
      induction names generalizing known with
      | nil => trivial
      | cons name names ihNames =>
          rw [List.flatMap_cons, grows_append]
          refine ⟨?_, ihNames (.inl h)⟩
          rw [entryDirectories]
          split
          · exact ⟨by rwa [List.dropLast_concat], ih name (.inr rfl)⟩
          · rename_i hdir
            rw [(directories_of_not_isDirectory (Bool.not_eq_true _ ▸ hdir) _).1]
            trivial

end RustyCastle.Server.FileTree
