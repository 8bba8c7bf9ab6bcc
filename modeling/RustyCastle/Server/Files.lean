import RustyCastle.Dlna.ProtocolInfo
import RustyCastle.Foundation.Terminated
import RustyCastle.Foundation.Utf8Lossy

/-!
Files as the scanner and the media responses see them: names that are bytes, the
calls on a path, the kind of a media file, and the identifiers made from
relative paths.
-/

namespace RustyCastle.Server
open Foundation RustyCastle.Dlna

/-- A name is any bytes but the separator and NUL, and not one of the two dot names. -/
def IsFileName (bytes : List UInt8) : Prop :=
  bytes ≠ [] ∧ 0x2F ∉ bytes ∧ 0 ∉ bytes ∧ bytes ≠ [0x2E] ∧ bytes ≠ [0x2E, 0x2E]

instance (bytes : List UInt8) : Decidable (IsFileName bytes) := inferInstanceAs (Decidable (_ ∧ _))

structure FileName where
  bytes : List UInt8
  isFileName : IsFileName bytes
  deriving DecidableEq

theorem FileName.ext_bytes {a b : FileName} (h : a.bytes = b.bytes) : a = b := by
  cases a
  cases b
  congr

/-- The components of a path. -/
abbrev Path := List FileName

structure IoError where
  message : Str
  deriving DecidableEq, Repr

/-- The content of a file. A position in a file is a signed 64-bit number. -/
structure File where
  bytes : List UInt8
  length_lt : bytes.length < 2 ^ 63
  deriving DecidableEq

def File.len (file : File) : UInt64 := .ofNat file.bytes.length

@[simp] theorem File.toNat_len (file : File) : file.len.toNat = file.bytes.length := by
  have := file.length_lt
  rw [File.len, UInt64.toNat_ofNat', Nat.mod_eq_of_lt (by omega)]

/-- The calls on a path. `entryLen` is the length that a directory entry reports of
itself; the other calls follow symbolic links. `openFile` gives what can be
read, and the length of a path that can be read is the length of its content. -/
structure FileSystem where
  readDir : Path → Except IoError (List FileName)
  isDir : Path → Bool
  isFile : Path → Bool
  entryLen : Path → Except IoError UInt64
  len : Path → Except IoError UInt64
  openFile : Path → Except IoError File
  len_of_open : ∀ {path n file}, len path = .ok n → openFile path = .ok file → n = file.len

/-! Names -/

/-- A name is cut at its last dot, unless the dot is the first byte. -/
def rsplitFileAtDot (name : List UInt8) : Option (List UInt8) × Option (List UInt8) :=
  let after := (name.reverse.takeWhile (· != 0x2E)).reverse
  match name.reverse.dropWhile (· != 0x2E) with
  | [] => (none, some name)
  | _ :: before => if before.isEmpty then (some name, none) else (some before.reverse, some after)

def FileName.fileStem (name : FileName) : Option (List UInt8) :=
  let (before, after) := rsplitFileAtDot name.bytes
  before.or after

def FileName.extension (name : FileName) : Option (List UInt8) :=
  let (before, after) := rsplitFileAtDot name.bytes
  before.bind fun _ => after

/-- The stem is the name, or what stands before a dot in it. -/
theorem FileName.fileStem_cases (name : FileName) :
    name.fileStem = some name.bytes ∨
      ∃ stem rest, name.fileStem = some stem ∧ name.bytes = stem ++ 0x2E :: rest := by
  have hsplit := List.takeWhile_append_dropWhile (p := (· != (0x2E : UInt8))) (l := name.bytes.reverse)
  rw [fileStem, rsplitFileAtDot]
  cases hdrop : name.bytes.reverse.dropWhile (· != 0x2E) with
  | nil => exact .inl rfl
  | cons dot before =>
      have hdot : dot = 0x2E := by
        have := List.head?_dropWhile_not (· != (0x2E : UInt8)) name.bytes.reverse
        rw [hdrop] at this
        simpa using this
      cases before with
      | nil => exact .inl rfl
      | cons b before =>
          refine .inr ⟨(b :: before).reverse, (name.bytes.reverse.takeWhile (· != 0x2E)).reverse, rfl, ?_⟩
          rw [hdrop, hdot] at hsplit
          have := congrArg List.reverse hsplit
          rw [List.reverse_reverse, List.reverse_append, List.reverse_cons, List.append_assoc] at this
          exact this.symm

/-- The stem of a name that is UTF-8 is UTF-8. -/
theorem FileName.exists_fileStem_text {name : FileName} (h : (Str.fromUtf8 name.bytes).isSome) :
    ∃ stem : Str, name.fileStem = some stem.bytes := by
  obtain ⟨s, hs⟩ := Option.isSome_iff_exists.mp h
  have hbytes := Str.bytes_of_fromUtf8 hs
  obtain hstem | ⟨stem, rest, hstem, hname⟩ := name.fileStem_cases
  · exact ⟨s, by rw [hstem, hbytes]⟩
  · obtain ⟨s₁, -, -, -, rfl, -⟩ := Str.bytes_split_ascii (hbytes.trans hname) (by decide)
    exact ⟨s₁, hstem⟩

inductive MediaKind where
  | mp4
  | mpegPs (mime : Str) (profile : DlnaProfile)
  deriving DecidableEq, Repr

def mediaKind (name : FileName) : Option MediaKind := do
  let ext := (← Str.fromUtf8 (← name.extension)).map Char.toLower
  if ext = "mp4".toList then some .mp4
  else if ext = "mpg".toList ∨ ext = "mpeg".toList then
    some (.mpegPs "video/mpeg".toList .mpegPsNtsc)
  else if ext = "vob".toList then some (.mpegPs "video/mpeg".toList .mpegPsNtsc)
  else none

/-! Identifiers -/

def hashOffset : UInt64 := 0xcbf29ce484222325

def hashStep (hash : UInt64) (byte : UInt8) : UInt64 := (hash ^^^ byte.toUInt64) * 0x00000100000001b3

/-- The 64-bit FNV-1a hash. -/
def fnv1a (bytes : List UInt8) : UInt64 := bytes.foldl hashStep hashOffset

/-- Each component is read lossily and followed by a separator. -/
def pathHash (relativePath : Path) : UInt64 :=
  relativePath.foldl (fun hash value => hashStep ((Utf8.lossy value.bytes).foldl hashStep hash) 0x2F)
    hashOffset

def stableObjectId (pre : Str) (relativePath : Path) : Str :=
  pre ++ '-' :: Hexadecimal.padded 16 (pathHash relativePath).toNat

def stableMediaId (relativePath : Path) : Str := stableObjectId ['m'] relativePath

def stableContainerId (relativePath : Path) : Str := stableObjectId ['c'] relativePath

/-- The bytes of a path, each component followed by a separator. -/
def separated (components : List (List UInt8)) : List UInt8 :=
  components.flatMap fun component => component ++ [0x2F]

theorem pathHash_eq (relativePath : Path) :
    pathHash relativePath =
      fnv1a (separated (relativePath.map fun name => Utf8.lossy name.bytes)) := by
  have hfold := foldl_terminated hashStep 0x2F (relativePath.map fun name => Utf8.lossy name.bytes)
    hashOffset
  rw [List.foldl_map] at hfold
  exact hfold.symm

theorem stableObjectId_inj {pre : Str} {p q : Path} :
    stableObjectId pre p = stableObjectId pre q ↔ pathHash p = pathHash q := by
  constructor
  · intro h
    obtain ⟨-, h⟩ := List.cons.inj (List.append_cancel_left h)
    exact UInt64.toNat_inj.mp (Hexadecimal.padded_injective h)
  · intro h
    rw [stableObjectId, stableObjectId, h]

theorem stableObjectId_subset (pre : Str) (p : Path) :
    stableObjectId pre p ⊆ pre ++ '-' :: Hexadecimal.digits := by
  intro c hc
  rcases List.mem_append.mp hc with hc | hc
  · exact List.mem_append_left _ hc
  · rcases List.mem_cons.mp hc with rfl | hc
    · simp
    · exact List.mem_append_right _ (List.mem_cons_of_mem _ (Hexadecimal.mem_padded hc))

/-- Components without separators can be told apart in the separated bytes. -/
theorem separated_injective {p q : List (List UInt8)} (hp : ∀ c ∈ p, 0x2F ∉ c) (hq : ∀ c ∈ q, 0x2F ∉ c)
    (h : separated p = separated q) : p = q :=
  terminated_injective hp hq h

end RustyCastle.Server
