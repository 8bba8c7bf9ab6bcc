import RustyCastle.Dlna.ProtocolInfo
import RustyCastle.Foundation.Splitting

/-!
What a client reads from a `protocolInfo` value: three fields up to a colon and, after them, the
parts of the additional information, which a semicolon separates.
-/

namespace RustyCastle.Dlna
open Foundation

/-! The client -/

/-- The value after a key, in the first part that has it. -/
def partValue (key : Str) (parts : List Str) : Option Str := parts.findSome? (Str.stripPrefix key)

def readProfile (text : Str) : Option DlnaProfile :=
  [.avcMp4BlCif15Aac520, .mpegPsPal, .mpegPsNtsc].find? fun profile => profile.asStr == text

def readOp (text : Str) : Option DlnaOp :=
  [⟨false, false⟩, ⟨true, false⟩, ⟨false, true⟩, ⟨true, true⟩].find? fun op => op.code == text

/-- Eight digits of flags and 24 reserved digits. -/
def readFlags (text : Str) : Option DlnaFlags :=
  if text.drop 8 = "000000000000000000000000".toList then
    some ⟨.ofNat (Hexadecimal.value (text.take 8))⟩
  else none

structure AdditionalInfo where
  profile : Option DlnaProfile
  op : Option DlnaOp
  flags : Option DlnaFlags
  deriving DecidableEq, Repr

def readAdditionalInfo (text : Str) : AdditionalInfo :=
  let parts := text.splitOn ';'
  { profile := (partValue "DLNA.ORG_PN=".toList parts).bind readProfile
    op := (partValue "DLNA.ORG_OP=".toList parts).bind readOp
    flags := (partValue "DLNA.ORG_FLAGS=".toList parts).bind readFlags }

def readProtocolInfo (text : Str) : Option ProtocolInfoRef := do
  let (protocol, rest) ← Str.cut [':'] text
  let (network, rest) ← Str.cut [':'] rest
  let (contentFormat, rest) ← Str.cut [':'] rest
  let info := readAdditionalInfo rest
  some ⟨protocol, network, contentFormat, info.profile, info.op, info.flags⟩

/-! The parts that are written -/

def profilePart (profile : DlnaProfile) : Str := "DLNA.ORG_PN=".toList ++ profile.asStr

def opPart (op : DlnaOp) : Str := "DLNA.ORG_OP=".toList ++ op.code

def flagsText (flags : DlnaFlags) : Str :=
  Hexadecimal.padded 8 flags.bits.toNat ++ "000000000000000000000000".toList

def flagsPart (flags : DlnaFlags) : Str := "DLNA.ORG_FLAGS=".toList ++ flagsText flags

def additionalParts (value : ProtocolInfoRef) : List Str :=
  (value.profile.map profilePart).toList ++ ((value.op.map opPart).toList ++
    (value.flags.map flagsPart).toList)

theorem writeAdditionalInfo_eq (value : ProtocolInfoRef) :
    writeAdditionalInfo value = [';'].intercalate (additionalParts value) := by
  obtain ⟨protocol, network, contentFormat, profile, op, flags⟩ := value
  unfold writeAdditionalInfo additionalParts profilePart opPart flagsPart flagsText separator
  generalize "DLNA.ORG_PN=".toList = pn, "DLNA.ORG_OP=".toList = key,
    "DLNA.ORG_FLAGS=".toList = flagsKey, "000000000000000000000000".toList = zeros
  cases profile <;> cases op <;> cases flags <;> simp [List.intercalate]

theorem semicolon_notMem_part {value : ProtocolInfoRef} {part : Str}
    (h : part ∈ additionalParts value) : ';' ∉ part := by
  have hprofile : ∀ profile, ';' ∉ profilePart profile := by
    intro profile
    cases profile <;> decide
  have hop : ∀ op, ';' ∉ opPart op := by
    rintro ⟨range, timeSeek⟩
    cases range <;> cases timeSeek <;> decide
  have hflags : ∀ flags, ';' ∉ flagsPart flags := by
    intro flags hm
    have hdigits : ';' ∉ Hexadecimal.digits := by decide
    have hkey : ';' ∉ "DLNA.ORG_FLAGS=".toList := by decide
    have hzeros : ';' ∉ "000000000000000000000000".toList := by decide
    rcases List.mem_append.mp hm with hm | hm
    · exact hkey hm
    · rcases List.mem_append.mp hm with hm | hm
      · exact hdigits (Hexadecimal.mem_padded hm)
      · exact hzeros hm
  simp only [additionalParts, List.mem_append, Option.mem_toList, Option.map_eq_some_iff] at h
  obtain ⟨profile, -, rfl⟩ | ⟨op, -, rfl⟩ | ⟨flags, -, rfl⟩ := h
  · exact hprofile profile
  · exact hop op
  · exact hflags flags

/-! Reading them back -/

theorem readProfile_asStr (profile : DlnaProfile) : readProfile profile.asStr = some profile := by
  cases profile <;> decide

theorem readOp_code (op : DlnaOp) : readOp op.code = some op := by
  obtain ⟨range, timeSeek⟩ := op
  cases range <;> cases timeSeek <;> decide

theorem readFlags_flagsText (flags : DlnaFlags) : readFlags (flagsText flags) = some flags := by
  have hlength : (Hexadecimal.padded 8 flags.bits.toNat).length = 8 :=
    Hexadecimal.length_padded (by decide) flags.bits.toNat_lt
  rw [readFlags, flagsText, List.drop_left' hlength, List.take_left' hlength, if_pos rfl,
    Hexadecimal.value_padded, UInt32.ofNat_toNat]

theorem partValue_parts (key : Str) (value : ProtocolInfoRef) :
    partValue key (additionalParts value) =
      ((value.profile.map profilePart).bind (Str.stripPrefix key)).or
        (((value.op.map opPart).bind (Str.stripPrefix key)).or
          ((value.flags.map flagsPart).bind (Str.stripPrefix key))) := by
  have hone : ∀ part : Option Str,
      part.toList.findSome? (Str.stripPrefix key) = part.bind (Str.stripPrefix key) := by
    intro part
    cases part with
    | none => rfl
    | some part => exact List.findSome?_singleton
  rw [partValue, additionalParts, List.findSome?_append, List.findSome?_append, hone, hone, hone]

/-- The parts that are split off are those that were written; without any there is an empty one. -/
theorem partValue_split (key : Str) (hkey : key ≠ []) (value : ProtocolInfoRef) :
    partValue key ((writeAdditionalInfo value).splitOn ';') =
      partValue key (additionalParts value) := by
  rw [writeAdditionalInfo_eq]
  by_cases hnil : additionalParts value = []
  · rw [hnil]
    cases key with
    | nil => exact absurd rfl hkey
    | cons c key => rfl
  · rw [List.splitOn_intercalate ';' (fun _ => semicolon_notMem_part) hnil]

theorem bind_part_of_key {α : Type} {key : Str} {part text : α → Str}
    (h : ∀ a, part a = key ++ text a) (x : Option α) :
    (x.map part).bind (Str.stripPrefix key) = x.map text := by
  cases x with
  | none => rfl
  | some a => rw [Option.map_some, Option.bind_some, h, Str.stripPrefix_append, Option.map_some]

theorem bind_part_of_other {α : Type} {key : Str} {part : α → Str}
    (h : ∀ a, Str.stripPrefix key (part a) = none) (x : Option α) :
    (x.map part).bind (Str.stripPrefix key) = none := by
  cases x with
  | none => rfl
  | some a => exact h a

theorem profileValue_parts (value : ProtocolInfoRef) :
    partValue "DLNA.ORG_PN=".toList (additionalParts value) =
      value.profile.map DlnaProfile.asStr := by
  have hprofile := bind_part_of_key (fun profile => (rfl : profilePart profile = _)) value.profile
  rw [partValue_parts, hprofile, bind_part_of_other (fun _ => rfl),
    bind_part_of_other (fun _ => rfl), Option.or_none, Option.or_none]

theorem opValue_parts (value : ProtocolInfoRef) :
    partValue "DLNA.ORG_OP=".toList (additionalParts value) = value.op.map DlnaOp.code := by
  have hop := bind_part_of_key (fun op => (rfl : opPart op = _)) value.op
  rw [partValue_parts, bind_part_of_other (fun _ => rfl), hop, bind_part_of_other (fun _ => rfl),
    Option.or_none, Option.none_or]

theorem flagsValue_parts (value : ProtocolInfoRef) :
    partValue "DLNA.ORG_FLAGS=".toList (additionalParts value) = value.flags.map flagsText := by
  have hflags := bind_part_of_key (fun flags => (rfl : flagsPart flags = _)) value.flags
  rw [partValue_parts, bind_part_of_other (fun _ => rfl), bind_part_of_other (fun _ => rfl), hflags,
    Option.none_or, Option.none_or]

theorem bind_read {α : Type} {read : Str → Option α} {write : α → Str}
    (h : ∀ a, read (write a) = some a) (x : Option α) : (x.map write).bind read = x := by
  cases x with
  | none => rfl
  | some a => exact h a

theorem readAdditionalInfo_write (value : ProtocolInfoRef) :
    readAdditionalInfo (writeAdditionalInfo value) = ⟨value.profile, value.op, value.flags⟩ := by
  simp only [readAdditionalInfo]
  rw [partValue_split _ (by decide), partValue_split _ (by decide), partValue_split _ (by decide),
    profileValue_parts, opValue_parts, flagsValue_parts, bind_read readProfile_asStr,
    bind_read readOp_code, bind_read readFlags_flagsText]

/-- A value is read as it was written exactly when no field that is written as it is has a
colon. -/
theorem readProtocolInfo_fmt {value : ProtocolInfoRef} :
    readProtocolInfo value.fmt = some value ↔
      ':' ∉ value.protocol ∧ ':' ∉ value.network ∧ ':' ∉ value.contentFormat := by
  have hfmt : value.fmt = value.protocol ++ ':' :: (value.network ++ ':' ::
      (value.contentFormat ++ ':' :: writeAdditionalInfo value)) := by
    simp [ProtocolInfoRef.fmt]
  constructor
  · intro h
    obtain ⟨⟨protocol, rest⟩, hprotocol, h⟩ := Option.bind_eq_some_iff.mp h
    obtain ⟨⟨network, rest'⟩, hnetwork, h⟩ := Option.bind_eq_some_iff.mp h
    obtain ⟨⟨contentFormat, rest''⟩, hformat, h⟩ := Option.bind_eq_some_iff.mp h
    obtain rfl := Option.some.inj h
    exact ⟨(Str.cut_char_eq_some.mp hprotocol).2, (Str.cut_char_eq_some.mp hnetwork).2,
      (Str.cut_char_eq_some.mp hformat).2⟩
  · rintro ⟨hprotocol, hnetwork, hformat⟩
    simp only [hfmt, readProtocolInfo, Str.cut_char _ hprotocol, Str.cut_char _ hnetwork,
      Str.cut_char _ hformat, Option.bind_eq_bind, Option.bind_some, readAdditionalInfo_write]

end RustyCastle.Dlna
