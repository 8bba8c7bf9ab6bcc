import RustyCastle.Foundation.Hexadecimal

/-!
DLNA `protocolInfo` values: the profile, operation and flag tokens, and the text
that a resource attribute and a media response header carry.
-/

namespace RustyCastle.Dlna
open Foundation

/-- DLNA media profile names. -/
inductive DlnaProfile where
  | avcMp4BlCif15Aac520
  | mpegPsPal
  | mpegPsNtsc
  deriving DecidableEq, Repr

/-- The `DLNA.ORG_PN` token. -/
def DlnaProfile.asStr : DlnaProfile → Str
  | .avcMp4BlCif15Aac520 => "AVC_MP4_BL_CIF15_AAC_520".toList
  | .mpegPsPal => "MPEG_PS_PAL".toList
  | .mpegPsNtsc => "MPEG_PS_NTSC".toList

/-- Operation flags for byte range and time seeking. -/
structure DlnaOp where
  range : Bool
  timeSeek : Bool
  deriving DecidableEq, Repr

/-- Byte range only, encoded as `01`. -/
def DlnaOp.rangeOnly : DlnaOp := { range := true, timeSeek := false }

def DlnaOp.code (op : DlnaOp) : Str :=
  match op.timeSeek, op.range with
  | false, false => "00".toList
  | false, true => "01".toList
  | true, false => "10".toList
  | true, true => "11".toList

/-- The raw `DLNA.ORG_FLAGS` value. -/
structure DlnaFlags where
  bits : UInt32
  deriving DecidableEq, Repr

def DlnaFlags.streamingTransferMode : DlnaFlags := { bits := 0x01700000 }

structure ProtocolInfoRef where
  protocol : Str
  network : Str
  contentFormat : Str
  profile : Option DlnaProfile
  op : Option DlnaOp
  flags : Option DlnaFlags
  deriving DecidableEq, Repr

/-- The value of an MP4 resource. -/
def ProtocolInfoRef.sonyMp4 : ProtocolInfoRef where
  protocol := "http-get".toList
  network := "*".toList
  contentFormat := "video/mp4".toList
  profile := some .avcMp4BlCif15Aac520
  op := some .rangeOnly
  flags := some .streamingTransferMode

/-- The value of an MPEG program stream resource. -/
def ProtocolInfoRef.sonyMpegPs (contentFormat : Str) : ProtocolInfoRef where
  protocol := "http-get".toList
  network := "*".toList
  contentFormat := contentFormat
  profile := some .mpegPsNtsc
  op := some .rangeOnly
  flags := some .streamingTransferMode

/-- The separator before a part, where a part was written already. -/
def separator (wrote : Bool) : Str := if wrote then [';'] else []

def writeAdditionalInfo (value : ProtocolInfoRef) : Str :=
  (Str.whenSome value.profile fun profile => "DLNA.ORG_PN=".toList ++ profile.asStr) ++
  (Str.whenSome value.op fun op =>
    separator value.profile.isSome ++ "DLNA.ORG_OP=".toList ++ op.code) ++
  (Str.whenSome value.flags fun flags =>
    separator (value.profile.isSome || value.op.isSome) ++ "DLNA.ORG_FLAGS=".toList ++
      Hexadecimal.padded 8 flags.bits.toNat ++ "000000000000000000000000".toList)

/-- The display form. -/
def ProtocolInfoRef.fmt (value : ProtocolInfoRef) : Str :=
  value.protocol ++ [':'] ++ value.network ++ [':'] ++ value.contentFormat ++ [':'] ++
    writeAdditionalInfo value

def writeContentFeatures (value : ProtocolInfoRef) : Str := writeAdditionalInfo value

/-- The characters that the additional information is written with. -/
def additionalAlphabet : Str :=
  Hexadecimal.digits ++ "ABCDEFGHIJKLMNOPQRSTUVWXYZ._=;".toList

theorem hexadecimal_subset (width n : Nat) : Hexadecimal.padded width n ⊆ additionalAlphabet :=
  fun _ hc => List.mem_append_left _ (Hexadecimal.mem_padded hc)

theorem separator_subset (wrote : Bool) : separator wrote ⊆ additionalAlphabet := by
  cases wrote <;> decide

theorem code_subset (op : DlnaOp) : op.code ⊆ additionalAlphabet := by
  obtain ⟨range, timeSeek⟩ := op
  cases range <;> cases timeSeek <;> decide

theorem asStr_subset (profile : DlnaProfile) : profile.asStr ⊆ additionalAlphabet := by
  cases profile <;> decide

theorem writeAdditionalInfo_subset (value : ProtocolInfoRef) :
    writeAdditionalInfo value ⊆ additionalAlphabet := by
  have hpn : "DLNA.ORG_PN=".toList ⊆ additionalAlphabet := by decide
  have hop : "DLNA.ORG_OP=".toList ⊆ additionalAlphabet := by decide
  have hflags : "DLNA.ORG_FLAGS=".toList ⊆ additionalAlphabet := by decide
  have hzeros : "000000000000000000000000".toList ⊆ additionalAlphabet := by decide
  obtain ⟨protocol, network, contentFormat, profile, op, flags⟩ := value
  unfold writeAdditionalInfo
  cases profile <;> cases op <;> cases flags <;>
    simp only [Str.whenSome_none, Str.whenSome_some, List.append_subset, List.nil_subset, hpn,
      hop, hflags, hzeros, hexadecimal_subset, separator_subset, code_subset, asStr_subset,
      and_self]

def contentFeaturesToString (value : ProtocolInfoRef) : Str := writeContentFeatures value

end RustyCastle.Dlna
