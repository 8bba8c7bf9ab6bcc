import RustyCastle.Ssdp.CacheKey
import RustyCastle.Ssdp.DeviceTruth

/-!
The four printers of a target: the header encoder, the USN encoder, the stored
text of a device and the cache key. Each has a buffer discipline of its own, and
within its limits each prints the canonical text.
-/

namespace RustyCastle.Ssdp
open Foundation Foundation.HeaderBlock

/-- A header line. -/
def headerLine (name value : Str) : Str := name ++ ": ".toList ++ value ++ "\r\n".toList

theorem render_field (name value : Str) :
    (field name value).render = (headerLine name value).bytes := by
  have hsep : Str.bytes ": ".toList = [58, 32] := by decide
  have hend : Str.bytes "\r\n".toList = [13, 10] := by decide
  simp only [Header.render, field, headerLine, Str.bytes_append, hsep, hend, List.append_assoc,
    List.cons_append, List.nil_append]

/-- The text of a name with an embedded target. -/
theorem UsnRef.text_embedded (uuid : Str) (t : TargetRef) :
    (⟨uuid, some t⟩ : UsnRef).text = "uuid:".toList ++ uuid ++ "::".toList ++ t.text := by
  simp only [UsnRef.text, UsnRef.tail, List.append_assoc]

theorem emits_targetLine (header : Str) (t : TargetRef) :
    Emits (encodeTarget header t) (headerLine header t.text).bytes := by
  rw [← render_field]
  exact emits_encodeTarget header t

theorem emits_usnLine (uuid : Str) (t : TargetRef) :
    Emits (encodeUsn ⟨uuid, some t⟩)
      (headerLine "USN".toList ("uuid:".toList ++ uuid ++ "::".toList ++ t.text)).bytes := by
  rw [← UsnRef.text_embedded, ← render_field]
  exact emits_encodeUsn ⟨uuid, some t⟩

/-- The scratch buffer holds four bytes more than the text of a URN. -/
theorem encodeTarget_urn {t : TargetRef} {n : Nat} (h : t.text.bytes.length + 4 ≤ n) :
    ∃ w, encodeTarget [] t (.new (Buffer.zero n).toList) = .ok () w := by
  have hfits : (Cursor.new (Buffer.zero n).toList).Fits (headerLine [] t.text).bytes := by
    have hsep : (Str.bytes ": ".toList).length = 2 := by decide
    have hend : (Str.bytes "\r\n".toList).length = 2 := by decide
    simp only [Cursor.Fits, Cursor.new, (Buffer.zero n).length_eq, headerLine, List.nil_append,
      Str.bytes_append, List.length_append, hsep, hend]
    omega
  exact ⟨_, (emits_targetLine [] t (.new (Buffer.zero n).toList)).1 hfits⟩

theorem targetToString_of_fits {t : TargetRef} (h : t.text.bytes.length ≤ 124) :
    (targetToString t).map BoundedStr.toStr = some t.text := by
  have hlimit : t.text.bytes.length ≤ maxUrnLen := h.trans (by decide)
  -- a URN goes through a buffer of the maximal length
  have hurn : ∀ w, encodeTarget [] t (.new (Buffer.zero maxUrnLen).toList) = .ok () w →
      ((Str.fromUtf8 ((w.buf.take (w.pos - 2)).drop 2)).bind
        (BoundedStr.tryFrom : Str → Option (BoundedStr maxUrnLen))).map BoundedStr.toStr =
          some t.text := by
    intro w hw
    rw [encodeTarget_cut hw, Str.fromUtf8_bytes, Option.bind_some, BoundedStr.tryFrom_of_le hlimit]
    rfl
  obtain ⟨w, hw⟩ := encodeTarget_urn (t := t) (n := maxUrnLen) (Nat.add_le_add_right h 4)
  cases t with
  | all | rootDevice => exact congrArg _ (BoundedStr.tryFrom_of_le hlimit)
  | uuid u =>
      have hscheme : (Str.bytes "uuid:".toList).length ≤ maxUrnLen := by decide
      rw [targetToString, BoundedStr.pushStr, BoundedStr.toStr_empty, List.nil_append,
        BoundedStr.tryFrom_of_le hscheme, Option.bind_some, BoundedStr.pushStr]
      exact congrArg _ (BoundedStr.tryFrom_of_le hlimit)
  | deviceType d k v | serviceType d k v =>
      simp only [targetToString, hw]
      exact hurn w hw

/-- The printers agree on the canonical text of a target: the header encoder, the USN
encoder, the stored text of at most 124 bytes and the cache key of at most 128
bytes. A target of the parser is read back from that text. -/
theorem printers_agree (t : TargetRef) :
    (∀ header, Emits (encodeTarget header t) (headerLine header t.text).bytes) ∧
    (∀ uuid, Emits (encodeUsn ⟨uuid, some t⟩)
      (headerLine "USN".toList ("uuid:".toList ++ uuid ++ "::".toList ++ t.text)).bytes) ∧
    (t.text.bytes.length ≤ 124 → (targetToString t).map BoundedStr.toStr = some t.text) ∧
    (∀ uuid, (Str.bytes ("uuid:".toList ++ uuid ++ "::".toList ++ t.text)).length ≤ 128 →
      (usnToString ⟨uuid, some t⟩).toStr = "uuid:".toList ++ uuid ++ "::".toList ++ t.text) ∧
    ∀ s, TargetRef.parse s = .ok t → TargetRef.parse t.text = .ok t := by
  refine ⟨fun header => emits_targetLine header t, fun uuid => emits_usnLine uuid t,
    targetToString_of_fits, fun uuid h => ?_, fun s h => ?_⟩
  · rw [← UsnRef.text_embedded] at h ⊢
    exact toStr_usnToString h
  · exact TargetRef.parse_text (TargetRef.parsed_of_parse h)

def sampleType : TargetRef := .deviceType "a".toList "b".toList 7

theorem printers_agree_sample :
    (targetToString sampleType).map BoundedStr.toStr = some sampleType.text ∧
      (usnToString ⟨"x".toList, some sampleType⟩).toStr = "uuid:x::urn:a:device:b:7".toList ∧
      TargetRef.parse sampleType.text = .ok sampleType :=
  have h := printers_agree sampleType
  ⟨h.2.2.1 (by decide), h.2.2.2.1 "x".toList (by decide), h.2.2.2.2 sampleType.text (by decide)⟩

end RustyCastle.Ssdp
