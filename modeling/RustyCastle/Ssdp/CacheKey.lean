import RustyCastle.Ssdp.ControlPointSteps

/-!
The cache key of a unique service name. The key is the canonical text wherever
that text fits, so there it separates names; pieces that do not fit are dropped
one by one, and then different names can share a key.
-/

namespace RustyCastle.Ssdp
open Foundation Foundation.Decimal Foundation.HeaderBlock

def TargetRef.pieces : TargetRef → List Str
  | .all => ["ssdp:all".toList]
  | .rootDevice => ["upnp:rootdevice".toList]
  | .uuid u => ["uuid:".toList, u]
  | .deviceType d k v => ["urn:".toList, d, ":device:".toList, k, ":".toList, versionStr v]
  | .serviceType d k v => ["urn:".toList, d, ":service:".toList, k, ":".toList, versionStr v]

def UsnRef.pieces (u : UsnRef) : List Str :=
  "uuid:".toList :: u.deviceUuid :: u.embedded.elim [] fun t => "::".toList :: t.pieces

theorem TargetRef.pieces_deviceType (d k : Str) (v : UInt32) : pieces (.deviceType d k v) =
    ["urn:".toList, d, ":device:".toList, k, ":".toList, versionStr v] := rfl

theorem TargetRef.pieces_serviceType (d k : Str) (v : UInt32) : pieces (.serviceType d k v) =
    ["urn:".toList, d, ":service:".toList, k, ":".toList, versionStr v] := rfl

/-- The pushes of a URN, written as a fold. -/
theorem foldl_urn (s : BoundedStr cacheUsn) (a b c d e f : Str) :
    [a, b, c, d, e, f].foldl BoundedStr.pushStrOrDrop s =
      (((((s.pushStrOrDrop a).pushStrOrDrop b).pushStrOrDrop c).pushStrOrDrop d).pushStrOrDrop
        e).pushStrOrDrop f := by
  simp only [List.foldl]

theorem pushTarget_eq_foldl (s : BoundedStr cacheUsn) (t : TargetRef) :
    pushTarget s t = t.pieces.foldl BoundedStr.pushStrOrDrop s := by
  cases t with
  | all | rootDevice | uuid u => rfl
  | deviceType d k v =>
      rw [TargetRef.pieces_deviceType, foldl_urn]
      rfl
  | serviceType d k v =>
      rw [TargetRef.pieces_serviceType, foldl_urn]
      rfl

theorem usnToString_eq_foldl (u : UsnRef) :
    usnToString u = u.pieces.foldl BoundedStr.pushStrOrDrop .empty := by
  obtain ⟨d, _ | t⟩ := u
  · simp only [usnToString, UsnRef.pieces, Option.elim, List.foldl]
  · simp only [usnToString, UsnRef.pieces, Option.elim, List.foldl, pushTarget_eq_foldl]

theorem versionStr_eq (v : UInt32) : versionStr v = numeral v.toNat := u32ToStr_eq v

theorem TargetRef.pieces_flatten (t : TargetRef) : t.pieces.flatten = t.text := by
  cases t with
  | all => exact List.append_nil _
  | rootDevice => exact List.append_nil _
  | uuid u => exact congrArg ("uuid:".toList ++ ·) (List.append_nil u)
  | deviceType d k v => simp [pieces_deviceType, versionStr_eq, urnRest]
  | serviceType d k v => simp [pieces_serviceType, versionStr_eq, urnRest]

theorem UsnRef.pieces_flatten (u : UsnRef) : u.pieces.flatten = u.text := by
  obtain ⟨d, _ | t⟩ := u
  · simp [pieces, text, tail]
  · simp [pieces, text, tail, TargetRef.pieces_flatten]

/-- The canonical text of the name fits the key. -/
def UsnRef.FitsKey (u : UsnRef) : Prop := u.text.bytes.length ≤ cacheUsn

instance : DecidablePred UsnRef.FitsKey := fun _ => inferInstanceAs (Decidable (_ ≤ _))

theorem toStr_usnToString {u : UsnRef} (h : u.FitsKey) : (usnToString u).toStr = u.text := by
  rw [usnToString_eq_foldl, ← UsnRef.pieces_flatten]
  refine (BoundedStr.foldl_pushStrOrDrop ?_).trans (List.nil_append _)
  rw [UsnRef.pieces_flatten]
  exact h

theorem UsnRef.text_injective {u v : UsnRef} (hu : u.Parsed) (hv : v.Parsed)
    (h : u.text = v.text) : u = v := by
  have := parse_text hu
  rw [h, parse_text hv] at this
  exact (Except.ok.inj this).symm

theorem usnToString_injective {u v : UsnRef} (hu : u.Parsed) (hv : v.Parsed) (hfu : u.FitsKey)
    (hfv : v.FitsKey) (h : usnToString u = usnToString v) : u = v := by
  apply UsnRef.text_injective hu hv
  rw [← toStr_usnToString hfu, ← toStr_usnToString hfv, h]

/-- The name that a message is about. -/
def MessageRef.usn : MessageRef → Option UsnRef
  | .search _ => none
  | .searchResponse m => some m.usn
  | .notify m => some m.usn

theorem MessageRef.usn_of_announcement {m : MessageRef} {u : UsnRef} {loc : Str} {age : Duration}
    (h : m.announcement = some (u, loc, age)) : m.usn = some u := by
  cases m with
  | search m => cases h
  | searchResponse m =>
      cases h
      rfl
  | notify n =>
      simp only [announcement] at h
      split at h
      · cases h
      · split at h
        · cases h
          rfl
        · cases h

theorem MessageRef.usn_of_departure {m : MessageRef} {u : UsnRef} (h : m.departure = some u) :
    m.usn = some u := by
  cases m with
  | search m => cases h
  | searchResponse m => cases h
  | notify n =>
      simp only [departure] at h
      split at h
      · cases h
        rfl
      · cases h

namespace ControlPoint
variable {M : Type} [MapOps (BoundedStr cacheUsn) CpEntry M]

/-- A message about a name touches no entry but that of the name's key. -/
theorem find_handleMessage (hM : LawfulMap M cacheCap) {cp cp' : ControlPoint M} {now : Instant}
    {m : MessageRef} {u : UsnRef} (hu : m.usn = some u)
    (h : cp.handleMessage now m = some cp') {k : BoundedStr cacheUsn} (hk : k ≠ usnToString u) :
    cp'.cache.find k = cp.cache.find k := by
  rw [handleMessage_eq] at h
  split at h
  · rename_i v loc age hann
    obtain rfl : v = u := Option.some.inj ((MessageRef.usn_of_announcement hann).symm.trans hu)
    obtain ⟨b, cache, hc, rfl⟩ := announced_eq_some h
    rw [reschedule_cache]
    obtain ⟨-, l, -, hf⟩ | ⟨-, rfl⟩ := ServiceCache.insert_eq_some hM hc
    · exact (hf k).trans (if_neg hk)
    · rfl
  · rename_i v _ hdep
    obtain rfl : v = u := Option.some.inj ((MessageRef.usn_of_departure hdep).symm.trans hu)
    cases h
    rw [departed_eq]
    exact (ServiceCache.find_remove hM cp.cache _ k).trans (if_neg hk)
  · cases h
    rfl

end ControlPoint

/-! Names of `n + 1` letters -/

def sampleUuid (i : Nat) : Str := List.replicate (i + 1) 'a'

def sampleUsn (i : Nat) : UsnRef := ⟨sampleUuid i, none⟩

theorem sampleUuid_chars {i : Nat} {c : Char} (h : c ∈ sampleUuid i) : c = 'a' :=
  List.eq_of_mem_replicate h

theorem sampleUsn_wellFormed (i : Nat) : (sampleUsn i).WellFormed := by
  refine ⟨⟨by simp [sampleUsn, sampleUuid], ?_, ?_⟩, ?_, by simp [sampleUsn]⟩
  · exact Str.find_eq_none_of_notMem fun h => absurd (sampleUuid_chars h) (by decide)
  · intro c hc
    rw [sampleUuid_chars (List.mem_of_getLast? hc)]
    decide
  · intro c hc
    rw [sampleUuid_chars hc]
    decide

theorem length_sampleText (i : Nat) : (sampleUsn i).text.bytes.length = i + 6 := by
  have h := Str.length_bytes_of_ascii (s := (sampleUsn i).text) fun c hc => by
    rcases List.mem_append.mp hc with hc | hc
    · exact (by decide : ∀ c ∈ "uuid:".toList, c.toNat < 128) c hc
    · rw [sampleUuid_chars hc]
      decide
  rw [h]
  simp [UsnRef.text, UsnRef.tail, sampleUsn, sampleUuid]

theorem toStr_usnToString_long {i : Nat} (h : 123 ≤ i) :
    (usnToString (sampleUsn i)).toStr = "uuid:".toList := by
  let s : BoundedStr cacheUsn := BoundedStr.empty.pushStrOrDrop "uuid:".toList
  have hstart : s.toStr = "uuid:".toList := BoundedStr.pushStrOrDrop_of_fits (by decide)
  have hlong : cacheUsn < (s.toStr ++ sampleUuid i).bytes.length := by
    have hl : (Str.bytes ("uuid:".toList ++ sampleUuid i)).length = i + 6 := length_sampleText i
    rw [hstart, hl, cacheUsn]
    omega
  have hkey : usnToString (sampleUsn i) = s.pushStrOrDrop (sampleUuid i) := by
    simp only [usnToString, sampleUsn, s]
  rw [hkey, BoundedStr.pushStrOrDrop_of_not_fits hlong, hstart]

/-- Names that parse differently and fit the key have different keys, and a
datagram about one of them leaves the entry of the other alone. -/
theorem cache_key_separates (httparse : List UInt8 → Nat → Outcome) {M : Type}
    [MapOps (BoundedStr cacheUsn) CpEntry M] (hM : LawfulMap M cacheCap) {s s' : Str}
    {u v : UsnRef} (hu : UsnRef.parse s = .ok u) (hv : UsnRef.parse s' = .ok v) (hne : u ≠ v)
    (hfu : u.FitsKey) (hfv : v.FitsKey) :
    usnToString u ≠ usnToString v ∧
      ∀ (cp cp' : ControlPoint M) (now : Instant) (source : SocketAddr) (payload : List UInt8)
        (m : MessageRef), parseDatagram httparse payload = .ok m → m.usn = some u →
        cp.handleDatagram httparse now source payload = some cp' →
        cp'.cache.find (usnToString v) = cp.cache.find (usnToString v) := by
  have hkeys : usnToString u ≠ usnToString v := fun h =>
    hne (usnToString_injective (UsnRef.parsed_of_parse hu) (UsnRef.parsed_of_parse hv) hfu hfv h)
  refine ⟨hkeys, ?_⟩
  intro cp cp' now source payload m hm hmu h
  rw [ControlPoint.handleDatagram, hm] at h
  exact ControlPoint.find_handleMessage hM hmu h hkeys.symm

/-- Past the key's length different names share a key. -/
theorem cache_key_collision :
    UsnRef.parse (sampleUsn 123).text = .ok (sampleUsn 123) ∧
      UsnRef.parse (sampleUsn 124).text = .ok (sampleUsn 124) ∧
      sampleUsn 123 ≠ sampleUsn 124 ∧
      usnToString (sampleUsn 123) = usnToString (sampleUsn 124) := by
  refine ⟨UsnRef.parse_text (sampleUsn_wellFormed _).1, UsnRef.parse_text (sampleUsn_wellFormed _).1,
    by decide, ?_⟩
  apply BoundedStr.ext
  rw [toStr_usnToString_long (by omega), toStr_usnToString_long (by omega)]

theorem cache_key_separates_sample :
    usnToString ⟨['a'], none⟩ ≠ usnToString ⟨['a'], some .rootDevice⟩ ∧
      ∀ (cp cp' : ControlPoint CpIndexMap) (now : Instant) (source : SocketAddr)
        (payload : List UInt8) (m : MessageRef), parseDatagram splitBlock payload = .ok m →
        m.usn = some ⟨['a'], none⟩ → cp.handleDatagram splitBlock now source payload = some cp' →
        cp'.cache.find (usnToString ⟨['a'], some .rootDevice⟩) =
          cp.cache.find (usnToString ⟨['a'], some .rootDevice⟩) :=
  cache_key_separates splitBlock IndexMap.lawful
    (by decide : UsnRef.parse "uuid:a".toList = .ok ⟨['a'], none⟩)
    (by decide : UsnRef.parse "uuid:a::upnp:rootdevice".toList = .ok ⟨['a'], some .rootDevice⟩)
    (by decide) (by decide) (by decide)

end RustyCastle.Ssdp
