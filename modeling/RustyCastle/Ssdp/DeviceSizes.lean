import RustyCastle.Ssdp.Device

/-!
The sizes of the datagrams of a device. Re-parsing a stored target does not make
it longer, so every datagram fits the encode buffer, whatever the strings are.
-/

namespace RustyCastle.Ssdp
open Foundation Foundation.Decimal Foundation.HeaderBlock

/-! Texts of targets -/

theorem length_numeral_of_parseU32Str {s : Str} {v : UInt32} (h : parseU32Str s = some v) :
    (numeral v.toNat).length ≤ s.length := by
  obtain ⟨n, hn, rfl⟩ := Option.map_eq_some_iff.mp h
  rw [UInt32.toNat_ofNat_of_lt' (parseUnsigned_lt hn)]
  exact length_numeral_of_parse hn

theorem TargetRef.length_urnRest_le {d cls k ver : Str} {v : UInt32}
    (h : parseU32Str ver = some v) : (urnRest d cls k v).bytes.length ≤
      (Str.bytes (d ++ ':' :: (cls ++ ':' :: (k ++ ':' :: ver)))).length := by
  have hv := length_numeral_of_parseU32Str h
  have hle := Str.length_le_bytes ver
  have hn := length_bytes_numeral v.toNat
  simp only [urnRest, Str.bytes_append, Str.bytes_cons, List.length_append]
  omega

theorem TargetRef.length_text_of_parse {s : Str} {t : TargetRef} (h : parse s = .ok t) :
    t.text.bytes.length ≤ s.bytes.length := by
  have htrim := Str.length_bytes_trim_le s
  have hword : ∀ w : Str, s.trim.eqIgnoreAsciiCase w = true → w.bytes.length = w.length →
      w.bytes.length ≤ s.bytes.length := by
    intro w hw hlen
    have := Str.length_of_eqIgnoreAsciiCase hw
    have := Str.length_le_bytes s.trim
    omega
  rw [parse, parseTrimmed] at h
  split at h
  · rename_i hall
    obtain rfl := (Except.ok.inj h).symm
    exact hword _ hall (by decide)
  split at h
  · rename_i hroot
    obtain rfl := (Except.ok.inj h).symm
    exact hword _ hroot (by decide)
  split at h
  · rename_i u hu
    split at h
    · cases h
    · obtain rfl := (Except.ok.inj h).symm
      rw [text_uuid, ← Str.stripPrefix_eq_some.mp hu]
      exact htrim
  split at h
  · rename_i rest hrest
    have hv := Str.stripPrefix_eq_some.mp hrest
    obtain ⟨d, kind, k, ver, v, rfl, -, -, hver, ⟨rfl, rfl⟩ | ⟨rfl, rfl⟩⟩ := parseUrn_eq_ok h
    · rw [text_deviceType]
      refine le_trans ?_ htrim
      rw [hv, Str.bytes_append, Str.bytes_append, List.length_append, List.length_append]
      exact Nat.add_le_add_left (length_urnRest_le hver) _
    · rw [text_serviceType]
      refine le_trans ?_ htrim
      rw [hv, Str.bytes_append, Str.bytes_append, List.length_append, List.length_append]
      exact Nat.add_le_add_left (length_urnRest_le hver) _
  · cases h

theorem length_text_parseTargetStr (s : BoundedStr maxUrnLen) :
    (parseTargetStr s.toStr).text.bytes.length ≤ maxUrnLen := by
  unfold parseTargetStr
  split
  · rename_i t h
    exact (TargetRef.length_text_of_parse h).trans s.size_le
  · exact (by decide : (Str.bytes "ssdp:all".toList).length ≤ maxUrnLen)

theorem TargetRef.length_urnRest_match {d d' cls k k' : Str} {v v' : UInt32}
    (hd : d.eqIgnoreAsciiCase d' = true) (hk : k.eqIgnoreAsciiCase k' = true) (hv : v ≤ v') :
    (urnRest d cls k v).bytes.length ≤ (urnRest d' cls k' v').bytes.length := by
  have hdl := Str.length_bytes_of_eqIgnoreAsciiCase hd
  have hkl := Str.length_bytes_of_eqIgnoreAsciiCase hk
  have hvl := length_numeral_mono (UInt32.le_iff_toNat_le.mp hv)
  have hn := length_bytes_numeral v.toNat
  have hn' := length_bytes_numeral v'.toNat
  simp only [urnRest, Str.bytes_append, Str.bytes_cons, List.length_append]
  omega

/-- What a search is answered with is no longer than the advertised target. -/
theorem length_responseTarget (search advertised : TargetRef) :
    (responseTarget search advertised).text.bytes.length ≤ advertised.text.bytes.length := by
  cases search with
  | all => exact Nat.le_refl _
  | rootDevice => exact Nat.le_refl _
  | uuid u => exact Nat.le_refl _
  | deviceType d k v =>
      by_cases hm : targetMatches (.deviceType d k v) advertised = true
      · cases advertised with
        | deviceType d' k' v' =>
            have h : (d.eqIgnoreAsciiCase d' && k.eqIgnoreAsciiCase k' && decide (v ≤ v')) = true :=
              hm
            simp only [Bool.and_eq_true, decide_eq_true_eq] at h
            rw [responseTarget, if_pos hm, TargetRef.text_deviceType, TargetRef.text_deviceType,
              Str.bytes_append, Str.bytes_append, List.length_append, List.length_append]
            exact Nat.add_le_add_left (TargetRef.length_urnRest_match h.1.1 h.1.2 h.2) _
        | all | rootDevice | uuid _ | serviceType _ _ _ => cases hm
      · rw [responseTarget, if_neg hm]
  | serviceType d k v =>
      by_cases hm : targetMatches (.serviceType d k v) advertised = true
      · cases advertised with
        | serviceType d' k' v' =>
            have h : (d.eqIgnoreAsciiCase d' && k.eqIgnoreAsciiCase k' && decide (v ≤ v')) = true :=
              hm
            simp only [Bool.and_eq_true, decide_eq_true_eq] at h
            rw [responseTarget, if_pos hm, TargetRef.text_serviceType, TargetRef.text_serviceType,
              Str.bytes_append, Str.bytes_append, List.length_append, List.length_append]
            exact Nat.add_le_add_left (TargetRef.length_urnRest_match h.1.1 h.1.2 h.2) _
        | all | rootDevice | uuid _ | deviceType _ _ _ => cases hm
      · rw [responseTarget, if_neg hm]

theorem length_makeUsnRef (uuid : Str) (t : TargetRef) :
    (makeUsnRef uuid t).text.bytes.length ≤ 7 + uuid.bytes.length + t.text.bytes.length := by
  have hu : (Str.bytes "uuid:".toList).length = 5 := by decide
  have hc : (Str.bytes "::".toList).length = 2 := by decide
  cases t with
  | all | uuid u =>
      simp only [makeUsnRef, UsnRef.text, UsnRef.tail, Str.bytes_append, List.length_append, hu]
      omega
  | rootDevice | deviceType d k v | serviceType d k v =>
      simp only [makeUsnRef, UsnRef.text, UsnRef.tail, Str.bytes_append, List.length_append, hu, hc]
      omega

/-! Wire texts -/

theorem length_wire (line : Str) (hs : List Header) :
    (wire line hs).length = line.bytes.length + 4 + (hs.map fun h => h.render.length).sum := by
  simp [wire, List.length_flatMap]
  omega

theorem length_field (name value : Str) :
    (field name value).render.length = name.bytes.length + value.bytes.length + 4 := by
  simp [Header.render, field]
  omega

theorem length_names :
    (Str.bytes "HOST".toList).length = 4 ∧ (Str.bytes "NT".toList).length = 2 ∧
      (Str.bytes "ST".toList).length = 2 ∧ (Str.bytes "NTS".toList).length = 3 ∧
      (Str.bytes "USN".toList).length = 3 ∧ (Str.bytes "LOCATION".toList).length = 8 ∧
      (Str.bytes "CACHE-CONTROL".toList).length = 13 ∧ (Str.bytes "SERVER".toList).length = 6 ∧
      (Str.bytes "BOOTID.UPNP.ORG".toList).length = 15 ∧
      (Str.bytes "CONFIGID.UPNP.ORG".toList).length = 17 := by
  decide

theorem length_words :
    (Str.bytes "NOTIFY * HTTP/1.1".toList).length = 17 ∧
      (Str.bytes "HTTP/1.1 200 OK".toList).length = 15 ∧
      (Str.bytes "max-age=".toList).length = 8 ∧ (Str.bytes Device.multicastHost).length = 20 ∧
      (Str.bytes Nts.alive.asStr).length = 10 ∧ (Str.bytes Nts.byeBye.asStr).length = 11 := by
  decide

theorem length_numeral32 (n : UInt32) : (Str.bytes (numeral n.toNat)).length ≤ 10 := by
  have := n.toNat_lt
  rw [length_bytes_numeral]
  exact length_numeral_le (by decide) (by omega)

theorem length_maxAgeText (n : UInt32) :
    (maxAgeText n).bytes.length = 8 + (Str.bytes (numeral n.toNat)).length := by
  unfold maxAgeText
  simp only [Str.bytes_append, List.length_append]
  simp only [length_words]

/-! Datagrams -/

namespace Device

/-! The strings that a new device stores -/

section
variable {uuid location : Str} {server : Option Str} {bootid configid seed : UInt32}

theorem uuid_new (h : uuid.bytes.length ≤ maxUuidLen) :
    (new uuid location server bootid configid seed).uuid.toStr = uuid := by
  rw [new, BoundedStr.tryFrom_of_le h]
  rfl

theorem location_new (h : location.bytes.length ≤ maxLocationLen) :
    (new uuid location server bootid configid seed).location.toStr = location := by
  rw [new, BoundedStr.tryFrom_of_le h]
  rfl

theorem server_new (h : ∀ s ∈ server, s.bytes.length ≤ maxServerLen) :
    (new uuid location server bootid configid seed).server.map BoundedStr.toStr = server := by
  rw [new]
  cases server with
  | none => rfl
  | some s =>
      rw [Option.bind_some, BoundedStr.tryFrom_of_le (h s rfl)]
      rfl

end

/-- The bytes of the SERVER header, if there is one. -/
def serverSize (d : Device) : Nat :=
  ((d.server.map BoundedStr.toStr).toList.map fun v => (field "SERVER".toList v).render.length).sum

theorem serverSize_le (d : Device) : d.serverSize ≤ 138 := by
  unfold serverSize
  cases d.server with
  | none => exact Nat.zero_le _
  | some s =>
      have hs := s.size_le
      have : maxServerLen = 128 := rfl
      simp only [Option.map_some, Option.toList_some, List.map_cons, List.map_nil, List.sum_cons,
        List.sum_nil, length_field, length_names]
      omega

/-- The sizes of what a datagram for the target `st` carries. -/
structure Sizes (d : Device) (t : AdvertEntry) (st : TargetRef) (T U L A S B C : Nat) : Prop where
  target : st.text.bytes.length = T
  usn : (makeUsnRef d.uuid.toStr st).text.bytes.length = U
  location : d.location.toStr.bytes.length = L
  maxAge : (Str.bytes (numeral (ageSecs t.maxAge).toNat)).length = A
  server : d.serverSize = S
  bootid : (Str.bytes (numeral d.bootid.toNat)).length = B
  configid : (Str.bytes (numeral d.configid.toNat)).length = C

structure SizesBounded (T U L A S B C : Nat) : Prop where
  target : T ≤ 128
  usn : U ≤ 71 + T
  location : L ≤ 256
  maxAge : A ≤ 10
  server : S ≤ 138
  bootid : B ≤ 10
  configid : C ≤ 10

theorem exists_sizes (d : Device) (t : AdvertEntry) {st : TargetRef}
    (hst : st.text.bytes.length ≤ maxUrnLen) :
    ∃ T U L A S B C, Sizes d t st T U L A S B C ∧ SizesBounded T U L A S B C := by
  refine ⟨_, _, _, _, _, _, _, ⟨rfl, rfl, rfl, rfl, rfl, rfl, rfl⟩, ⟨hst, ?_, d.location.size_le,
    length_numeral32 _, d.serverSize_le, length_numeral32 _, length_numeral32 _⟩⟩
  have hu : d.uuid.toStr.bytes.length ≤ 64 := d.uuid.size_le
  exact (length_makeUsnRef d.uuid.toStr st).trans (by omega)

theorem length_aliveNotify {d : Device} {t : AdvertEntry} {T U L A S B C : Nat}
    (h : Sizes d t (parseTargetStr t.ntStr.toStr) T U L A S B C) :
    (d.aliveNotify t).wire.length = 156 + T + U + L + A + S + B + C := by
  have hs : ((d.server.map BoundedStr.toStr).toList.map fun v =>
      (field "SERVER".toList v).render.length).sum = S := h.server
  simp only [NotifyRef.wire, length_wire, NotifyRef.headers, aliveNotify, List.map_cons,
    List.map_append, List.map_map, Function.comp_def, Option.toList_some, Option.toList_none,
    List.map_nil, List.sum_cons, List.sum_append, List.sum_nil, hs]
  simp only [length_field, length_maxAgeText, length_names, length_words, h.target, h.usn,
    h.location, h.maxAge, h.bootid, h.configid]
  omega

theorem length_byebyeNotify {d : Device} {t : AdvertEntry} {T U L A S B C : Nat}
    (h : Sizes d t (parseTargetStr t.ntStr.toStr) T U L A S B C) :
    (d.byebyeNotify t).wire.length = 120 + T + U + B + C := by
  simp only [NotifyRef.wire, length_wire, NotifyRef.headers, byebyeNotify, List.map_cons,
    List.map_append, Option.toList_some, Option.toList_none, List.map_nil, List.sum_cons,
    List.sum_append, List.sum_nil]
  simp only [length_field, length_names, length_words, h.target, h.usn, h.bootid, h.configid]
  omega

theorem length_searchResponse {d : Device} {t : AdvertEntry} {search : TargetRef}
    {T U L A S B C : Nat}
    (h : Sizes d t (responseTarget search (parseTargetStr t.ntStr.toStr)) T U L A S B C) :
    (d.searchResponse search t).wire.length = 109 + T + U + L + A + S + B + C := by
  have hs : ((d.server.map BoundedStr.toStr).toList.map fun v =>
      (field "SERVER".toList v).render.length).sum = S := h.server
  simp only [SearchResponseRef.wire, length_wire, SearchResponseRef.headers, searchResponse,
    List.map_cons, List.map_append, List.map_map, Function.comp_def, Option.toList_some,
    Option.toList_none, List.map_nil, List.sum_cons, List.sum_append, List.sum_nil, hs]
  simp only [length_field, length_maxAgeText, length_names, length_words, h.target, h.usn,
    h.location, h.maxAge, h.bootid, h.configid]
  omega

theorem length_aliveNotify_le (d : Device) (t : AdvertEntry) :
    (d.aliveNotify t).wire.length ≤ 1024 := by
  obtain ⟨T, U, L, A, S, B, C, h, hb⟩ := d.exists_sizes t (length_text_parseTargetStr t.ntStr)
  obtain ⟨_, _, _, _, _, _, _⟩ := hb
  rw [length_aliveNotify h]
  omega

/-- Eight of these fit the shared buffer. -/
theorem length_byebyeNotify_le (d : Device) (t : AdvertEntry) :
    (d.byebyeNotify t).wire.length ≤ 512 := by
  obtain ⟨T, U, L, A, S, B, C, h, hb⟩ := d.exists_sizes t (length_text_parseTargetStr t.ntStr)
  obtain ⟨_, _, _, _, _, _, _⟩ := hb
  rw [length_byebyeNotify h]
  omega

theorem length_searchResponse_le (d : Device) (search : TargetRef) (t : AdvertEntry) :
    (d.searchResponse search t).wire.length ≤ 1024 := by
  obtain ⟨T, U, L, A, S, B, C, h, hb⟩ := d.exists_sizes t
    ((length_responseTarget search _).trans (length_text_parseTargetStr t.ntStr))
  obtain ⟨_, _, _, _, _, _, _⟩ := hb
  rw [length_searchResponse h]
  omega

/-- The answer to a search for everything is the shorter form of the advertisement. -/
theorem length_searchResponse_all (d : Device) (t : AdvertEntry) :
    (d.searchResponse .all t).wire.length + 47 = (d.aliveNotify t).wire.length := by
  obtain ⟨T, U, L, A, S, B, C, h, -⟩ := d.exists_sizes t (length_text_parseTargetStr t.ntStr)
  have hall : responseTarget .all (parseTargetStr t.ntStr.toStr) =
      parseTargetStr t.ntStr.toStr := rfl
  rw [length_aliveNotify h, length_searchResponse (hall ▸ h)]
  omega

end Device
end RustyCastle.Ssdp
