import RustyCastle.Ssdp.DeviceSchedule
import RustyCastle.Ssdp.RoundTrip

/-!
What a device sends. A stored target re-parses to the target it was stored for,
so every datagram in the queue encodes a well-formed message about a registered
target, and a receiver reads the message back.
-/

namespace RustyCastle.Ssdp
open Foundation Foundation.HeaderBlock Foundation.Runs

/-! Stored targets -/

/-- The text of a URN is what the encoded line has between its separator and its end. -/
theorem encodeTarget_cut {N : Nat} {t : TargetRef} {b : Buffer N} {w : Cursor UInt8}
    (h : encodeTarget [] t (.new b.toList) = .ok () w) :
    (w.buf.take (w.pos - 2)).drop 2 = t.text.bytes := by
  have he := emits_encodeTarget [] t (.new b.toList)
  have hout : (field [] t.text).render = [58, 32] ++ t.text.bytes ++ [13, 10] := by
    simp [Header.render, field]
  rw [hout] at he
  by_cases hfits : (Cursor.new b.toList).Fits ([58, 32] ++ t.text.bytes ++ [13, 10])
  · have hlen : ([58, 32] ++ t.text.bytes ++ [13, 10]).length - 2 =
        ([58, 32] ++ t.text.bytes).length := by simp
    injection h.symm.trans (he.1 hfits) with _ hw
    rw [hw, Cursor.put_new_buf, Cursor.put_new_pos, hlen, List.append_assoc, List.take_left]
    rfl
  · obtain ⟨c', hc', -⟩ := he.2 hfits
    rw [hc'] at h
    cases h

theorem toStr_of_targetToString {nt : TargetRef} {s : BoundedStr maxUrnLen}
    (h : targetToString nt = some s) : s.toStr = nt.text := by
  cases nt with
  | all | rootDevice => exact BoundedStr.tryFrom_eq_some.mp h
  | uuid u =>
      simp only [targetToString] at h
      obtain ⟨s₁, hs₁, hs⟩ := Option.bind_eq_some_iff.mp h
      rw [BoundedStr.tryFrom_eq_some.mp hs, BoundedStr.tryFrom_eq_some.mp hs₁]
      rfl
  | deviceType d k v | serviceType d k v =>
      simp only [targetToString] at h
      split at h
      · cases h
      · rename_i w hw
        obtain ⟨text, htext, hs⟩ := Option.bind_eq_some_iff.mp h
        rw [encodeTarget_cut hw, Str.fromUtf8_bytes] at htext
        rw [BoundedStr.tryFrom_eq_some.mp hs, Option.some.inj htext]

theorem parseTargetStr_of_stored {nt : TargetRef} {s : BoundedStr maxUrnLen} (hp : nt.Parsed)
    (h : targetToString nt = some s) : parseTargetStr s.toStr = nt := by
  rw [toStr_of_targetToString h, parseTargetStr, TargetRef.parse_text hp]

/-! What a device is created with and what is registered -/

/-- Strings within the stored limits that a receiver can read. -/
structure PrintableIdentity (uuid location : Str) (server : Option Str) : Prop where
  uuid_ne_nil : uuid ≠ []
  uuid_chars : ∀ c ∈ uuid, PrintableChar c ∧ c ≠ ':' ∧ c ≠ ' '
  uuid_le : uuid.bytes.length ≤ maxUuidLen
  location_valid : Uri.isValid location = true
  location_trimmed : Str.Trimmed location
  location_le : location.bytes.length ≤ maxLocationLen
  server_chars : ∀ s ∈ server, (∀ c ∈ s, PrintableChar c) ∧ Str.Trimmed s
  server_le : ∀ s ∈ server, s.bytes.length ≤ maxServerLen

/-- A registration of a target that a parser returns, in printable ASCII. -/
structure PrintableTarget (x : TargetRef × Duration) : Prop where
  parsed : ∃ s, TargetRef.parse s = .ok x.1
  chars : x.1.FreeChars PrintableChar
  maxAge : WholeSecs x.2

theorem PrintableTarget.wellFormed {x : TargetRef × Duration} (h : PrintableTarget x) :
    x.1.WellFormed :=
  ⟨TargetRef.parsed_iff.mpr h.parsed, h.chars.imp fun _ => PrintableChar.valueChar⟩

/-- The registration that an operation makes. -/
def DeviceOp.registered (op : DeviceOp) (d : Device) : List (TargetRef × Duration) :=
  match op with
  | .addTarget nt maxAge => if (d.addTarget nt maxAge).1 then [(nt, maxAge)] else []
  | _ => []

/-- A step of a device and of the accepted registrations. -/
def DeviceOp.stepRegister (httparse : List UInt8 → Nat → Outcome) (op : DeviceOp)
    (s : Device × List (TargetRef × Duration)) : Option (Device × List (TargetRef × Duration)) :=
  (op.step httparse s.1).map fun d => (d, s.2 ++ op.registered s.1)

/-! Messages of a device -/

theorem PrintableChar.not_isWhitespace {c : Char} (h : PrintableChar c) (hne : c ≠ ' ') :
    Str.isWhitespace c = false := by
  obtain ⟨hlo, hhi⟩ := h
  have h32 : c.toNat ≠ 32 := fun he => hne (Char.toNat_inj.mp he)
  simp [Str.isWhitespace]
  omega

section Messages
variable {uuid location : Str} {server : Option Str}

theorem makeUsnRef_wellFormed (hid : PrintableIdentity uuid location server) {nt : TargetRef}
    (hnt : nt.WellFormed) : (makeUsnRef uuid nt).WellFormed := by
  have hcolon : ':' ∉ uuid := fun h => (hid.uuid_chars _ h).2.1 rfl
  have hchars : ∀ c ∈ uuid, ValueChar c := fun c hc => (hid.uuid_chars c hc).1.valueChar
  have hplain : (⟨uuid, none⟩ : UsnRef).WellFormed := by
    refine ⟨⟨hid.uuid_ne_nil, Str.find_eq_none_of_notMem hcolon, fun c hc => ?_⟩, hchars, nofun⟩
    have huc := hid.uuid_chars c (List.mem_of_getLast? hc)
    exact huc.1.not_isWhitespace huc.2.2
  have hembedded : (⟨uuid, some nt⟩ : UsnRef).WellFormed :=
    ⟨⟨hid.uuid_ne_nil, Str.find_append_eq_none hcolon rfl, hnt.1⟩, hchars,
      fun t ht => Option.some.inj ht ▸ hnt.2⟩
  cases nt with
  | all | uuid u => exact hplain
  | rootDevice | deviceType d k v | serviceType d k v => exact hembedded

theorem makeUsnRef_deviceUuid (uuid : Str) (nt : TargetRef) :
    (makeUsnRef uuid nt).deviceUuid = uuid := by
  cases nt <;> rfl

theorem responseTarget_wellFormed {search advertised : TargetRef} (hs : search.WellFormed)
    (ha : advertised.WellFormed) : (responseTarget search advertised).WellFormed := by
  cases search with
  | all | rootDevice | uuid u => exact ha
  | deviceType d k v | serviceType d k v =>
      simp only [responseTarget]
      split
      · exact hs
      · exact ha

end Messages

/-- What a receiver learns from the message holds of the device: its identity,
and a registered target with its max-age where the message advertises one. -/
def MessageRef.Truthful (uuid location : Str) (bootid configid : UInt32)
    (log : List (TargetRef × Duration)) : MessageRef → Prop
  | .notify n =>
      n.usn.deviceUuid = uuid ∧ n.bootid = some bootid ∧ n.configid = some configid ∧
        (n.nts = .alive ∧ n.location = some location ∧
            (∃ maxAge, (n.nt, maxAge) ∈ log ∧ n.maxAge = some maxAge) ∨
          n.nts = .byeBye ∧ n.location = none ∧ n.maxAge = none ∧ ∃ maxAge, (n.nt, maxAge) ∈ log)
  | .searchResponse r =>
      r.usn.deviceUuid = uuid ∧ r.bootid = some bootid ∧ r.configid = some configid ∧
        r.location = location
  | .search _ => False

namespace Device

/-- The stored identity of a device. -/
structure HasIdentity (d : Device) (uuid location : Str) (server : Option Str)
    (bootid configid : UInt32) : Prop where
  uuid : d.uuid.toStr = uuid
  location : d.location.toStr = location
  server : d.server.map BoundedStr.toStr = server
  bootid : d.bootid = bootid
  configid : d.configid = configid

/-- Every stored target was registered. -/
def StoredIn (d : Device) (log : List (TargetRef × Duration)) : Prop :=
  ∀ k ∈ d.keys, ∃ x ∈ log, targetToString x.1 = some k.1 ∧ x.2 = k.2

/-- The entry stores a registration of the log. -/
structure Stores (t : AdvertEntry) (x : TargetRef × Duration) : Prop where
  target : parseTargetStr t.ntStr.toStr = x.1
  maxAge : t.maxAge = x.2

theorem Stores.wellFormed {t : AdvertEntry} {x : TargetRef × Duration} (ht : Stores t x)
    (hx : PrintableTarget x) : (parseTargetStr t.ntStr.toStr).WellFormed :=
  ht.target ▸ hx.wellFormed

theorem Stores.wholeSecs {t : AdvertEntry} {x : TargetRef × Duration} (ht : Stores t x)
    (hx : PrintableTarget x) : WholeSecs t.maxAge :=
  ht.maxAge ▸ hx.maxAge

theorem multicastHost_text : FieldText multicastHost :=
  fieldText_of_trimmed (by decide) (by decide)

theorem StoredIn.stores {d : Device} {log : List (TargetRef × Duration)} (h : d.StoredIn log)
    (hlog : ∀ x ∈ log, PrintableTarget x) {t : AdvertEntry} (ht : t ∈ d.targets.toList) :
    ∃ x ∈ log, Stores t x := by
  obtain ⟨x, hx, hs, ha⟩ := h t.key (List.mem_map_of_mem ht)
  exact ⟨x, hx, parseTargetStr_of_stored (hlog x hx).wellFormed.1 hs, ha.symm⟩

section Identity
variable {d : Device} {uuid location : Str} {server : Option Str} {bootid configid : UInt32}

theorem hasIdentity_new (hid : PrintableIdentity uuid location server) (seed : UInt32) :
    (new uuid location server bootid configid seed).HasIdentity uuid location server bootid
      configid :=
  ⟨uuid_new hid.uuid_le, location_new hid.location_le, server_new hid.server_le, rfl, rfl⟩

theorem HasIdentity.of_same {d' : Device} (h : d.HasIdentity uuid location server bootid configid)
    (hs : SameIdentity d d') : d'.HasIdentity uuid location server bootid configid :=
  ⟨hs.uuid ▸ h.uuid, hs.location ▸ h.location, hs.server ▸ h.server, hs.bootid.trans h.bootid,
    hs.configid.trans h.configid⟩

variable (hid : PrintableIdentity uuid location server)
  (hd : d.HasIdentity uuid location server bootid configid)
include hid hd

theorem usn_wellFormed {nt : TargetRef} (hnt : nt.WellFormed) :
    (makeUsnRef d.uuid.toStr nt).WellFormed :=
  hd.uuid ▸ makeUsnRef_wellFormed hid hnt

theorem location_text : LocationText d.location.toStr :=
  hd.location ▸ ⟨hid.location_valid, hid.location_trimmed⟩

theorem server_text : ∀ v ∈ d.server.map BoundedStr.toStr, FieldText v := by
  intro v hv
  rw [hd.server] at hv
  obtain ⟨hchars, htrimmed⟩ := hid.server_chars v hv
  exact fieldText_of_trimmed (fun c hc => (hchars c hc).valueChar) htrimmed

theorem aliveNotify_wellFormed {t : AdvertEntry} {x : TargetRef × Duration}
    (hx : PrintableTarget x) (ht : Stores t x) : (d.aliveNotify t).WellFormed where
  host := multicastHost_text
  nt := ht.wellFormed hx
  usn := usn_wellFormed hid hd (ht.wellFormed hx)
  location := by
    rintro v ⟨⟩
    exact location_text hid hd
  maxAge := by
    rintro v ⟨⟩
    exact ht.wholeSecs hx
  server := server_text hid hd
  searchport := nofun
  advertises _ := ⟨rfl, rfl⟩

theorem byebyeNotify_wellFormed {t : AdvertEntry} {x : TargetRef × Duration}
    (hx : PrintableTarget x) (ht : Stores t x) : (d.byebyeNotify t).WellFormed where
  host := multicastHost_text
  nt := ht.wellFormed hx
  usn := usn_wellFormed hid hd (ht.wellFormed hx)
  location := nofun
  maxAge := nofun
  server := nofun
  searchport := nofun
  advertises h := absurd rfl h

theorem searchResponse_wellFormed {t : AdvertEntry} {x : TargetRef × Duration}
    {search : TargetRef} (hs : search.WellFormed) (hx : PrintableTarget x) (ht : Stores t x) :
    (d.searchResponse search t).WellFormed where
  st := responseTarget_wellFormed hs (ht.wellFormed hx)
  usn := usn_wellFormed hid hd (responseTarget_wellFormed hs (ht.wellFormed hx))
  location := location_text hid hd
  maxAge := ht.wholeSecs hx
  server := server_text hid hd
  searchport := nofun

end Identity

/-! The queue over a run -/

/-- The payload is short and encodes a message that is read back and truthful. -/
def Readable (uuid location : Str) (bootid configid : UInt32)
    (log : List (TargetRef × Duration)) (payload : List UInt8) : Prop :=
  payload.length ≤ 1024 ∧ ∃ m : MessageRef, m.WellFormed ∧
    m.Truthful uuid location bootid configid log ∧ payload = m.wire

section Queue
variable {uuid location : Str} {server : Option Str} {bootid configid : UInt32}

theorem Readable.mono {log log' : List (TargetRef × Duration)} {payload : List UInt8}
    (h : Readable uuid location bootid configid log payload) (hsub : log ⊆ log') :
    Readable uuid location bootid configid log' payload := by
  obtain ⟨hlen, m, hw, ht, rfl⟩ := h
  refine ⟨hlen, m, hw, ?_, rfl⟩
  cases m with
  | search m => exact ht
  | searchResponse r => exact ht
  | notify n =>
      obtain ⟨hu, hb, hc, ⟨hnts, hl, age, hmem, ha⟩ | ⟨hnts, hl, ha, age, hmem⟩⟩ := ht
      · exact ⟨hu, hb, hc, .inl ⟨hnts, hl, age, hsub hmem, ha⟩⟩
      · exact ⟨hu, hb, hc, .inr ⟨hnts, hl, ha, age, hsub hmem⟩⟩

theorem readable_of_own {d : Device} {log : List (TargetRef × Duration)} {payload : List UInt8}
    (hid : PrintableIdentity uuid location server)
    (hd : d.HasIdentity uuid location server bootid configid) (hstored : d.StoredIn log)
    (hlog : ∀ x ∈ log, PrintableTarget x) (h : d.Own TargetRef.WellFormed payload) :
    Readable uuid location bootid configid log payload := by
  obtain ⟨t, ht, h⟩ := h
  obtain ⟨x, hx, hs⟩ := hstored.stores hlog ht
  have hmem : (parseTargetStr t.ntStr.toStr, t.maxAge) ∈ log := by
    rw [hs.target, hs.maxAge]
    exact hx
  have huuid : ∀ nt, (makeUsnRef d.uuid.toStr nt).deviceUuid = uuid :=
    fun nt => (makeUsnRef_deviceUuid _ nt).trans hd.uuid
  have hboot := congrArg some hd.bootid
  have hconfig := congrArg some hd.configid
  rcases h with rfl | rfl | ⟨search, hsearch, -, rfl⟩
  · exact ⟨d.length_aliveNotify_le t, .notify (d.aliveNotify t),
      aliveNotify_wellFormed hid hd (hlog x hx) hs,
      ⟨huuid _, hboot, hconfig, .inl ⟨rfl, congrArg some hd.location, _, hmem, rfl⟩⟩, rfl⟩
  · exact ⟨(d.length_byebyeNotify_le t).trans (by decide), .notify (d.byebyeNotify t),
      byebyeNotify_wellFormed hid hd (hlog x hx) hs,
      ⟨huuid _, hboot, hconfig, .inr ⟨rfl, rfl, rfl, _, hmem⟩⟩, rfl⟩
  · exact ⟨d.length_searchResponse_le search t, .searchResponse (d.searchResponse search t),
      searchResponse_wellFormed hid hd hsearch (hlog x hx) hs,
      ⟨huuid _, hboot, hconfig, hd.location⟩, rfl⟩

/-- A state with an identity and its accepted registrations. -/
structure Honest (uuid location : Str) (server : Option Str) (bootid configid : UInt32)
    (s : Device × List (TargetRef × Duration)) : Prop where
  packed : s.1.Packed
  identity : s.1.HasIdentity uuid location server bootid configid
  stored : s.1.StoredIn s.2
  queue : ∀ x ∈ s.1.queue, Readable uuid location bootid configid s.2 x.2

theorem honest_new (hid : PrintableIdentity uuid location server) (seed : UInt32) :
    Honest uuid location server bootid configid
      (new uuid location server bootid configid seed, []) where
  packed := packed_new ..
  identity := hasIdentity_new hid seed
  stored := by rintro k ⟨⟩
  queue := by rintro x ⟨⟩

theorem Honest.advances {d d' : Device} {log : List (TargetRef × Duration)}
    (hid : PrintableIdentity uuid location server)
    (h : Honest uuid location server bootid configid (d, log))
    (hlog : ∀ x ∈ log, PrintableTarget x) (ha : Advances TargetRef.WellFormed d d') :
    Honest uuid location server bootid configid (d', log ++ []) := by
  rw [List.append_nil]
  refine ⟨ha.packed, h.identity.of_same ha.same, fun k hk => h.stored k (ha.keys ▸ hk), ?_⟩
  intro x hx
  obtain ⟨added, hq, hown⟩ := ha.queue
  dsimp only at hx
  rw [hq] at hx
  rcases List.mem_append.mp hx with hx | hx
  · exact h.queue x hx
  · exact readable_of_own hid h.identity h.stored hlog (hown x hx)

theorem Honest.addTarget {d : Device} {log : List (TargetRef × Duration)}
    (h : Honest uuid location server bootid configid (d, log)) (nt : TargetRef)
    (maxAge : Duration) :
    Honest uuid location server bootid configid
      ((d.addTarget nt maxAge).2, log ++ (DeviceOp.addTarget nt maxAge).registered d) := by
  simp only [DeviceOp.registered]
  obtain he | ⟨ntStr, targets, hs, -, ht, he⟩ := d.addTarget_cases nt maxAge
  · rw [he, if_neg Bool.false_ne_true, List.append_nil]
    exact h
  · rw [he, if_pos rfl]
    refine ⟨⟨h.packed.packed, h.packed.used_le⟩, h.identity.of_same ⟨rfl, rfl, rfl, rfl, rfl⟩, ?_,
      fun x hx => (h.queue x hx).mono (List.subset_append_left ..)⟩
    intro k hk
    rw [keys, ht, List.map_append] at hk
    rcases List.mem_append.mp hk with hk | hk
    · obtain ⟨x, hx, hxk⟩ := h.stored k hk
      exact ⟨x, List.mem_append_left _ hx, hxk⟩
    · rw [List.mem_singleton.mp hk]
      exact ⟨(nt, maxAge), by simp, hs, rfl⟩

theorem Honest.pollTransmit {d : Device} {log : List (TargetRef × Duration)}
    (h : Honest uuid location server bootid configid (d, log)) (bufLen : Nat) :
    Honest uuid location server bootid configid ((d.pollTransmit bufLen).2, log ++ []) := by
  rw [List.append_nil]
  obtain ⟨-, he⟩ | ⟨q, dest, payload, rest, hq, he, hpacked, hqueue⟩ :=
    pollTransmit_cases h.packed bufLen
  · rw [he]
    exact h
  · rw [he]
    refine ⟨hpacked, h.identity.of_same ⟨rfl, rfl, rfl, rfl, rfl⟩, h.stored, fun x hx => ?_⟩
    rw [hqueue] at hx
    refine h.queue x ?_
    dsimp only
    rw [hq]
    exact List.mem_append_left _ hx

/-- As long as the registered targets are printable the device stays honest. -/
theorem honest_step {httparse : List UInt8 → Nat → Outcome} (hp : SplitsBlock httparse)
    (hid : PrintableIdentity uuid location server) (op : DeviceOp)
    (s s' : Device × List (TargetRef × Duration))
    (h : (∀ x ∈ s.2, PrintableTarget x) → Honest uuid location server bootid configid s)
    (hs : op.stepRegister httparse s = some s') (hlog : ∀ x ∈ s'.2, PrintableTarget x) :
    Honest uuid location server bootid configid s' := by
  obtain ⟨d, log⟩ := s
  obtain ⟨d', hd', rfl⟩ := Option.map_eq_some_iff.mp hs
  have hlog₀ : ∀ x ∈ log, PrintableTarget x := fun x hx => hlog x (List.mem_append_left _ hx)
  have hh := h hlog₀
  cases op with
  | addTarget nt maxAge =>
      cases hd'
      exact hh.addTarget nt maxAge
  | start now =>
      cases hd'
      exact hh.advances hid hlog₀ (advances_start hh.packed now)
  | shutdown now =>
      cases hd'
      exact hh.advances hid hlog₀ (advances_shutdown hh.packed now)
  | handleDatagram now source payload =>
      have hsearch : ∀ m, parseDatagram httparse payload = .ok (.search m) → m.st.WellFormed := by
        intro m hm
        have hw : (MessageRef.search m).WellFormed := wellFormed_of_parseDatagram hp hm
        exact hw.st
      exact hh.advances hid hlog₀ (advances_handleDatagram hh.packed hsearch hd')
  | handleTimeout now => exact hh.advances hid hlog₀ (advances_handleTimeout hh.packed hd')
  | pollTransmit bufLen =>
      cases hd'
      exact hh.pollTransmit bufLen
  | pollEvent =>
      cases hd'
      exact hh.advances hid hlog₀ (advances_pollEvent hh.packed)
  | pollTimeout =>
      cases hd'
      exact hh.advances hid hlog₀ (.refl hh.packed)

theorem Honest.transmit {httparse : List UInt8 → Nat → Outcome} (hp : SplitsBlock httparse)
    {d d' : Device} {log : List (TargetRef × Duration)} {bufLen : Nat} {x : Transmit}
    (h : Honest uuid location server bootid configid (d, log)) (hbuf : 1024 ≤ bufLen)
    (hpoll : d.pollTransmit bufLen = (some x, d')) : ∃ m,
      parseDatagram httparse x.payload = .ok m ∧
        m.Truthful uuid location bootid configid log := by
  obtain ⟨-, he⟩ | ⟨q, dest, payload, rest, hq, he, -, -⟩ := pollTransmit_cases h.packed bufLen
  · cases he.symm.trans hpoll
  · obtain ⟨hx, -⟩ := Prod.mk.inj (he.symm.trans hpoll)
    obtain ⟨hlen, m, hw, htrue, hwire⟩ := h.queue (dest, payload) (by dsimp only; rw [hq]; simp)
    dsimp only at hlen hwire
    refine ⟨m, ?_, htrue⟩
    rw [← Option.some.inj hx, Nat.min_eq_left (hlen.trans hbuf), List.take_length, hwire]
    exact MessageRef.parse_wire hp hw

/-- Every message about a registered target is encoded into a buffer of the code's size. -/
def EncodesAll (d : Device) : Prop :=
  ∀ t ∈ d.targets.toList, ∀ buf : Buffer 1024,
    (∃ b, (encodeNotify (d.aliveNotify t) buf.toList).1 = .ok b) ∧
      (∃ b, (encodeNotify (d.byebyeNotify t) buf.toList).1 = .ok b) ∧
      ∀ search, ∃ b, (encodeResponse (d.searchResponse search t) buf.toList).1 = .ok b

theorem encodesAll (d : Device) : d.EncodesAll := fun t _ buf =>
  ⟨⟨_, encodeNotify_of_fits (d.length_aliveNotify_le t) buf⟩,
    ⟨_, encodeNotify_of_fits ((d.length_byebyeNotify_le t).trans (by decide)) buf⟩,
    fun search => ⟨_, encodeResponse_of_fits (d.length_searchResponse_le search t) buf⟩⟩

end Queue

end Device

/-- Every datagram that a device with printable strings and targets hands out is
read back as a true message about it, and no encode fails. -/
theorem transmits_readable_and_true (httparse : List UInt8 → Nat → Outcome)
    (hp : SplitsBlock httparse) (uuid location : Str) (server : Option Str)
    (bootid configid seed : UInt32) (hid : PrintableIdentity uuid location server)
    (ops : List DeviceOp) (d : Device) (log : List (TargetRef × Duration))
    (hr : run (DeviceOp.stepRegister httparse) ops
      (Device.new uuid location server bootid configid seed, []) = some (d, log))
    (hlog : ∀ x ∈ log, PrintableTarget x) :
    (∀ bufLen x d', 1024 ≤ bufLen → d.pollTransmit bufLen = (some x, d') →
      ∃ m, parseDatagram httparse x.payload = .ok m ∧
        m.Truthful uuid location bootid configid log) ∧
      d.EncodesAll := by
  have hnew : Device.Honest uuid location server bootid configid
    (Device.new uuid location server bootid configid seed, []) := Device.honest_new hid seed
  have h := invariant_run (Device.honest_step hp hid) (fun _ => hnew) hr hlog
  exact ⟨fun bufLen x d' hbuf hpoll => h.transmit hp hbuf hpoll, d.encodesAll⟩

theorem sampleIdentity : PrintableIdentity "abc".toList "http://a/".toList none where
  uuid_ne_nil := by decide
  uuid_chars := by decide
  uuid_le := by decide
  location_valid := by decide
  location_trimmed := by decide
  location_le := by decide
  server_chars := nofun
  server_le := nofun

theorem printable_rootDevice : PrintableTarget (.rootDevice, Duration.fromSecs 1800) where
  parsed := TargetRef.parsed_iff.mp trivial
  chars := trivial
  maxAge := ⟨1800, rfl⟩

/-- The byebye of a device with one target. -/
theorem transmits_readable_and_true_sample : ∃ d log x d',
    run (DeviceOp.stepRegister splitBlock)
        [.addTarget .rootDevice (Duration.fromSecs 1800), .shutdown .zero]
        (Device.new "abc".toList "http://a/".toList none 1 1 1, []) = some (d, log) ∧
      d.pollTransmit 1024 = (some x, d') ∧
      ∃ m, parseDatagram splitBlock x.payload = .ok m ∧
        m.Truthful "abc".toList "http://a/".toList 1 1 log := by
  have hadd := addTarget_rootDevice
    (d := Device.new "abc".toList "http://a/".toList none 1 1 1) (by decide) (Device.packed_new ..)
  have hqueue := Device.queue_shutdown hadd.packed hadd.queue .zero
  have hpacked := (Device.shutdown_effect hadd.packed .zero).packed
  obtain ⟨hempty, -⟩ | ⟨q, dest, payload, rest, -, he, -, -⟩ :=
    Device.pollTransmit_cases hpacked 1024
  · rw [hqueue, Device.byebyeDatagrams, hadd.targets] at hempty
    cases hempty
  · have hlog : ∀ x ∈ [] ++ (DeviceOp.addTarget .rootDevice (Duration.fromSecs 1800)).registered
        (Device.new "abc".toList "http://a/".toList none 1 1 1) ++ [], PrintableTarget x := by
      intro x hx
      simp only [DeviceOp.registered, List.nil_append, List.append_nil] at hx
      split at hx
      · rw [List.mem_singleton.mp hx]
        exact printable_rootDevice
      · cases hx
    exact ⟨_, _, _, _, rfl, he, (transmits_readable_and_true splitBlock splitBlock_splitsBlock
      "abc".toList "http://a/".toList none 1 1 1 sampleIdentity
      [.addTarget .rootDevice (Duration.fromSecs 1800), .shutdown .zero] _ _ rfl hlog).1 1024 _ _
      (le_refl 1024) he⟩

end RustyCastle.Ssdp
