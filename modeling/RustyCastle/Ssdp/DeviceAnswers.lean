import Mathlib.Data.List.Forall2
import RustyCastle.Ssdp.DeviceTruth

/-!
The answers to a search. The targets that a search matches are a relation of their own; the
device enqueues one response for each registered target in it, and a receiver reads from
the response the target and the name that the search is to be answered with.
-/

namespace RustyCastle.Ssdp
open Foundation Foundation.HeaderBlock

/-! What a search is answered -/

/-- A search for the first target matches the second. -/
inductive Matches : TargetRef → TargetRef → Prop where
  | all (t : TargetRef) : Matches .all t
  | rootDevice : Matches .rootDevice .rootDevice
  | uuid {u v : Str} (hu : u.eqIgnoreAsciiCase v = true) : Matches (.uuid u) (.uuid v)
  | deviceType {d k d' k' : Str} {v v' : UInt32} (hd : d.eqIgnoreAsciiCase d' = true)
      (hk : k.eqIgnoreAsciiCase k' = true) (hv : v ≤ v') :
      Matches (.deviceType d k v) (.deviceType d' k' v')
  | serviceType {d k d' k' : Str} {v v' : UInt32} (hd : d.eqIgnoreAsciiCase d' = true)
      (hk : k.eqIgnoreAsciiCase k' = true) (hv : v ≤ v') :
      Matches (.serviceType d k v) (.serviceType d' k' v')

theorem targetMatches_iff {search target : TargetRef} :
    targetMatches search target = true ↔ Matches search target := by
  constructor
  · intro h
    cases search with
    | all => exact .all target
    | rootDevice =>
        cases target with
        | rootDevice => exact .rootDevice
        | all | uuid _ | deviceType _ _ _ | serviceType _ _ _ => cases h
    | uuid u =>
        cases target with
        | uuid v => exact .uuid h
        | all | rootDevice | deviceType _ _ _ | serviceType _ _ _ => cases h
    | deviceType d k v =>
        cases target with
        | deviceType d' k' v' =>
            simp only [targetMatches, Bool.and_eq_true, decide_eq_true_eq] at h
            exact .deviceType h.1.1 h.1.2 h.2
        | all | rootDevice | uuid _ | serviceType _ _ _ => cases h
    | serviceType d k v =>
        cases target with
        | serviceType d' k' v' =>
            simp only [targetMatches, Bool.and_eq_true, decide_eq_true_eq] at h
            exact .serviceType h.1.1 h.1.2 h.2
        | all | rootDevice | uuid _ | deviceType _ _ _ => cases h
  · intro h
    cases h with
    | all | rootDevice => rfl
    | uuid hu => exact hu
    | deviceType hd hk hv | serviceType hd hk hv =>
        simp only [targetMatches, hd, hk, hv, decide_true, Bool.and_self]

instance (search target : TargetRef) : Decidable (Matches search target) :=
  decidable_of_iff _ targetMatches_iff

/-- The target that the answer names: that of a device or service search, and otherwise the
registered one. -/
def answeredTarget (search target : TargetRef) : TargetRef :=
  match search with
  | .deviceType .. | .serviceType .. => search
  | .all | .rootDevice | .uuid _ => target

/-- The name in the answer: the uuid, and behind it a target that is no uuid itself. -/
def answeredUsn (uuid : Str) (st : TargetRef) : UsnRef :=
  match st with
  | .all | .uuid _ => ⟨uuid, none⟩
  | .rootDevice | .deviceType .. | .serviceType .. => ⟨uuid, some st⟩

theorem responseTarget_of_matches {search target : TargetRef} (h : Matches search target) :
    responseTarget search target = answeredTarget search target := by
  have hm := targetMatches_iff.mpr h
  cases search with
  | all | rootDevice | uuid u => rfl
  | deviceType d k v | serviceType d k v => exact if_pos hm

theorem makeUsnRef_eq (uuid : Str) (st : TargetRef) : makeUsnRef uuid st = answeredUsn uuid st := by
  cases st <;> rfl

/-! Texts that a response can carry -/

/-- The uuid, the location and the server of a device are values of the headers they go to. -/
structure CarriesTexts (uuid location : Str) (server : Option Str) : Prop where
  uuid_ne_nil : uuid ≠ []
  uuid_chars : ∀ c ∈ uuid, ValueChar c
  /-- The name is cut at its first "::", which is the one behind the uuid. -/
  uuid_cut : Str.find "::".toList (uuid ++ ":".toList) = none
  uuid_end : ∀ c ∈ uuid.getLast?, Str.isWhitespace c = false
  location : LocationText location
  server : ∀ v ∈ server, FieldText v

theorem answeredUsn_wellFormed {uuid location : Str} {server : Option Str}
    (h : CarriesTexts uuid location server) {st : TargetRef} (hst : st.WellFormed) :
    (answeredUsn uuid st).WellFormed := by
  have hplain : (⟨uuid, none⟩ : UsnRef).WellFormed :=
    ⟨⟨h.uuid_ne_nil, Str.find_eq_none_of_append h.uuid_cut, h.uuid_end⟩, h.uuid_chars, nofun⟩
  have hembedded : (⟨uuid, some st⟩ : UsnRef).WellFormed :=
    ⟨⟨h.uuid_ne_nil, h.uuid_cut, hst.1⟩, h.uuid_chars, fun t ht => Option.some.inj ht ▸ hst.2⟩
  cases st with
  | all | uuid u => exact hplain
  | rootDevice | deviceType d k v | serviceType d k v => exact hembedded

/-! Reading a response -/

/-- The response with its max-age cut to whole seconds, as it is written. -/
def SearchResponseRef.cutAge (r : SearchResponseRef) : SearchResponseRef :=
  { r with maxAge := Duration.fromSecs (ageSecs r.maxAge).toNat }

theorem SearchResponseRef.wire_cutAge (r : SearchResponseRef) : r.cutAge.wire = r.wire := by
  simp only [wire, headers, cutAge, ageSecs_fromSecs]

/-- The datagram goes to the source of a search, and a receiver reads from it the answer to
the search about a registered target. -/
def AnswersSearch (httparse : List UInt8 → Nat → Outcome) (source : SocketAddr) (uuid : Str)
    (search target : TargetRef) (x : Datagram) : Prop :=
  x.1 = .unicast source ∧ ∃ r : SearchResponseRef,
    parseDatagram httparse x.2 = .ok (.searchResponse r) ∧
      r.st = answeredTarget search target ∧ r.usn = answeredUsn uuid (answeredTarget search target)

namespace Device

/-- The targets are those whose texts the device stores, in order. -/
def Registers (d : Device) (targets : List TargetRef) : Prop :=
  List.Forall₂ (fun t target => targetToString target = some t.ntStr) d.targets.toList targets

theorem answersSearch_response {httparse : List UInt8 → Nat → Outcome} (hp : SplitsBlock httparse)
    {d : Device} (htexts : CarriesTexts d.uuid.toStr d.location.toStr
      (d.server.map BoundedStr.toStr)) {t : AdvertEntry} {search target : TargetRef}
    (hs : search.WellFormed) (ht : target.WellFormed) (hstored : parseTargetStr t.ntStr.toStr = target)
    (hm : Matches search target) (source : SocketAddr) :
    AnswersSearch httparse source d.uuid.toStr search target
      (.unicast source, (d.searchResponse search t).wire) := by
  have hst : responseTarget search (parseTargetStr t.ntStr.toStr) = answeredTarget search target := by
    rw [hstored, responseTarget_of_matches hm]
  have hst_wf : (answeredTarget search target).WellFormed := by
    rw [← responseTarget_of_matches hm]
    exact responseTarget_wellFormed hs ht
  have hwf : (d.searchResponse search t).cutAge.WellFormed :=
    { st := by
        change (responseTarget search (parseTargetStr t.ntStr.toStr)).WellFormed
        rwa [hst]
      usn := by
        change (makeUsnRef d.uuid.toStr (responseTarget search (parseTargetStr t.ntStr.toStr))).WellFormed
        rw [hst, makeUsnRef_eq]
        exact answeredUsn_wellFormed htexts hst_wf
      location := htexts.location
      maxAge := ⟨_, rfl⟩
      server := htexts.server
      searchport := nofun }
  refine ⟨rfl, (d.searchResponse search t).cutAge, ?_, hst, ?_⟩
  · rw [← SearchResponseRef.wire_cutAge]
    exact parseDatagram_response hp hwf
  · change makeUsnRef d.uuid.toStr (responseTarget search (parseTargetStr t.ntStr.toStr)) = _
    rw [hst, makeUsnRef_eq]

/-- The responses are the answers about the targets that match. -/
theorem responseDatagrams_answers {httparse : List UInt8 → Nat → Outcome}
    (hp : SplitsBlock httparse) {d : Device} (htexts : CarriesTexts d.uuid.toStr d.location.toStr
      (d.server.map BoundedStr.toStr)) {targets : List TargetRef} (hreg : d.Registers targets)
    (htargets : ∀ target ∈ targets, target.WellFormed) {search : TargetRef} (hs : search.WellFormed)
    (source : SocketAddr) :
    List.Forall₂ (AnswersSearch httparse source d.uuid.toStr search)
      (targets.filter fun target => Matches search target)
      (d.responseDatagrams (.unicast source) search) := by
  unfold responseDatagrams
  unfold Registers at hreg
  generalize d.targets.toList = ts at hreg ⊢
  induction hreg with
  | nil => exact .nil
  | @cons t target ts targets ht _ ih =>
      obtain ⟨htarget, htargets⟩ := List.forall_mem_cons.mp htargets
      have hstored := parseTargetStr_of_stored htarget.1 ht
      have hmatch : t.answers search = true ↔ Matches search target := by
        rw [AdvertEntry.answers, hstored, targetMatches_iff]
      by_cases hm : Matches search target
      · have hkeep : decide (Matches search target) = true := decide_eq_true hm
        rw [List.filter_cons_of_pos (p := fun target => decide (Matches search target)) hkeep,
          List.filter_cons_of_pos (hmatch.mpr hm), List.map_cons]
        exact .cons (answersSearch_response hp htexts hs htarget hstored hm source) (ih htargets)
      · have hdrop : ¬ decide (Matches search target) = true := by simpa using hm
        rw [List.filter_cons_of_neg (p := fun target => decide (Matches search target)) hdrop,
          List.filter_cons_of_neg (hmatch.not.mpr hm)]
        exact ih htargets

theorem length_responseDatagrams_le (d : Device) (dest : Destination) (search : TargetRef) :
    (d.responseDatagrams dest search).length ≤ 16 := by
  rw [responseDatagrams, List.length_map]
  have hlen : d.targets.toList.length ≤ 8 := d.targets.length_le
  exact (List.length_filter_le ..).trans (hlen.trans (by decide))

theorem packed_of_empty {d : Device} (h : d.pendingTransmits.toList = []) : d.Packed ∧ d.queue = [] := by
  refine ⟨⟨?_, ?_⟩, ?_⟩
  · rw [h]
    trivial
  · rw [h]
    exact Nat.zero_le _
  · rw [queue, h]
    rfl

/-- A search that is read fills an empty queue with the responses that fit. -/
theorem queue_handleDatagram_search {httparse : List UInt8 → Nat → Outcome} {d d' : Device}
    {now : Instant} {source : SocketAddr} {payload : List UInt8} {search : MSearchRef}
    (hempty : d.pendingTransmits.toList = [])
    (hparse : parseDatagram httparse payload = .ok (.search search))
    (hfits : PackedStack.totalLength (d.responseDatagrams (.unicast source) search.st) ≤ 4096)
    (h : d.handleDatagram httparse now source payload = some d') :
    d'.queue = d.responseDatagrams (.unicast source) search.st := by
  obtain ⟨hpacked, hqueue⟩ := packed_of_empty hempty
  simp only [handleDatagram, hparse] at h
  obtain ⟨fireAt, he⟩ := handleSearch_effect hpacked h
  rw [he.queue, hqueue]
  exact (pushWhile_nil_eq_iff (length_responseDatagrams_le ..)).mpr hfits

end Device

/-- Every search that a device reads is answered, to its source and about exactly the
registered targets that it matches, where the strings of the device and the targets are
values of header fields. -/
theorem search_answered (httparse : List UInt8 → Nat → Outcome) (hp : SplitsBlock httparse)
    (d : Device) (targets : List TargetRef) (hempty : d.pendingTransmits.toList = [])
    (hreg : d.Registers targets) (himage : ∀ target ∈ targets, ∃ s, TargetRef.parse s = .ok target)
    (htexts : CarriesTexts d.uuid.toStr d.location.toStr (d.server.map BoundedStr.toStr))
    (hchars : ∀ target ∈ targets, target.FreeChars ValueChar)
    (now : Instant) (source : SocketAddr) (payload : List UInt8) (search : MSearchRef)
    (hparse : parseDatagram httparse payload = .ok (.search search))
    (hfits : PackedStack.totalLength (d.responseDatagrams (.unicast source) search.st) ≤ 4096) :
    (now + Duration.fromMillis (search.mx.toNat * 1000) ≤ Duration.max →
      ∃ d', d.handleDatagram httparse now source payload = some d') ∧
    ∀ d', d.handleDatagram httparse now source payload = some d' →
      List.Forall₂ (AnswersSearch httparse source d.uuid.toStr search.st)
        (targets.filter fun target => Matches search.st target) d'.queue := by
  have hw : (MessageRef.search search).WellFormed := wellFormed_of_parseDatagram hp hparse
  constructor
  · intro hmax
    have hmx : search.mx ≠ 0 := by
      intro h0
      have hmin := hw.mx.1
      rw [h0] at hmin
      exact absurd hmin (by decide)
    simp only [Device.handleDatagram, hparse]
    exact d.handleSearch_returns source hmx hmax
  · intro d' hd'
    rw [Device.queue_handleDatagram_search hempty hparse hfits hd']
    exact Device.responseDatagrams_answers hp htexts hreg
      (fun target ht => ⟨TargetRef.parsed_iff.mpr (himage target ht), hchars target ht⟩) hw.st source

/-! A device with one target -/

/-- A device at a location that advertises the root device. -/
def rootDeviceAt (location : Str) : Device :=
  ((Device.new "abc".toList location none 1 1 1).addTarget .rootDevice (Duration.fromSecs 1800)).2

theorem rootDeviceAt_effect (location : Str) :
    Device.Effect (Device.new "abc".toList location none 1 1 1) (rootDeviceAt location) [rootEntry]
      .new false [] :=
  addTarget_rootDevice (d := Device.new "abc".toList location none 1 1 1)
    (show 0 < maxTargets by decide) (Device.packed_new ..)

theorem rootDeviceAt_empty (location : Str) :
    (rootDeviceAt location).pendingTransmits.toList = [] := by
  have hlen := Device.length_queue (rootDeviceAt location)
  rw [(rootDeviceAt_effect location).queue] at hlen
  exact List.eq_nil_of_length_eq_zero hlen.symm

theorem rootDeviceAt_uuid (location : Str) : (rootDeviceAt location).uuid.toStr = "abc".toList := by
  rw [(rootDeviceAt_effect location).same.uuid]
  exact Device.uuid_new (by decide)

theorem rootDeviceAt_responses (location : Str) (dest : Destination) :
    (rootDeviceAt location).responseDatagrams dest .all =
      [(dest, ((rootDeviceAt location).searchResponse .all rootEntry).wire)] := by
  rw [Device.responseDatagrams_all, (rootDeviceAt_effect location).targets]
  rfl

theorem rootDeviceAt_fits (location : Str) (dest : Destination) :
    PackedStack.totalLength ((rootDeviceAt location).responseDatagrams dest .all) ≤ 4096 := by
  rw [rootDeviceAt_responses, PackedStack.totalLength_singleton]
  exact ((rootDeviceAt location).length_searchResponse_le .all rootEntry).trans (by decide)

theorem search_answered_rootDevice :
    (Instant.zero + Duration.fromMillis (searchAll.mx.toNat * 1000) ≤ Duration.max →
      ∃ d', (rootDeviceAt "http://a/".toList).handleDatagram splitBlock .zero (.v4 0 1900)
        searchAll.wire = some d') ∧
    ∀ d', (rootDeviceAt "http://a/".toList).handleDatagram splitBlock .zero (.v4 0 1900)
        searchAll.wire = some d' →
      List.Forall₂ (AnswersSearch splitBlock (.v4 0 1900)
          (rootDeviceAt "http://a/".toList).uuid.toStr .all)
        ([TargetRef.rootDevice].filter fun target => Matches .all target) d'.queue := by
  have he := rootDeviceAt_effect "http://a/".toList
  have hreg : (rootDeviceAt "http://a/".toList).Registers [.rootDevice] := by
    rw [Device.Registers, he.targets]
    exact .cons targetToString_rootDevice .nil
  have htexts : CarriesTexts (rootDeviceAt "http://a/".toList).uuid.toStr
      (rootDeviceAt "http://a/".toList).location.toStr
      ((rootDeviceAt "http://a/".toList).server.map BoundedStr.toStr) := by
    have hlocation : (rootDeviceAt "http://a/".toList).location.toStr = "http://a/".toList := by
      rw [he.same.location]
      exact Device.location_new (by decide)
    rw [rootDeviceAt_uuid, hlocation, he.same.server]
    exact
      { uuid_ne_nil := by decide
        uuid_chars := fun c hc =>
          ((by decide : ∀ c ∈ "abc".toList, PrintableChar c) c hc).valueChar
        uuid_cut := by decide
        uuid_end := by decide
        location := by
          constructor <;> decide
        server := nofun }
  refine search_answered splitBlock splitBlock_splitsBlock (rootDeviceAt "http://a/".toList)
    [.rootDevice] (rootDeviceAt_empty _) hreg ?_ htexts ?_ .zero (.v4 0 1900) searchAll.wire searchAll
    (parseDatagram_msearch splitBlock_splitsBlock searchAll_wellFormed) (rootDeviceAt_fits _ _)
  · simp only [List.forall_mem_singleton]
    exact ⟨"upnp:rootdevice".toList, by decide⟩
  · simp only [List.forall_mem_singleton]
    trivial

/-- A device without a location answers with a datagram that is no message. -/
theorem search_answer_unreadable : ∃ d',
    (rootDeviceAt []).handleDatagram splitBlock .zero (.v4 0 1900) searchAll.wire = some d' ∧
      Matches .all .rootDevice ∧ ∃ x, d'.queue = [x] ∧ ∀ m, parseDatagram splitBlock x.2 ≠ .ok m := by
  have he := rootDeviceAt_effect []
  have hparse := parseDatagram_msearch splitBlock_splitsBlock searchAll_wellFormed
  obtain ⟨d', hd'⟩ : ∃ d', (rootDeviceAt []).handleDatagram splitBlock .zero (.v4 0 1900)
      searchAll.wire = some d' := by
    simp only [Device.handleDatagram, hparse]
    exact Device.handleSearch_returns _ _ (by decide) (by decide)
  have hqueue := Device.queue_handleDatagram_search (rootDeviceAt_empty []) hparse
    (rootDeviceAt_fits _ _) hd'
  rw [show searchAll.st = .all from rfl, rootDeviceAt_responses] at hqueue
  refine ⟨d', hd', .all _, _, hqueue, ?_⟩
  have hlocation : (rootDeviceAt []).location.toStr = [] := by
    rw [he.same.location]
    exact Device.location_new (by decide)
  have hserver : (rootDeviceAt []).server = none := he.same.server
  have hw : ∀ x ∈ ((rootDeviceAt []).searchResponse .all rootEntry).headers, x.WellFormed := by
    have hst : parseTargetStr rootEntry.ntStr.toStr = .rootDevice := by decide
    refine SearchResponseRef.headers_wellFormed_of_texts ?_ ?_ ?_ ?_
    · rw [Device.searchResponse, hst]
      exact fieldText_literal (by decide) (by decide)
    · rw [Device.searchResponse, hst, rootDeviceAt_uuid]
      exact fieldText_literal (by decide) (by decide)
    · rw [Device.searchResponse, hlocation]
      exact fieldText_literal (by decide) (by decide)
    · rw [Device.searchResponse, hserver]
      intro s hs
      cases hs
  have hfield : field "LOCATION".toList [] ∈
      ((rootDeviceAt []).searchResponse .all rootEntry).headers := by
    simp [SearchResponseRef.headers, Device.searchResponse, hlocation]
  refine parseDatagram_response_rejected splitBlock_splitsBlock hw (i := 2) ⟨_, rfl, by decide⟩
    hfield ?_
  intro acc acc'
  exact fun h => by cases h

end RustyCastle.Ssdp
