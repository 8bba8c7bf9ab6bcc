import RustyCastle.Server.Runtime
import RustyCastle.Ssdp.DeviceBurst
import RustyCastle.Ssdp.DeviceTruth

/-!
The device that announces the server. The configuration reaches a control point
twice, as the description document and through the bounded strings of the
device, which are empty where the text is too long.
-/

namespace RustyCastle.Server
open Foundation Foundation.HeaderBlock Foundation.Runs RustyCastle.Ssdp RustyCastle.Upnp

def ssdpTargets (uuid : Str) : List TargetRef :=
  [.rootDevice, .uuid uuid, .deviceType "schemas-upnp-org".toList "MediaServer".toList 1,
    .serviceType "schemas-upnp-org".toList "ContentDirectory".toList 1,
    .serviceType "schemas-upnp-org".toList "ConnectionManager".toList 1]

def ssdpServer : Str := "rusty-castle/0.1 UPnP/1.1".toList

def ssdpMaxAge : Duration := Duration.fromSecs 1800

/-- The device of a state. What the registrations return is not looked at. -/
def ssdpDevice (state : RuntimeState) (seed : UInt32) : Device :=
  let bootid := max seed 1
  let device := Device.new state.config.uuid state.deviceLocation (some ssdpServer) bootid 1 seed
  (ssdpTargets state.config.uuid).foldl (fun device nt => (device.addTarget nt ssdpMaxAge).2) device

/-! What a control point compares -/

/-- The message is about the described device and leads to its description. -/
def DescribesDevice (udn : Option Str) (location : Str) : MessageRef → Prop
  | .notify n => udn = some n.usn.deviceUuid ∧ (n.nts = .alive → n.location = some location)
  | .searchResponse r => udn = some r.usn.deviceUuid ∧ r.location = location
  | .search _ => False

/-- Further targets that the operation registers are printable. -/
def RegistersPrintable : DeviceOp → Prop
  | .addTarget nt maxAge => PrintableTarget (nt, maxAge)
  | _ => True

/-- In every run of the device every datagram is read as a message about the
device that the description document describes. -/
def OneDevice (httparse : List UInt8 → Nat → Outcome) (state : RuntimeState) (seed : UInt32) :
    Prop :=
  ∀ (ops : List DeviceOp) (d : Device), (∀ op ∈ ops, RegistersPrintable op) →
    run (DeviceOp.step httparse) ops (ssdpDevice state seed) = some d →
    ∀ (bufLen : Nat) (x : Transmit) (d' : Device), 1024 ≤ bufLen →
      d.pollTransmit bufLen = (some x, d') → ∃ m, parseDatagram httparse x.payload = .ok m ∧
        DescribesDevice (udnUuid (deviceXml state.config)) state.deviceLocation m

/-- A character that neither a header nor an element reads as anything else. -/
def PlainChar (c : Char) : Prop := PrintableChar c ∧ c ∉ " <>&\"'".toList

instance : DecidablePred PlainChar := fun _ => inferInstanceAs (Decidable (_ ∧ _))

structure PlainConfig (config : RuntimeConfig) : Prop where
  uuid_ne_nil : config.uuid ≠ []
  uuid_chars : ∀ c ∈ config.uuid, PlainChar c ∧ c ≠ ':'
  baseUrl_ne_nil : config.publicBaseUrl ≠ []
  baseUrl_chars : ∀ c ∈ config.publicBaseUrl, PlainChar c

/-- The uuid and the location have room in the strings of the device. -/
def FitsDevice (config : RuntimeConfig) : Prop :=
  config.uuid.bytes.length ≤ maxUuidLen ∧
    (config.publicBaseUrl ++ "device.xml".toList).bytes.length ≤ maxLocationLen

instance (config : RuntimeConfig) : Decidable (FitsDevice config) :=
  inferInstanceAs (Decidable (_ ∧ _))

/-! The description -/

theorem udnUuid_deviceXml {config : ServerConfig} (h : '<' ∉ config.uuid) :
    udnUuid (deviceXml config) = some config.uuid :=
  udnUuid_writeDeviceDescription _ _
    (udnUuid_writeDevice _ _ _ _ _ _ _ _ _ _ _ _ _ _ (by decide) h)

section Config
variable {config : RuntimeConfig} {scanned : ScannedMediaTree} {seed : UInt32}

theorem PlainChar.not_isWhitespace {c : Char} (h : PlainChar c) : Str.isWhitespace c = false := by
  refine h.1.not_isWhitespace ?_
  rintro rfl
  exact h.2 (by decide)

theorem PlainConfig.location_chars (hc : PlainConfig config) :
    ∀ c ∈ config.publicBaseUrl ++ "device.xml".toList, PlainChar c := by
  intro c hmem
  rcases List.mem_append.mp hmem with hmem | hmem
  · exact hc.baseUrl_chars c hmem
  · exact (by decide : ∀ c ∈ "device.xml".toList, PlainChar c) c hmem

theorem PlainConfig.udn (hc : PlainConfig config) :
    udnUuid (deviceXml (RuntimeState.ofScanned config scanned).config) = some config.uuid :=
  udnUuid_deviceXml fun h => (hc.uuid_chars _ h).1.2 (by decide)

theorem trimmed_of_plain {s : Str} (h : ∀ c ∈ s, PlainChar c) : Str.Trimmed s :=
  Str.trimmed_of_forall fun c hc => (h c hc).not_isWhitespace

theorem isValid_of_plain {s : Str} (hne : s ≠ []) (h : ∀ c ∈ s, PlainChar c)
    (hlen : s.bytes.length ≤ maxUriLen) : Uri.isValid s = true := by
  have hbytes : s.bytes.all (fun b => 0x20 ≤ b && b < 0x7F) = true := by
    refine List.all_eq_true.mpr fun b hb => ?_
    obtain ⟨c, hc, hb⟩ := Str.mem_bytes.mp hb
    obtain ⟨hlo, hhi⟩ := (h c hc).1
    rw [Str.encode_ascii (by omega), List.mem_singleton] at hb
    have hn : b.toNat = c.toNat := by
      rw [hb, UInt8.toNat_ofNat']
      omega
    simp only [Bool.and_eq_true, decide_eq_true_eq, UInt8.le_iff_toNat_le, UInt8.lt_iff_toNat_lt]
    exact ⟨hn ▸ hlo, hn ▸ hhi⟩
  simp [Uri.isValid, hne, hlen, hbytes]

theorem PlainConfig.identity (hc : PlainConfig config) (hf : FitsDevice config) :
    PrintableIdentity config.uuid (config.publicBaseUrl ++ "device.xml".toList)
      (some ssdpServer) where
  uuid_ne_nil := hc.uuid_ne_nil
  uuid_chars c hmem := by
    obtain ⟨hplain, hcolon⟩ := hc.uuid_chars c hmem
    refine ⟨hplain.1, hcolon, ?_⟩
    rintro rfl
    exact hplain.2 (by decide)
  uuid_le := hf.1
  location_valid := isValid_of_plain (by simp [hc.baseUrl_ne_nil]) hc.location_chars
    (hf.2.trans (by decide))
  location_trimmed := trimmed_of_plain hc.location_chars
  location_le := hf.2
  server_chars := by
    rintro s ⟨⟩
    exact ⟨by decide, by decide⟩
  server_le := by
    rintro s ⟨⟩
    decide

theorem PlainConfig.printable (hc : PlainConfig config) :
    ∀ nt ∈ ssdpTargets config.uuid, PrintableTarget (nt, ssdpMaxAge) := by
  have hsecs : WholeSecs ssdpMaxAge := ⟨1800, rfl⟩
  have huuid : PrintableTarget (.uuid config.uuid, ssdpMaxAge) := by
    refine ⟨TargetRef.parsed_iff.mp ⟨hc.uuid_ne_nil, fun c h => ?_⟩, fun c h => ?_, hsecs⟩
    · exact (hc.uuid_chars c (List.mem_of_getLast? h)).1.not_isWhitespace
    · exact (hc.uuid_chars c h).1.1
  have hliteral : ∀ nt : TargetRef, nt.Parsed → nt.FreeChars PrintableChar →
      PrintableTarget (nt, ssdpMaxAge) := fun nt hp hf => ⟨TargetRef.parsed_iff.mp hp, hf, hsecs⟩
  simp only [ssdpTargets, List.forall_mem_cons]
  exact ⟨hliteral _ (by decide) (by decide), huuid, hliteral _ (by decide) (by decide),
    hliteral _ (by decide) (by decide), hliteral _ (by decide) (by decide), by simp⟩

/-! Registration -/

/-- The device of a configuration before its targets are registered. -/
def newDevice (config : RuntimeConfig) (seed : UInt32) : Device :=
  Device.new config.uuid (config.publicBaseUrl ++ "device.xml".toList) (some ssdpServer)
    (max seed 1) 1 seed

theorem ssdpDevice_eq : ssdpDevice (.ofScanned config scanned) seed =
    (ssdpTargets config.uuid).foldl (fun d nt => (d.addTarget nt ssdpMaxAge).2)
      (newDevice config seed) := rfl

/-- The rule for what the registrations keep. -/
theorem ssdpDevice_rule {P : Device → Prop} (hnew : P (newDevice config seed))
    (hstep : ∀ d, P d → ∀ nt ∈ ssdpTargets config.uuid, P (d.addTarget nt ssdpMaxAge).2) :
    P (ssdpDevice (.ofScanned config scanned) seed) := by
  rw [ssdpDevice_eq]
  exact List.foldlRecOn _ _ hnew hstep

/-! Texts that fit -/

/-- An honest state whose registrations are printable. -/
def HonestDevice (config : RuntimeConfig) (seed : UInt32) (d : Device) : Prop :=
  ∃ log : List (TargetRef × Duration), (∀ x ∈ log, PrintableTarget x) ∧
    Device.Honest config.uuid (config.publicBaseUrl ++ "device.xml".toList) (some ssdpServer)
      (max seed 1) 1 (d, log)

theorem honest_ssdpDevice (hc : PlainConfig config) (hf : FitsDevice config) :
    HonestDevice config seed (ssdpDevice (.ofScanned config scanned) seed) := by
  refine ssdpDevice_rule ⟨[], by simp, Device.honest_new (hc.identity hf) seed⟩ ?_
  rintro d ⟨log, hlog, hh⟩ nt hnt
  refine ⟨_, fun x hx => ?_, hh.addTarget nt ssdpMaxAge⟩
  rcases List.mem_append.mp hx with hx | hx
  · exact hlog x hx
  · rw [DeviceOp.registered] at hx
    split at hx
    · rw [List.mem_singleton.mp hx]
      exact hc.printable nt hnt
    · cases hx

theorem registered_printable {op : DeviceOp} (hop : RegistersPrintable op) (d : Device) :
    ∀ x ∈ op.registered d, PrintableTarget x := by
  intro x hx
  cases op with
  | addTarget nt maxAge =>
      rw [DeviceOp.registered] at hx
      split at hx
      · rw [List.mem_singleton.mp hx]
        exact hop
      · cases hx
  | _ => cases hx

theorem honestDevice_step {httparse : List UInt8 → Nat → Outcome} (hp : SplitsBlock httparse)
    (hc : PlainConfig config) (hf : FitsDevice config) (op : DeviceOp) (d d' : Device)
    (hop : RegistersPrintable op) (h : HonestDevice config seed d)
    (hs : op.step httparse d = some d') : HonestDevice config seed d' := by
  obtain ⟨log, hlog, hh⟩ := h
  have hall : ∀ x ∈ log ++ op.registered d, PrintableTarget x := by
    intro x hx
    rcases List.mem_append.mp hx with hx | hx
    · exact hlog x hx
    · exact registered_printable hop d x hx
  have hstep : op.stepRegister httparse (d, log) = some (d', log ++ op.registered d) := by
    rw [DeviceOp.stepRegister, hs]
    rfl
  exact ⟨_, hall, Device.honest_step hp (hc.identity hf) op _ _ (fun _ => hh) hstep hall⟩

theorem describesDevice_of_truthful {uuid location : Str} {bootid configid : UInt32}
    {log : List (TargetRef × Duration)} {m : MessageRef}
    (h : m.Truthful uuid location bootid configid log) :
    DescribesDevice (some uuid) location m := by
  cases m with
  | search m => exact h
  | searchResponse r => exact ⟨congrArg some h.1.symm, h.2.2.2⟩
  | notify n =>
      obtain ⟨huuid, -, -, ⟨-, hlocation, -⟩ | ⟨hnts, -⟩⟩ := h
      · exact ⟨congrArg some huuid.symm, fun _ => hlocation⟩
      · exact ⟨congrArg some huuid.symm, fun h => absurd (hnts.symm.trans h) (by decide)⟩

theorem oneDevice_of_fits {httparse : List UInt8 → Nat → Outcome} (hp : SplitsBlock httparse)
    (hc : PlainConfig config) (hf : FitsDevice config) :
    OneDevice httparse (.ofScanned config scanned) seed := by
  intro ops d hops hr bufLen x d' hbuf hpoll
  obtain ⟨log, -, hh⟩ :=
    invariant_run_of (honestDevice_step hp hc hf) hops (honest_ssdpDevice hc hf) hr
  obtain ⟨m, hm, htrue⟩ := hh.transmit hp hbuf hpoll
  rw [hc.udn]
  exact ⟨m, hm, describesDevice_of_truthful htrue⟩

/-! Texts that do not fit -/

/-- What the registrations leave of a new device. -/
structure Announces (config : RuntimeConfig) (seed : UInt32) (d : Device) : Prop where
  ready : d.Ready
  queue : d.queue = []
  same : Device.SameIdentity (newDevice config seed) d
  stored : ∀ t ∈ d.targets.toList, ∃ nt ∈ ssdpTargets config.uuid,
    targetToString nt = some t.ntStr ∧ t.maxAge = ssdpMaxAge

theorem announces_ssdpDevice :
    Announces config seed (ssdpDevice (.ofScanned config scanned) seed) := by
  refine ssdpDevice_rule ⟨Device.ready_new .., rfl, .refl _, by rintro t ⟨⟩⟩ ?_
  intro d h nt hnt
  have hstep : (DeviceOp.addTarget nt ssdpMaxAge).step splitBlock d =
      some (d.addTarget nt ssdpMaxAge).2 := rfl
  have hready := Device.ready_step (.addTarget nt ssdpMaxAge) d _ trivial h.ready hstep
  obtain he | ⟨ntStr, targets, hs, -, ht, he⟩ := d.addTarget_cases nt ssdpMaxAge
  · rw [he]
    exact h
  · rw [he] at hready ⊢
    refine ⟨hready, h.queue, h.same.trans ⟨rfl, rfl, rfl, rfl, rfl⟩, fun t hmem => ?_⟩
    rw [ht] at hmem
    rcases List.mem_append.mp hmem with hmem | hmem
    · exact h.stored t hmem
    · rw [List.mem_singleton.mp hmem]
      exact ⟨nt, hnt, hs, rfl⟩

theorem targets_addTarget {d : Device} (h : d.targets.toList ≠ []) (nt : TargetRef)
    (maxAge : Duration) : (d.addTarget nt maxAge).2.targets.toList ≠ [] := by
  obtain he | ⟨ntStr, targets, -, -, ht, he⟩ := d.addTarget_cases nt maxAge
  · rw [he]
    exact h
  · rw [he, ht]
    simp

/-- The root target is accepted where there is room. -/
theorem targets_foldl {d : Device} (hroom : d.targets.toList.length < maxTargets)
    (hp : d.Packed) {nts rest : List TargetRef} (hnts : nts = .rootDevice :: rest) :
    (nts.foldl (fun d nt => (d.addTarget nt ssdpMaxAge).2) d).targets.toList ≠ [] := by
  have hroot : (d.addTarget .rootDevice ssdpMaxAge).2.targets.toList ≠ [] := by
    rw [ssdpMaxAge, (addTarget_rootDevice hroom hp).targets]
    simp
  rw [hnts, List.foldl_cons]
  exact List.foldlRecOn (motive := fun d : Device => d.targets.toList ≠ []) rest _ hroot
    fun d hne nt _ => targets_addTarget hne nt ssdpMaxAge

theorem targets_ssdpDevice :
    (ssdpDevice (.ofScanned config scanned) seed).targets.toList ≠ [] := by
  have hroom : (newDevice config seed).targets.toList.length < maxTargets := Nat.zero_lt_succ 7
  rw [ssdpDevice_eq]
  exact targets_foldl hroom (Device.packed_new ..) rfl

theorem Announces.longestGap {d : Device} (h : Announces config seed d) :
    d.longestGap ≤ Duration.max := by
  have hinterval : d.aliveInterval = ssdpMaxAge / 2 := by
    rw [Device.aliveInterval]
    congr 1
    cases hmin : (d.targets.toList.map AdvertEntry.maxAge).min? with
    | none => rfl
    | some age =>
        obtain ⟨t, ht, rfl⟩ := List.mem_map.mp (List.min?_mem hmin)
        obtain ⟨nt, -, -, hage⟩ := h.stored t ht
        exact hage
  rw [Device.longestGap, hinterval]
  decide

/-! What is sent without a uuid or a location -/

theorem fieldText_of_plain {s : Str} (h : ∀ c ∈ s, PlainChar c) : FieldText s :=
  fieldText_of_trimmed (fun c hc => (h c hc).1.valueChar) (trimmed_of_plain h)

theorem PlainConfig.plain_target (hc : PlainConfig config) :
    ∀ nt ∈ ssdpTargets config.uuid, ∀ c ∈ nt.text, PlainChar c := by
  have huuid : ∀ c ∈ (TargetRef.uuid config.uuid).text, PlainChar c := by
    intro c hmem
    rcases List.mem_append.mp hmem with hmem | hmem
    · exact (by decide : ∀ c ∈ "uuid:".toList, PlainChar c) c hmem
    · exact (hc.uuid_chars c hmem).1
  simp only [ssdpTargets, List.forall_mem_cons]
  exact ⟨by decide, huuid, by decide, by decide, by decide, by simp⟩

theorem plain_makeUsnRef {uuid : Str} {nt : TargetRef} (huuid : ∀ c ∈ uuid, PlainChar c)
    (hnt : ∀ c ∈ nt.text, PlainChar c) : ∀ c ∈ (makeUsnRef uuid nt).text, PlainChar c := by
  have hscheme : ∀ c ∈ "uuid:".toList, PlainChar c := by decide
  have hcolons : ∀ c ∈ "::".toList, PlainChar c := by decide
  cases nt with
  | all | uuid u => exact List.forall_mem_append.mpr ⟨hscheme, huuid⟩
  | rootDevice | deviceType d k v | serviceType d k v =>
      exact List.forall_mem_append.mpr ⟨hscheme, List.forall_mem_append.mpr
        ⟨huuid, List.forall_mem_append.mpr ⟨hcolons, hnt⟩⟩⟩

/-- A USN without a uuid is not read. -/
theorem parse_makeUsnRef_nil {nt : TargetRef} (hnt : ∀ c ∈ nt.text, PlainChar c) (u : UsnRef) :
    UsnRef.parse (makeUsnRef [] nt).text ≠ .ok u := by
  have htrim : Str.trim (makeUsnRef [] nt).text = (makeUsnRef [] nt).text :=
    Str.trim_of_trimmed (trimmed_of_plain (plain_makeUsnRef (by simp) hnt))
  rw [UsnRef.parse, htrim, UsnRef.parseTrimmed, UsnRef.text, Str.stripPrefix_append]
  cases nt with
  | all | uuid u => exact fun h => by cases h
  | rootDevice | deviceType d k v | serviceType d k v =>
      have hfind : ∀ s, Str.find "::".toList ([] ++ ("::".toList ++ s)) = some 0 := fun s => rfl
      simp only [makeUsnRef, UsnRef.tail, okOr_some, bind, Except.bind, hfind, List.take_zero,
        true_or, if_true]
      exact fun h => by cases h

theorem Announces.uuid {d : Device} (h : Announces config seed d) :
    d.uuid.toStr = if config.uuid.bytes.length ≤ maxUuidLen then config.uuid else [] := by
  rw [h.same.uuid]
  exact BoundedStr.toStr_tryFrom_getD config.uuid

theorem Announces.location {d : Device} (h : Announces config seed d) :
    d.location.toStr =
      if (config.publicBaseUrl ++ "device.xml".toList).bytes.length ≤ maxLocationLen then
        config.publicBaseUrl ++ "device.xml".toList
      else [] := by
  rw [h.same.location]
  exact BoundedStr.toStr_tryFrom_getD (config.publicBaseUrl ++ "device.xml".toList)

theorem Announces.server {d : Device} (h : Announces config seed d) :
    d.server.map BoundedStr.toStr = some ssdpServer := by
  rw [h.same.server]
  exact Device.server_new (by rintro s ⟨⟩; decide)

/-- The alive notifications of a configuration that does not fit are not read. -/
theorem parse_aliveNotify_of_not_fits {httparse : List UInt8 → Nat → Outcome}
    (hp : SplitsBlock httparse) (hc : PlainConfig config) (hf : ¬ FitsDevice config) {d : Device}
    (h : Announces config seed d) {t : AdvertEntry} (ht : t ∈ d.targets.toList) (m : MessageRef) :
    parseDatagram httparse (d.aliveNotify t).wire ≠ .ok m := by
  obtain ⟨nt, hmem, hstored, -⟩ := h.stored t ht
  have hparsed := (hc.printable nt hmem).wellFormed
  have hnt : parseTargetStr t.ntStr.toStr = nt := parseTargetStr_of_stored hparsed.1 hstored
  have hplain := hc.plain_target nt hmem
  have huuid : ∀ c ∈ d.uuid.toStr, PlainChar c := by
    rw [h.uuid]
    split
    · exact fun c hc' => (hc.uuid_chars c hc').1
    · simp
  have hlocation : ∀ c ∈ d.location.toStr, PlainChar c := by
    rw [h.location]
    split
    · exact hc.location_chars
    · simp
  have hw : ∀ x ∈ (d.aliveNotify t).headers, x.WellFormed := by
    refine NotifyRef.headers_wellFormed_of_texts Device.multicastHost_text ?_ ?_ ?_ ?_
    · dsimp only [Device.aliveNotify]
      rw [hnt]
      exact hparsed.fieldText
    · dsimp only [Device.aliveNotify]
      rw [hnt]
      exact fieldText_of_plain (plain_makeUsnRef huuid hplain)
    · rintro v ⟨⟩
      exact fieldText_of_plain hlocation
    · intro v hv
      rw [Device.aliveNotify, h.server] at hv
      obtain rfl := Option.some.inj hv
      exact fieldText_literal (by decide) (by decide)
  by_cases hfit : config.uuid.bytes.length ≤ maxUuidLen
  · have hempty : d.location.toStr = [] := by
      rw [h.location, if_neg fun hle => hf ⟨hfit, hle⟩]
    have hfield : field "LOCATION".toList d.location.toStr ∈ (d.aliveNotify t).headers := by
      simp [NotifyRef.headers, Device.aliveNotify]
    refine parseDatagram_notify_rejected hp hw (i := 4) ⟨_, rfl, by decide⟩ hfield ?_ m
    intro acc acc'
    rw [hempty]
    exact fun h => by cases h
  · have hempty : d.uuid.toStr = [] := by rw [h.uuid, if_neg hfit]
    have hfield : field "USN".toList (makeUsnRef d.uuid.toStr nt).text ∈
        (d.aliveNotify t).headers := by
      simp [NotifyRef.headers, Device.aliveNotify, hnt]
    refine parseDatagram_notify_rejected hp hw (i := 3) ⟨_, rfl, by decide⟩ hfield ?_ m
    intro acc acc' hacc
    rw [hempty] at hacc
    obtain ⟨u, hu, -⟩ := bind_eq_ok.mp hacc
    exact parse_makeUsnRef_nil hplain u hu

theorem not_oneDevice_of_not_fits {httparse : List UInt8 → Nat → Outcome}
    (hp : SplitsBlock httparse) (hc : PlainConfig config) (hf : ¬ FitsDevice config) :
    ¬ OneDevice httparse (.ofScanned config scanned) seed := by
  intro hone
  have h : Announces config seed (ssdpDevice (.ofScanned config scanned) seed) :=
    announces_ssdpDevice
  have hne : (ssdpDevice (.ofScanned config scanned) seed).targets.toList ≠ [] :=
    targets_ssdpDevice
  obtain ⟨t, ts, htargets⟩ := List.exists_cons_of_ne_nil hne
  obtain ⟨d', hrun, u, hu, dest, rest, hpoll⟩ :=
    Device.exists_alive_polled httparse h.ready h.queue htargets h.longestGap
  have hops : ∀ op ∈ [DeviceOp.start .zero, .handleTimeout .zero], RegistersPrintable op := by
    simp [RegistersPrintable]
  obtain ⟨m, hm, -⟩ := hone _ d' hops hrun 1024 _ rest le_rfl hpoll
  exact parse_aliveNotify_of_not_fits hp hc hf h hu m hm

end Config

/-- The datagrams and the description are about one device exactly when the
uuid and the location have room in the device. -/
theorem oneDevice_iff (httparse : List UInt8 → Nat → Outcome) (hp : SplitsBlock httparse)
    (config : RuntimeConfig) (hc : PlainConfig config) (scanned : ScannedMediaTree)
    (seed : UInt32) :
    OneDevice httparse (.ofScanned config scanned) seed ↔ FitsDevice config := by
  refine ⟨fun h => ?_, oneDevice_of_fits hp hc⟩
  by_contra hf
  exact not_oneDevice_of_not_fits hp hc hf h

theorem plainConfig_default : PlainConfig .default where
  uuid_ne_nil := by decide
  uuid_chars := by decide
  baseUrl_ne_nil := by decide
  baseUrl_chars := by decide

theorem oneDevice_default : OneDevice splitBlock (.ofScanned .default ⟨[], []⟩) 1 :=
  (oneDevice_iff splitBlock splitBlock_splitsBlock .default plainConfig_default ⟨[], []⟩ 1).mpr
    (by decide)

/-- The default configuration with a uuid that is one byte too long. -/
def longUuidConfig : RuntimeConfig :=
  { RuntimeConfig.default with uuid := List.replicate 65 'a' }

theorem not_oneDevice_longUuid : PlainConfig longUuidConfig ∧
    ¬ OneDevice splitBlock (.ofScanned longUuidConfig ⟨[], []⟩) 1 := by
  have hc : PlainConfig longUuidConfig := ⟨by decide, by decide, by decide, by decide⟩
  exact ⟨hc, not_oneDevice_of_not_fits splitBlock_splitsBlock hc (by decide)⟩

end RustyCastle.Server
