import RustyCastle.Ssdp.DeviceTruth

/-!
What a device advertises for a target it accepted. Acceptance looks at lengths
only, while every message re-parses the stored text; a target that no text
parses to is stored all the same and comes back as another one.
-/

namespace RustyCastle.Ssdp
open Foundation Foundation.HeaderBlock Foundation.Runs

theorem parsed_parseTargetStr (s : Str) : (parseTargetStr s).Parsed := by
  unfold parseTargetStr
  split
  · rename_i t h
    exact TargetRef.parsed_of_parse h
  · trivial

section Stored
variable {nt : TargetRef} {s : BoundedStr maxUrnLen}

theorem parse_stored_iff (h : targetToString nt = some s) :
    TargetRef.parse s.toStr = .ok nt ↔ nt.Parsed := by
  rw [toStr_of_targetToString h]
  exact ⟨TargetRef.parsed_of_parse, TargetRef.parse_text⟩

/-- The fallback is itself a target of the parser, so it hides no other target. -/
theorem parseTargetStr_stored_iff (h : targetToString nt = some s) :
    parseTargetStr s.toStr = nt ↔ nt.Parsed :=
  ⟨fun he => he ▸ parsed_parseTargetStr s.toStr, fun hp => parseTargetStr_of_stored hp h⟩

end Stored

namespace Device

/-- Registrations are appended and never removed. -/
theorem keys_prefix_step {httparse : List UInt8 → Nat → Outcome} (op : DeviceOp) (d d' : Device)
    (hp : d.Packed) (h : op.step httparse d = some d') : d.keys <+: d'.keys := by
  cases op with
  | addTarget nt maxAge =>
      cases h
      obtain he | ⟨ntStr, targets, -, -, hpush, he⟩ := d.addTarget_cases nt maxAge
      · rw [he]
      · rw [he]
        refine ⟨[(ntStr, maxAge)], ?_⟩
        simp only [keys, hpush, List.map_append, List.map_singleton, AdvertEntry.key]
  | start now =>
      cases h
      exact (advances_start (P := fun _ => True) hp now).keys ▸ List.prefix_rfl
  | shutdown now =>
      cases h
      exact (advances_shutdown (P := fun _ => True) hp now).keys ▸ List.prefix_rfl
  | handleDatagram | handleTimeout | pollTransmit | pollEvent | pollTimeout =>
      rw [keys_step hp (by trivial) h]

theorem keys_prefix_run {httparse : List UInt8 → Nat → Outcome} {ops : List DeviceOp}
    {d d' : Device} (hp : d.Packed) (hr : run (DeviceOp.step httparse) ops d = some d') :
    d.keys <+: d'.keys := by
  have hstep : ∀ op a a', a.Packed ∧ d.keys <+: a.keys → DeviceOp.step httparse op a = some a' →
      a'.Packed ∧ d.keys <+: a'.keys := fun op a a' ha h =>
    ⟨packed_step op a a' ha.1 h, ha.2.trans (keys_prefix_step op a a' ha.1 h)⟩
  exact (invariant_run hstep ⟨hp, List.prefix_rfl⟩ hr).2

theorem keys_addTarget {d d' : Device} {nt : TargetRef} {maxAge : Duration}
    (h : d.addTarget nt maxAge = (true, d')) :
    ∃ ntStr, targetToString nt = some ntStr ∧ d'.keys = d.keys ++ [(ntStr, maxAge)] := by
  obtain he | ⟨ntStr, targets, hs, -, hpush, he⟩ := d.addTarget_cases nt maxAge
  · cases he.symm.trans h
  · obtain rfl := (Prod.mk.inj (he.symm.trans h)).2
    refine ⟨ntStr, hs, ?_⟩
    simp only [keys, hpush, List.map_append, List.map_singleton, AdvertEntry.key]

/-- The entry of a registration, at its place in the list of targets. -/
theorem exists_entry_of_keys {d : Device} {i : Nat} {ntStr : BoundedStr maxUrnLen}
    {maxAge : Duration} (h : d.keys[i]? = some (ntStr, maxAge)) :
    ∃ t, d.targets.toList[i]? = some t ∧ t.ntStr = ntStr ∧ t.maxAge = maxAge := by
  rw [keys, List.getElem?_map, Option.map_eq_some_iff] at h
  obtain ⟨t, ht, hkey⟩ := h
  exact ⟨t, ht, congrArg Prod.fst hkey, congrArg Prod.snd hkey⟩

end Device

/-- In every state that follows an accepted registration the entry is where it
was put, and its text and its NOTIFY messages name the accepted target exactly
when that target is one the parser returns. -/
theorem accepted_advertised_iff (httparse : List UInt8 → Nat → Outcome) (uuid location : Str)
    (server : Option Str) (bootid configid seed : UInt32) (before ops : List DeviceOp)
    (d d₁ d₂ : Device) (nt : TargetRef) (maxAge : Duration)
    (hr : run (DeviceOp.step httparse) before
      (Device.new uuid location server bootid configid seed) = some d)
    (h : d.addTarget nt maxAge = (true, d₁))
    (hr' : run (DeviceOp.step httparse) ops d₁ = some d₂) :
    ∃ t, d₂.targets.toList[d.targets.toList.length]? = some t ∧ t.maxAge = maxAge ∧
      (TargetRef.parse t.ntStr.toStr = .ok nt ↔ nt.Parsed) ∧
      ((d₂.aliveNotify t).nt = nt ↔ nt.Parsed) ∧
      ((d₂.byebyeNotify t).nt = nt ↔ nt.Parsed) := by
  have hp := invariant_run Device.packed_step (Device.packed_new ..) hr
  have hstep : (DeviceOp.addTarget nt maxAge).step httparse d = some d₁ := by
    rw [DeviceOp.step, h]
  have hp₁ := Device.packed_step _ d d₁ hp hstep
  obtain ⟨ntStr, hs, hkeys⟩ := Device.keys_addTarget h
  obtain ⟨rest, hrest⟩ := Device.keys_prefix_run hp₁ hr'
  have hkey : d₂.keys[d.targets.toList.length]? = some (ntStr, maxAge) := by
    rw [← hrest, hkeys]
    simp [Device.keys]
  obtain ⟨t, ht, rfl, rfl⟩ := Device.exists_entry_of_keys hkey
  have hiff := parseTargetStr_stored_iff hs
  exact ⟨t, ht, rfl, parse_stored_iff hs, hiff, hiff⟩

theorem accepted_advertised_iff_sample : ∃ d₁,
    fullDevice.addTarget .rootDevice (Duration.fromSecs 1800) = (true, d₁) ∧
      ∃ t, d₁.targets.toList[0]? = some t ∧ (d₁.aliveNotify t).nt = .rootDevice := by
  obtain he | ⟨ntStr, targets, -, -, -, he⟩ :=
    fullDevice.addTarget_cases .rootDevice (Duration.fromSecs 1800)
  · cases congrArg Prod.fst he
  · obtain ⟨t, ht, -, -, halive, -⟩ := accepted_advertised_iff splitBlock fullUuid fullLocation
      (some fullServer) 1 1 1 [] [] fullDevice _ _ .rootDevice (Duration.fromSecs 1800) rfl he rfl
    exact ⟨_, he, t, ht, halive.mpr trivial⟩

/-- An empty identifier is registered, and everything is advertised in its place. -/
theorem empty_uuid_advertises_all : ∃ d₁ t,
    fullDevice.addTarget (.uuid []) (Duration.fromSecs 1800) = (true, d₁) ∧
      d₁.targets.toList = [t] ∧ TargetRef.parse t.ntStr.toStr = .error .invalidTarget ∧
      (d₁.aliveNotify t).nt = .all ∧ (d₁.byebyeNotify t).nt = .all := by
  refine ⟨_, ⟨⟨"uuid:".toList, by decide⟩, Duration.fromSecs 1800, 3⟩, rfl, rfl, ?_, ?_, ?_⟩
  all_goals decide

end RustyCastle.Ssdp
