import RustyCastle.Ssdp.HeaderValues
import RustyCastle.Ssdp.Usn

/-!
The grammar of header values. Every value parser accepts exactly the texts of
its grammar; white space around a value is not part of it.
-/

namespace RustyCastle.Ssdp
open Foundation Foundation.Decimal

/-! Numbers -/

/-- A numeral of a number up to a bound, such as that of a machine word. -/
def NumberText (low high : Nat) (v : Str) : Prop := ∃ n, IsNumeral v n ∧ low ≤ n ∧ n < high

theorem parseUnsigned_ok_iff {bits : Nat} {v : Str} :
    (∃ n, parseUnsigned bits v = some n) ↔ NumberText 0 (2 ^ bits) v := by
  simp only [parseUnsigned_eq_some_iff, NumberText, Nat.zero_le, true_and]

theorem parseU32Str_ok_iff {v : Str} : (∃ n, parseU32Str v = some n) ↔ NumberText 0 (2 ^ 32) v := by
  rw [← parseUnsigned_ok_iff]
  simp only [parseU32Str, Option.map_eq_some_iff, exists_comm (α := UInt32), exists_and_left,
    exists_eq', and_true]

theorem parseU16Str_ok_iff {v : Str} : (∃ n, parseU16Str v = some n) ↔ NumberText 0 (2 ^ 16) v := by
  rw [← parseUnsigned_ok_iff]
  simp only [parseU16Str, Option.map_eq_some_iff, exists_comm (α := UInt16), exists_and_left,
    exists_eq', and_true]

theorem parseU32_ok_iff (headerName : String) {v : Str} :
    (∃ n, parseU32 headerName v = .ok n) ↔ NumberText 0 (2 ^ 32) v.trim := by
  simp only [parseU32, okOr_eq_ok, parseU32Str_ok_iff]

theorem Mx.parse_ok_iff {v : Str} : (∃ n, parse v = .ok n) ↔ NumberText 1 6 v.trim := by
  simp only [parse, bind_eq_ok, okOr_eq_ok, parseU8Str, Option.map_eq_some_iff,
    parseUnsigned_eq_some_iff]
  constructor
  · rintro ⟨m, _, ⟨n, ⟨hn, hlt⟩, rfl⟩, h⟩
    split at h
    · rename_i hrange
      have hnat : (UInt8.ofNat n).toNat = n := Nat.mod_eq_of_lt hlt
      rw [UInt8.le_iff_toNat_le, UInt8.le_iff_toNat_le, hnat] at hrange
      exact ⟨n, hn, hrange.1, Nat.lt_succ_of_le hrange.2⟩
    · cases h
  · rintro ⟨n, hn, hlow, hhigh⟩
    have hlt : n < 2 ^ 8 := by omega
    have hnat : (UInt8.ofNat n).toNat = n := Nat.mod_eq_of_lt hlt
    refine ⟨UInt8.ofNat n, UInt8.ofNat n, ⟨n, ⟨hn, hlt⟩, rfl⟩, if_pos ?_⟩
    rw [UInt8.le_iff_toNat_le, UInt8.le_iff_toNat_le, hnat]
    exact ⟨hlow, Nat.le_of_lt_succ hhigh⟩

theorem parseSearchport_ok_iff {v : Str} :
    (∃ p, parseSearchport v = .ok p) ↔ NumberText 1 (2 ^ 16) v.trim := by
  simp only [parseSearchport, bind_eq_ok, okOr_eq_ok, parseU16Str, Option.map_eq_some_iff,
    parseUnsigned_eq_some_iff]
  constructor
  · rintro ⟨m, _, ⟨n, ⟨hn, hlt⟩, rfl⟩, h⟩
    split at h
    · cases h
    · rename_i hne
      refine ⟨n, hn, Nat.pos_of_ne_zero ?_, hlt⟩
      rintro rfl
      exact hne rfl
  · rintro ⟨n, hn, hlow, hlt⟩
    refine ⟨UInt16.ofNat n, UInt16.ofNat n, ⟨n, ⟨hn, hlt⟩, rfl⟩, if_neg fun he => ?_⟩
    have hnat : (UInt16.ofNat n).toNat = n := Nat.mod_eq_of_lt hlt
    rw [he] at hnat
    exact absurd hlow (by rw [← hnat]; decide)

/-! Targets and names -/

/-- A URN of a device or service type, behind its scheme. -/
def UrnText (v : Str) : Prop :=
  ∃ d cls k ver, v = d ++ ':' :: (cls ++ ':' :: (k ++ ':' :: ver)) ∧ (d ≠ [] ∧ ':' ∉ d) ∧
    (cls = "device".toList ∨ cls = "service".toList) ∧ (k ≠ [] ∧ ':' ∉ k) ∧
    NumberText 0 (2 ^ 32) ver

theorem parseUrn_ok_iff {v : Str} : (∃ t, parseUrn v = .ok t) ↔ UrnText v := by
  constructor
  · rintro ⟨t, h⟩
    obtain ⟨d, cls, k, ver, n, hv, hd, hk, hver, hcls⟩ := parseUrn_eq_ok h
    exact ⟨d, cls, k, ver, hv, hd, hcls.imp And.left And.left, hk, parseU32Str_ok_iff.mp ⟨n, hver⟩⟩
  · rintro ⟨d, cls, k, ver, rfl, hd, hcls, hk, hver⟩
    obtain ⟨n, hn⟩ := parseU32Str_ok_iff.mpr hver
    have hcolon : ':' ∉ cls := by
      rcases hcls with rfl | rfl
      · decide
      · decide
    have hparts : Str.splitn 4 ':' (d ++ ':' :: (cls ++ ':' :: (k ++ ':' :: ver))) =
        [d, cls, k, ver] := by
      rw [Str.splitn_cut hd.2, Str.splitn_cut hcolon, Str.splitn_cut hk.2]
      rfl
    have hfilter : ∀ s : Str, s ≠ [] → (some s).filter (fun s => decide (s ≠ [])) = some s := by
      intro s hs
      simp [hs]
    simp only [parseUrn, hparts, List.getElem?_cons_zero, List.getElem?_cons_succ, hfilter d hd.1,
      hfilter k hk.1, hn, okOr_some, bind, Except.bind]
    rcases hcls with rfl | rfl
    · exact ⟨_, if_pos rfl⟩
    · exact ⟨_, (if_neg (by decide)).trans (if_pos rfl)⟩

/-- A search target or notification type. -/
def TargetText (v : Str) : Prop :=
  v.eqIgnoreAsciiCase "ssdp:all".toList = true ∨
    v.eqIgnoreAsciiCase "upnp:rootdevice".toList = true ∨
    (∃ u, v = "uuid:".toList ++ u ∧ u ≠ []) ∨ ∃ urn, v = "urn:".toList ++ urn ∧ UrnText urn

theorem parseTrimmed_ok_iff {v : Str} : (∃ t, parseTrimmed v = .ok t) ↔ TargetText v := by
  constructor
  · rintro ⟨t, h⟩
    unfold parseTrimmed at h
    split at h
    · exact .inl ‹_›
    split at h
    · exact .inr (.inl ‹_›)
    split at h
    · rename_i u hu
      split at h
      · cases h
      · rename_i hne
        exact .inr (.inr (.inl ⟨u, Str.stripPrefix_eq_some.mp hu, hne⟩))
    · split at h
      · rename_i rest hrest
        exact .inr (.inr (.inr ⟨rest, Str.stripPrefix_eq_some.mp hrest, parseUrn_ok_iff.mp ⟨t, h⟩⟩))
      · cases h
  · rintro (hall | hroot | ⟨u, rfl, hne⟩ | ⟨urn, rfl, hurn⟩)
    · exact ⟨_, if_pos hall⟩
    · by_cases hall : v.eqIgnoreAsciiCase "ssdp:all".toList = true
      · exact ⟨_, if_pos hall⟩
      · exact ⟨_, parseTrimmed_rootDevice (Bool.eq_false_iff.mpr hall) hroot⟩
    · exact ⟨_, parseTrimmed_uuid hne⟩
    · rw [parseTrimmed_urn]
      exact parseUrn_ok_iff.mpr hurn

theorem TargetRef.parse_ok_iff {v : Str} : (∃ t, TargetRef.parse v = .ok t) ↔ TargetText v.trim :=
  parseTrimmed_ok_iff

theorem TargetText.ne_nil {v : Str} (h : TargetText v) : v ≠ [] := by
  rintro rfl
  obtain h | h | ⟨u, h, -⟩ | ⟨urn, h, -⟩ := h
  · exact absurd h (by decide)
  · exact absurd h (by decide)
  · cases h
  · cases h

/-- A unique service name: an identifier, alone or cut off at the first "::"
from a target. -/
def UsnText (v : Str) : Prop :=
  ∃ name, v = "uuid:".toList ++ name ∧
    (Str.find "::".toList name = none ∧ name ≠ [] ∨
      ∃ uuid target, Str.cut "::".toList name = some (uuid, target) ∧ uuid ≠ [] ∧
        TargetText target.trim)

theorem UsnRef.parseTrimmed_alone {name : Str} (hfind : Str.find "::".toList name = none)
    (hne : name ≠ []) : parseTrimmed ("uuid:".toList ++ name) = .ok ⟨name, none⟩ := by
  rw [parseTrimmed, Str.stripPrefix_append]
  simp only [okOr_some, bind, Except.bind, hfind, if_neg hne]

theorem UsnRef.parseTrimmed_cut {name uuid target : Str} {t : TargetRef}
    (hcut : Str.cut "::".toList name = some (uuid, target)) (huuid : uuid ≠ []) (htarget : target ≠ [])
    (ht : TargetRef.parse target = .ok t) :
    parseTrimmed ("uuid:".toList ++ name) = .ok ⟨uuid, some t⟩ := by
  obtain ⟨sep, hfind, he⟩ := Option.map_eq_some_iff.mp hcut
  obtain ⟨rfl, rfl⟩ := Prod.mk.inj he
  have hdrop : "::".toList.length = 2 := by decide
  rw [hdrop] at htarget ht
  rw [parseTrimmed, Str.stripPrefix_append]
  simp only [okOr_some, bind, Except.bind, hfind, if_neg (not_or.mpr ⟨huuid, htarget⟩), ht]

theorem UsnRef.parse_ok_iff {v : Str} : (∃ u, UsnRef.parse v = .ok u) ↔ UsnText v.trim := by
  constructor
  · rintro ⟨u, h⟩
    obtain ⟨name, hname, hne, ⟨hfind, rfl⟩ | ⟨rest, t, hrest, hfind, ht, -⟩⟩ := parseTrimmed_eq_ok h
    · exact ⟨name, hname, .inl ⟨hfind, hne⟩⟩
    · have hcut : Str.cut "::".toList (u.deviceUuid ++ "::".toList ++ rest) =
          some (u.deviceUuid, rest) := Str.cut_append rest hfind
      rw [← hrest] at hcut
      exact ⟨name, hname, .inr ⟨_, _, hcut, hne, TargetRef.parse_ok_iff.mp ⟨t, ht⟩⟩⟩
  · rintro ⟨name, hname, ⟨hfind, hne⟩ | ⟨uuid, target, hcut, huuid, htarget⟩⟩
    · exact ⟨_, (congrArg parseTrimmed hname).trans (parseTrimmed_alone hfind hne)⟩
    · obtain ⟨t, ht⟩ := TargetRef.parse_ok_iff.mpr htarget
      have hne : target ≠ [] := fun he => by
        rw [he] at htarget
        exact htarget.ne_nil rfl
      exact ⟨_, (congrArg parseTrimmed hname).trans (parseTrimmed_cut hcut huuid hne ht)⟩

/-! The other values -/

def ntsTexts : List Str :=
  ["ssdp:alive".toList, "ssdp:byebye".toList, "ssdp:update".toList]

theorem Nts.parse_ok_iff {v : Str} :
    (∃ n, Nts.parse v = .ok n) ↔ ∃ text ∈ ntsTexts, v.trim.eqIgnoreAsciiCase text = true := by
  simp only [Nts.parse, ntsTexts, List.mem_cons, List.not_mem_nil, or_false, exists_eq_or_imp,
    exists_eq_left]
  constructor
  · rintro ⟨n, h⟩
    split at h
    · exact .inl ‹_›
    split at h
    · exact .inr (.inl ‹_›)
    split at h
    · exact .inr (.inr ‹_›)
    · cases h
  · intro h
    by_cases halive : v.trim.eqIgnoreAsciiCase "ssdp:alive".toList = true
    · exact ⟨_, if_pos halive⟩
    by_cases hbyebye : v.trim.eqIgnoreAsciiCase "ssdp:byebye".toList = true
    · exact ⟨_, (if_neg halive).trans (if_pos hbyebye)⟩
    · have hupdate := (h.resolve_left halive).resolve_left hbyebye
      exact ⟨_, ((if_neg halive).trans (if_neg hbyebye)).trans (if_pos hupdate)⟩

theorem Man.validate_ok_iff {v : Str} : (∃ u, Man.validate v = .ok u) ↔ v.trim = manDiscover := by
  unfold Man.validate
  by_cases h : v.trim = manDiscover
  · simp [h]
  · simp [h]

/-- A URI: printable ASCII, not empty and not too long. -/
def UriText (v : Str) : Prop :=
  v ≠ [] ∧ v.bytes.length ≤ maxUriLen ∧ ∀ b ∈ v.bytes, 0x20 ≤ b ∧ b < 0x7F

theorem Uri.isValid_iff {v : Str} : Uri.isValid v = true ↔ UriText v := by
  simp only [Uri.isValid, UriText, Bool.and_eq_true, decide_eq_true_eq, List.all_eq_true, and_assoc]

/-- A `max-age` directive, with the text behind its equals sign. -/
def MaxAgeDirective (part age : Str) : Prop :=
  ∃ blanks, part = "max-age".toList ++ (blanks ++ '=' :: age) ∧ ∀ c ∈ blanks, isAsciiWhitespace c

theorem maxAgeDirective_iff {part age : Str} : MaxAgeDirective part age ↔
    ∃ rest, Str.stripPrefix "max-age".toList part = some rest ∧
      Str.stripPrefix "=".toList (rest.dropWhile isAsciiWhitespace) = some age := by
  constructor
  · rintro ⟨blanks, rfl, hblank⟩
    refine ⟨_, Str.stripPrefix_append _ _, ?_⟩
    rw [List.dropWhile_append_of_pos hblank]
    exact Str.stripPrefix_append "=".toList age
  · rintro ⟨rest, hrest, hage⟩
    refine ⟨rest.takeWhile isAsciiWhitespace, ?_, fun c hc => List.mem_takeWhile_imp hc⟩
    have hdrop : rest.dropWhile isAsciiWhitespace = '=' :: age := Str.stripPrefix_eq_some.mp hage
    rw [← hdrop, List.takeWhile_append_dropWhile]
    exact Str.stripPrefix_eq_some.mp hrest

/-- A list of directives, the first `max-age` of which is in seconds. -/
def DirectivesText (parts : List Str) : Prop :=
  ∃ before part after age, parts = before ++ part :: after ∧
    (∀ p ∈ before, ∀ a, ¬ MaxAgeDirective (Str.trim p) a) ∧
    MaxAgeDirective (Str.trim part) age ∧ NumberText 0 (2 ^ 32) (Str.trim age)

def MaxAgeText (v : Str) : Prop := DirectivesText (v.splitOnP (· == ','))

theorem maxAgeOfParts_cons {part age : Str} (h : MaxAgeDirective (Str.trim part) age)
    (parts : List Str) : maxAgeOfParts (part :: parts) =
      (okOr (parseU32Str (Str.trim age)) .invalidCacheControl).map
        fun n => Duration.fromSecs n.toNat := by
  obtain ⟨rest, hrest, hage⟩ := maxAgeDirective_iff.mp h
  rw [maxAgeOfParts, hrest]
  simp only [hage]

theorem maxAgeOfParts_skip {part : Str} (h : ∀ age, ¬ MaxAgeDirective (Str.trim part) age)
    (parts : List Str) : maxAgeOfParts (part :: parts) = maxAgeOfParts parts := by
  rw [maxAgeOfParts]
  cases hrest : Str.stripPrefix "max-age".toList (Str.trim part) with
  | none => rfl
  | some rest =>
      cases hage : Str.stripPrefix "=".toList (rest.dropWhile isAsciiWhitespace) with
      | none => simp only [hage]
      | some age => exact absurd (maxAgeDirective_iff.mpr ⟨rest, hrest, hage⟩) (h age)

theorem maxAgeOfParts_ok_iff {parts : List Str} :
    (∃ d, maxAgeOfParts parts = .ok d) ↔ DirectivesText parts := by
  induction parts with
  | nil =>
      refine iff_of_false (fun ⟨d, h⟩ => by cases h) ?_
      rintro ⟨before, part, after, age, h, -⟩
      simp at h
  | cons part parts ih =>
      by_cases hpart : ∃ age, MaxAgeDirective (Str.trim part) age
      · obtain ⟨age, hage⟩ := hpart
        have hread : (∃ d, maxAgeOfParts (part :: parts) = .ok d) ↔
            NumberText 0 (2 ^ 32) (Str.trim age) := by
          rw [maxAgeOfParts_cons hage, ← parseU32Str_ok_iff]
          cases hn : parseU32Str (Str.trim age) with
          | none => exact iff_of_false (fun ⟨d, h⟩ => by cases h) (fun ⟨n, h⟩ => by cases h)
          | some n => exact iff_of_true ⟨_, rfl⟩ ⟨n, rfl⟩
        rw [hread]
        refine ⟨fun h => ⟨[], part, parts, age, rfl, fun p hp => (by cases hp), hage, h⟩, ?_⟩
        rintro ⟨before, part', after, age', hsplit, hbefore, hage', h⟩
        cases before with
        | nil =>
            obtain ⟨rfl, -⟩ := List.cons.inj hsplit
            obtain ⟨rest, hrest, hcut⟩ := maxAgeDirective_iff.mp hage
            obtain ⟨rest', hrest', hcut'⟩ := maxAgeDirective_iff.mp hage'
            obtain rfl := Option.some.inj (hrest.symm.trans hrest')
            obtain rfl := Option.some.inj (hcut.symm.trans hcut')
            exact h
        | cons p before =>
            obtain ⟨rfl, -⟩ := List.cons.inj hsplit
            exact absurd hage (hbefore part (List.mem_cons_self ..) age)
      · have hno := not_exists.mp hpart
        rw [maxAgeOfParts_skip hno, ih]
        constructor
        · rintro ⟨before, part', after, age, rfl, hbefore, h⟩
          exact ⟨part :: before, part', after, age, rfl,
            List.forall_mem_cons.mpr ⟨hno, hbefore⟩, h⟩
        · rintro ⟨before, part', after, age, hsplit, hbefore, hage, h⟩
          cases before with
          | nil =>
              obtain ⟨rfl, -⟩ := List.cons.inj hsplit
              exact absurd hage (hno age)
          | cons p before =>
              obtain ⟨rfl, rfl⟩ := List.cons.inj hsplit
              exact ⟨before, part', after, age, rfl, (List.forall_mem_cons.mp hbefore).2, hage, h⟩

theorem parseMaxAge_ok_iff {v : Str} : (∃ d, parseMaxAge v = .ok d) ↔ MaxAgeText v :=
  maxAgeOfParts_ok_iff

end RustyCastle.Ssdp
