import RustyCastle.Foundation.Splitting
import RustyCastle.Foundation.Decimal
import RustyCastle.Ssdp.Basic

/-!
Search targets and notification types. `TargetRef.Parsed` describes the image of
the parser without mentioning it, and the canonical text of a target in that
image parses back to it.
-/

namespace RustyCastle.Ssdp
open Foundation Foundation.Decimal

inductive TargetRef where
  | all
  | rootDevice
  | uuid (uuid : Str)
  | deviceType (domain kind : Str) (version : UInt32)
  | serviceType (domain kind : Str) (version : UInt32)
  deriving DecidableEq, Repr

/-- `str::parse::<u32>`. -/
def parseU32Str (s : Str) : Option UInt32 := (parseUnsigned 32 s).map UInt32.ofNat

def parseUrn (rest : Str) : Except ParseError TargetRef := do
  let parts := Str.splitn 4 ':' rest
  let domain ← okOr (parts[0]?.filter (· ≠ [])) .invalidTarget
  let kindStr ← okOr parts[1]? .invalidTarget
  let typeName ← okOr (parts[2]?.filter (· ≠ [])) .invalidTarget
  let verStr ← okOr parts[3]? .invalidTarget
  let version ← okOr (parseU32Str verStr) .invalidTarget
  if kindStr = "device".toList then .ok (.deviceType domain typeName version)
  else if kindStr = "service".toList then .ok (.serviceType domain typeName version)
  else .error .invalidTarget

/-- The parser of a target whose surrounding white space is already gone. -/
def parseTrimmed (v : Str) : Except ParseError TargetRef :=
  if v.eqIgnoreAsciiCase "ssdp:all".toList then .ok .all
  else if v.eqIgnoreAsciiCase "upnp:rootdevice".toList then .ok .rootDevice
  else match Str.stripPrefix "uuid:".toList v with
    | some u => if u = [] then .error .invalidTarget else .ok (.uuid u)
    | none => match Str.stripPrefix "urn:".toList v with
      | some rest => parseUrn rest
      | none => .error .invalidTarget

def TargetRef.parse (value : Str) : Except ParseError TargetRef := parseTrimmed value.trim

namespace TargetRef

/-- The part of a URN after its scheme. -/
def urnRest (d cls k : Str) (v : UInt32) : Str :=
  d ++ ':' :: (cls ++ ':' :: (k ++ ':' :: numeral v.toNat))

/-- The canonical text of a target. -/
def text : TargetRef → Str
  | .all => "ssdp:all".toList
  | .rootDevice => "upnp:rootdevice".toList
  | .uuid u => "uuid:".toList ++ u
  | .deviceType d k v => "urn:".toList ++ urnRest d "device".toList k v
  | .serviceType d k v => "urn:".toList ++ urnRest d "service".toList k v

@[simp] theorem text_all : text .all = "ssdp:all".toList := rfl

@[simp] theorem text_rootDevice : text .rootDevice = "upnp:rootdevice".toList := rfl

@[simp] theorem text_uuid (u : Str) : text (.uuid u) = "uuid:".toList ++ u := rfl

@[simp] theorem text_deviceType (d k : Str) (v : UInt32) :
    text (.deviceType d k v) = "urn:".toList ++ urnRest d "device".toList k v := rfl

@[simp] theorem text_serviceType (d k : Str) (v : UInt32) :
    text (.serviceType d k v) = "urn:".toList ++ urnRest d "service".toList k v := rfl

/-- The targets a parser can return. -/
def Parsed : TargetRef → Prop
  | .all | .rootDevice => True
  | .uuid u => u ≠ [] ∧ ∀ c ∈ u.getLast?, Str.isWhitespace c = false
  | .deviceType d k _ | .serviceType d k _ => (d ≠ [] ∧ ':' ∉ d) ∧ k ≠ [] ∧ ':' ∉ k

instance : DecidablePred Parsed := fun t => by
  cases t <;> unfold Parsed <;> infer_instance

/-- `p` holds of the characters of the free strings of a target. -/
def FreeChars (p : Char → Prop) : TargetRef → Prop
  | .all | .rootDevice => True
  | .uuid u => ∀ c ∈ u, p c
  | .deviceType d k _ | .serviceType d k _ => (∀ c ∈ d, p c) ∧ ∀ c ∈ k, p c

instance (p : Char → Prop) [DecidablePred p] : DecidablePred (FreeChars p) := fun t => by
  cases t <;> unfold FreeChars <;> infer_instance

end TargetRef

theorem parseU32Str_numeral (v : UInt32) : parseU32Str (numeral v.toNat) = some v := by
  simp [parseU32Str, parseUnsigned_numeral v.toNat_lt]

theorem splitn_urnRest {d cls k : Str} (v : UInt32) (hd : ':' ∉ d) (hcls : ':' ∉ cls)
    (hk : ':' ∉ k) : Str.splitn 4 ':' (TargetRef.urnRest d cls k v) =
      [d, cls, k, numeral v.toNat] := by
  rw [TargetRef.urnRest, Str.splitn_cut hd, Str.splitn_cut hcls, Str.splitn_cut hk]
  rfl

theorem parseUrn_urnRest {d cls k : Str} (v : UInt32) (hd : d ≠ [] ∧ ':' ∉ d)
    (hcls : ':' ∉ cls) (hk : k ≠ [] ∧ ':' ∉ k) :
    parseUrn (TargetRef.urnRest d cls k v) =
      if cls = "device".toList then .ok (.deviceType d k v)
      else if cls = "service".toList then .ok (.serviceType d k v)
      else .error .invalidTarget := by
  have hfilter : ∀ s : Str, s ≠ [] → (some s).filter (fun s => decide (s ≠ [])) = some s := by
    intro s hs
    simp [hs]
  simp only [parseUrn, splitn_urnRest v hd.2 hcls hk.2, List.getElem?_cons_zero,
    List.getElem?_cons_succ, hfilter d hd.1, hfilter k hk.1, parseU32Str_numeral, okOr_some,
    bind, Except.bind]

theorem parseUrn_eq_ok {rest : Str} {t : TargetRef} (h : parseUrn rest = .ok t) :
    ∃ d kind k ver v, rest = d ++ ':' :: (kind ++ ':' :: (k ++ ':' :: ver)) ∧
      (d ≠ [] ∧ ':' ∉ d) ∧ (k ≠ [] ∧ ':' ∉ k) ∧ parseU32Str ver = some v ∧
      (kind = "device".toList ∧ t = .deviceType d k v ∨
        kind = "service".toList ∧ t = .serviceType d k v) := by
  simp only [parseUrn, bind_eq_ok, okOr_eq_ok] at h
  obtain ⟨d, hd, kind, hkind, k, hk, ver, hver, v, hv, h⟩ := h
  obtain ⟨hd0, hdne⟩ := Option.filter_eq_some_iff.mp hd
  obtain ⟨hk0, hkne⟩ := Option.filter_eq_some_iff.mp hk
  obtain ⟨-, hs⟩ | ⟨a, r₁, rfl, ha, hs⟩ := Str.splitn_cases 2 ':' rest
  · simp [hs] at hkind
  obtain ⟨-, hs₁⟩ | ⟨b, r₂, rfl, -, hs₁⟩ := Str.splitn_cases 1 ':' r₁
  · simp [hs, hs₁] at hk0
  obtain ⟨-, hs₂⟩ | ⟨c, r₃, rfl, hc, hs₂⟩ := Str.splitn_cases 0 ':' r₂
  · simp [hs, hs₁, hs₂] at hver
  have hparts : Str.splitn 4 ':' (a ++ ':' :: (b ++ ':' :: (c ++ ':' :: r₃))) = [a, b, c, r₃] := by
    rw [hs, hs₁, hs₂]
    rfl
  rw [hparts] at hd0 hkind hk0 hver
  obtain rfl : a = d := by simpa using hd0
  obtain rfl : b = kind := by simpa using hkind
  obtain rfl : c = k := by simpa using hk0
  obtain rfl : r₃ = ver := by simpa using hver
  refine ⟨a, b, c, r₃, v, rfl, ⟨by simpa using hdne, ha⟩, ⟨by simpa using hkne, hc⟩, hv, ?_⟩
  split at h
  · exact .inl ⟨‹_›, (Except.ok.inj h).symm⟩
  · split at h
    · exact .inr ⟨‹_›, (Except.ok.inj h).symm⟩
    · cases h

theorem parseTrimmed_eq_ok {v : Str} {t : TargetRef} (h : parseTrimmed v = .ok t) :
    t = .all ∨ t = .rootDevice ∨ (∃ u, v = "uuid:".toList ++ u ∧ u ≠ [] ∧ t = .uuid u) ∨
      ∃ rest, v = "urn:".toList ++ rest ∧ parseUrn rest = .ok t := by
  unfold parseTrimmed at h
  split at h
  · exact .inl (Except.ok.inj h).symm
  split at h
  · exact .inr (.inl (Except.ok.inj h).symm)
  split at h
  · rename_i u hu
    split at h
    · cases h
    · rename_i hne
      exact .inr (.inr (.inl ⟨u, Str.stripPrefix_eq_some.mp hu, hne, (Except.ok.inj h).symm⟩))
  · split at h
    · rename_i rest hrest
      exact .inr (.inr (.inr ⟨rest, Str.stripPrefix_eq_some.mp hrest, h⟩))
    · cases h

theorem TargetRef.parsed_of_parse {s : Str} {t : TargetRef} (h : parse s = .ok t) :
    t.Parsed := by
  obtain rfl | rfl | ⟨u, hu, hne, rfl⟩ | ⟨rest, -, hrest⟩ := parseTrimmed_eq_ok h
  · trivial
  · trivial
  · refine ⟨hne, fun c hc => (Str.trimmed_trim s).2 c ?_⟩
    rw [hu, List.getLast?_append, hc]
    rfl
  · obtain ⟨d, kind, k, ver, v, -, hd, hk, -, ⟨-, rfl⟩ | ⟨-, rfl⟩⟩ := parseUrn_eq_ok hrest
    · exact ⟨hd, hk⟩
    · exact ⟨hd, hk⟩

theorem TargetRef.FreeChars.imp {p q : Char → Prop} {t : TargetRef} (h : t.FreeChars p)
    (hpq : ∀ c, p c → q c) : t.FreeChars q := by
  cases t with
  | all | rootDevice => trivial
  | uuid u => exact fun c hc => hpq c (h c hc)
  | deviceType d k v | serviceType d k v =>
      exact ⟨fun c hc => hpq c (h.1 c hc), fun c hc => hpq c (h.2 c hc)⟩

theorem TargetRef.freeChars_of_parse {p : Char → Prop} {s : Str} {t : TargetRef}
    (h : parse s = .ok t) (hp : ∀ c ∈ s, p c) : t.FreeChars p := by
  have htrim : ∀ c ∈ s.trim, p c := fun c hc => hp c (Str.mem_of_mem_trim hc)
  obtain rfl | rfl | ⟨u, hu, -, rfl⟩ | ⟨rest, hr, hrest⟩ := parseTrimmed_eq_ok h
  · trivial
  · trivial
  · intro c hc
    apply htrim
    rw [hu]
    exact List.mem_append_right _ hc
  · have hmem : ∀ c ∈ rest, p c := by
      intro c hc
      apply htrim
      rw [hr]
      exact List.mem_append_right _ hc
    obtain ⟨d, kind, k, ver, v, rfl, -, -, -, ⟨-, rfl⟩ | ⟨-, rfl⟩⟩ := parseUrn_eq_ok hrest
    all_goals exact ⟨fun c hc => hmem c (by simp [hc]), fun c hc => hmem c (by simp [hc])⟩

theorem getLast?_append_of_ne_nil {a b : Str} (h : b ≠ []) :
    (a ++ b).getLast? = b.getLast? := by
  obtain ⟨e, he⟩ := Option.isSome_iff_exists.mp (List.getLast?_isSome.mpr h)
  rw [List.getLast?_append, he]
  rfl

theorem urnRest_last (d cls k : Str) (v : UInt32) :
    ∀ c ∈ (TargetRef.urnRest d cls k v).getLast?, Str.isWhitespace c = false := by
  intro c hc
  have hsplit : TargetRef.urnRest d cls k v =
      (d ++ ':' :: (cls ++ ':' :: (k ++ [':']))) ++ numeral v.toNat := by
    simp [TargetRef.urnRest]
  rw [hsplit, getLast?_append_of_ne_nil Nat.toDigits_ne_nil] at hc
  exact isDigit_not_whitespace (numeral_isDigit (List.mem_of_getLast? hc))

theorem urnRest_ne_nil (d cls k : Str) (v : UInt32) : TargetRef.urnRest d cls k v ≠ [] := by
  simp [TargetRef.urnRest]

theorem prefix_trimmed {p s : Str} (hp : ∀ c ∈ p.head?, Str.isWhitespace c = false)
    (hne : p ≠ []) (hs : s ≠ []) (hl : ∀ c ∈ s.getLast?, Str.isWhitespace c = false) :
    Str.Trimmed (p ++ s) := by
  obtain ⟨a, p, rfl⟩ := List.exists_cons_of_ne_nil hne
  refine ⟨hp, ?_⟩
  rw [getLast?_append_of_ne_nil hs]
  exact hl

/-- Canonical texts carry no white space at their ends. -/
theorem TargetRef.text_trimmed {t : TargetRef} (h : t.Parsed) : Str.Trimmed t.text := by
  cases t with
  | all => exact (by decide : Str.Trimmed "ssdp:all".toList)
  | rootDevice => exact (by decide : Str.Trimmed "upnp:rootdevice".toList)
  | uuid u => exact prefix_trimmed (by decide) (by decide) h.1 h.2
  | deviceType d k v =>
      exact prefix_trimmed (by decide) (by decide) (urnRest_ne_nil _ _ _ _) (urnRest_last _ _ _ _)
  | serviceType d k v =>
      exact prefix_trimmed (by decide) (by decide) (urnRest_ne_nil _ _ _ _) (urnRest_last _ _ _ _)

theorem TargetRef.text_ne_nil (t : TargetRef) : t.text ≠ [] := by
  cases t <;> simp

theorem parseTrimmed_uuid {u : Str} (h : u ≠ []) :
    parseTrimmed ("uuid:".toList ++ u) = .ok (.uuid u) := by
  have hall : Str.eqIgnoreAsciiCase ("uuid:".toList ++ u) "ssdp:all".toList = false := by
    simp [Str.eqIgnoreAsciiCase]
  have hroot : Str.eqIgnoreAsciiCase ("uuid:".toList ++ u) "upnp:rootdevice".toList = false := by
    simp [Str.eqIgnoreAsciiCase]
  simp only [parseTrimmed, hall, hroot, Str.stripPrefix_append, h, if_false, Bool.false_eq_true]

theorem parseTrimmed_urn (rest : Str) :
    parseTrimmed ("urn:".toList ++ rest) = parseUrn rest := by
  have hall : Str.eqIgnoreAsciiCase ("urn:".toList ++ rest) "ssdp:all".toList = false := by
    simp [Str.eqIgnoreAsciiCase]
  have hroot : Str.eqIgnoreAsciiCase ("urn:".toList ++ rest) "upnp:rootdevice".toList = false := by
    simp [Str.eqIgnoreAsciiCase]
  have huuid : Str.stripPrefix "uuid:".toList ("urn:".toList ++ rest) = none := by
    simp [Str.stripPrefix, List.isPrefixOf?]
  simp only [parseTrimmed, hall, hroot, huuid, Str.stripPrefix_append, if_false,
    Bool.false_eq_true]

theorem parseTrimmed_rootDevice {v : Str} (hall : v.eqIgnoreAsciiCase "ssdp:all".toList = false)
    (hroot : v.eqIgnoreAsciiCase "upnp:rootdevice".toList = true) :
    parseTrimmed v = .ok .rootDevice := by
  simp only [parseTrimmed, hall, hroot, if_true, if_false, Bool.false_eq_true]

theorem TargetRef.parse_text {t : TargetRef} (h : t.Parsed) : parse t.text = .ok t := by
  rw [parse, Str.trim_of_trimmed (text_trimmed h)]
  cases t with
  | all => exact if_pos (Str.eqIgnoreAsciiCase_self _)
  | rootDevice => exact parseTrimmed_rootDevice (by decide) (Str.eqIgnoreAsciiCase_self _)
  | uuid u => exact parseTrimmed_uuid h.1
  | deviceType d k v =>
      rw [text_deviceType, parseTrimmed_urn, parseUrn_urnRest v h.1 (by decide) h.2, if_pos rfl]
  | serviceType d k v =>
      rw [text_serviceType, parseTrimmed_urn, parseUrn_urnRest v h.1 (by decide) h.2, if_neg (by decide),
        if_pos rfl]

/-- `Parsed` is the image of the parser. -/
theorem TargetRef.parsed_iff {t : TargetRef} : t.Parsed ↔ ∃ s, parse s = .ok t :=
  ⟨fun h => ⟨t.text, parse_text h⟩, fun ⟨_, h⟩ => parsed_of_parse h⟩

end RustyCastle.Ssdp
