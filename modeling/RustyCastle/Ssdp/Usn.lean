import RustyCastle.Ssdp.Target

/-!
Unique service names. The parser cuts at the first "::", so a name in its image
has no earlier cut: not inside the uuid, and not across the boundary to the
embedded target.
-/

namespace RustyCastle.Ssdp
open Foundation

structure UsnRef where
  deviceUuid : Str
  embedded : Option TargetRef
  deriving DecidableEq, Repr

namespace UsnRef

def parseTrimmed (v : Str) : Except ParseError UsnRef := do
  let afterUuid ← okOr (Str.stripPrefix "uuid:".toList v) .invalidUsn
  match Str.find "::".toList afterUuid with
  | none => if afterUuid = [] then .error .invalidUsn else .ok ⟨afterUuid, none⟩
  | some sep =>
      let uuid := afterUuid.take sep
      let rest := afterUuid.drop (sep + 2)
      if uuid = [] ∨ rest = [] then .error .invalidUsn
      else do
        let embedded ← TargetRef.parse rest
        .ok ⟨uuid, some embedded⟩

def parse (value : Str) : Except ParseError UsnRef := parseTrimmed value.trim

/-- The part of the canonical text behind the scheme. -/
def tail (u : UsnRef) : Str :=
  match u.embedded with
  | none => u.deviceUuid
  | some t => u.deviceUuid ++ ("::".toList ++ t.text)

/-- The canonical text of a unique service name. -/
def text (u : UsnRef) : Str := "uuid:".toList ++ u.tail

/-- The names a parser can return. -/
def Parsed (u : UsnRef) : Prop :=
  u.deviceUuid ≠ [] ∧
    match u.embedded with
    | none => Str.find "::".toList u.deviceUuid = none ∧
        ∀ c ∈ u.deviceUuid.getLast?, Str.isWhitespace c = false
    | some t => Str.find "::".toList (u.deviceUuid ++ ":".toList) = none ∧ t.Parsed

/-- `p` holds of the characters of the free strings of a name. -/
def FreeChars (p : Char → Prop) (u : UsnRef) : Prop :=
  (∀ c ∈ u.deviceUuid, p c) ∧ ∀ t ∈ u.embedded, t.FreeChars p

theorem parseTrimmed_eq_ok {v : Str} {u : UsnRef} (h : parseTrimmed v = .ok u) :
    ∃ after, v = "uuid:".toList ++ after ∧ u.deviceUuid ≠ [] ∧
      (Str.find "::".toList after = none ∧ u = ⟨after, none⟩ ∨
        ∃ rest t, after = u.deviceUuid ++ "::".toList ++ rest ∧
          Str.find "::".toList (u.deviceUuid ++ ":".toList) = none ∧
          TargetRef.parse rest = .ok t ∧ u = ⟨u.deviceUuid, some t⟩) := by
  obtain ⟨after, hafter, h⟩ := bind_eq_ok.mp h
  refine ⟨after, Str.stripPrefix_eq_some.mp (okOr_eq_ok.mp hafter), ?_⟩
  split at h
  · rename_i hfind
    split at h
    · cases h
    · rename_i hne
      cases h
      exact ⟨hne, .inl ⟨hfind, rfl⟩⟩
  · rename_i sep hfind
    obtain ⟨hsplit, hbefore⟩ := Str.find_split (by decide) hfind
    dsimp only at h
    split at h
    · cases h
    · rename_i hne
      obtain ⟨t, ht, h⟩ := bind_eq_ok.mp h
      cases h
      exact ⟨(not_or.mp hne).1, .inr ⟨_, t, hsplit, hbefore, ht, rfl⟩⟩

theorem parsed_of_parse {s : Str} {u : UsnRef} (h : parse s = .ok u) : u.Parsed := by
  obtain ⟨after, hv, hne, ⟨hfind, rfl⟩ | ⟨rest, t, -, hfind, ht, hu⟩⟩ := parseTrimmed_eq_ok h
  · refine ⟨hne, hfind, fun c hc => (Str.trimmed_trim s).2 c ?_⟩
    rw [hv, getLast?_append_of_ne_nil hne]
    exact hc
  · rw [hu]
    exact ⟨hne, hfind, TargetRef.parsed_of_parse ht⟩

theorem freeChars_of_parse {p : Char → Prop} {s : Str} {u : UsnRef} (h : parse s = .ok u)
    (hp : ∀ c ∈ s, p c) : u.FreeChars p := by
  have htrim : ∀ c ∈ s.trim, p c := fun c hc => hp c (Str.mem_of_mem_trim hc)
  obtain ⟨after, hv, -, hcases⟩ := parseTrimmed_eq_ok h
  have hafter : ∀ c ∈ after, p c := by
    intro c hc
    apply htrim
    rw [hv]
    exact List.mem_append_right _ hc
  obtain ⟨-, rfl⟩ | ⟨rest, t, hsplit, -, ht, hu⟩ := hcases
  · exact ⟨hafter, by simp⟩
  · rw [hu]
    refine ⟨fun c hc => hafter c (by simp [hsplit, hc]), ?_⟩
    simp only [Option.mem_def, Option.some.injEq, forall_eq']
    exact TargetRef.freeChars_of_parse ht fun c hc => hafter c (by simp [hsplit, hc])

theorem tail_ne_nil {u : UsnRef} (h : u.Parsed) : u.tail ≠ [] := by
  obtain ⟨d, _ | t⟩ := u
  · exact h.1
  · simp [tail]

theorem text_trimmed {u : UsnRef} (h : u.Parsed) : Str.Trimmed u.text := by
  refine prefix_trimmed (by decide) (by decide) (tail_ne_nil h) ?_
  obtain ⟨d, _ | t⟩ := u
  · exact h.2.2
  · intro c hc
    have hne := TargetRef.text_ne_nil t
    have hsplit : tail ⟨d, some t⟩ = (d ++ "::".toList) ++ t.text := by simp [tail]
    rw [hsplit, getLast?_append_of_ne_nil hne] at hc
    exact (TargetRef.text_trimmed h.2.2).2 c hc

theorem parse_text {u : UsnRef} (h : u.Parsed) : parse u.text = .ok u := by
  rw [parse, Str.trim_of_trimmed (text_trimmed h), parseTrimmed, text, Str.stripPrefix_append]
  obtain ⟨d, _ | t⟩ := u
  · obtain ⟨hne, hfind, -⟩ := h
    simp only [okOr_some, bind, Except.bind, tail, hfind, if_neg hne]
  · obtain ⟨hne, hfind, ht⟩ := h
    have hcut : Str.find "::".toList (tail ⟨d, some t⟩) = some d.length := by
      have hsplit : tail ⟨d, some t⟩ = d ++ "::".toList ++ t.text := by simp [tail]
      rw [hsplit]
      exact Str.find_boundary t.text hfind
    have htake : (tail ⟨d, some t⟩).take d.length = d := by simp [tail]
    have hdrop : (tail ⟨d, some t⟩).drop (d.length + 2) = t.text := by simp [tail]
    have hcond : ¬ (d = [] ∨ t.text = []) := not_or.mpr ⟨hne, TargetRef.text_ne_nil t⟩
    simp only [okOr_some, bind, Except.bind, hcut, htake, hdrop, if_neg hcond,
      TargetRef.parse_text ht]

/-- `Parsed` is the image of the parser. -/
theorem parsed_iff {u : UsnRef} : u.Parsed ↔ ∃ s, parse s = .ok u :=
  ⟨fun h => ⟨u.text, parse_text h⟩, fun ⟨_, h⟩ => parsed_of_parse h⟩

end UsnRef
end RustyCastle.Ssdp
