import RustyCastle.Foundation.XmlText

/-!
The markup of XML 1.0 as a list of tokens: tags with their attributes, runs of
character data, CDATA sections, comments and processing instructions. Document
type declarations are not read.
-/

namespace Foundation.Xml

inductive Token where
  | start (name : Str) (attrs : List (Str × Str))
  | finish (name : Str)
  | text (value : Str)
  | cdata (value : Str)
  | comment (value : Str)
  | instruction (value : Str)
  deriving DecidableEq, Repr

/-- Reads white space, a name, an equals sign and a quoted value. -/
def readAttribute (s : Str) : Option ((Str × Str) × Str) := do
  let t := s.dropWhile isSpace
  let name := t.takeWhile isNameChar
  if t.length = s.length ∨ ¬ isName name then none
  else match (t.dropWhile isNameChar).dropWhile isSpace with
    | '=' :: u =>
        match u.dropWhile isSpace with
        | quote :: v =>
            if quote = '"' ∨ quote = '\'' then do
              let (raw, rest) ← Str.cut [quote] v
              let value ← attributeValue raw
              some ((name, value), rest)
            else none
        | [] => none
    | _ => none

theorem length_dropWhile_le (p : Char → Bool) (s : Str) : (s.dropWhile p).length ≤ s.length :=
  (List.dropWhile_suffix p).length_le

theorem length_of_readAttribute {s rest : Str} {a : Str × Str} (h : readAttribute s = some (a, rest)) :
    rest.length < s.length := by
  simp only [readAttribute] at h
  split at h
  · cases h
  · split at h
    · rename_i u hu
      split at h
      · rename_i quote v hv
        split at h
        · obtain ⟨⟨raw, rest'⟩, hcut, h⟩ := Option.bind_eq_some_iff.mp h
          obtain ⟨value, -, h⟩ := Option.bind_eq_some_iff.mp h
          cases h
          have h₁ := Str.length_of_cut (List.cons_ne_nil quote []) hcut
          dsimp only at h₁ ⊢
          have h₂ := hv ▸ length_dropWhile_le isSpace u
          have h₃ := hu ▸ length_dropWhile_le isSpace _
          have h₄ := length_dropWhile_le isNameChar (s.dropWhile isSpace)
          have h₅ := length_dropWhile_le isSpace s
          simp only [List.length_cons] at h₂ h₃
          omega
        · cases h
      · cases h
    · cases h

/-- The attributes of a tag up to its end, and whether the tag is empty. -/
def readAttributes (s : Str) : Option (List (Str × Str) × Bool × Str) :=
  match s.dropWhile isSpace with
  | '>' :: rest => some ([], false, rest)
  | '/' :: '>' :: rest => some ([], true, rest)
  | _ =>
      match _h : readAttribute s with
      | none => none
      | some (a, rest) => (readAttributes rest).map fun r => (a :: r.1, r.2)
  termination_by s.length
  decreasing_by exact length_of_readAttribute ‹_›

/-- A start tag or an empty-element tag, after its `<`. -/
def readStartTag (s : Str) : Option (List Token × Str) := do
  let name := s.takeWhile isNameChar
  if isName name then do
    let (attrs, empty, rest) ← readAttributes (s.dropWhile isNameChar)
    if (attrs.map Prod.fst).Nodup then
      some (.start name attrs :: (if empty then [.finish name] else []), rest)
    else none
  else none

/-- An end tag, after its `</`. -/
def readEndTag (s : Str) : Option (List Token × Str) := do
  let (tag, rest) ← Str.cut [('>' : Char)] s
  let name := tag.rdropWhile isSpace
  if isName name then some ([.finish name], rest) else none

/-- What follows a `<`. -/
def readMarkup (s : Str) : Option (List Token × Str) :=
  match s with
  | '/' :: s => readEndTag s
  | '!' :: '-' :: '-' :: s => do
      let (value, rest) ← Str.cut "--".toList s
      match rest with
      | '>' :: rest => some ([.comment value], rest)
      | _ => none
  | '!' :: s => do
      let body ← Str.stripPrefix "[CDATA[".toList s
      let (value, rest) ← Str.cut "]]>".toList body
      some ([.cdata value], rest)
  | '?' :: s => do
      let (value, rest) ← Str.cut "?>".toList s
      let target := value.takeWhile (! isSpace ·)
      if isName target ∧ ¬ Str.eqIgnoreAsciiCase target "xml".toList then
        some ([.instruction value], rest)
      else none
  | s => readStartTag s

theorem length_of_readAttributes {s rest : Str} {as : List (Str × Str)} {empty : Bool}
    (h : readAttributes s = some (as, empty, rest)) : rest.length < s.length := by
  fun_induction readAttributes s generalizing as with
  | case1 s rest' hs =>
      cases h
      have := hs ▸ length_dropWhile_le isSpace s
      simp only [List.length_cons] at this
      omega
  | case2 s rest' hs =>
      cases h
      have := hs ▸ length_dropWhile_le isSpace s
      simp only [List.length_cons] at this
      omega
  | case3 s h₁ h₂ hs => cases h
  | case4 s a rest' hs _ _ ih =>
      obtain ⟨⟨as', e, r⟩, hr, he⟩ := Option.map_eq_some_iff.mp h
      cases he
      exact (ih hr).trans (length_of_readAttribute hs)

theorem length_of_readEndTag {s rest : Str} {ts : List Token}
    (h : readEndTag s = some (ts, rest)) : rest.length ≤ s.length := by
  obtain ⟨⟨tag, rest'⟩, hcut, h⟩ := Option.bind_eq_some_iff.mp h
  dsimp only at h
  split at h
  · cases h
    exact (Str.length_of_cut (List.cons_ne_nil _ []) hcut).le
  · cases h

theorem length_of_readStartTag {s rest : Str} {ts : List Token}
    (h : readStartTag s = some (ts, rest)) : rest.length ≤ s.length := by
  simp only [readStartTag] at h
  split at h
  · obtain ⟨⟨as, empty, rest'⟩, hr, h⟩ := Option.bind_eq_some_iff.mp h
    dsimp only at h
    split at h
    · cases h
      exact (length_of_readAttributes hr).le.trans (length_dropWhile_le isNameChar s)
    · cases h
  · cases h

theorem length_of_readMarkup {s rest : Str} {ts : List Token}
    (h : readMarkup s = some (ts, rest)) : rest.length ≤ s.length := by
  simp only [readMarkup] at h
  split at h
  · exact (length_of_readEndTag h).trans (Nat.le_succ _)
  · obtain ⟨⟨value, rest'⟩, hcut, h⟩ := Option.bind_eq_some_iff.mp h
    have hlen := Str.length_of_cut (by decide) hcut
    dsimp only at h hlen
    split at h
    · cases h
      simp only [List.length_cons] at hlen ⊢
      omega
    · cases h
  · obtain ⟨body, hbody, h⟩ := Option.bind_eq_some_iff.mp h
    obtain ⟨⟨value, rest'⟩, hcut, h⟩ := Option.bind_eq_some_iff.mp h
    cases h
    have hlen := Str.length_of_cut (by decide) hcut
    dsimp only at hlen ⊢
    rw [Str.stripPrefix_eq_some.mp hbody, List.length_cons, List.length_append]
    omega
  · obtain ⟨⟨value, rest'⟩, hcut, h⟩ := Option.bind_eq_some_iff.mp h
    have hlen := Str.length_of_cut (by decide) hcut
    dsimp only at h hlen
    split at h
    · cases h
      exact hlen.le.trans (Nat.le_succ _)
    · cases h
  · exact length_of_readStartTag h

/-- The tokens of a text. -/
def tokens (s : Str) : Option (List Token) :=
  match s with
  | [] => some []
  | '<' :: s =>
      match _h : readMarkup s with
      | none => none
      | some (ts, rest) => (tokens rest).map (ts ++ ·)
  | c :: s =>
      (textValue (c :: s.takeWhile (· != '<'))).bind fun t =>
        (tokens (s.dropWhile (· != '<'))).map (.text t :: ·)
  termination_by s.length
  decreasing_by
    · exact Nat.lt_succ_of_le (length_of_readMarkup ‹_›)
    · exact Nat.lt_succ_of_le (length_dropWhile_le _ s)

/-! What the reader does with written markup -/

@[simp] theorem tokens_nil : tokens [] = some [] := by rw [tokens]

theorem tokens_markup {s rest : Str} {ts : List Token} (h : readMarkup s = some (ts, rest)) :
    tokens ('<' :: s) = (tokens rest).map (ts ++ ·) := by
  rw [tokens]
  split
  · rename_i hn
    rw [h] at hn
    cases hn
  · rename_i ts' rest' hs
    rw [h] at hs
    cases hs
    rfl

theorem tokens_markup_eq_some {s : Str} {us : List Token} (h : tokens ('<' :: s) = some us) :
    ∃ ts rest vs, readMarkup s = some (ts, rest) ∧ tokens rest = some vs ∧ us = ts ++ vs := by
  rw [tokens] at h
  split at h
  · cases h
  · rename_i ts rest hs
    obtain ⟨vs, hvs, rfl⟩ := Option.map_eq_some_iff.mp h
    exact ⟨ts, rest, vs, hs, hvs, rfl⟩

/-- A run of character data before markup. -/
theorem tokens_text {raw : Str} (rest : Str) (hne : raw ≠ []) (hlt : '<' ∉ raw) :
    tokens (raw ++ '<' :: rest) =
      (textValue raw).bind fun t => (tokens ('<' :: rest)).map (.text t :: ·) := by
  cases raw with
  | nil => exact absurd rfl hne
  | cons c raw =>
      rw [List.mem_cons, not_or] at hlt
      have hall : ∀ d ∈ raw, (d != '<') = true := by
        rintro d hd
        rw [bne_iff_ne]
        rintro rfl
        exact hlt.2 hd
      have hc : c ≠ '<' := Ne.symm hlt.1
      have hcut : tokens (c :: (raw ++ '<' :: rest)) =
          (textValue (c :: (raw ++ '<' :: rest).takeWhile (· != '<'))).bind fun t =>
            (tokens ((raw ++ '<' :: rest).dropWhile (· != '<'))).map (.text t :: ·) := by
        rw [tokens.eq_def]
        split <;> simp_all
      rw [List.cons_append, hcut, List.takeWhile_append_of_pos hall,
        List.dropWhile_append_of_pos hall]
      simp

end Foundation.Xml
