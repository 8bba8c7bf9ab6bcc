import RustyCastle.Foundation.XmlTree

/-!
The XML writing helpers. A writer appends to a string and never fails there, so
it is modelled by the text it appends.
-/

namespace RustyCastle.Upnp
open Foundation Foundation.Xml

def escapeChar : Char → Str
  | '&' => "&amp;".toList
  | '<' => "&lt;".toList
  | '>' => "&gt;".toList
  | '"' => "&quot;".toList
  | '\'' => "&apos;".toList
  | c => [c]

/-- Writes escaped XML character data. -/
def writeEscapedText (value : Str) : Str := value.flatMap escapeChar

/-- Writes `<name>escaped value</name>`. -/
def writeTextElement (name value : Str) : Str :=
  "<".toList ++ name ++ ">".toList ++ writeEscapedText value ++ "</".toList ++ name ++ ">".toList

/-- Writes a value as its display implementation gives it. -/
def writeDisplayElement (name value : Str) : Str :=
  "<".toList ++ name ++ ">".toList ++ value ++ "</".toList ++ name ++ ">".toList

/-! Escaped text -/

@[simp] theorem writeEscapedText_nil : writeEscapedText [] = [] := rfl

@[simp] theorem writeEscapedText_cons (c : Char) (s : Str) :
    writeEscapedText (c :: s) = escapeChar c ++ writeEscapedText s := rfl

@[simp] theorem writeEscapedText_append (s t : Str) :
    writeEscapedText (s ++ t) = writeEscapedText s ++ writeEscapedText t :=
  List.flatMap_append

/-- A character is written as a reference to it, or stands for itself. -/
theorem escapeChar_cases (c : Char) :
    (∃ name, escapeChar c = '&' :: (name ++ [';']) ∧ ';' ∉ name ∧ reference name = some c ∧
      (∀ d ∈ name, d.isAlpha = true)) ∨
      escapeChar c = [c] ∧ c ≠ '&' ∧ c ≠ '<' ∧ c ≠ '>' ∧ c ≠ '"' ∧ c ≠ '\'' := by
  unfold escapeChar
  split
  · exact .inl ⟨"amp".toList, rfl, by decide, by decide, by decide⟩
  · exact .inl ⟨"lt".toList, rfl, by decide, by decide, by decide⟩
  · exact .inl ⟨"gt".toList, rfl, by decide, by decide, by decide⟩
  · exact .inl ⟨"quot".toList, rfl, by decide, by decide, by decide⟩
  · exact .inl ⟨"apos".toList, rfl, by decide, by decide, by decide⟩
  · exact .inr ⟨rfl, ‹_›, ‹_›, ‹_›, ‹_›, ‹_›⟩

theorem expand_writeEscapedText (s : Str) : expand id none (writeEscapedText s) = some s := by
  induction s with
  | nil => rfl
  | cons c s ih =>
      rw [writeEscapedText_cons]
      obtain ⟨name, he, hname, href, -⟩ | ⟨he, hamp, -⟩ := escapeChar_cases c
      · rw [he, List.cons_append, List.append_assoc, List.singleton_append,
          expand_reference id hname href, ih]
        rfl
      · rw [he, List.singleton_append, expand_cons id hamp, ih]
        rfl

theorem writeEscapedText_injective {s t : Str} (h : writeEscapedText s = writeEscapedText t) :
    s = t := by
  have := expand_writeEscapedText s
  rw [h, expand_writeEscapedText] at this
  exact (Option.some.inj this).symm

theorem notMem_writeEscapedText {d : Char} (hd : d = '<' ∨ d = '>' ∨ d = '"' ∨ d = '\'') (s : Str) :
    d ∉ writeEscapedText s := by
  intro hm
  obtain ⟨c, -, hc⟩ := List.mem_flatMap.mp hm
  obtain ⟨name, he, -, -, halpha⟩ | ⟨he, -, hlt, hgt, hq, ha⟩ := escapeChar_cases c
  · rw [he, List.mem_cons, List.mem_append, List.mem_singleton] at hc
    rcases hc with rfl | hc | rfl
    · revert hd
      decide
    · have := halpha d hc
      rcases hd with rfl | rfl | rfl | rfl <;> revert this <;> decide
    · revert hd
      decide
  · rw [he, List.mem_singleton] at hc
    subst hc
    rcases hd with h | h | h | h <;> contradiction

theorem escapeChar_ne_nil (c : Char) : escapeChar c ≠ [] := by
  obtain ⟨name, he, -⟩ | ⟨he, -⟩ := escapeChar_cases c <;> rw [he] <;> exact List.cons_ne_nil _ _

theorem writeEscapedText_eq_nil {s : Str} : writeEscapedText s = [] ↔ s = [] := by
  cases s with
  | nil => simp
  | cons c s => simp [escapeChar_ne_nil]

theorem cr_notMem_escapeChar {c : Char} (h : c ≠ '\r') : '\r' ∉ escapeChar c := by
  unfold escapeChar
  split
  · decide
  · decide
  · decide
  · decide
  · decide
  · simpa using Ne.symm h

theorem head_writeEscapedText {d : Char} {s : Str} (hd : d ≠ '&') (h : ∀ c ∈ s.head?, c ≠ d) :
    ∀ c ∈ (writeEscapedText s).head?, c ≠ d := by
  cases s with
  | nil => nofun
  | cons e s =>
      intro c hc
      rw [writeEscapedText_cons] at hc
      obtain ⟨name, he, -⟩ | ⟨he, -⟩ := escapeChar_cases e
      · rw [he] at hc
        obtain rfl := Option.some.inj hc
        exact Ne.symm hd
      · rw [he] at hc
        obtain rfl := Option.some.inj hc
        exact h _ rfl

theorem lineEnds_writeEscapedText (s : Str) :
    lineEnds (writeEscapedText s) = writeEscapedText (lineEnds s) := by
  fun_induction lineEnds s with
  | case1 => rfl
  | case2 s ih =>
      have hcut : lineEnds (writeEscapedText ('\r' :: '\n' :: s)) =
          '\n' :: lineEnds (writeEscapedText s) := rfl
      rw [hcut, ih]
      rfl
  | case3 c s hnot ih =>
      rw [writeEscapedText_cons, writeEscapedText_cons, ← ih]
      by_cases hc : c = '\r'
      · subst hc
        have hhead : ∀ d ∈ s.head?, d ≠ '\n' := by
          rintro d hd rfl
          obtain ⟨t, rfl⟩ := List.head?_eq_some_iff.mp hd
          exact hnot t rfl rfl
        rw [if_pos rfl]
        exact lineEnds_cr (head_writeEscapedText (by decide) hhead)
      · rw [if_neg hc, lineEnds_append_left (cr_notMem_escapeChar hc)]

theorem textValue_writeEscapedText (s : Str) :
    textValue (writeEscapedText s) = some (lineEnds s) := by
  have hfind : Str.find "]]>".toList (writeEscapedText s) = none :=
    Str.find_eq_none_of_mem (c := '>') (by decide) (notMem_writeEscapedText (by decide) s)
  rw [textValue, if_pos hfind, lineEnds_writeEscapedText, expand_writeEscapedText]

/-- Escaped text before markup is read as the text with its line ends. -/
theorem tokens_writeEscapedText (s rest : Str) :
    tokens (writeEscapedText s ++ '<' :: rest) =
      (tokens ('<' :: rest)).map (textTokens (lineEnds s) ++ ·) := by
  by_cases hs : s = []
  · subst hs
    simp
  · have hne : lineEnds s ≠ [] := fun h => hs (lineEnds_eq_nil.mp h)
    rw [tokens_text rest (fun h => hs (writeEscapedText_eq_nil.mp h))
      (notMem_writeEscapedText (by decide) s), textValue_writeEscapedText, textTokens, if_neg hne]
    rfl

/-- Escaped text is read back exactly when it has no carriage return. -/
theorem tokens_writeEscapedText_eq_some {s rest : Str} {us : List Token} :
    tokens (writeEscapedText s ++ '<' :: rest) = some (textTokens s ++ us) ↔
      '\r' ∉ s ∧ tokens ('<' :: rest) = some us := by
  rw [tokens_writeEscapedText, Option.map_eq_some_iff]
  constructor
  · rintro ⟨vs, hvs, he⟩
    obtain ⟨hself, rfl⟩ := textTokens_append_inj lineEnds_eq_nil he
    exact ⟨lineEnds_eq_self.mp hself, hvs⟩
  · rintro ⟨hcr, hrest⟩
    exact ⟨us, hrest, by rw [lineEnds_of_notMem hcr]⟩

theorem writeDisplayElement_eq (name value : Str) :
    writeDisplayElement name value = openTag name [] ++ (value ++ closeTag name) := by
  have hlt : "<".toList = ['<'] := by decide
  have hgt : ">".toList = ['>'] := by decide
  have hclose : "</".toList = ['<', '/'] := by decide
  unfold writeDisplayElement
  simp only [openTag, closeTag, writeAttributes, List.flatMap_nil, hlt, hgt, hclose,
    List.append_assoc, List.cons_append, List.nil_append]

/-- A text element is an element that displays the escaped text. -/
theorem writeTextElement_eq (name value : Str) :
    writeTextElement name value = openTag name [] ++ (writeEscapedText value ++ closeTag name) :=
  writeDisplayElement_eq name (writeEscapedText value)

/-- A text element is determined by what starts with it. -/
theorem writeTextElement_append_inj {name v w s t : Str}
    (h : writeTextElement name v ++ s = writeTextElement name w ++ t) : v = w ∧ s = t := by
  have hsplit : ∀ v s, writeTextElement name v ++ s =
      openTag name [] ++ (writeEscapedText v ++ '<' :: ('/' :: (name ++ '>' :: s))) := by
    intro v s
    simp [writeTextElement_eq, closeTag]
  rw [hsplit, hsplit, List.append_cancel_left_eq] at h
  have hcut := Str.cut_char ('/' :: (name ++ '>' :: s)) (notMem_writeEscapedText (.inl rfl) v)
  rw [h, Str.cut_char _ (notMem_writeEscapedText (.inl rfl) w)] at hcut
  obtain ⟨hv, hs⟩ := Prod.mk.inj (Option.some.inj hcut)
  refine ⟨(writeEscapedText_injective hv).symm, ?_⟩
  simpa using hs.symm

/-- An element that holds escaped text. -/
theorem tokens_escapedElement {name s rest : Str} {as : List (Str × Str)} {us : List Token}
    (hname : isName name = true) (hnames : ∀ a ∈ as, isName a.1 = true)
    (hdistinct : (as.map Prod.fst).Nodup) :
    tokens (openTag name as ++ (writeEscapedText s ++ (closeTag name ++ rest))) =
        some (.start name as :: (textTokens s ++ .finish name :: us)) ↔
      (∀ a ∈ as, Quotable a.2) ∧ '\r' ∉ s ∧ tokens rest = some us := by
  have hclose : closeTag name ++ rest = '<' :: ('/' :: (name ++ ['>']) ++ rest) := rfl
  rw [tokens_openTag hname hnames hdistinct, hclose, tokens_writeEscapedText_eq_some, ← hclose,
    tokens_closeTag_eq_some hname]

theorem all_isChar_writeEscapedText (s : Str) :
    (writeEscapedText s).all isChar = s.all isChar := by
  have hchar : ∀ c, (escapeChar c).all isChar = isChar c := by
    intro c
    unfold escapeChar
    split
    · decide
    · decide
    · decide
    · decide
    · decide
    · simp
  rw [writeEscapedText, List.all_flatMap]
  simp only [hchar]

end RustyCastle.Upnp
