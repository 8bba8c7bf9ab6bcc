import RustyCastle.Upnp.Soap

/-!
The messages a control point writes: an optional declaration, an envelope, its
body and one action element with namespace declarations and argument elements.
The scanner is described piece by piece, by what each search does with a tag in
front of the rest.
-/

namespace RustyCastle.Upnp
open Foundation Foundation.Xml

/-! Names and tags -/

/-- A name without a prefix. White space of the string type is excluded, which
bars one character that a name of XML may have. -/
structure IsNcName (s : Str) : Prop where
  name : isName s = true
  colon : ':' ∉ s
  space : ∀ c ∈ s, Str.isWhitespace c = false

structure QName where
  pre : Option Str
  name : Str

def QName.text (q : QName) : Str := (Str.whenSome q.pre fun p => p ++ [':']) ++ q.name

structure QName.Valid (q : QName) : Prop where
  pre : ∀ p ∈ q.pre, IsNcName p
  name : IsNcName q.name

/-- A name without a prefix, of all the characters that XML has in names. -/
structure IsXmlNcName (s : Str) : Prop where
  name : isName s = true
  colon : ':' ∉ s

structure QName.WellFormed (q : QName) : Prop where
  pre : ∀ p ∈ q.pre, IsXmlNcName p
  name : IsXmlNcName q.name

theorem IsNcName.toXml {s : Str} (h : IsNcName s) : IsXmlNcName s := ⟨h.name, h.colon⟩

theorem QName.Valid.wellFormed {q : QName} (h : q.Valid) : q.WellFormed :=
  ⟨fun p hp => (h.pre p hp).toXml, h.name.toXml⟩

def startTag (q : QName) (attrs : Str) : Str := '<' :: (q.text ++ attrs ++ ['>'])

def endTag (q : QName) : Str := '<' :: '/' :: (q.text ++ ['>'])

/-- White space of XML. -/
def IsGap (s : Str) : Prop := ∀ c ∈ s, isSpace c = true

/-- The text of a tag after its name. -/
structure IsAttrs (s : Str) : Prop where
  head : ∀ c ∈ s.head?, isSpace c = true
  lt : '<' ∉ s
  gt : '>' ∉ s

theorem isSpace_cases {c : Char} (h : isSpace c = true) : c = ' ' ∨ c = '\t' ∨ c = '\n' ∨ c = '\r' := by
  simpa [isSpace, or_assoc] using h

theorem isWhitespace_of_isSpace {c : Char} (h : isSpace c = true) : Str.isWhitespace c = true := by
  rcases isSpace_cases h with rfl | rfl | rfl | rfl <;> decide

theorem isAsciiWhitespace_of_isSpace {c : Char} (h : isSpace c = true) :
    Str.isAsciiWhitespace c = true := by
  rcases isSpace_cases h with rfl | rfl | rfl | rfl <;> decide

theorem notMem_gap {s : Str} {c : Char} (h : IsGap s) (hc : isSpace c = false) : c ∉ s := fun hm => by
  rw [h c hm] at hc
  cases hc

/-- No character of a name separates words. -/
theorem isAsciiWhitespace_of_isNameChar {c : Char} (h : isNameChar c = true) :
    Str.isAsciiWhitespace c = false := by
  by_contra hspace
  simp only [Bool.not_eq_false, Str.isAsciiWhitespace, Bool.or_eq_true, beq_iff_eq] at hspace
  rcases hspace with (((rfl | rfl) | rfl) | rfl) | rfl <;> revert h <;> decide

namespace QName.WellFormed
variable {q : QName} (h : q.WellFormed)
include h

theorem mem_text {c : Char} (hc : c ∈ q.text) : isNameChar c = true := by
  have hname := fun hm => isNameChar_of_isName h.name.name c hm
  obtain ⟨pre, name⟩ := q
  cases pre with
  | none => exact hname hc
  | some p =>
      simp only [QName.text, Str.whenSome_some, List.append_assoc, List.singleton_append,
        List.mem_append, List.mem_cons] at hc
      rcases hc with hc | rfl | hc
      · exact isNameChar_of_isName (h.pre p rfl).name c hc
      · decide
      · exact hname hc

theorem notMem_text {c : Char} (hc : isNameChar c = false) : c ∉ q.text := fun hm => by
  rw [h.mem_text hm] at hc
  cases hc

theorem name_ne_nil : q.name ≠ [] := by
  obtain ⟨c, s, hs, -⟩ := exists_cons_of_isName h.name.name
  simp [hs]

theorem text_ne_nil : q.text ≠ [] := by
  simp [QName.text, h.name_ne_nil]

theorem head_text {c : Char} (hc : c ∈ q.text.head?) : c ≠ '/' ∧ c ≠ '!' ∧ c ≠ '?' := by
  have hname := h.mem_text (List.mem_of_mem_head? hc)
  refine ⟨?_, ?_, ?_⟩ <;> rintro rfl <;> revert hname <;> decide

end QName.WellFormed

/-- The text of the name is one word that is taken apart into its prefix and its name. -/
structure QName.Splits (q : QName) : Prop where
  word : ∀ c ∈ q.text, Str.isAsciiWhitespace c = false
  pre : ∀ p ∈ q.pre, ':' ∉ p
  name : ':' ∉ q.name
  name_ne_nil : q.name ≠ []

namespace QName.Splits
variable {q : QName} (h : q.Splits) {rest : Str} (hrest : ∀ c ∈ rest.head?, isSpace c = true)
include h hrest

theorem firstWord_text : Str.firstWord (q.text ++ rest) = some q.text :=
  Str.firstWord_append (by simp [QName.text, h.name_ne_nil]) h.word fun c hc =>
    isAsciiWhitespace_of_isSpace (hrest c hc)

theorem elementName_text : elementName (q.text ++ rest) = some q.name := by
  have hne : q.name.isEmpty = false := by simpa using h.name_ne_nil
  have hlast : (Str.rsplitOnce ':' q.text).elim q.text Prod.snd = q.name := by
    have hcolon := h.name
    obtain ⟨pre, name⟩ := q
    cases pre with
    | none => exact congrArg (Option.elim · _ _) (Str.rsplitOnce_of_notMem hcolon)
    | some p =>
        have hsplit := Str.rsplitOnce_append p hcolon
        simp only [QName.text, Str.whenSome_some, List.append_assoc, List.singleton_append, hsplit,
          Option.elim_some]
  simp only [elementName, h.firstWord_text hrest, Option.bind_eq_bind, Option.bind_some, hlast, hne]
  rfl

theorem elementPrefix_text : elementPrefix (q.text ++ rest) = q.pre := by
  have hname := h.name
  have hpre := h.pre
  simp only [elementPrefix, h.firstWord_text hrest, Option.bind_eq_bind, Option.bind_some]
  obtain ⟨pre, name⟩ := q
  cases pre with
  | none =>
      have hcolon : Str.find [':'] name = none := Str.find_char_eq_none.mpr hname
      simp only [QName.text, Str.whenSome_none, List.nil_append, Str.cut, hcolon, Option.map_none]
  | some p =>
      have hcolon := Str.cut_char name (hpre p rfl)
      simp only [QName.text, Str.whenSome_some, List.append_assoc, List.singleton_append, hcolon,
        Option.map_some]

end QName.Splits

/-- The name in a start tag is read from the first character on that is not white space. -/
def QName.started (q : QName) : QName := { q with pre := q.pre.map fun p => p.dropWhile Str.isWhitespace }

/-- The start of the name is not taken for white space before it. -/
def QName.HeadKept (q : QName) : Prop := q.pre = none → ∀ c ∈ q.name.head?, Str.isWhitespace c = false

/-- The end of the name is not taken for white space behind it. -/
def QName.LastKept (q : QName) : Prop := ∀ c ∈ q.name.getLast?, Str.isWhitespace c = false

namespace QName.WellFormed
variable {q : QName} (h : q.WellFormed)
include h

theorem splits : q.Splits where
  word _ hc := isAsciiWhitespace_of_isNameChar (h.mem_text hc)
  pre p hp := (h.pre p hp).colon
  name := h.name.colon
  name_ne_nil := h.name_ne_nil

theorem elementName_self : elementName q.text = some q.name := by
  have hname : elementName (q.text ++ []) = some q.name := h.splits.elementName_text nofun
  rwa [List.append_nil] at hname

theorem dropWhile_text (hhead : q.HeadKept) : q.text.dropWhile Str.isWhitespace = q.started.text := by
  obtain ⟨c, s, hname, -⟩ := exists_cons_of_isName h.name.name
  cases hp : q.pre with
  | none =>
      have hc : Str.isWhitespace c = false := hhead hp c (by rw [hname]; rfl)
      rw [text, started, text, hp, hname]
      simp [hc]
  | some p =>
      have hcolon : (':' :: q.name).dropWhile Str.isWhitespace = ':' :: q.name :=
        List.dropWhile_cons_of_neg (by decide)
      rw [text, started, text, hp]
      simp only [Str.whenSome_some, Option.map_some, List.append_assoc, List.singleton_append,
        List.dropWhile_append, hcolon]
      split
      · rename_i hempty
        rw [List.isEmpty_iff.mp hempty]
        rfl
      · rfl

theorem mem_started {c : Char} (hc : c ∈ q.started.text) : isNameChar c = true := by
  cases hp : q.pre with
  | none =>
      rw [started, hp] at hc
      refine h.mem_text ?_
      rw [text, hp]
      exact hc
  | some p =>
      simp only [started, hp, text, Option.map_some, Str.whenSome_some, List.append_assoc,
        List.mem_append] at hc
      refine h.mem_text ?_
      rw [text, hp, Str.whenSome_some, List.append_assoc, List.mem_append, List.mem_append]
      exact hc.imp_left fun hm => (List.dropWhile_suffix _).subset hm

theorem notMem_started {c : Char} (hc : isNameChar c = false) : c ∉ q.started.text := fun hm => by
  rw [h.mem_started hm] at hc
  cases hc

theorem splits_started : q.started.Splits where
  word _ hc := isAsciiWhitespace_of_isNameChar (h.mem_started hc)
  pre := by
    intro p hp hm
    obtain ⟨p', hp', rfl⟩ := Option.mem_map.mp hp
    exact (h.pre p' hp').colon ((List.dropWhile_suffix _).subset hm)
  name := h.name.colon
  name_ne_nil := h.name_ne_nil

/-- A start tag trimmed. -/
theorem trim_text (hhead : q.HeadKept) {rest : Str}
    (hlast : q.LastKept ∨ rest.rdropWhile Str.isWhitespace ≠ []) :
    Str.trim (q.text ++ rest) = q.started.text ++ rest.rdropWhile Str.isWhitespace := by
  have hdrop := h.dropWhile_text hhead
  have hend : ∀ c ∈ q.text.getLast?, c ∈ q.name.getLast? := by
    intro c hc
    rw [text, List.getLast?_append, List.getLast?_eq_some_getLast h.name_ne_nil] at hc
    rw [List.getLast?_eq_some_getLast h.name_ne_nil]
    exact hc
  rw [Str.trim_append, hdrop]
  · rw [hdrop, text]
    simp [started, h.name_ne_nil]
  · exact hlast.imp_left fun hlast c hc => hlast c (hend c hc)

/-- A tag keeps its name when it is trimmed. -/
theorem elementName_trim {attrs : Str} (hattrs : IsAttrs attrs) (hhead : q.HeadKept)
    (hlast : q.LastKept ∨ attrs.rdropWhile Str.isWhitespace ≠ []) :
    elementName (Str.trim (q.text ++ attrs)) = some q.name := by
  rw [h.trim_text hhead hlast]
  refine h.splits_started.elementName_text fun c hc => hattrs.head c ?_
  obtain ⟨t, ht⟩ := List.rdropWhile_prefix Str.isWhitespace attrs
  rw [← ht, List.head?_append, Option.mem_def.mp hc]
  rfl

end QName.WellFormed

/-- Without white space in it a name is kept whole. -/
theorem QName.Valid.kept {q : QName} (h : q.Valid) : q.HeadKept ∧ q.LastKept :=
  ⟨fun _ c hc => h.name.space c (List.mem_of_mem_head? hc),
    fun c hc => h.name.space c (List.mem_of_mem_getLast? hc)⟩

theorem QName.Valid.started_eq {q : QName} (h : q.Valid) : q.started = q := by
  obtain ⟨pre, name⟩ := q
  cases pre with
  | none => rfl
  | some p =>
      have hp : p.dropWhile Str.isWhitespace = p := by
        cases hp : p with
        | nil => rfl
        | cons c s =>
            have hspace := (h.pre p rfl).space c (by rw [hp]; exact List.mem_cons_self ..)
            exact List.dropWhile_cons_of_neg (by rw [hspace]; decide)
      rw [started, Option.map_some, hp]

/-! The search for an end tag -/

/-- A piece in front of which no end tag starts. -/
def CloseFree (s : Str) : Prop :=
  ∀ rest, Str.find "</".toList (s ++ rest) = (Str.find "</".toList rest).map (s.length + ·)

theorem closeFree_iff_skips {s : Str} : CloseFree s ↔ Str.Skips "</".toList s := by
  have hadd : (s.length + ·) = (· + s.length) := funext (Nat.add_comm _)
  rw [CloseFree, Str.Skips, hadd]

theorem CloseFree.append {s t : Str} (hs : CloseFree s) (ht : CloseFree t) : CloseFree (s ++ t) :=
  closeFree_iff_skips.mpr ((closeFree_iff_skips.mp hs).append (closeFree_iff_skips.mp ht))

theorem closeFree_cons {c : Char} {s : Str} (h : ∀ rest, ¬ "</".toList <+: c :: (s ++ rest))
    (hs : CloseFree s) : CloseFree (c :: s) :=
  closeFree_iff_skips.mpr ((closeFree_iff_skips.mp hs).cons h)

theorem closeFree_of_notMem {s : Str} (h : '<' ∉ s) : CloseFree s := by
  have hlit : "</".toList = ['<', '/'] := by decide
  rw [closeFree_iff_skips, hlit]
  exact Str.skips_of_notMem h

theorem closeFree_startTag {q : QName} (h : q.WellFormed) {attrs : Str} (hattrs : '<' ∉ attrs) :
    CloseFree (startTag q attrs) := by
  have hlt : '<' ∉ q.text ++ attrs ++ ['>'] := by
    simp only [List.mem_append, List.mem_singleton, not_or]
    exact ⟨⟨h.notMem_text (by decide), hattrs⟩, by decide⟩
  refine closeFree_cons (fun rest hp => ?_) (closeFree_of_notMem hlt)
  have hslash : '/' ∉ q.text := h.notMem_text (by decide)
  obtain ⟨c, s, hs⟩ := List.exists_cons_of_ne_nil h.text_ne_nil
  have hlit : "</".toList = ['<', '/'] := by decide
  rw [hlit, hs] at hp
  obtain ⟨rfl, -⟩ := List.cons_prefix_cons.mp (List.cons_prefix_cons.mp hp).2
  exact hslash (hs ▸ List.mem_cons_self ..)

theorem findCloseForName_append {s : Str} (hs : CloseFree s) (name rest : Str) (offset : Nat) :
    findCloseForName name (s ++ rest) offset = findCloseForName name rest (offset + s.length) := by
  have hcut : Str.cut "</".toList (s ++ rest) =
      (Str.cut "</".toList rest).map fun r => (s ++ r.1, r.2) :=
    Str.cut_of_skips (closeFree_iff_skips.mp hs) rest
  rw [findCloseForName.eq_def, findCloseForName.eq_def name rest]
  cases hrest : Str.cut "</".toList rest with
  | none =>
      rw [hrest] at hcut
      split
      · rfl
      · rename_i h
        rw [hcut] at h
        cases h
  | some r =>
      rw [hrest] at hcut
      split
      · rename_i h
        rw [hcut] at h
        cases h
      · rename_i h
        rw [hcut] at h
        cases h
        simp only [List.length_append, Nat.add_assoc]

/-- The search for an end tag at the first one. -/
theorem findCloseForName_tag {before tag : Str} (hbefore : Str.find "</".toList (before ++ ['<']) = none)
    (htag : '>' ∉ tag) (name next : Str) (offset : Nat) :
    findCloseForName name (before ++ "</".toList ++ (tag ++ '>' :: next)) offset =
      if elementName tag = some name then some (offset + before.length, 2 + tag.length + 1)
      else findCloseForName name next (offset + before.length + 2 + tag.length + 1) := by
  have hcut : Str.cut "</".toList (before ++ "</".toList ++ (tag ++ '>' :: next)) =
      some (before, tag ++ '>' :: next) := Str.cut_append _ hbefore
  have hcut' : Str.cut ['>'] (tag ++ '>' :: next) = some (tag, next) := Str.cut_char next htag
  rw [findCloseForName.eq_def]
  split
  · rename_i hn
    rw [hcut] at hn
    cases hn
  · rename_i hs
    rw [hcut] at hs
    cases hs
    split
    · rename_i hn
      rw [hcut'] at hn
      cases hn
    · rename_i hs'
      rw [hcut'] at hs'
      cases hs'
      rfl

theorem findCloseForName_endTag {q : QName} (h : q.WellFormed) (name rest : Str) (offset : Nat) :
    findCloseForName name (endTag q ++ rest) offset =
      if q.name = name then some (offset, (endTag q).length)
      else findCloseForName name rest (offset + (endTag q).length) := by
  have happ : endTag q ++ rest = [] ++ "</".toList ++ (q.text ++ '>' :: rest) := by simp [endTag]
  have hname : elementName q.text = some q.name := h.elementName_self
  have hlen : (endTag q).length = 2 + q.text.length + 1 := by
    simp [endTag]
    omega
  rw [happ, findCloseForName_tag (by decide) (h.notMem_text (by decide))]
  simp only [hname, Option.some.injEq, List.length_nil, hlen, Nat.add_zero, Nat.add_assoc]

end RustyCastle.Upnp
