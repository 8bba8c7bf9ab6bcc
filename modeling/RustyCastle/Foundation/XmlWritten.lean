import RustyCastle.Foundation.Decimal
import RustyCastle.Foundation.XmlTokens

/-!
Written markup and how it is read. A writer that puts its values into the text
as they are is read back exactly when the values have none of the characters
that end or change them.
-/

namespace Foundation.Xml

/-! Names -/

theorem isNameChar_of_isName {name : Str} (h : isName name = true) : ∀ c ∈ name, isNameChar c = true := by
  cases name with
  | nil => cases h
  | cons d name =>
      simp only [isName, Bool.and_eq_true, List.all_eq_true] at h
      intro c hc
      rcases List.mem_cons.mp hc with rfl | hc
      · simp [isNameChar, h.1]
      · exact h.2 c hc

theorem notMem_name {name : Str} {c : Char} (h : isName name = true) (hc : isNameChar c = false) :
    c ∉ name := fun hm => by
  rw [isNameChar_of_isName h c hm] at hc
  cases hc

theorem not_isSpace_of_isNameChar {c : Char} (h : isNameChar c = true) : isSpace c = false := by
  by_contra hs
  simp only [isSpace, Bool.not_eq_false, Bool.or_eq_true, beq_iff_eq] at hs
  rcases hs with ((rfl | rfl) | rfl) | rfl <;> revert h <;> decide

theorem takeWhile_name {name : Str} (h : isName name = true) {c : Char} (hc : isNameChar c = false)
    (s : Str) : (name ++ c :: s).takeWhile isNameChar = name := by
  rw [List.takeWhile_append_of_pos (isNameChar_of_isName h), List.takeWhile_cons, hc]
  simp

theorem dropWhile_name {name : Str} (h : isName name = true) {c : Char} (hc : isNameChar c = false)
    (s : Str) : (name ++ c :: s).dropWhile isNameChar = c :: s := by
  rw [List.dropWhile_append_of_pos (isNameChar_of_isName h), List.dropWhile_cons, hc]
  simp

theorem exists_cons_of_isName {name : Str} (h : isName name = true) :
    ∃ c s, name = c :: s ∧ isNameChar c = true := by
  cases name with
  | nil => cases h
  | cons c s => exact ⟨c, s, rfl, isNameChar_of_isName h c (List.mem_cons_self ..)⟩

/-! Attributes -/

/-- The text of an attribute whose value is written as it is. -/
def writeAttribute (a : Str × Str) : Str := ' ' :: (a.1 ++ '=' :: '"' :: (a.2 ++ ['"']))

def writeAttributes (as : List (Str × Str)) : Str := as.flatMap writeAttribute

/-- A value that stands for itself between double quotes. -/
structure Quotable (s : Str) : Prop extends PlainAttribute s where
  quote : '"' ∉ s

instance (s : Str) : Decidable (Quotable s) :=
  decidable_of_iff (PlainAttribute s ∧ '"' ∉ s) ⟨fun h => ⟨h.1, h.2⟩, fun h => ⟨h.1, h.2⟩⟩

def quotableChar (c : Char) : Bool := c != '<' && c != '&' && blank c == c && c != '"'

theorem quotable_iff {s : Str} : Quotable s ↔ s.all quotableChar = true := by
  rw [List.all_eq_true]
  constructor
  · intro h c hc
    simp only [quotableChar, Bool.and_eq_true, bne_iff_ne, beq_iff_eq]
    exact ⟨⟨⟨ne_of_mem_of_not_mem hc h.lt, ne_of_mem_of_not_mem hc h.amp⟩, h.space c hc⟩,
      ne_of_mem_of_not_mem hc h.quote⟩
  · intro h
    simp only [quotableChar, Bool.and_eq_true, bne_iff_ne, beq_iff_eq] at h
    exact
      { lt := fun hm => (h _ hm).1.1.1 rfl
        amp := fun hm => (h _ hm).1.1.2 rfl
        space := fun c hc => (h c hc).1.2
        quote := fun hm => (h _ hm).2 rfl }

theorem quotable_append {s t : Str} : Quotable (s ++ t) ↔ Quotable s ∧ Quotable t := by
  rw [quotable_iff, quotable_iff, quotable_iff, List.all_append, Bool.and_eq_true]

theorem quotable_of_subset {s alphabet : Str} (h : s ⊆ alphabet) (ha : Quotable alphabet) :
    Quotable s := by
  rw [quotable_iff, List.all_eq_true] at ha ⊢
  exact fun c hc => ha c (h hc)

theorem quotable_numeral (n : Nat) : Quotable (Decimal.numeral n) :=
  quotable_of_subset (Decimal.numeral_subset n) (by decide)

theorem dropWhile_writeAttribute {name value : Str} (rest : Str) (hname : isName name = true) :
    (writeAttribute (name, value) ++ rest).dropWhile isSpace =
      name ++ '=' :: '"' :: (value ++ '"' :: rest) := by
  obtain ⟨c, s, rfl, hc⟩ := exists_cons_of_isName hname
  have hblank : isSpace ' ' = true := by decide
  simp [writeAttribute, not_isSpace_of_isNameChar hc, hblank]

theorem readAttribute_writeAttribute {name value : Str} (rest : Str) (hname : isName name = true) :
    readAttribute (writeAttribute (name, value) ++ rest) =
      (Str.cut ['"'] (value ++ '"' :: rest)).bind fun x =>
        (attributeValue x.1).bind fun v => some ((name, v), x.2) := by
  have hspace : (writeAttribute (name, value) ++ rest).dropWhile isSpace =
      name ++ '=' :: '"' :: (value ++ '"' :: rest) := dropWhile_writeAttribute rest hname
  have heq : isNameChar '=' = false := by decide
  have hlen : ¬ ((name ++ '=' :: '"' :: (value ++ '"' :: rest)).length =
      (writeAttribute (name, value) ++ rest).length ∨ ¬ isName name = true) := by
    simp [writeAttribute, hname]
  have hskip : ∀ s, ('=' :: s).dropWhile isSpace = '=' :: s := fun _ => rfl
  have hskipQuote : ∀ s, ('"' :: s).dropWhile isSpace = '"' :: s := fun _ => rfl
  simp only [readAttribute, hspace, takeWhile_name hname heq, dropWhile_name hname heq,
    if_neg hlen, hskip, hskipQuote, true_or, if_true]
  rfl

/-- The reader cuts a written value at its first quote, so it gives the value
back exactly when that is the closing one. -/
theorem readAttribute_eq_some {name value rest r : Str} (hname : isName name = true) :
    readAttribute (writeAttribute (name, value) ++ rest) = some ((name, value), r) ↔
      Quotable value ∧ r = rest := by
  rw [readAttribute_writeAttribute rest hname]
  constructor
  · intro h
    obtain ⟨⟨raw, rest'⟩, hcut, h⟩ := Option.bind_eq_some_iff.mp h
    obtain ⟨v, hv, he⟩ := Option.bind_eq_some_iff.mp h
    cases he
    obtain ⟨hsplit, hq⟩ := Str.cut_char_eq_some.mp hcut
    dsimp only at hv
    obtain ⟨rfl, hp⟩ := (attributeValue_eq_some (Str.prefix_of_notMem ⟨_, hsplit.symm⟩ hq)).mp hv
    exact ⟨⟨hp, hq⟩, by simpa using hsplit.symm⟩
  · rintro ⟨hq, rfl⟩
    rw [Str.cut_char r hq.quote]
    simp [(attributeValue_eq_some (List.prefix_refl value)).mpr ⟨rfl, hq.toPlainAttribute⟩]

@[simp] theorem readAttributes_end (rest : Str) :
    readAttributes ('>' :: rest) = some ([], false, rest) := by
  rw [readAttributes]
  rfl

/-- Where an attribute is read there are further attributes to read. -/
theorem readAttributes_cons {s : Str} {a : Str × Str} {as : List (Str × Str)} {e : Bool} {r : Str}
    (hstart : ∀ c t, s.dropWhile isSpace = c :: t → c ≠ '>' ∧ c ≠ '/') :
    readAttributes s = some (a :: as, e, r) ↔
      ∃ rest, readAttribute s = some (a, rest) ∧ readAttributes rest = some (as, e, r) := by
  rw [readAttributes.eq_def]
  split
  · rename_i rest hs
    exact absurd rfl (hstart _ _ hs).1
  · rename_i rest hs
    exact absurd rfl (hstart _ _ hs).2
  · split
    · rename_i hn
      simp [hn]
    · rename_i b rest hb
      simp only [hb, Option.map_eq_some_iff, Prod.exists, Option.some.injEq, Prod.mk.injEq,
        List.cons.injEq]
      constructor
      · rintro ⟨as', e', r', h, ⟨rfl, rfl⟩, rfl, rfl⟩
        exact ⟨rest, ⟨rfl, rfl⟩, h⟩
      · rintro ⟨rest', ⟨rfl, rfl⟩, h⟩
        exact ⟨as, e, r, h, ⟨rfl, rfl⟩, rfl, rfl⟩

/-- Written attributes are read back exactly when every value stands for itself. -/
theorem readAttributes_writeAttributes {as : List (Str × Str)} {rest r : Str} {e : Bool}
    (hnames : ∀ a ∈ as, isName a.1 = true) :
    readAttributes (writeAttributes as ++ '>' :: rest) = some (as, e, r) ↔
      (∀ a ∈ as, Quotable a.2) ∧ e = false ∧ r = rest := by
  induction as with
  | nil =>
      simp only [writeAttributes, List.flatMap_nil, List.nil_append, readAttributes_end]
      simp [eq_comm]
  | cons a as ih =>
      obtain ⟨name, value⟩ := a
      have hname := hnames (name, value) (List.mem_cons_self ..)
      have ih := ih fun a ha => hnames a (List.mem_cons_of_mem _ ha)
      have happ : writeAttributes ((name, value) :: as) ++ '>' :: rest =
          writeAttribute (name, value) ++ (writeAttributes as ++ '>' :: rest) := by
        simp [writeAttributes]
      rw [happ, readAttributes_cons]
      · simp only [readAttribute_eq_some hname]
        constructor
        · rintro ⟨rest', ⟨hq, rfl⟩, h⟩
          obtain ⟨hall, he, hr⟩ := ih.mp h
          exact ⟨List.forall_mem_cons.mpr ⟨hq, hall⟩, he, hr⟩
        · rintro ⟨hall, he, hr⟩
          obtain ⟨hq, hall⟩ := List.forall_mem_cons.mp hall
          exact ⟨_, ⟨hq, rfl⟩, ih.mpr ⟨hall, he, hr⟩⟩
      · rw [dropWhile_writeAttribute _ hname]
        obtain ⟨c, s, rfl, hc⟩ := exists_cons_of_isName hname
        rintro d t hd
        obtain ⟨rfl, -⟩ := List.cons.inj hd
        constructor <;> rintro rfl <;> exact absurd hc (by decide)

/-! Tags -/

/-- The text of a start tag. -/
def openTag (name : Str) (as : List (Str × Str)) : Str := '<' :: (name ++ writeAttributes as ++ ['>'])

/-- The text of an end tag. -/
def closeTag (name : Str) : Str := '<' :: '/' :: (name ++ ['>'])

theorem readMarkup_of_isName {name : Str} (h : isName name = true) (s : Str) :
    readMarkup (name ++ s) = readStartTag (name ++ s) := by
  obtain ⟨c, t, rfl, -⟩ := exists_cons_of_isName h
  simp only [isName, Bool.and_eq_true] at h
  have hc : c ≠ '/' ∧ c ≠ '!' ∧ c ≠ '?' := by
    refine ⟨?_, ?_, ?_⟩ <;> rintro rfl <;> exact absurd h.1 (by decide)
  simp only [readMarkup, List.cons_append]
  split <;> simp_all

theorem notNameChar_head (as : List (Str × Str)) (rest : Str) :
    ∃ c s, writeAttributes as ++ '>' :: rest = c :: s ∧ isNameChar c = false := by
  cases as with
  | nil => exact ⟨'>', rest, rfl, by decide⟩
  | cons a as => exact ⟨' ', _, rfl, by decide⟩

theorem readStartTag_openTag {name : Str} (as : List (Str × Str)) (rest : Str)
    (hname : isName name = true) :
    readStartTag (name ++ (writeAttributes as ++ '>' :: rest)) =
      (readAttributes (writeAttributes as ++ '>' :: rest)).bind fun x =>
        if (x.1.map Prod.fst).Nodup then
          some (.start name x.1 :: (if x.2.1 then [.finish name] else []), x.2.2)
        else none := by
  obtain ⟨c, s, hs, hc⟩ := notNameChar_head as rest
  rw [hs, readStartTag, takeWhile_name hname hc, dropWhile_name hname hc, if_pos hname]
  rfl

/-- A written start tag is read back exactly when every attribute value stands for itself. -/
theorem tokens_openTag {name : Str} {as : List (Str × Str)} {rest : Str} {us : List Token}
    (hname : isName name = true) (hnames : ∀ a ∈ as, isName a.1 = true)
    (hdistinct : (as.map Prod.fst).Nodup) :
    tokens (openTag name as ++ rest) = some (.start name as :: us) ↔
      (∀ a ∈ as, Quotable a.2) ∧ tokens rest = some us := by
  have happ : openTag name as ++ rest = '<' :: (name ++ (writeAttributes as ++ '>' :: rest)) := by
    simp [openTag]
  rw [happ]
  constructor
  · intro h
    obtain ⟨ts, rest', vs, hm, hvs, he⟩ := tokens_markup_eq_some h
    rw [readMarkup_of_isName hname, readStartTag_openTag as rest hname] at hm
    obtain ⟨⟨as', e, r⟩, hr, hm⟩ := Option.bind_eq_some_iff.mp hm
    dsimp only at hm
    split at hm
    · cases hm
      rw [List.cons_append, List.cons.injEq] at he
      obtain ⟨hstart, rfl⟩ := he
      cases hstart
      obtain ⟨hall, rfl, rfl⟩ := (readAttributes_writeAttributes hnames).mp hr
      exact ⟨hall, hvs⟩
    · cases hm
  · rintro ⟨hall, hrest⟩
    have hr : readAttributes (writeAttributes as ++ '>' :: rest) = some (as, false, rest) :=
      (readAttributes_writeAttributes hnames).mpr ⟨hall, rfl, rfl⟩
    have hm : readMarkup (name ++ (writeAttributes as ++ '>' :: rest)) =
        some ([.start name as], rest) := by
      rw [readMarkup_of_isName hname, readStartTag_openTag as rest hname, hr]
      exact if_pos hdistinct
    rw [tokens_markup hm, hrest]
    rfl

/-! Permitted characters of written markup -/

theorem isChar_of_isNameChar {c : Char} (h : isNameChar c = true) : isChar c = true := by
  simp only [isNameChar, isNameStart, inRanges, isChar, List.any_cons, List.any_nil,
    Bool.or_eq_true, Bool.and_eq_true, decide_eq_true_eq, Bool.or_false] at h ⊢
  omega

theorem all_isChar_of_isName {name : Str} (h : isName name = true) : name.all isChar = true :=
  List.all_eq_true.mpr fun c hc => isChar_of_isNameChar (isNameChar_of_isName h c hc)

theorem all_isChar_openTag {name : Str} {as : List (Str × Str)} (hname : isName name = true)
    (hnames : ∀ a ∈ as, isName a.1 = true) :
    (openTag name as).all isChar = as.all fun a => a.2.all isChar := by
  have hlt : isChar '<' = true := by decide
  have hgt : isChar '>' = true := by decide
  have hblank : isChar ' ' = true := by decide
  have heq : isChar '=' = true := by decide
  have hquote : isChar '"' = true := by decide
  have hattrs : (writeAttributes as).all isChar = as.all fun a => a.2.all isChar := by
    induction as with
    | nil => rfl
    | cons a as ih =>
        rw [List.forall_mem_cons] at hnames
        have ha := all_isChar_of_isName hnames.1
        simp only [writeAttributes, List.flatMap_cons, writeAttribute, List.cons_append,
          List.append_assoc, List.all_cons, List.all_append, hblank, ha, heq, hquote,
          Bool.true_and, List.all_nil]
        rw [← ih hnames.2]
        rfl
  simp only [openTag, List.all_cons, List.all_append, hlt, hgt, hattrs,
    all_isChar_of_isName hname, Bool.true_and, List.all_nil, Bool.and_true]

theorem all_isChar_closeTag {name : Str} (hname : isName name = true) :
    (closeTag name).all isChar = true := by
  have hlt : isChar '<' = true := by decide
  have hgt : isChar '>' = true := by decide
  have hslash : isChar '/' = true := by decide
  simp only [closeTag, List.all_cons, List.all_append, hlt, hgt, hslash,
    all_isChar_of_isName hname, List.all_nil, Bool.and_true]

theorem all_isChar_numeral (n : Nat) : (Decimal.numeral n).all isChar = true := by
  have hdigits : Decimal.digits.all isChar = true := by decide
  rw [List.all_eq_true] at hdigits ⊢
  exact fun c hc => hdigits c (Decimal.numeral_subset n hc)

theorem tokens_bareTag {name rest : Str} {us : List Token} (hname : isName name = true) :
    tokens (openTag name [] ++ rest) = some (.start name [] :: us) ↔ tokens rest = some us := by
  rw [tokens_openTag hname (by simp) (by simp)]
  simp

theorem rdropWhile_name {name : Str} (h : isName name = true) : name.rdropWhile isSpace = name := by
  rw [List.rdropWhile_eq_self_iff]
  intro hne
  rw [not_isSpace_of_isNameChar (isNameChar_of_isName h _ (List.getLast_mem hne))]
  decide

theorem tokens_closeTag {name : Str} (rest : Str) (hname : isName name = true) :
    tokens (closeTag name ++ rest) = (tokens rest).map (.finish name :: ·) := by
  have happ : closeTag name ++ rest = '<' :: '/' :: (name ++ '>' :: rest) := by simp [closeTag]
  have hm : readMarkup ('/' :: (name ++ '>' :: rest)) = some ([.finish name], rest) := by
    have hgt : '>' ∉ name := notMem_name hname (by decide)
    simp only [readMarkup, readEndTag, Str.cut_char rest hgt, Option.bind_eq_bind,
      Option.bind_some, rdropWhile_name hname, hname, if_true]
  rw [happ, tokens_markup hm]
  rfl

/-! Character data -/

theorem tokens_closeTag_eq_some {name rest : Str} {us : List Token} (hname : isName name = true) :
    tokens (closeTag name ++ rest) = some (.finish name :: us) ↔ tokens rest = some us := by
  rw [tokens_closeTag rest hname, Option.map_eq_some_iff]
  constructor
  · rintro ⟨vs, hvs, he⟩
    rw [hvs, (List.cons.inj he).2]
  · intro h
    exact ⟨us, h, rfl⟩

/-- The tokens of a run of character data: an empty run has none. -/
def textTokens (value : Str) : List Token := if value = [] then [] else [.text value]

@[simp] theorem textTokens_nil : textTokens [] = [] := rfl

theorem textTokens_append_inj {s t : Str} {us vs : List Token} (hnil : s = [] ↔ t = [])
    (h : textTokens s ++ us = textTokens t ++ vs) : s = t ∧ us = vs := by
  by_cases hs : s = []
  · obtain rfl := hs
    obtain rfl := hnil.mp rfl
    exact ⟨rfl, h⟩
  · rw [textTokens, textTokens, if_neg hs, if_neg fun ht => hs (hnil.mpr ht)] at h
    obtain ⟨hhead, rfl⟩ := List.cons.inj h
    exact ⟨Token.text.inj hhead, rfl⟩

/-- Markup is not read as character data. -/
theorem head_of_readMarkup {s rest : Str} {ts : List Token} (h : readMarkup s = some (ts, rest)) :
    ∃ t us, ts = t :: us ∧ ∀ v, t ≠ .text v := by
  simp only [readMarkup] at h
  split at h
  · obtain ⟨⟨_, _⟩, -, h⟩ := Option.bind_eq_some_iff.mp h
    dsimp only at h
    split at h
    · cases h
      exact ⟨_, _, rfl, by simp⟩
    · cases h
  · obtain ⟨⟨_, _⟩, -, h⟩ := Option.bind_eq_some_iff.mp h
    dsimp only at h
    split at h
    · cases h
      exact ⟨_, _, rfl, by simp⟩
    · cases h
  · obtain ⟨body, -, h⟩ := Option.bind_eq_some_iff.mp h
    obtain ⟨⟨_, _⟩, -, h⟩ := Option.bind_eq_some_iff.mp h
    cases h
    exact ⟨_, _, rfl, by simp⟩
  · obtain ⟨⟨_, _⟩, -, h⟩ := Option.bind_eq_some_iff.mp h
    dsimp only at h
    split at h
    · cases h
      exact ⟨_, _, rfl, by simp⟩
    · cases h
  · simp only [readStartTag] at h
    split at h
    · obtain ⟨⟨_, _⟩, -, h⟩ := Option.bind_eq_some_iff.mp h
      dsimp only at h
      split at h
      · cases h
        exact ⟨_, _, rfl, by simp⟩
      · cases h
    · cases h

/-- A value is no longer than the raw text it is read from. -/
theorem length_textValue_le {raw v : Str} (h : textValue raw = some v) : v.length ≤ raw.length := by
  rw [textValue] at h
  split at h
  · exact (length_expand_le id h).trans (length_lineEnds_le raw)
  · cases h

/-- Text that is written as it is stands for itself exactly when it is plain. -/
theorem tokens_plainText {raw rest : Str} {us : List Token} :
    tokens (raw ++ '<' :: rest) = some (textTokens raw ++ us) ↔
      (PlainText raw ∧ '<' ∉ raw) ∧ tokens ('<' :: rest) = some us := by
  by_cases hne : raw = []
  · subst hne
    have hplain : PlainText [] := by decide
    simp [hplain]
  · rw [textTokens, if_neg hne]
    constructor
    · intro h
      have hlt : '<' ∉ raw := by
        intro hm
        obtain ⟨u, v, rfl, hu⟩ := List.eq_append_cons_of_mem hm
        rw [List.append_assoc, List.cons_append] at h
        by_cases hu₀ : u = []
        · subst hu₀
          obtain ⟨ts, rest', vs, hread, -, he⟩ := tokens_markup_eq_some h
          obtain ⟨t, us', rfl, hnot⟩ := head_of_readMarkup hread
          exact hnot _ (List.cons.inj he).1.symm
        · rw [tokens_text _ hu₀ hu] at h
          obtain ⟨t, ht, h⟩ := Option.bind_eq_some_iff.mp h
          obtain ⟨vs, -, he⟩ := Option.map_eq_some_iff.mp h
          have hlen := length_textValue_le ht
          rw [Token.text.inj (List.cons.inj he).1, List.length_append, List.length_cons] at hlen
          omega
      rw [tokens_text rest hne hlt] at h
      obtain ⟨t, ht, h⟩ := Option.bind_eq_some_iff.mp h
      obtain ⟨vs, hvs, he⟩ := Option.map_eq_some_iff.mp h
      obtain ⟨hhead, rfl⟩ := List.cons.inj he
      rw [Token.text.inj hhead] at ht
      exact ⟨⟨textValue_eq_self.mp ht, hlt⟩, hvs⟩
    · rintro ⟨⟨hp, hlt⟩, hrest⟩
      rw [tokens_text rest hne hlt, textValue_eq_self.mpr hp, Option.bind_some, hrest]
      rfl

end Foundation.Xml
