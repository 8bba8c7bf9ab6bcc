import RustyCastle.Upnp.SoapNamespace

/-!
A SOAP message around what stands inside its action element, and what the parser makes of it.
Start tags are trimmed before their names are read and end tags are not, so a character that
is white space to the trimming and may stand in a name is lost from the one and not from the
other.
-/

namespace RustyCastle.Upnp
open Foundation Foundation.Xml

/-- White space of the string type. -/
def IsBlank (s : Str) : Prop := ∀ c ∈ s, Str.isWhitespace c = true

theorem IsGap.isBlank {s : Str} (h : IsGap s) : IsBlank s := fun c hc =>
  isWhitespace_of_isSpace (h c hc)

theorem isBlank_nil : IsBlank [] := nofun

theorem notMem_blank {s : Str} {c : Char} (h : IsBlank s) (hc : Str.isWhitespace c = false) : c ∉ s :=
  fun hm => by
    rw [h c hm] at hc
    cases hc

theorem isAttrs_nil : IsAttrs [] := ⟨nofun, by simp, by simp⟩

/-! Texts without an end tag of a name -/

/-- The search for the end tag of a name goes past the text. -/
def NoEnd (name s : Str) : Prop :=
  ∀ rest offset, findCloseForName name (s ++ rest) offset =
    findCloseForName name rest (offset + s.length)

theorem NoEnd.append {name s t : Str} (hs : NoEnd name s) (ht : NoEnd name t) :
    NoEnd name (s ++ t) := by
  intro rest offset
  rw [List.append_assoc, hs, ht, List.length_append, Nat.add_assoc]

theorem NoEnd.findCloseForName_eq {name s : Str} (h : NoEnd name s) (offset : Nat) :
    findCloseForName name s offset = none := by
  have hnil : findCloseForName name [] (offset + s.length) = none := by
    rw [findCloseForName.eq_def]
    rfl
  rw [← List.append_nil s, h, hnil]

theorem CloseFree.noEnd {s : Str} (h : CloseFree s) (name : Str) : NoEnd name s :=
  findCloseForName_append h name

theorem noEnd_blank {s : Str} (h : IsBlank s) (name : Str) : NoEnd name s :=
  (closeFree_of_notMem (notMem_blank h (by decide))).noEnd name

theorem noEnd_endTag {q : QName} (h : q.WellFormed) {name : Str} (hne : q.name ≠ name) :
    NoEnd name (endTag q) := fun rest offset => by
  rw [findCloseForName_endTag h, if_neg hne]

theorem noEnd_flatMap {α : Type} {name : Str} {write : α → Str} {as : List α}
    (h : ∀ a ∈ as, NoEnd name (write a)) : NoEnd name (as.flatMap write) := by
  induction as with
  | nil =>
      intro rest offset
      rfl
  | cons a as ih =>
      rw [List.forall_mem_cons] at h
      rw [List.flatMap_cons]
      exact h.1.append (ih h.2)

/-! Frames -/

/-- A SOAP message with one action in its body, without what stands inside the action. -/
structure Frame where
  declaration : Option Str
  start : Str
  envelope : Option Str
  envelopeAttrs : Str
  beforeBody : Str
  body : Option Str
  bodyAttrs : Str
  beforeAction : Str
  action : QName
  declarations : List Declaration
  tail : Str
  beforeBodyEnd : Str
  beforeEnvelopeEnd : Str
  finish : Str
  service : ServiceTypeRef

namespace Frame

def envelopeName (f : Frame) : QName := ⟨f.envelope, "Envelope".toList⟩

def bodyName (f : Frame) : QName := ⟨f.body, "Body".toList⟩

def actionAttrs (f : Frame) : Str := f.declarations.flatMap Declaration.write ++ f.tail

/-- The message from the end tag of the body on. -/
def ending (f : Frame) : Str :=
  endTag f.bodyName ++ (f.beforeEnvelopeEnd ++ (endTag f.envelopeName ++ f.finish))

/-- The message with a content of the body. -/
def wrap (f : Frame) (content : Str) : Str :=
  (Str.whenSome f.declaration fun d => '<' :: ("?xml".toList ++ (d ++ ['?', '>']))) ++
    (f.start ++ (startTag f.envelopeName f.envelopeAttrs ++ (f.beforeBody ++
      (startTag f.bodyName f.bodyAttrs ++ (content ++ f.ending)))))

/-- What stands between the tags of the body. -/
def content (f : Frame) (inner : Str) : Str :=
  f.beforeAction ++ (startTag f.action f.actionAttrs ++
    (inner ++ (endTag f.action ++ f.beforeBodyEnd)))

def text (f : Frame) (inner : Str) : Str := f.wrap (f.content inner)

structure WellFormed (f : Frame) : Prop where
  declaration : ∀ d ∈ f.declaration, d ≠ [] ∧ IsAttrs d
  start : IsBlank f.start
  envelope : ∀ p ∈ f.envelope, IsXmlNcName p
  envelopeAttrs : IsAttrs f.envelopeAttrs
  beforeBody : IsBlank f.beforeBody
  body : ∀ p ∈ f.body, IsXmlNcName p
  bodyAttrs : IsAttrs f.bodyAttrs
  beforeAction : IsBlank f.beforeAction
  action : f.action.WellFormed
  action_ne_body : f.action.name ≠ "Body".toList
  declarations : ∀ d ∈ f.declarations, d.WellFormed
  tail : IsGap f.tail
  service : (f.declarations.find? fun d => d.pre = f.action.pre).map Declaration.value =
    some f.service.fmt
  domain : ':' ∉ f.service.domain
  kind : ':' ∉ f.service.kind
  beforeBodyEnd : IsBlank f.beforeBodyEnd
  beforeEnvelopeEnd : IsBlank f.beforeEnvelopeEnd
  finish : IsBlank f.finish

end Frame

/-! The body -/

theorem findElementBody_tag {before raw : Str} (hbefore : '<' ∉ before) (hraw : '>' ∉ raw)
    (rest name : Str) :
    findElementBody (before ++ '<' :: (raw ++ '>' :: rest)) name =
      if elementName (Str.trim raw) = some name then
        (findCloseForName name rest 0).map fun close => rest.take close.1
      else findElementBody rest name := by
  have hcut : Str.cut ['<'] (before ++ '<' :: (raw ++ '>' :: rest)) =
      some (before, raw ++ '>' :: rest) := Str.cut_char _ hbefore
  have hcut' : Str.cut ['>'] (raw ++ '>' :: rest) = some (raw, rest) := Str.cut_char _ hraw
  rw [findElementBody.eq_def]
  split
  · rename_i hn
    rw [hcut] at hn
    cases hn
  · rename_i hs
    rw [hcut] at hs
    cases hs
    split
    · rename_i hn
      rw [hcut'] at hn
      cases hn
    · rename_i hs'
      rw [hcut'] at hs'
      cases hs'
      rfl

theorem findElementBody_startTag {q : QName} (h : q.WellFormed) (hkept : q.HeadKept ∧ q.LastKept)
    {attrs before : Str} (hattrs : IsAttrs attrs) (hbefore : '<' ∉ before) (rest name : Str) :
    findElementBody (before ++ (startTag q attrs ++ rest)) name =
      if q.name = name then
        (findCloseForName name rest 0).map fun close => rest.take close.1
      else findElementBody rest name := by
  have happ : before ++ (startTag q attrs ++ rest) =
      before ++ '<' :: ((q.text ++ attrs) ++ '>' :: rest) := by simp [startTag]
  have hgt : '>' ∉ q.text ++ attrs := by
    rw [List.mem_append, not_or]
    exact ⟨h.notMem_text (by decide), hattrs.gt⟩
  rw [happ, findElementBody_tag hbefore hgt, h.elementName_trim hattrs hkept.1 (.inl hkept.2)]
  simp only [Option.some.injEq]

theorem findElementBody_declaration {d : Str} (hne : d ≠ []) (h : IsAttrs d) (rest : Str) :
    findElementBody ('<' :: ("?xml".toList ++ (d ++ ['?', '>'])) ++ rest) "Body".toList =
      findElementBody rest "Body".toList := by
  have happ : '<' :: ("?xml".toList ++ (d ++ ['?', '>'])) ++ rest =
      [] ++ '<' :: (("?xml".toList ++ (d ++ ['?'])) ++ '>' :: rest) := by simp
  have hgt : '>' ∉ "?xml".toList ++ (d ++ ['?']) := by
    rw [List.mem_append, List.mem_append, not_or, not_or]
    exact ⟨by decide, h.gt, by decide⟩
  have htrim : Str.trim ("?xml".toList ++ (d ++ ['?'])) =
      "?xml".toList ++ (d ++ ['?']).rdropWhile Str.isWhitespace :=
    Str.trim_word_append (by decide) (by decide) _
  have hmark : (d ++ ['?']).rdropWhile Str.isWhitespace = d ++ ['?'] :=
    List.rdropWhile_concat_neg _ _ _ (by decide)
  have hword : Str.firstWord ("?xml".toList ++ (d ++ ['?'])) = some "?xml".toList := by
    refine Str.firstWord_append (by decide) (by decide) fun c hc => ?_
    rw [List.head?_append_of_ne_nil _ hne] at hc
    exact isAsciiWhitespace_of_isSpace (h.head c hc)
  have hname : elementName ("?xml".toList ++ (d ++ ['?'])) = some "?xml".toList := by
    simp only [elementName, hword, Option.bind_eq_bind, Option.bind_some]
    decide
  rw [happ, findElementBody_tag (by simp) hgt, htrim, hmark, hname, if_neg (by decide)]

/-- A prefixed name, or one of letters, is kept when its tag is trimmed. -/
theorem kept_of_letters {pre : Option Str} {name : Str}
    (hname : ∀ c ∈ name, Str.isWhitespace c = false) :
    QName.HeadKept ⟨pre, name⟩ ∧ QName.LastKept ⟨pre, name⟩ :=
  ⟨fun _ c hc => hname c (List.mem_of_mem_head? hc), fun c hc => hname c (List.mem_of_mem_getLast? hc)⟩

namespace Frame
variable {f : Frame} (h : f.WellFormed)
include h

theorem envelopeName_wellFormed : f.envelopeName.WellFormed := by
  have hname : IsXmlNcName "Envelope".toList := ⟨by decide, by decide⟩
  exact ⟨h.envelope, hname⟩

theorem bodyName_wellFormed : f.bodyName.WellFormed := by
  have hname : IsXmlNcName "Body".toList := ⟨by decide, by decide⟩
  exact ⟨h.body, hname⟩

/-- The body ends where the first end tag of its name is. -/
theorem findElementBody_wrap (content : Str) :
    findElementBody (f.wrap content) "Body".toList =
      (findCloseForName "Body".toList (content ++ f.ending) 0).map fun close =>
        (content ++ f.ending).take close.1 := by
  have henvelope : f.envelopeName.name ≠ "Body".toList := by
    have hne : "Envelope".toList ≠ "Body".toList := by decide
    exact hne
  have hrest : findElementBody (f.start ++ (startTag f.envelopeName f.envelopeAttrs ++
      (f.beforeBody ++ (startTag f.bodyName f.bodyAttrs ++ (content ++ f.ending))))) "Body".toList =
        (findCloseForName "Body".toList (content ++ f.ending) 0).map fun close =>
          (content ++ f.ending).take close.1 := by
    rw [findElementBody_startTag (envelopeName_wellFormed h) (kept_of_letters (by decide))
        h.envelopeAttrs (notMem_blank h.start (by decide)), if_neg henvelope,
      findElementBody_startTag (bodyName_wellFormed h) (kept_of_letters (by decide)) h.bodyAttrs
        (notMem_blank h.beforeBody (by decide)), if_pos (show f.bodyName.name = "Body".toList from rfl)]
  unfold wrap
  cases hd : f.declaration with
  | none => exact hrest
  | some d =>
      obtain ⟨hne, hattrs⟩ := h.declaration d hd
      rw [Str.whenSome_some, findElementBody_declaration hne hattrs]
      exact hrest

theorem findElementBody_of_noEnd {content : Str} (hcontent : NoEnd "Body".toList content) :
    findElementBody (f.wrap content) "Body".toList = some content := by
  have hend : findCloseForName "Body".toList (content ++ f.ending) 0 =
      some (content.length, (endTag f.bodyName).length) := by
    rw [hcontent, ending, findCloseForName_endTag (bodyName_wellFormed h),
      if_pos (show f.bodyName.name = "Body".toList from rfl), Nat.zero_add]
  rw [findElementBody_wrap h, hend, Option.map_some, List.take_left]

end Frame

/-! The action -/

theorem firstChildElement_tag {before raw : Str} (hbefore : '<' ∉ before) (hraw : '>' ∉ raw)
    (rest : Str) :
    firstChildElement (before ++ '<' :: (raw ++ '>' :: rest)) =
      if (Str.trim raw).head? = some '/' ∨ (Str.trim raw).head? = some '!' ∨
          (Str.trim raw).head? = some '?' ∨ (Str.trim raw).getLast? = some '/' then none
      else (elementName (Str.trim raw)).bind fun name =>
        (findCloseForName name rest 0).map fun close => (Str.trim raw, rest.take close.1) := by
  have hcut : Str.cut ['<'] (before ++ '<' :: (raw ++ '>' :: rest)) =
      some (before, raw ++ '>' :: rest) := Str.cut_char _ hbefore
  have hcut' : Str.cut ['>'] (raw ++ '>' :: rest) = some (raw, rest) := Str.cut_char _ hraw
  simp only [firstChildElement, hcut, hcut', Option.bind_eq_bind, Option.bind_some]
  split
  · rfl
  · cases elementName (Str.trim raw) with
    | none => rfl
    | some name =>
        simp only [Option.bind_some]
        cases findCloseForName name rest 0 <;> rfl

/-- No action is found where the body starts with a comment. -/
theorem firstChildElement_comment {before : Str} (hbefore : '<' ∉ before) (rest : Str) :
    firstChildElement (before ++ '<' :: '!' :: rest) = none := by
  cases hcut : Str.cut ['>'] ('!' :: rest) with
  | none =>
      have hcut' : Str.cut ['<'] (before ++ '<' :: '!' :: rest) = some (before, '!' :: rest) :=
        Str.cut_char _ hbefore
      simp only [firstChildElement, hcut', hcut, Option.bind_eq_bind, Option.bind_some, Option.bind_none]
  | some r =>
      obtain ⟨hrest, hraw⟩ := Str.cut_char_eq_some.mp hcut
      obtain ⟨raw, hr⟩ : ∃ raw, r.1 = ['!'] ++ raw := by
        cases hr : r.1 with
        | nil => simp [hr] at hrest
        | cons c raw =>
            rw [hr, List.cons_append] at hrest
            exact ⟨raw, by rw [(List.cons.inj hrest).1]; rfl⟩
      have htrim : Str.trim r.1 = ['!'] ++ raw.rdropWhile Str.isWhitespace := by
        rw [hr, Str.trim_word_append (by simp) (by decide)]
      rw [hrest, firstChildElement_tag hbefore hraw, htrim, if_pos (.inr (.inl rfl))]

namespace Declaration
variable {d : Declaration} (h : d.WellFormed)
include h

/-- A declaration ends with its quotation mark. -/
theorem getLast_write : ∀ c ∈ d.write.getLast?, Str.isWhitespace c = false ∧ c ≠ '/' := by
  have hend : d.write.getLast? = some d.quote := by
    simp [write, List.getLast?_append, List.getLast?_cons]
  intro c hc
  rw [hend] at hc
  obtain rfl := Option.some.inj hc
  rcases h.quote with hq | hq <;> rw [hq] <;> decide

theorem mem_write {c : Char} (hc : c ∈ d.write) : c ≠ '<' ∧ c ≠ '>' := by
  have hspace : ∀ {s : Str}, IsGap s → c ∈ s → c ≠ '<' ∧ c ≠ '>' := by
    intro s hs hm
    rcases isSpace_cases (hs c hm) with rfl | rfl | rfl | rfl <;> decide
  simp only [Declaration.write, List.mem_append, List.mem_cons, List.not_mem_nil, or_false] at hc
  rcases hc with hc | hc | hc | hc | rfl | hc | rfl | hc | rfl
  · exact hspace h.gap hc
  · have hletters : ∀ c ∈ "xmlns".toList, c ≠ '<' ∧ c ≠ '>' := by decide
    exact hletters c hc
  · cases hp : d.pre with
    | none =>
        rw [hp] at hc
        cases hc
    | some p =>
        rw [hp, Str.whenSome_some, List.mem_cons] at hc
        rcases hc with rfl | hc
        · decide
        · have hname := (h.pre p hp).1.name
          exact ⟨fun hlt => notMem_name hname (by decide) (hlt ▸ hc),
            fun hgt => notMem_name hname (by decide) (hgt ▸ hc)⟩
  · exact hspace h.left hc
  · decide
  · exact hspace h.right hc
  · rcases h.quote with hq | hq <;> rw [hq] <;> decide
  · exact ⟨fun hlt => h.value.2.2.1 (hlt ▸ hc), fun hgt => h.value.2.2.2 (hgt ▸ hc)⟩
  · rcases h.quote with hq | hq <;> rw [hq] <;> decide

end Declaration

namespace Frame
variable {f : Frame} (h : f.WellFormed)
include h

theorem isAttrs_actionAttrs : IsAttrs f.actionAttrs := by
  have hmem : ∀ c, isSpace c = false → (∀ d ∈ f.declarations, c ∉ d.write) → c ∉ f.actionAttrs := by
    intro c hc hd hm
    rcases List.mem_append.mp hm with hm | hm
    · obtain ⟨d, hdm, hcd⟩ := List.mem_flatMap.mp hm
      exact hd d hdm hcd
    · exact notMem_gap h.tail hc hm
  refine ⟨fun c hc => ?_, hmem '<' (by decide) fun d hd hm => ?_, hmem '>' (by decide) fun d hd hm => ?_⟩
  · unfold actionAttrs at hc
    cases hds : f.declarations with
    | nil =>
        rw [hds, List.flatMap_nil, List.nil_append] at hc
        exact h.tail c (List.mem_of_mem_head? hc)
    | cons d ds =>
        have hv := h.declarations d (hds ▸ List.mem_cons_self ..)
        rw [hds, List.flatMap_cons, Declaration.write, List.append_assoc, List.append_assoc,
          List.head?_append_of_ne_nil _ hv.gap_ne_nil] at hc
        exact hv.gap c (List.mem_of_mem_head? hc)
  · exact (Declaration.mem_write (h.declarations d hd) hm).1 rfl
  · exact (Declaration.mem_write (h.declarations d hd) hm).2 rfl

/-- The declaration of the prefix of the action. -/
theorem exists_declaration :
    ∃ d ∈ f.declarations, d.pre = f.action.pre ∧ d.value = f.service.fmt := by
  obtain ⟨d, hd, hv⟩ := Option.map_eq_some_iff.mp h.service
  exact ⟨d, List.mem_of_find?_eq_some hd, by simpa using List.find?_some hd, hv⟩

theorem exists_concat : ∃ ds d, f.declarations = ds ++ [d] ∧ d.WellFormed := by
  obtain ⟨e, he, -⟩ := exists_declaration h
  obtain ⟨ds, d, hds⟩ := List.eq_nil_or_concat f.declarations |>.resolve_left
    (List.ne_nil_of_mem he)
  exact ⟨ds, d, by rw [hds, List.concat_eq_append], h.declarations d (by simp [hds])⟩

/-- The text of the declarations ends with a quotation mark. -/
theorem getLast_declarations :
    f.declarations.flatMap Declaration.write ≠ [] ∧
      ∀ c ∈ (f.declarations.flatMap Declaration.write).getLast?,
        Str.isWhitespace c = false ∧ c ≠ '/' := by
  obtain ⟨ds, d, hds, hd⟩ := exists_concat h
  have hne : d.write ≠ [] := by simp [Declaration.write]
  have htext : f.declarations.flatMap Declaration.write =
      ds.flatMap Declaration.write ++ d.write := by
    rw [hds, List.flatMap_append, List.flatMap_singleton]
  refine ⟨by rw [htext]; simp [hne], fun c hc => ?_⟩
  rw [htext, List.getLast?_append, List.getLast?_eq_some_getLast hne] at hc
  exact Declaration.getLast_write hd c (by rw [List.getLast?_eq_some_getLast hne]; exact hc)

/-- The white space behind the declarations is trimmed away. -/
theorem rdropWhile_actionAttrs :
    f.actionAttrs.rdropWhile Str.isWhitespace = f.declarations.flatMap Declaration.write := by
  obtain ⟨hne, hlast⟩ := getLast_declarations h
  have hkeep : (f.declarations.flatMap Declaration.write).rdropWhile Str.isWhitespace =
      f.declarations.flatMap Declaration.write := by
    rw [List.rdropWhile_eq_self_iff]
    intro hne
    rw [(hlast _ (List.getLast?_eq_some_getLast hne)).1]
    exact Bool.false_ne_true
  have htail : f.tail.reverse.dropWhile Str.isWhitespace = [] :=
    List.dropWhile_eq_nil_iff.mpr fun c hc =>
      isWhitespace_of_isSpace (h.tail c (List.mem_reverse.mp hc))
  rw [actionAttrs, List.rdropWhile, List.reverse_append, List.dropWhile_append, htail,
    List.isEmpty_nil, if_pos rfl]
  exact hkeep

omit h in
/-- The tag of the action as the parser keeps it. -/
def actionTag (f : Frame) : Str := f.action.started.text ++ f.declarations.flatMap Declaration.write

theorem trim_actionTag (hhead : f.action.HeadKept) :
    Str.trim (f.action.text ++ f.actionAttrs) = f.actionTag := by
  have hattrs := rdropWhile_actionAttrs h
  rw [h.action.trim_text hhead (.inr (by rw [hattrs]; exact (getLast_declarations h).1)), hattrs,
    actionTag]

theorem head_declarations : ∀ c ∈ (f.declarations.flatMap Declaration.write).head?, isSpace c = true := by
  obtain ⟨e, he, -⟩ := exists_declaration h
  obtain ⟨d, ds, hds⟩ := List.exists_cons_of_ne_nil (List.ne_nil_of_mem he)
  have hd := h.declarations d (hds ▸ List.mem_cons_self ..)
  intro c hc
  rw [hds, List.flatMap_cons, Declaration.write, List.append_assoc,
    List.head?_append_of_ne_nil _ hd.gap_ne_nil] at hc
  exact hd.gap c (List.mem_of_mem_head? hc)

theorem elementName_actionTag : elementName f.actionTag = some f.action.name :=
  h.action.splits_started.elementName_text (head_declarations h)

theorem elementPrefix_actionTag : elementPrefix f.actionTag = f.action.started.pre :=
  h.action.splits_started.elementPrefix_text (head_declarations h)

/-- The tag of the action is taken for a start tag. -/
theorem actionTag_markup (hhead : f.action.HeadKept) :
    ¬ (f.actionTag.head? = some '/' ∨ f.actionTag.head? = some '!' ∨ f.actionTag.head? = some '?' ∨
      f.actionTag.getLast? = some '/') := by
  have hlast : f.actionTag.getLast? ≠ some '/' := by
    obtain ⟨hne, hend⟩ := getLast_declarations h
    intro hc
    rw [actionTag, List.getLast?_append, List.getLast?_eq_some_getLast hne] at hc
    exact (hend '/' (by rw [List.getLast?_eq_some_getLast hne]; exact hc)).2 rfl
  have hmem : ∀ c ∈ f.actionTag.head?, isNameChar c = true := by
    intro c hc
    rw [actionTag, ← h.action.dropWhile_text hhead] at hc
    refine h.action.mem_text ((List.dropWhile_suffix Str.isWhitespace).subset ?_)
    rw [List.head?_append_of_ne_nil] at hc
    · exact List.mem_of_mem_head? hc
    · rw [h.action.dropWhile_text hhead, QName.text]
      simp [QName.started, h.action.name_ne_nil]
  have hhead' : ∀ c, isNameChar c = false → f.actionTag.head? ≠ some c := by
    intro c hc hm
    rw [hmem c hm] at hc
    cases hc
  rintro (hc | hc | hc | hc)
  · exact hhead' '/' (by decide) hc
  · exact hhead' '!' (by decide) hc
  · exact hhead' '?' (by decide) hc
  · exact hlast hc

/-- The action in a body that starts with its start tag ends at the first end tag of its name. -/
theorem firstChildElement_action (hhead : f.action.HeadKept) (rest : Str) :
    firstChildElement (f.beforeAction ++ (startTag f.action f.actionAttrs ++ rest)) =
      (findCloseForName f.action.name rest 0).map fun close => (f.actionTag, rest.take close.1) := by
  have happ : f.beforeAction ++ (startTag f.action f.actionAttrs ++ rest) =
      f.beforeAction ++ '<' :: ((f.action.text ++ f.actionAttrs) ++ '>' :: rest) := by
    simp [startTag]
  have hgt : '>' ∉ f.action.text ++ f.actionAttrs := by
    rw [List.mem_append, not_or]
    exact ⟨h.action.notMem_text (by decide), (isAttrs_actionAttrs h).gt⟩
  rw [happ, firstChildElement_tag (notMem_blank h.beforeAction (by decide)) hgt,
    trim_actionTag h hhead, if_neg (actionTag_markup h hhead), elementName_actionTag h,
    Option.bind_some]

omit h in
/-- The value of the declaration that the parser takes for that of the prefix of the action. -/
def declaredNamespace (f : Frame) : Option Str :=
  (f.declarations.find? (Declaration.readsAs f.action.started.pre)).map Declaration.value

theorem findNamespace_actionTag :
    findNamespace f.actionTag f.action.started.pre = f.declaredNamespace := by
  obtain ⟨e, he, hpre, -⟩ := exists_declaration h
  obtain ⟨d, ds, hds⟩ := List.exists_cons_of_ne_nil (List.ne_nil_of_mem he)
  have hd := h.declarations d (hds ▸ List.mem_cons_self ..)
  have hnext : (trimStart (f.declarations.flatMap Declaration.write)).head? ≠ some '=' := by
    have hx : ∀ s, trimStart ("xmlns".toList ++ s) = "xmlns".toList ++ s := fun s =>
      trimStart_cons (by decide) _
    rw [hds, List.flatMap_cons, Declaration.write_append, trimStart_gap hd.gap, hx]
    simp
  have hspace : ∃ c s, f.declarations.flatMap Declaration.write = c :: s ∧ isSpace c = true := by
    obtain ⟨c, s, hcs⟩ := List.exists_cons_of_ne_nil (getLast_declarations h).1
    exact ⟨c, s, hcs, head_declarations h c (by rw [hcs]; rfl)⟩
  have hchars : ∀ p ∈ f.action.started.pre, ∀ c ∈ p, isNameChar c = true := by
    intro p hp c hc
    obtain ⟨p', hp', rfl⟩ := Option.mem_map.mp hp
    exact isNameChar_of_isName (h.action.pre p' hp').name c ((List.dropWhile_suffix _).subset hc)
  have hname : findNamespace (f.action.name ++ f.declarations.flatMap Declaration.write)
      f.action.started.pre = f.declaredNamespace := by
    rw [findNamespace_name h.action.name.colon (notMem_name h.action.name.name (by decide)) hspace
      hnext, findNamespace_declarations h.declarations hchars, declaredNamespace]
  cases hp : f.action.pre with
  | none =>
      have htext : f.action.started.text = f.action.name := by
        simp [QName.text, QName.started, hp]
      rw [actionTag, htext]
      exact hname
  | some p =>
      have htext : f.action.started.text = p.dropWhile Str.isWhitespace ++ ':' :: f.action.name := by
        simp [QName.text, QName.started, hp]
      have hfree : Str.find "xmlns".toList (p.dropWhile Str.isWhitespace) = none := by
        have hnone := ((h.declarations e he).pre p (by rw [hpre, hp]; rfl)).2
        rw [← List.takeWhile_append_dropWhile (p := Str.isWhitespace) (l := p)] at hnone
        exact Str.find_eq_none_of_suffix hnone
      rw [actionTag, htext, List.append_assoc, List.cons_append,
        findNamespace_word hfree (by decide),
        findNamespace_cons (fun hx => absurd (List.cons_prefix_cons.mp hx).1 (by decide))]
      exact hname

omit h in
/-- What the parser gives for the action with what it takes for its inside. -/
def read (f : Frame) (inner : Str) : Except ParseError ActionRequestRef :=
  match f.declaredNamespace with
  | none => .error .missingNamespace
  | some ns =>
      (parseServiceTypeUrn ns).map fun service =>
        { serviceType := service, actionName := f.action.name, argumentsXml := inner }

/-- A frame whose action and service are read as they are written. -/
structure Legible (f : Frame) : Prop where
  headKept : f.action.HeadKept
  service : ∃ ns, f.declaredNamespace = some ns ∧ parseServiceTypeUrn ns = .ok f.service

omit h in
theorem Legible.read_eq (h : f.Legible) (inner : Str) :
    f.read inner =
      .ok { serviceType := f.service, actionName := f.action.name, argumentsXml := inner } := by
  obtain ⟨ns, hns, hurn⟩ := h.service
  rw [read, hns]
  dsimp only
  rw [hurn]
  rfl

/-- What the parser gives for a body that starts with the start tag of the action. -/
theorem parseActionRequest_wrap (hhead : f.action.HeadKept) {content rest : Str}
    (hbody : findElementBody (f.wrap content) "Body".toList =
      some (f.beforeAction ++ (startTag f.action f.actionAttrs ++ rest))) :
    parseActionRequest (f.wrap content) =
      match findCloseForName f.action.name rest 0 with
      | none => .error .missingAction
      | some close => f.read (rest.take close.1) := by
  rw [parseActionRequest, hbody]
  dsimp only
  rw [firstChildElement_action h hhead]
  cases findCloseForName f.action.name rest 0 with
  | none => rfl
  | some close =>
      simp only [Option.map_some, elementName_actionTag h, elementPrefix_actionTag h,
        findNamespace_actionTag h, read]
      cases f.declaredNamespace with
      | none => rfl
      | some ns =>
          dsimp only
          cases parseServiceTypeUrn ns <;> rfl

theorem noEnd_actionStart (name : Str) :
    NoEnd name (f.beforeAction ++ startTag f.action f.actionAttrs) :=
  (noEnd_blank h.beforeAction name).append
    ((closeFree_startTag h.action (isAttrs_actionAttrs h).lt).noEnd name)

theorem noEnd_content {inner : Str} (hinner : NoEnd "Body".toList inner) :
    NoEnd "Body".toList (f.content inner) := by
  rw [content, ← List.append_assoc]
  exact (noEnd_actionStart h _).append (hinner.append
    ((noEnd_endTag h.action h.action_ne_body).append (noEnd_blank h.beforeBodyEnd _)))

/-- The parser reads the action of a message whose inside has no end tag of the action or of
the body. -/
theorem parseActionRequest_text (hhead : f.action.HeadKept) {inner : Str}
    (haction : NoEnd f.action.name inner) (hbody : NoEnd "Body".toList inner) :
    parseActionRequest (f.text inner) = f.read inner := by
  have hclose : findCloseForName f.action.name (inner ++ (endTag f.action ++ f.beforeBodyEnd)) 0 =
      some (inner.length, (endTag f.action).length) := by
    rw [haction, findCloseForName_endTag h.action, if_pos rfl, Nat.zero_add]
  have hread : parseActionRequest (f.wrap (f.content inner)) = _ :=
    parseActionRequest_wrap h hhead (findElementBody_of_noEnd h (noEnd_content h hbody))
  rw [text, hread, hclose]
  dsimp only
  rw [List.take_left]

end Frame

end RustyCastle.Upnp
