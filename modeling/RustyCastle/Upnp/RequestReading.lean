import RustyCastle.Upnp.SoapReading

/-!
When the parser reads a request as it is written. Of the characters that XML has in names one
is white space to the trimming of a start tag. At the ends of a name it decides what is read.
-/

namespace RustyCastle.Upnp
open Foundation Foundation.Xml

/-! Names of tags -/

theorem elementName_eq_some {tag name : Str} (h : elementName tag = some name) :
    ∃ word, Str.firstWord tag = some word ∧ name ≠ [] ∧
      (name = word ∨ ∃ before, word = before ++ ':' :: name) := by
  obtain ⟨word, hword, h⟩ := Option.bind_eq_some_iff.mp h
  refine ⟨word, hword, ?_⟩
  dsimp only at h
  split at h
  · cases h
  · rename_i hne
    obtain rfl := Option.some.inj h
    refine ⟨by simpa using hne, ?_⟩
    cases hsplit : Str.rsplitOnce ':' word with
    | none => exact .inl rfl
    | some parts =>
        obtain ⟨⟨u, r⟩, hcut, rfl⟩ := Option.map_eq_some_iff.mp hsplit
        have hword := (Str.cut_char_eq_some.mp hcut).1
        refine .inr ⟨r.reverse, ?_⟩
        rw [← List.reverse_reverse word, hword]
        simp

theorem firstWord_word {word : Str} (hne : word ≠ [])
    (hword : ∀ c ∈ word, Str.isAsciiWhitespace c = false) : Str.firstWord word = some word := by
  have h : Str.firstWord (word ++ []) = some word := Str.firstWord_append hne hword nofun
  rwa [List.append_nil] at h

theorem QName.started_text_none {q : QName} (h : q.pre = none) : q.text = q.name := by
  rw [text, h, Str.whenSome_none, List.nil_append]

/-- A name is read from its trimmed tag exactly when it is kept. -/
theorem QName.WellFormed.elementName_trim_iff {q : QName} (h : q.WellFormed) :
    elementName (Str.trim q.text) = some q.name ↔ q.HeadKept ∧ q.LastKept := by
  constructor
  · intro hname
    have hascii : ∀ c ∈ Str.trim q.text, Str.isAsciiWhitespace c = false := fun c hc =>
      isAsciiWhitespace_of_isNameChar (h.mem_text (Str.mem_of_mem_trim hc))
    obtain ⟨word, hword, hne, hcases⟩ := elementName_eq_some hname
    have htrim : word = Str.trim q.text := by
      by_cases hnil : Str.trim q.text = []
      · rw [hnil] at hword
        cases hword
      · exact Option.some.inj (hword.symm.trans (firstWord_word hnil hascii))
    subst htrim
    obtain ⟨hhead, hlast⟩ := Str.trimmed_trim q.text
    constructor
    · intro hpre c hc
      obtain hself | ⟨before, hsplit⟩ := hcases
      · exact hhead c (by rw [← hself]; exact hc)
      · have hmem : ':' ∈ Str.trim q.text := by rw [hsplit]; simp
        rw [QName.started_text_none hpre] at hmem
        exact absurd (Str.mem_of_mem_trim hmem) h.name.colon
    · intro c hc
      refine hlast c ?_
      obtain hself | ⟨before, hsplit⟩ := hcases
      · rw [← hself]
        exact hc
      · rw [hsplit, List.getLast?_append, List.getLast?_cons_of_ne_nil hne, Option.mem_def.mp hc]
        rfl
  · intro hkept
    have hname := h.elementName_trim isAttrs_nil hkept.1 (.inl hkept.2)
    rwa [List.append_nil] at hname

/-! Arguments -/

/-- The iterator gives the arguments as they are written exactly when all their names are kept. -/
theorem arguments_eq_iff {as : List ArgumentElement} (h : ∀ a ∈ as, a.WellFormed) {blank : Str}
    (hblank : IsBlank blank) :
    arguments (as.flatMap ArgumentElement.write ++ blank) = as.map ArgumentElement.read ↔
      ∀ a ∈ as, a.name.HeadKept ∧ a.name.LastKept := by
  induction as with
  | nil =>
      have hnone : arguments blank = [] :=
        arguments_of_none (nextArgument_blank (notMem_blank hblank (by decide)))
      simpa using hnone
  | cons a as ih =>
      rw [List.forall_mem_cons] at h ⊢
      by_cases hkept : a.name.HeadKept ∧ a.name.LastKept
      · rw [List.flatMap_cons, List.append_assoc,
          arguments_of_some (ArgumentElement.nextArgument_write h.1 hkept _), List.map_cons,
          List.cons_inj_right, ih h.2]
        exact (and_iff_right hkept).symm
      · refine iff_of_false (fun heq => ?_) fun hall => hkept hall.1
        rw [List.flatMap_cons, List.append_assoc, List.map_cons] at heq
        cases hnext : nextArgument (a.write ++ (as.flatMap ArgumentElement.write ++ blank)) with
        | none =>
            rw [arguments_of_none hnext] at heq
            cases heq
        | some r =>
            rw [arguments_of_some hnext] at heq
            have hread : r.1 = a.read := (List.cons.inj heq).1
            rw [ArgumentElement.nextArgument_element h.1] at hnext
            obtain ⟨name, hname, hnext⟩ := Option.bind_eq_some_iff.mp hnext
            obtain ⟨close, -, rfl⟩ := Option.map_eq_some_iff.mp hnext
            obtain rfl : name = a.name.name := congrArg ArgumentRef.name hread
            exact hkept (h.1.name.elementName_trim_iff.mp hname)

/-! The action -/

/-- What a request that is parsed has in its body. -/
theorem parseActionRequest_ok {input : Str} {request : ActionRequestRef}
    (h : parseActionRequest input = .ok request) :
    ∃ body tag, findElementBody input "Body".toList = some body ∧
      (∃ inner, firstChildElement body = some (tag, inner)) ∧
      elementName tag = some request.actionName ∧
      (findNamespace tag (elementPrefix tag)).isSome = true := by
  rw [parseActionRequest] at h
  cases hbody : findElementBody input "Body".toList with
  | none =>
      rw [hbody] at h
      cases h
  | some body =>
      rw [hbody] at h
      dsimp only at h
      cases hchild : firstChildElement body with
      | none =>
          rw [hchild] at h
          cases h
      | some child =>
          rw [hchild] at h
          dsimp only at h
          cases hname : elementName child.1 with
          | none =>
              rw [hname] at h
              cases h
          | some name =>
              rw [hname] at h
              dsimp only at h
              cases hns : findNamespace child.1 (elementPrefix child.1) with
              | none =>
                  rw [hns] at h
                  cases h
              | some ns =>
                  rw [hns] at h
                  dsimp only at h
                  cases hservice : parseServiceTypeUrn ns with
                  | error e =>
                      rw [hservice] at h
                      cases h
                  | ok service =>
                      rw [hservice] at h
                      cases h
                      exact ⟨body, child.1, rfl, ⟨child.2, hchild⟩, hname, by rw [hns]; rfl⟩

/-- A text that starts with the word `xmlns` has it at the start of its first word. -/
theorem firstWord_xmlns (rest : Str) :
    ∃ r, Str.firstWord ("xmlns".toList ++ rest) = some ("xmlns".toList ++ r) := by
  refine ⟨rest.takeWhile (! Str.isAsciiWhitespace ·), ?_⟩
  have hdrop : ("xmlns".toList ++ rest).dropWhile Str.isAsciiWhitespace = "xmlns".toList ++ rest := rfl
  rw [Str.firstWord, hdrop, List.takeWhile_append_of_pos (by decide)]
  rfl

/-- An element whose name is the word `xmlns` has no namespace, whatever the declarations. -/
theorem findNamespace_xmlns {ds : List Declaration} (h : ∀ d ∈ ds, d.WellFormed) {p : Str}
    (hp : "xmlns".toList <+: p) : findNamespace (ds.flatMap Declaration.write) (some p) = none := by
  induction ds with
  | nil => exact findNamespace_nil _
  | cons d ds ih =>
      rw [List.forall_mem_cons] at h
      rw [List.flatMap_cons, Declaration.findNamespace_write_xmlns h.1 hp, ih h.2]

namespace Frame
variable {f : Frame} (h : f.WellFormed)
include h

/-- The declarations without the white space in front of them start with the word. -/
theorem dropWhile_declarations :
    ∃ gap rest, f.declarations.flatMap Declaration.write = gap ++ ("xmlns".toList ++ rest) ∧ IsGap gap := by
  obtain ⟨e, he, -⟩ := exists_declaration h
  obtain ⟨d, ds, hds⟩ := List.exists_cons_of_ne_nil (List.ne_nil_of_mem he)
  have hd := h.declarations d (hds ▸ List.mem_cons_self ..)
  exact ⟨d.gap, _, by rw [hds, List.flatMap_cons, Declaration.write_append], hd.gap⟩

/-- A name of white space only is trimmed away, and what is read in its place has no namespace. -/
theorem not_read_of_blank {c : Char} (hc : c ∈ f.action.name.head?) (hspace : Str.isWhitespace c = true)
    {gap rest : Str} (hds : f.declarations.flatMap Declaration.write = gap ++ ("xmlns".toList ++ rest))
    (hgap : IsGap gap) (hname : elementName ("xmlns".toList ++ rest) = some f.action.name) :
    findNamespace ("xmlns".toList ++ rest) (elementPrefix ("xmlns".toList ++ rest)) = none := by
  obtain ⟨r, hword⟩ := firstWord_xmlns rest
  obtain ⟨word, hword', -, hcases⟩ := elementName_eq_some hname
  obtain rfl : "xmlns".toList ++ r = word := Option.some.inj (hword.symm.trans hword')
  have hcolon : ∃ before, "xmlns".toList ++ r = before ++ ':' :: f.action.name := by
    refine hcases.resolve_left fun hself => ?_
    rw [hself] at hc
    obtain rfl : 'x' = c := Option.some.inj hc
    revert hspace
    decide
  obtain ⟨before, hsplit⟩ := hcolon
  have hmem : ':' ∈ "xmlns".toList ++ r := by rw [hsplit]; simp
  cases hcut : Str.cut [':'] ("xmlns".toList ++ r) with
  | none =>
      rw [Str.cut, Option.map_eq_none_iff, Str.find_char_eq_none] at hcut
      exact absurd hmem hcut
  | some parts =>
      have hpre : elementPrefix ("xmlns".toList ++ rest) = some parts.1 := by
        simp only [elementPrefix, hword, hcut, Option.bind_eq_bind, Option.bind_some, Option.map_some]
      have hp : "xmlns".toList <+: parts.1 := by
        refine Str.prefix_of_notMem (c := ':') (t := parts.2) ?_ (by decide)
        rw [← (Str.cut_char_eq_some.mp hcut).1]
        exact List.prefix_append ..
      have hnone := findNamespace_xmlns h.declarations hp
      rw [hds, findNamespace_skip fun c hc => notMem_xmlns_of_isSpace (hgap c hc)] at hnone
      rw [hpre, hnone]

/-- A request is read with the name of its action only where the start of the name is kept. -/
theorem headKept_of_named {inner : Str} (hbody : NoEnd "Body".toList inner) {request : ActionRequestRef}
    (hparse : parseActionRequest (f.text inner) = .ok request)
    (hname : request.actionName = f.action.name) : f.action.HeadKept := by
  intro hpre c hc
  by_contra hspace
  rw [Bool.not_eq_false] at hspace
  obtain ⟨body, tag, hbody', ⟨inner', hchild⟩, htag, hns⟩ := parseActionRequest_ok hparse
  rw [text, findElementBody_of_noEnd h (noEnd_content h hbody)] at hbody'
  obtain rfl := Option.some.inj hbody'
  have hgt : '>' ∉ f.action.text ++ f.actionAttrs := by
    rw [List.mem_append, not_or]
    exact ⟨h.action.notMem_text (by decide), (isAttrs_actionAttrs h).gt⟩
  have htrim : tag = Str.trim (f.action.text ++ f.actionAttrs) := by
    have happ : f.content inner = f.beforeAction ++ '<' :: ((f.action.text ++ f.actionAttrs) ++
        '>' :: (inner ++ (endTag f.action ++ f.beforeBodyEnd))) := by
      simp [content, startTag]
    rw [happ, firstChildElement_tag (notMem_blank h.beforeAction (by decide)) hgt] at hchild
    split at hchild
    · cases hchild
    · obtain ⟨name, -, hchild⟩ := Option.bind_eq_some_iff.mp hchild
      obtain ⟨close, -, hchild⟩ := Option.map_eq_some_iff.mp hchild
      exact (congrArg Prod.fst hchild).symm
  rw [hname] at htag
  have htext : f.action.text = f.action.name := QName.started_text_none hpre
  have hattrs := rdropWhile_actionAttrs h
  obtain ⟨hne, hlast⟩ := getLast_declarations h
  by_cases hblank : f.action.name.dropWhile Str.isWhitespace = []
  · obtain ⟨gap, rest, hds, hgap⟩ := dropWhile_declarations h
    have hdrop : (f.declarations.flatMap Declaration.write).dropWhile Str.isWhitespace =
        "xmlns".toList ++ rest := by
      rw [hds, List.dropWhile_append_of_pos fun c hc => isWhitespace_of_isSpace (hgap c hc)]
      rfl
    have htail : f.tail.rdropWhile Str.isWhitespace = [] := by
      rw [List.rdropWhile_eq_nil_iff]
      exact fun c hc => isWhitespace_of_isSpace (h.tail c hc)
    have hname' : (f.action.name ++ f.actionAttrs).dropWhile Str.isWhitespace =
        f.actionAttrs.dropWhile Str.isWhitespace :=
      List.dropWhile_append_of_pos fun c hc => List.dropWhile_eq_nil_iff.mp hblank c hc
    have htag' : tag = "xmlns".toList ++ rest := by
      rw [htrim, htext, Str.trim, hname']
      change Str.trim (f.declarations.flatMap Declaration.write ++ f.tail) = _
      rw [Str.trim_append (by rw [hdrop]; simp) (.inl fun c hc => (hlast c hc).1), hdrop, htail,
        List.append_nil]
    rw [htag'] at htag hns
    rw [not_read_of_blank h hc hspace hds hgap htag] at hns
    cases hns
  · have hsplits : QName.Splits ⟨none, f.action.name.dropWhile Str.isWhitespace⟩ :=
      { word := fun c hc => h.action.splits.word c
          (by rw [htext]; exact (List.dropWhile_suffix _).subset hc)
        pre p hp := by cases hp
        name := fun hm => h.action.name.colon ((List.dropWhile_suffix _).subset hm)
        name_ne_nil := hblank }
    have hread := hsplits.elementName_text (head_declarations h)
    rw [htrim, htext, Str.trim_append hblank (.inr (by rw [hattrs]; exact hne)), hattrs] at htag
    have hsame : f.action.name.dropWhile Str.isWhitespace = f.action.name :=
      Option.some.inj (hread.symm.trans htag)
    have hkeep := List.head?_dropWhile_not Str.isWhitespace f.action.name
    rw [hsame, hc] at hkeep
    simp [hspace] at hkeep

end Frame

/-- A request is read as it is written exactly when the start of the name of its action is kept,
the declaration taken for that of its prefix names the same service, and the names of all
arguments are kept. -/
theorem request_read_iff {f : Frame} (h : f.WellFormed) {as : List ArgumentElement}
    (has : ∀ a ∈ as, a.WellFormed)
    (hne : ∀ a ∈ as, a.name.name ≠ f.action.name ∧ a.name.name ≠ "Body".toList) {blank : Str}
    (hblank : IsBlank blank) :
    (∃ request, parseActionRequest (f.text (as.flatMap ArgumentElement.write ++ blank)) = .ok request ∧
        request.actionName = f.action.name ∧ request.serviceType = f.service ∧
        request.arguments = as.map ArgumentElement.read) ↔
      f.action.HeadKept ∧
        (∃ ns, f.declaredNamespace = some ns ∧ parseServiceTypeUrn ns = .ok f.service) ∧
        ∀ a ∈ as, a.name.HeadKept ∧ a.name.LastKept := by
  have hend : ∀ name, (∀ a ∈ as, a.name.name ≠ name) →
      NoEnd name (as.flatMap ArgumentElement.write ++ blank) := fun name hname =>
    (noEnd_flatMap fun a ha => ArgumentElement.noEnd_write (has a ha) (hname a ha)).append
      (noEnd_blank hblank name)
  have haction := hend _ fun a ha => (hne a ha).1
  have hbody := hend _ fun a ha => (hne a ha).2
  constructor
  · rintro ⟨request, hparse, hname, hservice, harguments⟩
    have hhead := Frame.headKept_of_named h hbody hparse hname
    rw [Frame.parseActionRequest_text h hhead haction hbody, Frame.read] at hparse
    cases hns : f.declaredNamespace with
    | none =>
        rw [hns] at hparse
        cases hparse
    | some ns =>
        rw [hns] at hparse
        dsimp only at hparse
        cases hurn : parseServiceTypeUrn ns with
        | error e =>
            rw [hurn] at hparse
            cases hparse
        | ok service =>
            rw [hurn] at hparse
            cases hparse
            obtain rfl : service = f.service := hservice
            exact ⟨hhead, ⟨ns, rfl, hurn⟩, (arguments_eq_iff has hblank).mp harguments⟩
  · rintro ⟨hhead, ⟨ns, hns, hurn⟩, hkept⟩
    refine ⟨{ serviceType := f.service, actionName := f.action.name, argumentsXml := _ }, ?_, rfl,
      rfl, (arguments_eq_iff has hblank).mpr hkept⟩
    rw [Frame.parseActionRequest_text h hhead haction hbody, Frame.read, hns]
    dsimp only
    rw [hurn]
    rfl

/-! A request with one argument -/

def browseFrame : Frame where
  declaration := none
  start := []
  envelope := some "s".toList
  envelopeAttrs := " xmlns:s=\"http://schemas.xmlsoap.org/soap/envelope/\"".toList
  beforeBody := []
  body := some "s".toList
  bodyAttrs := []
  beforeAction := []
  action := ⟨some "u".toList, "Browse".toList⟩
  declarations :=
    [{ gap := [' ']
       pre := some "u".toList
       left := []
       right := []
       quote := '"'
       value := "urn:schemas-upnp-org:service:ContentDirectory:1".toList }]
  tail := []
  beforeBodyEnd := []
  beforeEnvelopeEnd := []
  finish := []
  service :=
    { domain := "schemas-upnp-org".toList, kind := "ContentDirectory".toList, version := 1 }

instance (s : Str) : Decidable (IsXmlNcName s) :=
  decidable_of_iff (isName s = true ∧ ':' ∉ s) ⟨fun h => ⟨h.1, h.2⟩, fun h => ⟨h.name, h.colon⟩⟩

theorem browseFrame_wellFormed : browseFrame.WellFormed := by
  have hs : ∀ p ∈ some "s".toList, IsXmlNcName p := by decide
  have hu : ∀ p ∈ some "u".toList, IsXmlNcName p ∧ Str.find "xmlns".toList p = none := by decide
  have henvelope : IsAttrs browseFrame.envelopeAttrs := ⟨by decide, by decide, by decide⟩
  have haction : IsXmlNcName "Browse".toList ∧ "Browse".toList ≠ "Body".toList := by decide
  have hspace : IsGap [' '] := by
    unfold IsGap
    decide
  have hvalue : ∀ d ∈ browseFrame.declarations,
      ('"' ∉ d.value ∧ '\'' ∉ d.value ∧ '<' ∉ d.value ∧ '>' ∉ d.value) ∧
        Str.find "xmlns".toList d.value = none := by decide
  have hservice : ':' ∉ browseFrame.service.domain ∧ ':' ∉ browseFrame.service.kind := by decide
  exact
    { declaration := nofun
      start := nofun
      envelope := hs
      envelopeAttrs := henvelope
      beforeBody := nofun
      body := hs
      bodyAttrs := isAttrs_nil
      beforeAction := nofun
      action := ⟨fun p hp => (hu p hp).1, haction.1⟩
      action_ne_body := haction.2
      declarations := by
        intro d hd
        obtain ⟨hmarks, hxmlns⟩ := hvalue d hd
        obtain rfl := List.mem_singleton.mp hd
        exact ⟨hspace, List.cons_ne_nil _ _, hu, nofun, nofun, .inl rfl, hmarks, hxmlns⟩
      tail := nofun
      service := by decide
      domain := hservice.1
      kind := hservice.2
      beforeBodyEnd := nofun
      beforeEnvelopeEnd := nofun
      finish := nofun }

theorem browseFrame_headKept : browseFrame.action.HeadKept := fun hpre => by cases hpre

theorem browseFrame_legible : browseFrame.Legible := ⟨browseFrame_headKept, _, rfl, by decide⟩

/-- An argument whose name is one character. -/
def oneCharArgument (c : Char) : ArgumentElement where
  gap := []
  name := ⟨none, [c]⟩
  text := ['0']

theorem request_read_iff_letter :
    ∃ request, parseActionRequest
        (browseFrame.text ([oneCharArgument 'A'].flatMap ArgumentElement.write ++ [])) = .ok request ∧
      request.actionName = "Browse".toList ∧ request.serviceType = browseFrame.service ∧
      request.arguments = [{ name := ['A'], value := ['0'] }] := by
  have hname : IsXmlNcName ['A'] := by decide
  have has : ∀ a ∈ [oneCharArgument 'A'], a.WellFormed := by
    intro a ha
    obtain rfl := List.mem_singleton.mp ha
    exact ⟨nofun, ⟨nofun, hname⟩, by decide⟩
  have hkept : ∀ a ∈ [oneCharArgument 'A'], a.name.HeadKept ∧ a.name.LastKept := by
    intro a ha
    obtain rfl := List.mem_singleton.mp ha
    exact kept_of_letters (by decide)
  have hne : ∀ a ∈ [oneCharArgument 'A'], a.name.name ≠ browseFrame.action.name ∧
      a.name.name ≠ "Body".toList := by decide
  exact (request_read_iff browseFrame_wellFormed has hne isBlank_nil).mpr
    ⟨browseFrame_headKept, ⟨_, rfl, by decide⟩, hkept⟩

/-- A name of XML that is white space to the trimming is lost from the start tag, and the argument
with it. -/
theorem request_loses_ogham_name :
    (oneCharArgument '\u1680').WellFormed ∧
      ∃ request, parseActionRequest
          (browseFrame.text ([oneCharArgument '\u1680'].flatMap ArgumentElement.write ++ [])) =
            .ok request ∧
        request.arguments ≠ [(oneCharArgument '\u1680').read] := by
  have hname : IsXmlNcName ['\u1680'] := by decide
  have hwellFormed : (oneCharArgument '\u1680').WellFormed := ⟨nofun, ⟨nofun, hname⟩, by decide⟩
  have hend : ∀ name, ['\u1680'] ≠ name →
      NoEnd name ([oneCharArgument '\u1680'].flatMap ArgumentElement.write ++ []) := by
    intro name hne
    rw [List.flatMap_singleton]
    exact (ArgumentElement.noEnd_write hwellFormed hne).append (noEnd_blank isBlank_nil name)
  refine ⟨hwellFormed, _, Frame.parseActionRequest_text browseFrame_wellFormed browseFrame_headKept
    (hend _ (by decide)) (hend _ (by decide)), fun harguments => ?_⟩
  have hall : ∀ a ∈ [oneCharArgument '\u1680'], a.WellFormed := by
    intro a ha
    obtain rfl := List.mem_singleton.mp ha
    exact hwellFormed
  have hkept := (arguments_eq_iff hall isBlank_nil).mp harguments _ (List.mem_singleton_self _)
  exact absurd (hkept.1 rfl '\u1680' rfl) (by decide)

end RustyCastle.Upnp
