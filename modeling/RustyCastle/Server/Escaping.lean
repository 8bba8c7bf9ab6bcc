import RustyCastle.Foundation.Entities
import RustyCastle.Foundation.HtmlMarkup
import RustyCastle.Server.Listings
import RustyCastle.Server.Ui

/-!
The two escapers and what they are used for. A browse response holds the listing
escaped, and the listing holds the titles escaped; the library page holds every
text of the catalog outside its markup.
-/

namespace RustyCastle.Server
open Foundation Foundation.Html RustyCastle.Upnp RustyCastle.UpnpAv

/-! The escapers -/

def xmlEntities : Entities where
  entries :=
    [('&', "amp".toList), ('<', "lt".toList), ('>', "gt".toList), ('"', "quot".toList),
      ('\'', "apos".toList)]
  names := by decide
  distinct := by decide
  amp := by decide

def htmlEntities : Entities where
  entries :=
    [('&', "amp".toList), ('<', "lt".toList), ('>', "gt".toList), ('"', "quot".toList),
      ('\'', "#39".toList)]
  names := by decide
  distinct := by decide
  amp := by decide

theorem writeEscapedText_eq : writeEscapedText = xmlEntities.escape := by
  have hchar : escapeChar = xmlEntities.escapeChar :=
    Entities.eq_escapeChar (by decide) fun c hc => by
      unfold escapeChar
      split <;> first | rfl | exact absurd (by decide) hc
  funext s
  rw [writeEscapedText, hchar, Entities.escape]

theorem htmlEscape_eq : htmlEscape = htmlEntities.escape := by
  have hchar : htmlEscapeChar = htmlEntities.escapeChar :=
    Entities.eq_escapeChar (by decide) fun c hc => by
      unfold htmlEscapeChar
      split <;> first | rfl | exact absurd (by decide) hc
  funext s
  rw [htmlEscape, hchar, Entities.escape]

theorem escapes_writeEscapedText : xmlEntities.Escapes writeEscapedText := by
  rw [writeEscapedText_eq]
  exact Entities.escapes (by decide)

theorem escapes_htmlEscape : htmlEntities.Escapes htmlEscape := by
  rw [htmlEscape_eq]
  exact Entities.escapes (by decide)

example : writeEscapedText "&lt; &amp".toList = "&amp;lt; &amp;amp".toList ∧
    xmlEntities.decode "&amp;lt; &amp;amp".toList = "&lt; &amp".toList := by decide

/-! Browse responses -/

/-- The text of the first element of a name, as it stands there. -/
def elementText (name s : Str) : Option Str := do
  let (_, rest) ← Str.cut (Xml.openTag name []) s
  let (raw, _) ← Str.cut (Xml.closeTag name) rest
  some raw

theorem elementText_escaped {name before : Str} (value rest : Str)
    (h : Str.find (Xml.openTag name []) (before ++ (Xml.openTag name []).dropLast) = none) :
    elementText name (before ++ (writeTextElement name value ++ rest)) =
      some (writeEscapedText value) := by
  have hshape : before ++ (writeTextElement name value ++ rest) =
      before ++ Xml.openTag name [] ++ (writeEscapedText value ++ Xml.closeTag name ++ rest) := by
    simp only [writeTextElement_eq, List.append_assoc]
  have hclose : Str.find (Xml.closeTag name)
      (writeEscapedText value ++ (Xml.closeTag name).dropLast) = none := by
    rw [Xml.closeTag, Str.find_append_eq_none (notMem_writeEscapedText (.inl rfl) value)]
    exact Str.find_eq_none_of_length_lt (by simp)
  rw [elementText, hshape, Str.cut_append _ h]
  simp only [Option.bind_eq_bind, Option.bind_some, Str.cut_append rest hclose]

/-- The text of the result is the listing, escaped. -/
theorem elementText_browse (result n t u : Str) :
    elementText "Result".toList (writeActionResponse contentDirectoryService "Browse".toList
      (browseArguments result n t u)) = some (writeEscapedText result) := by
  have hnone : Str.find (Xml.openTag "Result".toList []) (writeEnvelopeStart ++ "<u:".toList ++
      "Browse".toList ++ "Response xmlns:u=\"".toList ++ contentDirectoryService.fmt ++
      "\">".toList ++ (Xml.openTag "Result".toList []).dropLast) = none := by decide +kernel
  have hresult := fun rest => elementText_escaped result rest hnone
  rw [writeActionResponse, browseArguments, List.flatMap_cons]
  simp only [List.append_assoc] at hresult ⊢
  exact hresult _

/-- The place of a title in a listing. What stands around it does not depend on the
title, and the text there is decoded to the title. -/
def TitleEscaped (front : List ObjectRef) (object : ObjectRef) (back : List ObjectRef) : Prop :=
  ∃ before behind, ∀ title, ∃ raw,
    didlToString (front ++ { object with title := title } :: back) =
      before ++ Xml.openTag "dc:title".toList [] ++ raw ++ Xml.closeTag "dc:title".toList ++ behind ∧
    '<' ∉ raw ∧ xmlEntities.decode raw = title

theorem titleEscaped (front : List ObjectRef) (object : ObjectRef) (back : List ObjectRef) :
    TitleEscaped front object back := by
  refine ⟨Xml.openTag "DIDL-Lite".toList didlAttrs ++ front.flatMap writeObject ++
      Xml.openTag object.tag object.attrs,
    Xml.openTag "upnp:class".toList [] ++ object.upnpClass.asStr ++
      Xml.closeTag "upnp:class".toList ++ object.resources.flatMap writeResource ++
      Xml.closeTag object.tag ++ back.flatMap writeObject ++ Xml.closeTag "DIDL-Lite".toList,
    fun title => ⟨writeEscapedText title, ?_, notMem_writeEscapedText (.inl rfl) title,
      escapes_writeEscapedText.decode title⟩⟩
  have hobject := writeObject_eq { object with title := title }
  have htag : ObjectRef.tag { object with title := title } = object.tag := rfl
  have hattrs : ObjectRef.attrs { object with title := title } = object.attrs := rfl
  rw [didlToString, writeDidl_eq, List.flatMap_append, List.flatMap_cons, hobject, htag, hattrs]
  simp only [List.append_assoc]

/-- The answer to a call of the Browse action is a listing, escaped once. -/
theorem decode_result {catalog : StaticCatalog} {soapXml : Str} {action : ActionRequestRef}
    {answer : ControlResponse} (ha : CallsBrowse soapXml action)
    (h : handleControl soapXml catalog = .ok answer) :
    ∃ objects, listing catalog (requestedId action) (requestedFlag action) = .ok objects ∧
      (elementText "Result".toList answer.body).map xmlEntities.decode =
        some (didlToString objects) := by
  cases hl : listing catalog (requestedId action) (requestedFlag action) with
  | ok objects =>
      obtain ⟨number, total, hanswer⟩ := handleControl_listing ha hl
      cases hanswer.symm.trans h
      refine ⟨objects, rfl, ?_⟩
      rw [okResponse, elementText_browse, Option.map_some, escapes_writeEscapedText.decode]
  | error e =>
      have hresult := browseResult_eq_listing catalog (requestedId action) (requestedFlag action)
      rw [handleControl_callsBrowse ha] at h
      cases hr : browseResult catalog (requestedId action) (requestedFlag action) with
      | ok r =>
          rw [hr, hl] at hresult
          cases hresult
      | error e =>
          rw [hr] at h
          cases h

/-! The library page -/

theorem inert_numeral (n : Nat) : Inert (Decimal.numeral n) := by
  have hdigits : ∀ c ∈ ['<', '>', '"', '\''], c ∉ Decimal.digits := by decide
  exact fun c hc => Decimal.notMem_numeral (hdigits c hc) n

theorem inert_scanStatusTime (status : ScanStatus) : Inert (scanStatusTime status) := by
  have happend : ∀ n, Inert (Decimal.numeral n ++ "s since epoch".toList) := fun n =>
    (inert_numeral n).append (by decide)
  rw [scanStatusTime]
  cases status.lastScanTime with
  | none => decide
  | some time =>
      simp only [Option.map_some, Option.getD_some, formatScanTime]
      split
      · exact happend _
      · exact Inert.append (s := ['-']) (by decide) (happend _)

theorem inert_scanStatusDuration (status : ScanStatus) : Inert (scanStatusDuration status) := by
  rw [scanStatusDuration]
  cases status.lastScanDuration with
  | none => decide
  | some duration => exact (inert_numeral _).append (by decide)

theorem alike_escaped {m : Mode} (hm : m.Outside) (v w : Str) :
    Alike m m (htmlEscape v) (htmlEscape w) :=
  .inert hm (escapes_htmlEscape.markup v) (escapes_htmlEscape.markup w)

theorem alike_tableCell (v w : Str) : Alike .text .text (tableCell v) (tableCell w) :=
  (alike_escaped (.inl rfl) v w).between (by decide) (by decide)

/-- An address is put in an attribute value and in text. -/
theorem alike_linkedTableCell {v w : Str} (h : v.isEmpty = w.isEmpty) :
    Alike .text .text (linkedTableCell v) (linkedTableCell w) := by
  rw [linkedTableCell, linkedTableCell, h]
  split
  · exact .refl (by decide)
  · have hlink : Alike .text .text ("<td><a href=\"".toList ++ htmlEscape v ++ "\">".toList)
        ("<td><a href=\"".toList ++ htmlEscape w ++ "\">".toList) :=
      (alike_escaped (.inr (.inl rfl)) v w).between (by decide) (by decide)
    exact (hlink.append (alike_escaped (.inl rfl) v w)).append (.refl (by decide))

theorem alike_containerRow (a b : MediaContainer) :
    Alike .text .text (containerRow a) (containerRow b) := by
  have hempty := alike_tableCell [] []
  unfold containerRow
  exact Alike.refl (by decide) |>.append (alike_tableCell _ _) |>.append (alike_tableCell _ _)
    |>.append (alike_tableCell _ _) |>.append hempty |>.append hempty |>.append hempty
    |>.append hempty |>.append hempty |>.append (.refl (by decide))

theorem alike_itemRow {a b : MediaItem} (h : a.url.isEmpty = b.url.isEmpty) :
    Alike .text .text (itemRow a) (itemRow b) := by
  unfold itemRow
  exact Alike.refl (by decide) |>.append (alike_tableCell _ _) |>.append (alike_tableCell _ _)
    |>.append (alike_tableCell _ _) |>.append (alike_tableCell _ _) |>.append (alike_tableCell _ _)
    |>.append (alike_tableCell _ _) |>.append (alike_linkedTableCell h)
    |>.append (alike_tableCell _ _) |>.append (.refl (by decide))

/-- A metric with a fixed label that has no markup. -/
theorem alike_metric {v w : Str} (hv : Inert v) (hw : Inert w) {label : String}
    (h : Inert label.toList) : Alike .text .text (metric v label) (metric w label) := by
  unfold metric
  exact Alike.refl (by decide) |>.append (.inert (.inl rfl) hv hw) |>.append (.refl (by decide))
    |>.append (.inert (.inl rfl) h h) |>.append (.refl (by decide))

theorem alike_scanErrorHtml {s t : ScanStatus} (h : s.error.isSome = t.error.isSome) :
    Alike .text .text (scanErrorHtml s) (scanErrorHtml t) := by
  unfold scanErrorHtml
  cases hs : s.error <;> cases ht : t.error
  · exact .refl rfl
  · rw [hs, ht] at h
    cases h
  · rw [hs, ht] at h
    cases h
  · exact (alike_escaped (.inl rfl) _ _).between (by decide) (by decide)

/-- Lines that begin and end in text. -/
theorem alike_lines {texts : List String} (h : ∀ text ∈ texts, after .text text.toList = .text) :
    List.Forall₂ (Alike .text .text) (lines texts) (lines texts) :=
  forall₂_alike_self fun s hs => by
    obtain ⟨text, ht, rfl⟩ := List.mem_map.mp hs
    exact h text ht

/-- The pages of catalogs with as many containers and items and links in the same rows. -/
theorem alike_libraryPage {c d : StaticCatalog} {s t : ScanStatus}
    (hcontainers : c.containers.length = d.containers.length)
    (hitems : c.items.map (·.url.isEmpty) = d.items.map (·.url.isEmpty))
    (herror : s.error.isSome = t.error.isSome) :
    Alike .text .text (libraryPage c s) (libraryPage d t) := by
  have hrows : Alike .text .text (c.containers.flatMap containerRow)
      (d.containers.flatMap containerRow) :=
    .flatMap (List.forall₂_iff_get.mpr ⟨hcontainers, fun _ _ _ => alike_containerRow _ _⟩)
  have hitemRows : Alike .text .text (c.items.flatMap itemRow) (d.items.flatMap itemRow) := by
    have hurls : List.Forall₂ (fun a b => a.url.isEmpty = b.url.isEmpty) c.items d.items := by
      rw [← List.forall₂_map_right_iff (f := fun b : MediaItem => b.url.isEmpty),
        ← List.forall₂_map_left_iff (f := fun a : MediaItem => a.url.isEmpty),
        List.forall₂_eq_eq_eq]
      exact hitems
    exact .flatMap (hurls.imp fun _ _ => alike_itemRow)
  have hnumber := fun n m (label : String) (h : Inert label.toList) =>
    alike_metric (inert_numeral n) (inert_numeral m) h
  unfold libraryPage htmlPage
  refine .intercalate (.inl rfl) (by decide) ?_
  refine List.rel_append (List.rel_append (List.rel_append (List.rel_append (List.rel_append
    (List.rel_append (List.rel_append (List.rel_append (alike_lines ?_) ?_) (alike_lines ?_)) ?_)
      (alike_lines ?_)) ?_) (alike_lines ?_)) ?_) (alike_lines ?_)
  case refine_2 =>
    exact .cons (hnumber _ _ _ (by decide)) (.cons (hnumber _ _ _ (by decide))
      (.cons (hnumber _ _ _ (by decide)) (.cons
        (alike_metric (inert_scanStatusTime s) (inert_scanStatusTime t) (by decide))
        (.cons (alike_metric (inert_scanStatusDuration s) (inert_scanStatusDuration t) (by decide))
          .nil))))
  case refine_4 => exact .cons (alike_scanErrorHtml herror) .nil
  case refine_6 => exact .cons (hrows.between (by decide) (by decide)) .nil
  case refine_8 => exact .cons (hitemRows.between (by decide) (by decide)) .nil
  -- a line is one literal or two of them
  all_goals
    repeat' refine List.forall_mem_cons.mpr ⟨?_, ?_⟩
    all_goals
      first
        | exact List.forall_mem_nil _
        | with_reducible refine after_ofList ?_
          rfl
        | exact after_toList_append (n := .text) (after_ofList rfl) (after_ofList rfl)

/-- Both escapers leave no markup and are undone by decoding their entities. A listing is
decoded from the result of a browse response and a title from its place in the listing;
and the markup of the library page does not depend on the texts of the catalog. -/
theorem escaping_reversible :
    xmlEntities.Escapes writeEscapedText ∧ htmlEntities.Escapes htmlEscape ∧
      (∀ catalog soapXml action answer, CallsBrowse soapXml action →
        handleControl soapXml catalog = .ok answer →
        ∃ objects, listing catalog (requestedId action) (requestedFlag action) = .ok objects ∧
          (elementText "Result".toList answer.body).map xmlEntities.decode =
            some (didlToString objects) ∧
          ∀ front object back, objects = front ++ object :: back → TitleEscaped front object back) ∧
      ∀ (c d : StaticCatalog) (s t : ScanStatus), c.containers.length = d.containers.length →
        c.items.map (·.url.isEmpty) = d.items.map (·.url.isEmpty) →
        s.error.isSome = t.error.isSome → Alike .text .text (libraryPage c s) (libraryPage d t) := by
  refine ⟨escapes_writeEscapedText, escapes_htmlEscape, fun catalog soapXml action answer ha h => ?_,
    fun _ _ _ _ => alike_libraryPage⟩
  obtain ⟨objects, hlisting, hresult⟩ := decode_result ha h
  exact ⟨objects, hlisting, hresult, fun front object back _ => titleEscaped front object back⟩

theorem escaping_reversible_sample :
    Alike .text .text
      (libraryPage ⟨[⟨['1'], ['0'], "</td><script>".toList⟩], [], 0⟩ ⟨none, none, 0, none⟩)
      (libraryPage ⟨[⟨[], [], []⟩], [], 0⟩ ⟨none, none, 0, none⟩) :=
  escaping_reversible.2.2.2 ⟨[⟨['1'], ['0'], "</td><script>".toList⟩], [], 0⟩ ⟨[⟨[], [], []⟩], [], 0⟩
    ⟨none, none, 0, none⟩ ⟨none, none, 0, none⟩ rfl rfl rfl

end RustyCastle.Server
