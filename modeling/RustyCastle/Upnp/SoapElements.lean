import RustyCastle.Upnp.RequestReading

/-!
The elements inside an action in the two forms that XML has for them, and what the iterator
makes of each.
-/

namespace RustyCastle.Upnp
open Foundation Foundation.Xml

/-- An element inside an action with the white space before it. Without a text it is one tag,
which closes itself. -/
structure Element where
  gap : Str
  name : QName
  attrs : Str
  text : Option Str

/-- The tag of an element that closes itself. -/
def selfClosingTag (q : QName) (attrs : Str) : Str := startTag q (attrs ++ ['/'])

namespace Element

def write (e : Element) : Str :=
  e.gap ++ match e.text with
    | none => selfClosingTag e.name e.attrs
    | some text => startTag e.name e.attrs ++ (text ++ endTag e.name)

/-- What the iterator gives for the element. -/
def read (e : Element) : Option ArgumentRef :=
  e.text.map fun text => { name := e.name.name, value := Str.trim text }

theorem name_of_read {e : Element} {a : ArgumentRef} (ha : a ∈ e.read) : a.name = e.name.name := by
  obtain ⟨text, -, rfl⟩ := Option.map_eq_some_iff.mp ha
  rfl

/-- An element whose name is kept when its tag is trimmed. -/
structure WellFormed (e : Element) : Prop where
  gap : IsBlank e.gap
  name : e.name.WellFormed
  kept : e.name.HeadKept ∧ e.name.LastKept
  attrs : IsAttrs e.attrs
  -- attributes end with a quotation mark
  attrs_end : (e.attrs.rdropWhile Str.isWhitespace).getLast? ≠ some '/'
  text : ∀ text ∈ e.text, '<' ∉ text

variable {e : Element} (h : e.WellFormed)
include h

/-- The iterator goes past a tag that closes itself. -/
theorem nextArgument_selfClosing (rest : Str) :
    nextArgument (e.gap ++ (selfClosingTag e.name e.attrs ++ rest)) = nextArgument rest := by
  have happ : e.gap ++ (selfClosingTag e.name e.attrs ++ rest) =
      e.gap ++ '<' :: ((e.name.text ++ e.attrs ++ ['/']) ++ '>' :: rest) := by
    simp [selfClosingTag, startTag]
  have hgt : '>' ∉ e.name.text ++ e.attrs ++ ['/'] := by
    simp only [List.mem_append, List.mem_singleton, not_or]
    exact ⟨⟨h.name.notMem_text (by decide), h.attrs.gt⟩, by decide⟩
  have hlast : (Str.trim (e.name.text ++ e.attrs ++ ['/'])).getLast? = some '/' :=
    Str.getLast_trim_concat _ (by decide)
  have hmarkup : ∀ c ∈ (e.name.text ++ e.attrs ++ ['/']).head?, c ≠ '/' ∧ c ≠ '!' ∧ c ≠ '?' := by
    intro c hc
    rw [List.append_assoc, List.head?_append_of_ne_nil _ h.name.text_ne_nil] at hc
    exact h.name.head_text hc
  rw [happ, nextArgument_tag (notMem_blank h.gap (by decide)) hgt hmarkup, if_pos hlast]

/-- The iterator reads an element with a start tag whole. -/
theorem nextArgument_open {text : Str} (htext : '<' ∉ text) (rest : Str) :
    nextArgument (e.gap ++ (startTag e.name e.attrs ++ (text ++ (endTag e.name ++ rest)))) =
      some ({ name := e.name.name, value := Str.trim text }, rest) := by
  have happ : e.gap ++ (startTag e.name e.attrs ++ (text ++ (endTag e.name ++ rest))) =
      e.gap ++ '<' :: ((e.name.text ++ e.attrs) ++ '>' :: (text ++ (endTag e.name ++ rest))) := by
    simp [startTag]
  have hgt : '>' ∉ e.name.text ++ e.attrs := by
    rw [List.mem_append, not_or]
    exact ⟨h.name.notMem_text (by decide), h.attrs.gt⟩
  have hmarkup : ∀ c ∈ (e.name.text ++ e.attrs).head?, c ≠ '/' ∧ c ≠ '!' ∧ c ≠ '?' := by
    intro c hc
    rw [List.head?_append_of_ne_nil _ h.name.text_ne_nil] at hc
    exact h.name.head_text hc
  have htrim : Str.trim (e.name.text ++ e.attrs) =
      e.name.started.text ++ e.attrs.rdropWhile Str.isWhitespace :=
    h.name.trim_text h.kept.1 (.inl h.kept.2)
  have hlast : (Str.trim (e.name.text ++ e.attrs)).getLast? ≠ some '/' := by
    rw [htrim, List.getLast?_append]
    cases hattrs : (e.attrs.rdropWhile Str.isWhitespace).getLast? with
    | some c =>
        rw [← hattrs]
        simpa [hattrs] using h.attrs_end
    | none =>
        rw [Option.none_or]
        exact fun hl => h.name.notMem_started (by decide) (List.mem_of_getLast? hl)
  have hclose : findCloseForName e.name.name (text ++ (endTag e.name ++ rest)) 0 =
      some (text.length, (endTag e.name).length) := by
    rw [findCloseForName_append (closeFree_of_notMem htext), findCloseForName_endTag h.name,
      if_pos rfl, Nat.zero_add]
  rw [happ, nextArgument_tag (notMem_blank h.gap (by decide)) hgt hmarkup, if_neg hlast,
    h.name.elementName_trim h.attrs h.kept.1 (.inl h.kept.2), Option.bind_some, hclose,
    Option.map_some, List.take_left, ← List.append_assoc, ← List.length_append, List.drop_left]

theorem arguments_element (rest : Str) :
    arguments (e.write ++ rest) = e.read.toList ++ arguments rest := by
  rw [write, read, List.append_assoc]
  cases htext : e.text with
  | none => exact arguments_congr (nextArgument_selfClosing h rest)
  | some text =>
      simp only [List.append_assoc]
      exact arguments_of_some (nextArgument_open h (h.text text htext) rest)

theorem noEnd_write {name : Str} (hne : ∀ a ∈ e.read, a.name ≠ name) : NoEnd name e.write := by
  refine (noEnd_blank h.gap name).append ?_
  cases htext : e.text with
  | none =>
      have hlt : '<' ∉ e.attrs ++ ['/'] := by
        rw [List.mem_append, not_or]
        exact ⟨h.attrs.lt, by decide⟩
      exact (closeFree_startTag h.name hlt).noEnd name
  | some text =>
      have hname : e.name.name ≠ name := hne ⟨_, Str.trim text⟩ (by rw [read, htext]; rfl)
      exact ((closeFree_startTag h.name h.attrs.lt).noEnd name).append
        (((closeFree_of_notMem (h.text text htext)).noEnd name).append (noEnd_endTag h.name hname))

end Element

/-- The arguments of a list of elements are those of the elements with a start tag. -/
theorem arguments_elements {es : List Element} (h : ∀ e ∈ es, e.WellFormed) (rest : Str) :
    arguments (es.flatMap Element.write ++ rest) = es.filterMap Element.read ++ arguments rest := by
  induction es with
  | nil => rfl
  | cons e es ih =>
      rw [List.forall_mem_cons] at h
      rw [List.flatMap_cons, List.append_assoc, Element.arguments_element h.1, ih h.2,
        List.filterMap_cons]
      cases e.read <;> rfl

theorem noEnd_elements {es : List Element} (h : ∀ e ∈ es, e.WellFormed) {blank : Str}
    (hblank : IsBlank blank) {name : Str} (hname : ∀ a ∈ es.filterMap Element.read, a.name ≠ name) :
    NoEnd name (es.flatMap Element.write ++ blank) :=
  (noEnd_flatMap fun e he => Element.noEnd_write (h e he) fun a ha =>
    hname a (List.mem_filterMap.mpr ⟨e, he, ha⟩)).append (noEnd_blank hblank name)

/-! Requests -/

/-- A request: its frame, the elements in its action and the white space after them. -/
structure Request where
  frame : Frame
  elements : List Element
  blank : Str

namespace Request

def inner (r : Request) : Str := r.elements.flatMap Element.write ++ r.blank

def text (r : Request) : Str := r.frame.text r.inner

/-- A request that is read as it is written. -/
structure WellFormed (r : Request) : Prop where
  frame : r.frame.WellFormed
  legible : r.frame.Legible
  elements : ∀ e ∈ r.elements, e.WellFormed
  elements_ne : ∀ e ∈ r.elements, e.name.name ≠ r.frame.action.name ∧ e.name.name ≠ "Body".toList
  blank : IsBlank r.blank

variable {r : Request} (h : r.WellFormed)
include h

theorem noEnd_inner {name : Str} (hname : ∀ e ∈ r.elements, e.name.name ≠ name) :
    NoEnd name r.inner :=
  noEnd_elements h.elements h.blank fun a ha => by
    obtain ⟨e, he, hread⟩ := List.mem_filterMap.mp ha
    rw [Element.name_of_read hread]
    exact hname e he

/-- The parser reads the action of the request. -/
theorem parseActionRequest_text :
    parseActionRequest r.text =
      .ok { serviceType := r.frame.service
            actionName := r.frame.action.name
            argumentsXml := r.inner } := by
  rw [text, Frame.parseActionRequest_text h.frame h.legible.headKept
    (noEnd_inner h fun e he => (h.elements_ne e he).1)
    (noEnd_inner h fun e he => (h.elements_ne e he).2), h.legible.read_eq]

/-- The iterator gives the elements that have a start tag. -/
theorem arguments_inner : arguments r.inner = r.elements.filterMap Element.read := by
  rw [inner, arguments_elements h.elements,
    arguments_of_none (nextArgument_blank (notMem_blank h.blank (by decide))), List.append_nil]

end Request

theorem browseRequest_wellFormed : Request.WellFormed ⟨browseFrame, [], []⟩ where
  frame := browseFrame_wellFormed
  legible := browseFrame_legible
  elements := nofun
  elements_ne := nofun
  blank := isBlank_nil

namespace Frame
variable {f : Frame} (h : f.WellFormed)
include h

/-- An action whose tag closes itself is not found. -/
theorem parseActionRequest_selfClosing :
    parseActionRequest (f.wrap (f.beforeAction ++ (selfClosingTag f.action f.actionAttrs ++
      f.beforeBodyEnd))) = .error .missingAction := by
  have hattrs := isAttrs_actionAttrs h
  have hlt : '<' ∉ f.actionAttrs ++ ['/'] := by
    rw [List.mem_append, not_or]
    exact ⟨hattrs.lt, by decide⟩
  have hgt : '>' ∉ f.action.text ++ f.actionAttrs ++ ['/'] := by
    simp only [List.mem_append, List.mem_singleton, not_or]
    exact ⟨⟨h.action.notMem_text (by decide), hattrs.gt⟩, by decide⟩
  have hbody : NoEnd "Body".toList (f.beforeAction ++ (selfClosingTag f.action f.actionAttrs ++
      f.beforeBodyEnd)) :=
    (noEnd_blank h.beforeAction _).append (((closeFree_startTag h.action hlt).noEnd _).append
      (noEnd_blank h.beforeBodyEnd _))
  have happ : f.beforeAction ++ (selfClosingTag f.action f.actionAttrs ++ f.beforeBodyEnd) =
      f.beforeAction ++ '<' :: ((f.action.text ++ f.actionAttrs ++ ['/']) ++ '>' :: f.beforeBodyEnd) := by
    simp [selfClosingTag, startTag]
  have hlast : (Str.trim (f.action.text ++ f.actionAttrs ++ ['/'])).getLast? = some '/' :=
    Str.getLast_trim_concat _ (by decide)
  have hchild : firstChildElement (f.beforeAction ++
      (selfClosingTag f.action f.actionAttrs ++ f.beforeBodyEnd)) = none := by
    rw [happ, firstChildElement_tag (notMem_blank h.beforeAction (by decide)) hgt,
      if_pos (.inr (.inr (.inr hlast)))]
  rw [parseActionRequest, findElementBody_of_noEnd h hbody]
  dsimp only
  rw [hchild]

end Frame

end RustyCastle.Upnp
