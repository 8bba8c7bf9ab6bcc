import RustyCastle.Upnp.SoapFrame

/-!
What the scanner reads from the messages a control point writes: the action, its
service type, and the arguments in order with their trimmed raw text.
-/

namespace RustyCastle.Upnp
open Foundation Foundation.Xml

/-! Arguments -/

/-- An argument element and the white space before it. -/
structure ArgumentElement where
  gap : Str
  name : QName
  text : Str

def ArgumentElement.write (a : ArgumentElement) : Str :=
  a.gap ++ (startTag a.name [] ++ (a.text ++ endTag a.name))

structure ArgumentElement.Valid (a : ArgumentElement) : Prop where
  gap : IsGap a.gap
  name : a.name.Valid
  text : '<' ∉ a.text

/-- What the iterator gives for the element. -/
def ArgumentElement.read (a : ArgumentElement) : ArgumentRef where
  name := a.name.name
  value := Str.trim a.text

/-- An argument element with a name of all the characters that XML has in names. -/
structure ArgumentElement.WellFormed (a : ArgumentElement) : Prop where
  gap : IsBlank a.gap
  name : a.name.WellFormed
  text : '<' ∉ a.text

theorem ArgumentElement.Valid.wellFormed {a : ArgumentElement} (h : a.Valid) : a.WellFormed :=
  ⟨h.gap.isBlank, h.name.wellFormed, h.text⟩

/-- The iterator at a tag. -/
theorem nextArgument_tag {before raw : Str} (hbefore : '<' ∉ before) (hraw : '>' ∉ raw)
    (hmarkup : ∀ c ∈ raw.head?, c ≠ '/' ∧ c ≠ '!' ∧ c ≠ '?') (rest : Str) :
    nextArgument (before ++ '<' :: (raw ++ '>' :: rest)) =
      if (Str.trim raw).getLast? = some '/' then nextArgument rest
      else (elementName (Str.trim raw)).bind fun name =>
        (findCloseForName name rest 0).map fun close =>
          ({ name := name, value := Str.trim (rest.take close.1) }, rest.drop (close.1 + close.2)) := by
  have hcut : Str.cut ['<'] (before ++ '<' :: (raw ++ '>' :: rest)) =
      some (before, raw ++ '>' :: rest) := Str.cut_char _ hbefore
  have hcut' : Str.cut ['>'] (raw ++ '>' :: rest) = some (raw, rest) := Str.cut_char _ hraw
  have hhead : ¬ ((raw ++ '>' :: rest).head? = some '/' ∨ (raw ++ '>' :: rest).head? = some '!' ∨
      (raw ++ '>' :: rest).head? = some '?') := by
    cases raw with
    | nil => simp
    | cons c raw => simpa [not_or] using hmarkup c rfl
  rw [nextArgument.eq_def]
  split
  · rename_i hn
    rw [hcut] at hn
    cases hn
  · rename_i before afterLt hs
    rw [hcut] at hs
    cases hs
    rw [if_neg hhead]
    split
    · rename_i hn
      rw [hcut'] at hn
      cases hn
    · rename_i raw content hs'
      rw [hcut'] at hs'
      cases hs'
      dsimp only
      split
      · rfl
      · cases elementName (Str.trim raw) with
        | none => rfl
        | some name =>
            simp only [Option.bind_eq_bind, Option.bind_some]
            cases findCloseForName name rest 0 <;> rfl

theorem nextArgument_blank {blank : Str} (h : '<' ∉ blank) : nextArgument blank = none := by
  have hcut : Str.cut ['<'] blank = none := by
    rw [Str.cut, Str.find_char_eq_none.mpr h]
    rfl
  rw [nextArgument.eq_def]
  split
  · rfl
  · rename_i hs
    rw [hcut] at hs
    cases hs

theorem arguments_of_none {rest : Str} (h : nextArgument rest = none) : arguments rest = [] := by
  rw [arguments.eq_def]
  split
  · rfl
  · rename_i hs
    rw [h] at hs
    cases hs

theorem arguments_of_some {rest next : Str} {arg : ArgumentRef}
    (h : nextArgument rest = some (arg, next)) : arguments rest = arg :: arguments next := by
  rw [arguments.eq_def]
  split
  · rename_i hn
    rw [h] at hn
    cases hn
  · rename_i hs
    rw [h] at hs
    cases hs
    rfl

/-- The arguments depend on what the next one and the rest after it are only. -/
theorem arguments_congr {rest rest' : Str} (h : nextArgument rest = nextArgument rest') :
    arguments rest = arguments rest' := by
  cases hnext : nextArgument rest' with
  | none => rw [arguments_of_none hnext, arguments_of_none (h.trans hnext)]
  | some r => rw [arguments_of_some hnext, arguments_of_some (h.trans hnext)]

namespace ArgumentElement
variable {a : ArgumentElement} (h : a.WellFormed)
include h

/-- The iterator at an argument element. -/
theorem nextArgument_element (rest : Str) :
    nextArgument (a.write ++ rest) =
      (elementName (Str.trim a.name.text)).bind fun name =>
        (findCloseForName name (a.text ++ (endTag a.name ++ rest)) 0).map fun close =>
          ({ name := name, value := Str.trim ((a.text ++ (endTag a.name ++ rest)).take close.1) },
            (a.text ++ (endTag a.name ++ rest)).drop (close.1 + close.2)) := by
  have happ : a.write ++ rest =
      a.gap ++ '<' :: (a.name.text ++ '>' :: (a.text ++ (endTag a.name ++ rest))) := by
    simp [write, startTag]
  have hslash : (Str.trim a.name.text).getLast? ≠ some '/' := fun hl =>
    h.name.notMem_text (by decide) (Str.mem_of_mem_trim (List.mem_of_getLast? hl))
  rw [happ, nextArgument_tag (notMem_blank h.gap (by decide)) (h.name.notMem_text (by decide))
      fun _ hc => h.name.head_text hc, if_neg hslash]

/-- An argument element is read whole, and the rest is left. -/
theorem nextArgument_write (hkept : a.name.HeadKept ∧ a.name.LastKept) (rest : Str) :
    nextArgument (a.write ++ rest) = some (a.read, rest) := by
  have hname : elementName (Str.trim a.name.text) = some a.name.name := by
    have hname := h.name.elementName_trim isAttrs_nil hkept.1 (.inl hkept.2)
    rwa [List.append_nil] at hname
  have hclose : findCloseForName a.name.name (a.text ++ (endTag a.name ++ rest)) 0 =
      some (a.text.length, (endTag a.name).length) := by
    rw [findCloseForName_append (closeFree_of_notMem h.text), findCloseForName_endTag h.name,
      if_pos rfl, Nat.zero_add]
  rw [nextArgument_element h, hname, Option.bind_some, hclose, Option.map_some, List.take_left,
    ← List.append_assoc, ← List.length_append, List.drop_left]
  rfl

theorem noEnd_write {name : Str} (hne : a.name.name ≠ name) : NoEnd name a.write :=
  (noEnd_blank h.gap name).append (((closeFree_startTag h.name (by simp)).noEnd name).append
    (((closeFree_of_notMem h.text).noEnd name).append (noEnd_endTag h.name hne)))

end ArgumentElement

theorem arguments_write {as : List ArgumentElement} (h : ∀ a ∈ as, a.WellFormed)
    (hkept : ∀ a ∈ as, a.name.HeadKept ∧ a.name.LastKept) (rest : Str) :
    arguments (as.flatMap ArgumentElement.write ++ rest) =
      as.map ArgumentElement.read ++ arguments rest := by
  induction as with
  | nil => rfl
  | cons a as ih =>
      rw [List.forall_mem_cons] at h hkept
      rw [List.flatMap_cons, List.append_assoc,
        arguments_of_some (ArgumentElement.nextArgument_write h.1 hkept.1 _), ih h.2 hkept.2,
        List.map_cons, List.cons_append]

/-! Messages -/

/-- A SOAP message with one action in its body. -/
structure Message where
  declaration : Option Str
  start : Str
  envelope : Option Str
  envelopeAttrs : Str
  beforeBody : Str
  body : Option Str
  bodyAttrs : Str
  beforeAction : Str
  action : QName
  declarations : List Declaration
  tail : Str
  arguments : List ArgumentElement
  beforeActionEnd : Str
  beforeBodyEnd : Str
  beforeEnvelopeEnd : Str
  finish : Str
  service : ServiceTypeRef

namespace Message

def envelopeName (m : Message) : QName := ⟨m.envelope, "Envelope".toList⟩

def bodyName (m : Message) : QName := ⟨m.body, "Body".toList⟩

def actionAttrs (m : Message) : Str := m.declarations.flatMap Declaration.write ++ m.tail

/-- The arguments and the white space after them. -/
def inner (m : Message) : Str :=
  m.arguments.flatMap ArgumentElement.write ++ m.beforeActionEnd

/-- What stands between the tags of the body. -/
def content (m : Message) : Str :=
  m.beforeAction ++ (startTag m.action m.actionAttrs ++
    (m.inner ++ (endTag m.action ++ m.beforeBodyEnd)))

def text (m : Message) : Str :=
  (Str.whenSome m.declaration fun d => '<' :: ("?xml".toList ++ (d ++ ['?', '>']))) ++
    (m.start ++ (startTag m.envelopeName m.envelopeAttrs ++ (m.beforeBody ++
      (startTag m.bodyName m.bodyAttrs ++ (m.content ++ (endTag m.bodyName ++
        (m.beforeEnvelopeEnd ++ (endTag m.envelopeName ++ m.finish))))))))

structure Valid (m : Message) : Prop where
  declaration : ∀ d ∈ m.declaration, d ≠ [] ∧ IsAttrs d
  start : IsGap m.start
  envelope : ∀ p ∈ m.envelope, IsNcName p
  envelopeAttrs : IsAttrs m.envelopeAttrs
  beforeBody : IsGap m.beforeBody
  body : ∀ p ∈ m.body, IsNcName p
  bodyAttrs : IsAttrs m.bodyAttrs
  beforeAction : IsGap m.beforeAction
  action : m.action.Valid
  action_ne_body : m.action.name ≠ "Body".toList
  declarations : ∀ d ∈ m.declarations, d.Valid
  tail : IsGap m.tail
  service : (m.declarations.find? fun d => d.pre = m.action.pre).map Declaration.value =
    some m.service.fmt
  domain : ':' ∉ m.service.domain
  kind : ':' ∉ m.service.kind
  arguments : ∀ a ∈ m.arguments, a.Valid
  arguments_ne : ∀ a ∈ m.arguments, a.name.name ≠ m.action.name ∧ a.name.name ≠ "Body".toList
  beforeActionEnd : IsGap m.beforeActionEnd
  beforeBodyEnd : IsGap m.beforeBodyEnd
  beforeEnvelopeEnd : IsGap m.beforeEnvelopeEnd
  finish : IsGap m.finish

end Message

theorem parseServiceTypeUrn_fmt {service : ServiceTypeRef} (hdomain : ':' ∉ service.domain)
    (hkind : ':' ∉ service.kind) : parseServiceTypeUrn service.fmt = .ok service := by
  obtain ⟨domain, kind, version⟩ := service
  have hstrip : Str.stripPrefix "urn:".toList (ServiceTypeRef.fmt ⟨domain, kind, version⟩) =
      some (domain ++ ":service:".toList ++ (kind ++ ':' :: Decimal.numeral version.toNat)) := by
    have hfmt : ServiceTypeRef.fmt ⟨domain, kind, version⟩ = "urn:".toList ++ domain ++
        ":service:".toList ++ kind ++ [':'] ++ Decimal.numeral version.toNat := rfl
    rw [Str.stripPrefix_eq_some, hfmt]
    simp only [List.append_assoc, List.singleton_append]
  have hcut : Str.cut ":service:".toList
      (domain ++ ":service:".toList ++ (kind ++ ':' :: Decimal.numeral version.toNat)) =
      some (domain, kind ++ ':' :: Decimal.numeral version.toNat) :=
    Str.cut_append _ (Str.find_append_eq_none hdomain (by decide))
  have hdigits : ':' ∉ Decimal.numeral version.toNat := Decimal.notMem_numeral (by decide) _
  have hsplit := Str.rsplitOnce_append kind hdigits
  have hversion : Decimal.parseUnsigned 32 (Decimal.numeral version.toNat) = some version.toNat :=
    Decimal.parseUnsigned_numeral version.toNat_lt
  simp only [parseServiceTypeUrn, hstrip, hcut, hsplit, hversion, UInt32.ofNat_toNat]

namespace Message
variable {m : Message} (h : m.Valid)

def frame (m : Message) : Frame := { m with }

theorem text_eq (m : Message) : m.text = m.frame.text m.inner := by
  simp only [text, content, Frame.text, Frame.wrap, Frame.content, Frame.ending, frame, envelopeName,
    bodyName, actionAttrs, Frame.envelopeName, Frame.bodyName, Frame.actionAttrs, List.append_assoc]

include h

theorem frame_wellFormed : m.frame.WellFormed where
  declaration := h.declaration
  start := h.start.isBlank
  envelope p hp := (h.envelope p hp).toXml
  envelopeAttrs := h.envelopeAttrs
  beforeBody := h.beforeBody.isBlank
  body p hp := (h.body p hp).toXml
  bodyAttrs := h.bodyAttrs
  beforeAction := h.beforeAction.isBlank
  action := h.action.wellFormed
  action_ne_body := h.action_ne_body
  declarations d hd := (h.declarations d hd).wellFormed
  tail := h.tail
  service := h.service
  domain := h.domain
  kind := h.kind
  beforeBodyEnd := h.beforeBodyEnd.isBlank
  beforeEnvelopeEnd := h.beforeEnvelopeEnd.isBlank
  finish := h.finish.isBlank

theorem declaredNamespace_frame : m.frame.declaredNamespace = some m.service.fmt := by
  have hstarted : m.frame.action.started = m.frame.action := h.action.started_eq
  rw [Frame.declaredNamespace, hstarted, ← h.service]
  rw [← List.head?_filter, ← List.head?_filter]
  refine congrArg (fun ds : List Declaration => ds.head?.map _) (List.filter_congr fun d hd => ?_)
  rw [Bool.eq_iff_iff, (h.declarations d hd).readsAs_iff, decide_eq_true_eq]
  rfl

theorem noEnd_inner {name : Str} (hname : ∀ a ∈ m.arguments, a.name.name ≠ name) :
    NoEnd name m.inner :=
  (noEnd_flatMap fun a ha =>
      ArgumentElement.noEnd_write (h.arguments a ha).wellFormed (hname a ha)).append
    (noEnd_blank h.beforeActionEnd.isBlank name)

/-- The parser reads the action of the message. -/
theorem parseActionRequest_text :
    parseActionRequest m.text =
      .ok { serviceType := m.service, actionName := m.action.name, argumentsXml := m.inner } := by
  rw [text_eq, Frame.parseActionRequest_text (frame_wellFormed h) h.action.kept.1
    (noEnd_inner h fun a ha => (h.arguments_ne a ha).1)
    (noEnd_inner h fun a ha => (h.arguments_ne a ha).2), Frame.read, declaredNamespace_frame h]
  dsimp only
  rw [parseServiceTypeUrn_fmt h.domain h.kind]
  rfl

/-- The iterator gives the arguments of the message in order. -/
theorem arguments_inner : Upnp.arguments m.inner = m.arguments.map ArgumentElement.read := by
  rw [inner, arguments_write (fun a ha => (h.arguments a ha).wellFormed)
    (fun a ha => (h.arguments a ha).name.kept),
    arguments_of_none (nextArgument_blank (notMem_gap h.beforeActionEnd (by decide))), List.append_nil]

end Message

end RustyCastle.Upnp
