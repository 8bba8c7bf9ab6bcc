import RustyCastle.Dlna.ProtocolInfoReading
import RustyCastle.Foundation.XmlQuery
import RustyCastle.Server.Browse
import RustyCastle.Upnp.ResponseReading

/-!
The formats that the server says it can send: a list with commas, which a client reads back as the
formats of the items, each once and in the order in which they first appear.
-/

namespace RustyCastle.Server
open Foundation Foundation.Xml RustyCastle.Dlna RustyCastle.Upnp RustyCastle.UpnpAv

/-! The list -/

/-- Entries that are collected without repeating one are those of the list without duplicates. -/
theorem foldl_collect {α β : Type} [DecidableEq β] (f : α → β) (as : List α) :
    as.foldl (fun found a => if found.contains (f a) then found else found ++ [f a]) [] =
      (as.map f).eraseDups := by
  induction as using List.reverseRecOn with
  | nil => rfl
  | append_singleton as a ih =>
      rw [List.foldl_append, ih, List.map_append, List.eraseDups_append]
      by_cases h : f a ∈ as.map f
      · have hfound : (as.map f).eraseDups.contains (f a) = true :=
          List.contains_iff_mem.mpr (List.mem_eraseDups.mpr h)
        have hremoved : [f a].removeAll (as.map f) = [] :=
          List.filter_eq_nil_iff.mpr fun b hb => by simpa [List.mem_singleton.mp hb] using h
        have hnone : ([f a].removeAll (as.map f)).eraseDups = [] := by rw [hremoved]; rfl
        rw [List.map_cons, List.map_nil, hnone, List.append_nil]
        exact if_pos hfound
      · have hfound : ¬ (as.map f).eraseDups.contains (f a) = true := fun hc =>
          h (List.mem_eraseDups.mp (List.contains_iff_mem.mp hc))
        have hkept : [f a].removeAll (as.map f) = [f a] :=
          List.filter_eq_self.mpr fun b hb => by simpa [List.mem_singleton.mp hb] using h
        have hone : ([f a].removeAll (as.map f)).eraseDups = [f a] := by rw [hkept]; rfl
        rw [List.map_cons, List.map_nil, hone]
        exact if_neg hfound

theorem collectProtocolInfo_eq (catalog : StaticCatalog) :
    collectProtocolInfo catalog =
      if catalog.items = [] then [.sonyMp4]
      else (catalog.items.map MediaItem.protocolInfo).eraseDups := by
  rw [collectProtocolInfo, foldl_collect MediaItem.protocolInfo]
  cases catalog.items with
  | nil => rfl
  | cons item items =>
      rw [List.map_cons, List.eraseDups_cons]
      rfl

theorem mem_collectProtocolInfo {catalog : StaticCatalog} {info : ProtocolInfoRef}
    (h : info ∈ collectProtocolInfo catalog) :
    info = .sonyMp4 ∨ ∃ item ∈ catalog.items, item.protocolInfo = info := by
  rw [collectProtocolInfo_eq] at h
  split at h
  · exact .inl (List.mem_singleton.mp h)
  · exact .inr (List.mem_map.mp (List.mem_eraseDups.mp h))

theorem collectProtocolInfo_ne_nil (catalog : StaticCatalog) : collectProtocolInfo catalog ≠ [] := by
  rw [collectProtocolInfo_eq]
  cases catalog.items with
  | nil => exact List.cons_ne_nil _ _
  | cons item items =>
      rw [if_neg (List.cons_ne_nil item items), List.map_cons, List.eraseDups_cons]
      exact List.cons_ne_nil _ _

/-! The client -/

def readProtocolInfoList (text : Str) : Option (List ProtocolInfoRef) :=
  (text.splitOn ',').mapM readProtocolInfo

/-- The formats in the answer to a request for them. -/
def readSource (answer : Node) : Option (List ProtocolInfoRef) := do
  let body ← answer.child "s:Body".toList
  let response ← body.child (responseName "GetProtocolInfo".toList)
  readProtocolInfoList (← response.childText "Source".toList)

/-- The fields that are written as they are have neither separators nor line ends. -/
def PlainFields (info : ProtocolInfoRef) : Prop :=
  ∀ s ∈ [info.protocol, info.network, info.contentFormat],
    s.all isChar = true ∧ ∀ c ∈ [':', ',', '\r'], c ∉ s

instance (info : ProtocolInfoRef) : Decidable (PlainFields info) := by
  unfold PlainFields
  infer_instance

theorem PlainFields.colon {info : ProtocolInfoRef} (h : PlainFields info) :
    ':' ∉ info.protocol ∧ ':' ∉ info.network ∧ ':' ∉ info.contentFormat :=
  ⟨(h _ (by simp)).2 _ (by simp), (h _ (by simp)).2 _ (by simp), (h _ (by simp)).2 _ (by simp)⟩

theorem PlainFields.notMem {info : ProtocolInfoRef} (h : PlainFields info) {c : Char}
    (hc : c ∈ [',', '\r']) : c ∉ info.fmt := by
  have hfield : ∀ s ∈ [info.protocol, info.network, info.contentFormat], c ∉ s := fun s hs =>
    (h s hs).2 c (List.mem_cons_of_mem _ hc)
  have hcolon : c ∉ [':'] := by
    have hall : ∀ c ∈ [',', '\r'], c ∉ [':'] := by decide
    exact hall c hc
  have hinfo : c ∉ writeAdditionalInfo info := by
    intro hm
    have halphabet : ∀ c ∈ [',', '\r'], c ∉ additionalAlphabet := by decide
    exact halphabet c hc (writeAdditionalInfo_subset info hm)
  simp only [List.forall_mem_cons] at hfield
  simp only [ProtocolInfoRef.fmt, List.mem_append, not_or]
  exact ⟨⟨⟨⟨⟨⟨hfield.1, hcolon⟩, hfield.2.1⟩, hcolon⟩, hfield.2.2.1⟩, hcolon⟩, hinfo⟩

theorem PlainFields.chars {info : ProtocolInfoRef} (h : PlainFields info) :
    info.fmt.all isChar = true := by
  rw [all_isChar_fmt, (h _ (by simp)).1, (h _ (by simp)).1, (h _ (by simp)).1]
  rfl

theorem readProtocolInfoList_write {infos : List ProtocolInfoRef} (hne : infos ≠ [])
    (h : ∀ info ∈ infos, PlainFields info) :
    readProtocolInfoList (writeProtocolInfoList infos) = some infos := by
  have hsplit : (writeProtocolInfoList infos).splitOn ',' = infos.map ProtocolInfoRef.fmt := by
    refine List.splitOn_intercalate ',' ?_ (by simpa using hne)
    exact List.forall_mem_map.mpr fun info hinfo => (h info hinfo).notMem (by decide)
  rw [readProtocolInfoList, hsplit]
  clear hsplit hne
  induction infos with
  | nil => rfl
  | cons info infos ih =>
      obtain ⟨hinfo, h⟩ := List.forall_mem_cons.mp h
      rw [List.map_cons, List.mapM_cons, readProtocolInfo_fmt.mpr hinfo.colon, ih h]
      rfl

/-! The answer -/

theorem getProtocolInfo_writable (source sink : Str) :
    Writable connectionManagerService "GetProtocolInfo".toList
      [{ name := "Source".toList, value := source }, { name := "Sink".toList, value := sink }] where
  action := by decide
  service := by decide
  serviceChars := by decide
  names := by
    have hnames : ∀ name ∈ ["Source".toList, "Sink".toList], isName name = true := by decide
    exact fun arg harg => hnames _ (List.mem_map_of_mem (f := ResponseArgumentRef.name) harg)

theorem readSource_responseTree (source sink : Str) :
    readSource (responseTree connectionManagerService "GetProtocolInfo".toList
      [{ name := "Source".toList, value := source }, { name := "Sink".toList, value := sink }]) =
      readProtocolInfoList (lineEnds source) := by
  have htext : ∀ attrs ns, (Node.element (responseName "GetProtocolInfo".toList) attrs
      (.element "Source".toList [] (textNodes (lineEnds source)) :: ns)).childText
        "Source".toList = some (lineEnds source) := fun _ _ =>
    congrArg some (innerText_textNodes _ _ _)
  have hchild : ∀ tag attrs inner,
      (Node.element tag attrs [inner]).children = [inner] := fun _ _ _ => rfl
  unfold readSource responseTree
  simp only [Node.child, hchild, List.find?_cons, Node.isElement, beq_self_eq_true,
    Option.bind_eq_bind, Option.bind_some, List.map_cons, ResponseArgumentRef.node, htext]

theorem mem_writeProtocolInfoList {infos : List ProtocolInfoRef} {c : Char}
    (h : c ∈ writeProtocolInfoList infos) : c = ',' ∨ ∃ info ∈ infos, c ∈ info.fmt := by
  unfold writeProtocolInfoList at h
  induction infos with
  | nil => cases h
  | cons info infos ih =>
      cases infos with
      | nil =>
          rw [List.map_cons, List.map_nil, List.intercalate_singleton] at h
          exact .inr ⟨info, List.mem_cons_self, h⟩
      | cons next infos =>
          rw [List.map_cons, List.map_cons, List.intercalate_cons_cons, List.mem_append,
            List.mem_append, List.mem_singleton] at h
          rcases h with (h | rfl) | h
          · exact .inr ⟨info, List.mem_cons_self, h⟩
          · exact .inl rfl
          · obtain rfl | ⟨other, hother, hc⟩ := ih h
            · exact .inl rfl
            · exact .inr ⟨other, List.mem_cons_of_mem _ hother, hc⟩

theorem all_isChar_protocolInfoList {infos : List ProtocolInfoRef}
    (h : ∀ info ∈ infos, info.fmt.all isChar = true) :
    (writeProtocolInfoList infos).all isChar = true := by
  have hcomma : isChar ',' = true := by decide
  refine List.all_eq_true.mpr fun c hc => ?_
  obtain rfl | ⟨info, hinfo, hc⟩ := mem_writeProtocolInfoList hc
  · exact hcomma
  · exact List.all_eq_true.mp (h info hinfo) c hc

theorem lineEnds_protocolInfoList {infos : List ProtocolInfoRef}
    (h : ∀ info ∈ infos, PlainFields info) :
    lineEnds (writeProtocolInfoList infos) = writeProtocolInfoList infos := by
  refine lineEnds_of_notMem fun hm => ?_
  obtain hc | ⟨info, hinfo, hc⟩ := mem_writeProtocolInfoList hm
  · exact absurd hc (by decide)
  · exact (h info hinfo).notMem (by decide) hc

/-- A control request that is taken as a call of the GetProtocolInfo action. -/
structure CallsGetProtocolInfo (soapXml : Str) (action : ActionRequestRef) : Prop where
  parsed : parseActionRequest soapXml = .ok action
  kind_eq : action.serviceType.kind = "ConnectionManager".toList
  action_eq : action.actionName = "GetProtocolInfo".toList

theorem handleControl_getProtocolInfo {soapXml : Str} {action : ActionRequestRef}
    (h : CallsGetProtocolInfo soapXml action) (catalog : StaticCatalog) :
    handleControl soapXml catalog = .ok (okResponse (writeGetProtocolInfoResponse []
      (writeProtocolInfoList (collectProtocolInfo catalog)))) := by
  have hkind : "ConnectionManager".toList ≠ "ContentDirectory".toList := by decide
  rw [handleControl, h.parsed]
  dsimp only
  rw [if_neg (h.kind_eq ▸ hkind), if_pos h.kind_eq, handleConnectionManager, if_pos h.action_eq]

/-- A request for the formats. -/
def formatsMessage : Message where
  declaration := none
  start := []
  envelope := none
  envelopeAttrs := []
  beforeBody := []
  body := none
  bodyAttrs := []
  beforeAction := []
  action := ⟨none, "GetProtocolInfo".toList⟩
  declarations :=
    [{ gap := [' ']
       pre := none
       left := []
       right := []
       quote := '"'
       value := connectionManagerService.fmt }]
  tail := []
  arguments := []
  beforeActionEnd := []
  beforeBodyEnd := []
  beforeEnvelopeEnd := []
  finish := []
  service := connectionManagerService

theorem formatsMessage_valid : formatsMessage.Valid where
  declaration := nofun
  start := nofun
  envelope := nofun
  envelopeAttrs := isAttrs_nil
  beforeBody := nofun
  body := nofun
  bodyAttrs := isAttrs_nil
  beforeAction := nofun
  action := ⟨nofun, by decide⟩
  action_ne_body := by decide
  declarations := by
    have hspace : IsGap [' '] := by
      unfold IsGap
      decide
    have hvalue : '"' ∉ connectionManagerService.fmt ∧ '\'' ∉ connectionManagerService.fmt ∧
        '<' ∉ connectionManagerService.fmt ∧ '>' ∉ connectionManagerService.fmt := by decide
    have hxmlns : Str.find "xmlns".toList connectionManagerService.fmt = none := by decide
    rintro _ (_ | ⟨_, ⟨⟩⟩)
    exact ⟨hspace, List.cons_ne_nil _ _, nofun, nofun, nofun, .inl rfl, hvalue, hxmlns⟩
  tail := nofun
  service := rfl
  domain := by decide
  kind := by decide
  arguments := nofun
  arguments_ne := nofun
  beforeActionEnd := nofun
  beforeBodyEnd := nofun
  beforeEnvelopeEnd := nofun
  finish := nofun

theorem formatsMessage_calls : CallsGetProtocolInfo formatsMessage.text
    ⟨formatsMessage.service, formatsMessage.action.name, formatsMessage.inner⟩ :=
  ⟨Message.parseActionRequest_text formatsMessage_valid, rfl, rfl⟩

/-- Two MP4 items and an MPEG program stream between them. -/
def mixedClips : StaticCatalog :=
  .fromItems
    [.mp4 "1".toList "A".toList "http://h/media/1".toList,
      { MediaItem.mp4 "2".toList "B".toList "http://h/media/2".toList with
        protocolInfo := .sonyMpegPs "video/mpeg".toList },
      .mp4 "3".toList "C".toList "http://h/media/3".toList]

end RustyCastle.Server
