import RustyCastle.Foundation.Bounded
import RustyCastle.Foundation.Cursor
import RustyCastle.Ssdp.Message

/-!
The message encoders. Each is a program of writes at the cursor of a caller's
buffer, and each emits one wire text: the start line, the headers of the message
in a fixed order, and the empty line.
-/

namespace RustyCastle.Ssdp
open Foundation Foundation.Decimal Foundation.HeaderBlock

abbrev Writer := EStateM EncodeError (Cursor UInt8) Unit

def writeBytes (src : List UInt8) : Writer := Cursor.write .bufferTooSmall src

def writeStr (s : Str) : Writer := writeBytes s.bytes

def writeCrlf : Writer := writeBytes [13, 10]

/-- Writes `name: value\r\n`. -/
def writeHeader (name value : Str) : Writer := do
  writeStr name
  writeBytes [58, 32]
  writeStr value
  writeCrlf

def u32ToStr (n : UInt32) : Str :=
  if n = 0 then "0".toList else digitLoop 10 n.toNat []

def writeU32 (n : UInt32) : Writer := writeStr (u32ToStr n)

/-- Writes a label, a number and the line end. -/
def writeNumber (label : Str) (n : UInt32) : Writer := do
  writeStr label
  writeU32 n
  writeCrlf

/-- `if let Some(b) = o { .. }`. -/
def whenSome {β : Type} (o : Option β) (w : β → Writer) : Writer :=
  match o with
  | some b => w b
  | none => pure ()

/-- The text of a target in `encode_target`. -/
def writeTarget : TargetRef → Writer
  | .all => writeStr "ssdp:all".toList
  | .rootDevice => writeStr "upnp:rootdevice".toList
  | .uuid u => do
      writeStr "uuid:".toList
      writeStr u
  | .deviceType domain kind version => do
      writeStr "urn:".toList
      writeStr domain
      writeStr ":device:".toList
      writeStr kind
      writeBytes [58]
      writeU32 version
  | .serviceType domain kind version => do
      writeStr "urn:".toList
      writeStr domain
      writeStr ":service:".toList
      writeStr kind
      writeBytes [58]
      writeU32 version

/-- The text of an embedded target in `encode_usn`. -/
def writeEmbedded : TargetRef → Writer
  | .all => writeStr "ssdp:all".toList
  | .rootDevice => writeStr "upnp:rootdevice".toList
  | .uuid u => do
      writeStr "uuid:".toList
      writeStr u
  | .deviceType domain kind version => do
      writeStr "urn:".toList
      writeStr domain
      writeStr ":device:".toList
      writeStr kind
      writeBytes [58]
      writeU32 version
  | .serviceType domain kind version => do
      writeStr "urn:".toList
      writeStr domain
      writeStr ":service:".toList
      writeStr kind
      writeBytes [58]
      writeU32 version

def encodeTarget (header : Str) (target : TargetRef) : Writer := do
  writeStr header
  writeBytes [58, 32]
  writeTarget target
  writeCrlf

def encodeUsn (usn : UsnRef) : Writer := do
  writeStr "USN: uuid:".toList
  writeStr usn.deviceUuid
  whenSome usn.embedded fun emb => do
    writeStr "::".toList
    writeEmbedded emb
  writeCrlf

/-- `age.as_secs() as u32`. -/
def ageSecs (age : Duration) : UInt32 := UInt32.ofNat (Duration.asSecs age)

def msearchWriter (msg : MSearchRef) : Writer := do
  writeStr "M-SEARCH * HTTP/1.1\r\n".toList
  writeHeader "HOST".toList msg.host
  writeHeader "MAN".toList manDiscover
  writeNumber "MX: ".toList msg.mx.toUInt32
  encodeTarget "ST".toList msg.st
  whenSome msg.userAgent fun ua => writeHeader "USER-AGENT".toList ua
  whenSome msg.cpfn fun v => writeHeader "CPFN.UPNP.ORG".toList v
  whenSome msg.cpuuid fun v => writeHeader "CPUUID.UPNP.ORG".toList v
  whenSome msg.tcpport fun port => writeNumber "TCPPORT.UPNP.ORG: ".toList port.toUInt32
  writeCrlf

def notifyWriter (msg : NotifyRef) : Writer := do
  writeStr "NOTIFY * HTTP/1.1\r\n".toList
  writeHeader "HOST".toList msg.host
  encodeTarget "NT".toList msg.nt
  writeHeader "NTS".toList msg.nts.asStr
  encodeUsn msg.usn
  whenSome msg.location fun loc => writeHeader "LOCATION".toList loc
  whenSome msg.maxAge fun age => writeNumber "CACHE-CONTROL: max-age=".toList (ageSecs age)
  whenSome msg.server fun srv => writeHeader "SERVER".toList srv
  whenSome msg.bootid fun id => writeNumber "BOOTID.UPNP.ORG: ".toList id
  whenSome msg.configid fun id => writeNumber "CONFIGID.UPNP.ORG: ".toList id
  whenSome msg.nextbootid fun id => writeNumber "NEXTBOOTID.UPNP.ORG: ".toList id
  whenSome msg.searchport fun port => writeNumber "SEARCHPORT.UPNP.ORG: ".toList port.toUInt32
  writeCrlf

def responseWriter (msg : SearchResponseRef) : Writer := do
  writeStr "HTTP/1.1 200 OK\r\n".toList
  writeNumber "CACHE-CONTROL: max-age=".toList (ageSecs msg.maxAge)
  writeHeader "LOCATION".toList msg.location
  encodeTarget "ST".toList msg.st
  encodeUsn msg.usn
  whenSome msg.server fun srv => writeHeader "SERVER".toList srv
  whenSome msg.bootid fun id => writeNumber "BOOTID.UPNP.ORG: ".toList id
  whenSome msg.configid fun id => writeNumber "CONFIGID.UPNP.ORG: ".toList id
  whenSome msg.searchport fun port => writeNumber "SEARCHPORT.UPNP.ORG: ".toList port.toUInt32
  writeCrlf

/-! The encoders return the written slice, next to the buffer they leave. -/

def encodeMsearch (msg : MSearchRef) (out : List UInt8) :
    Except EncodeError (List UInt8) × List UInt8 := Cursor.encodeInto (msearchWriter msg) out

def encodeNotify (msg : NotifyRef) (out : List UInt8) :
    Except EncodeError (List UInt8) × List UInt8 := Cursor.encodeInto (notifyWriter msg) out

def encodeResponse (msg : SearchResponseRef) (out : List UInt8) :
    Except EncodeError (List UInt8) × List UInt8 := Cursor.encodeInto (responseWriter msg) out

/-! What the writers emit -/

abbrev Emits (w : Writer) (out : List UInt8) : Prop := Cursor.Emits EncodeError.bufferTooSmall w out

theorem emits_writeBytes (b : List UInt8) : Emits (writeBytes b) b := Cursor.emits_write _ _

theorem emits_writeStr (s : Str) : Emits (writeStr s) s.bytes := emits_writeBytes _

theorem emits_writeCrlf : Emits writeCrlf [13, 10] := emits_writeBytes _

theorem emits_whenSome {β : Type} {w : β → Writer} {out : β → List UInt8}
    (h : ∀ b, Emits (w b) (out b)) (o : Option β) : Emits (whenSome o w) (o.elim [] out) :=
  Cursor.emits_option h o

theorem u32ToStr_eq (n : UInt32) : u32ToStr n = numeral n.toNat := by
  by_cases h : n = 0
  · subst h
    decide
  · have hpos : 0 < n.toNat := Nat.pos_of_ne_zero fun hz => h (UInt32.toNat_inj.mp hz)
    have hlt : n.toNat < 10 ^ 10 := by
      have := n.toNat_lt
      omega
    rw [u32ToStr, if_neg h, digitLoop_eq [] hpos hlt, List.append_nil]

theorem emits_writeU32 (n : UInt32) : Emits (writeU32 n) (Str.bytes (numeral n.toNat)) := by
  rw [← u32ToStr_eq]
  exact emits_writeStr _

theorem emits_writeHeader (name value : Str) :
    Emits (writeHeader name value) (field name value).render := by
  have h : Emits (writeHeader name value) _ :=
    Cursor.emits_bind (emits_writeStr name) (Cursor.emits_bind (emits_writeBytes [58, 32])
      (Cursor.emits_bind (emits_writeStr value) emits_writeCrlf))
  simpa [Header.render, field] using h

/-- A number line is a header whose value may start with a fixed text. -/
theorem emits_writeNumber {label : Str} (name before : Str)
    (h : label = name ++ ':' :: ' ' :: before) (n : UInt32) :
    Emits (writeNumber label n) (field name (before ++ numeral n.toNat)).render := by
  have he : Emits (writeNumber label n) _ := Cursor.emits_bind (emits_writeStr label)
    (Cursor.emits_bind (emits_writeU32 n) emits_writeCrlf)
  have hsep : Str.bytes (':' :: ' ' :: before) = 58 :: 32 :: before.bytes := rfl
  simpa [Header.render, field, h, hsep] using he

/-- The writes of a URN, for either class word. -/
theorem emits_urn {sep : Str} (cls : Str) (hsep : sep = ':' :: (cls ++ [':'])) (d k : Str)
    (v : UInt32) :
    Emits (do
      writeStr "urn:".toList
      writeStr d
      writeStr sep
      writeStr k
      writeBytes [58]
      writeU32 v) (Str.bytes ("urn:".toList ++ TargetRef.urnRest d cls k v)) := by
  have hcolon : ∀ s : Str, Str.bytes (':' :: s) = 58 :: s.bytes := fun _ => rfl
  have hbytes : Str.bytes ("urn:".toList ++ TargetRef.urnRest d cls k v) =
      Str.bytes "urn:".toList ++ (d.bytes ++ (sep.bytes ++
        (k.bytes ++ ([58] ++ Str.bytes (numeral v.toNat))))) := by
    simp [TargetRef.urnRest, hsep, hcolon]
  rw [hbytes]
  exact Cursor.emits_bind (emits_writeStr _) (Cursor.emits_bind (emits_writeStr d)
    (Cursor.emits_bind (emits_writeStr sep) (Cursor.emits_bind (emits_writeStr k)
    (Cursor.emits_bind (emits_writeBytes [58]) (emits_writeU32 v)))))

theorem emits_writeTarget (t : TargetRef) : Emits (writeTarget t) t.text.bytes := by
  cases t with
  | all => exact emits_writeStr _
  | rootDevice => exact emits_writeStr _
  | uuid u =>
      rw [TargetRef.text_uuid, Str.bytes_append]
      exact Cursor.emits_bind (emits_writeStr _) (emits_writeStr u)
  | deviceType d k v => exact emits_urn "device".toList (by decide) d k v
  | serviceType d k v => exact emits_urn "service".toList (by decide) d k v

/-- The two copies of the target writer write the same. -/
theorem writeEmbedded_eq (t : TargetRef) : writeEmbedded t = writeTarget t := by
  cases t <;> rfl

theorem emits_writeEmbedded (t : TargetRef) : Emits (writeEmbedded t) t.text.bytes := by
  rw [writeEmbedded_eq]
  exact emits_writeTarget t

theorem emits_encodeTarget (header : Str) (t : TargetRef) :
    Emits (encodeTarget header t) (field header t.text).render := by
  have h : Emits (encodeTarget header t) _ := Cursor.emits_bind (emits_writeStr header)
    (Cursor.emits_bind (emits_writeBytes [58, 32])
    (Cursor.emits_bind (emits_writeTarget t) emits_writeCrlf))
  simpa [Header.render, field] using h

theorem emits_encodeUsn (u : UsnRef) :
    Emits (encodeUsn u) (field "USN".toList u.text).render := by
  have hemb (t : TargetRef) : Emits (do
      writeStr "::".toList
      writeEmbedded t) (Str.bytes "::".toList ++ t.text.bytes) :=
    Cursor.emits_bind (emits_writeStr _) (emits_writeEmbedded t)
  have h : Emits (encodeUsn u) _ := Cursor.emits_bind (emits_writeStr _) (Cursor.emits_bind
    (emits_writeStr u.deviceUuid) (Cursor.emits_bind (emits_whenSome hemb u.embedded)
    emits_writeCrlf))
  have hstart : Str.bytes "USN: uuid:".toList =
      Str.bytes "USN".toList ++ [58, 32] ++ Str.bytes "uuid:".toList := by decide
  obtain ⟨d, _ | t⟩ := u
  · simpa only [Header.render, field, UsnRef.text, UsnRef.tail, hstart, Str.bytes_append,
      List.append_assoc, Option.elim, List.nil_append] using h
  · simpa only [Header.render, field, UsnRef.text, UsnRef.tail, hstart, Str.bytes_append,
      List.append_assoc, Option.elim] using h

/-! Wire texts -/

/-- A start line, headers and the empty line. -/
def wire (line : Str) (headers : List Header) : List UInt8 :=
  line.bytes ++ 13 :: 10 :: (headers.flatMap Header.render ++ [13, 10])

def MSearchRef.headers (m : MSearchRef) : List Header :=
  field "HOST".toList m.host ::
  field "MAN".toList manDiscover ::
  field "MX".toList (numeral m.mx.toNat) ::
  field "ST".toList m.st.text ::
  (m.userAgent.toList.map (field "USER-AGENT".toList) ++
  (m.cpfn.toList.map (field "CPFN.UPNP.ORG".toList) ++
  (m.cpuuid.toList.map (field "CPUUID.UPNP.ORG".toList) ++
  m.tcpport.toList.map fun p => field "TCPPORT.UPNP.ORG".toList (numeral p.toNat))))

def NotifyRef.headers (m : NotifyRef) : List Header :=
  field "HOST".toList m.host ::
  field "NT".toList m.nt.text ::
  field "NTS".toList m.nts.asStr ::
  field "USN".toList m.usn.text ::
  (m.location.toList.map (field "LOCATION".toList) ++
  ((m.maxAge.toList.map fun d => field "CACHE-CONTROL".toList (maxAgeText (ageSecs d))) ++
  (m.server.toList.map (field "SERVER".toList) ++
  ((m.bootid.toList.map fun n => field "BOOTID.UPNP.ORG".toList (numeral n.toNat)) ++
  ((m.configid.toList.map fun n => field "CONFIGID.UPNP.ORG".toList (numeral n.toNat)) ++
  ((m.nextbootid.toList.map fun n => field "NEXTBOOTID.UPNP.ORG".toList (numeral n.toNat)) ++
  m.searchport.toList.map fun p => field "SEARCHPORT.UPNP.ORG".toList (numeral p.toNat)))))))

def SearchResponseRef.headers (m : SearchResponseRef) : List Header :=
  field "CACHE-CONTROL".toList (maxAgeText (ageSecs m.maxAge)) ::
  field "LOCATION".toList m.location ::
  field "ST".toList m.st.text ::
  field "USN".toList m.usn.text ::
  (m.server.toList.map (field "SERVER".toList) ++
  ((m.bootid.toList.map fun n => field "BOOTID.UPNP.ORG".toList (numeral n.toNat)) ++
  ((m.configid.toList.map fun n => field "CONFIGID.UPNP.ORG".toList (numeral n.toNat)) ++
  m.searchport.toList.map fun p => field "SEARCHPORT.UPNP.ORG".toList (numeral p.toNat))))

def MSearchRef.wire (m : MSearchRef) : List UInt8 :=
  Ssdp.wire "M-SEARCH * HTTP/1.1".toList m.headers

def NotifyRef.wire (m : NotifyRef) : List UInt8 :=
  Ssdp.wire "NOTIFY * HTTP/1.1".toList m.headers

def SearchResponseRef.wire (m : SearchResponseRef) : List UInt8 :=
  Ssdp.wire "HTTP/1.1 200 OK".toList m.headers

/-- Writers of header lines up to and with the empty line. -/
def EmitsBlock (w : Writer) (headers : List Header) : Prop :=
  Emits w (headers.flatMap Header.render ++ [13, 10])

theorem emitsBlock_end : EmitsBlock writeCrlf [] := emits_writeCrlf

theorem emitsBlock_cons {w rest : Writer} {h : Header} {hs : List Header}
    (hw : Emits w h.render) (hr : EmitsBlock rest hs) :
    EmitsBlock (w >>= fun _ => rest) (h :: hs) := by
  have := Cursor.emits_bind hw hr
  simpa [EmitsBlock] using this

theorem emitsBlock_whenSome {β : Type} {w : β → Writer} {rest : Writer} {h : β → Header}
    {hs : List Header} (hw : ∀ b, Emits (w b) (h b).render) (o : Option β)
    (hr : EmitsBlock rest hs) :
    EmitsBlock (whenSome o w >>= fun _ => rest) (o.toList.map h ++ hs) := by
  have := Cursor.emits_bind (emits_whenSome hw o) hr
  cases o <;> simpa [EmitsBlock] using this

theorem emitsBlock_whenSome_end {β : Type} {w : β → Writer} {h : β → Header}
    (hw : ∀ b, Emits (w b) (h b).render) (o : Option β) :
    EmitsBlock (whenSome o w >>= fun _ => writeCrlf) (o.toList.map h) := by
  simpa using emitsBlock_whenSome hw o emitsBlock_end

theorem emits_wire {start line : Str} {rest : Writer} {headers : List Header}
    (hstart : start.bytes = line.bytes ++ [13, 10]) (hr : EmitsBlock rest headers) :
    Emits (writeStr start >>= fun _ => rest) (wire line headers) := by
  have := Cursor.emits_bind (emits_writeStr start) hr
  simpa [wire, hstart] using this

/-- A number line with nothing before the number. -/
theorem emits_plainNumber {label : Str} (name : Str) (h : label = name ++ ':' :: ' ' :: [])
    (n : UInt32) : Emits (writeNumber label n) (field name (numeral n.toNat)).render :=
  emits_writeNumber name [] h n

theorem emits_plainNumber8 {label : Str} (name : Str) (h : label = name ++ ':' :: ' ' :: [])
    (n : UInt8) : Emits (writeNumber label n.toUInt32) (field name (numeral n.toNat)).render := by
  simpa only [UInt8.toNat_toUInt32] using emits_plainNumber name h n.toUInt32

theorem emits_plainNumber16 {label : Str} (name : Str) (h : label = name ++ ':' :: ' ' :: [])
    (n : UInt16) : Emits (writeNumber label n.toUInt32) (field name (numeral n.toNat)).render := by
  simpa only [UInt16.toNat_toUInt32] using emits_plainNumber name h n.toUInt32

theorem emits_maxAge (d : Duration) :
    Emits (writeNumber "CACHE-CONTROL: max-age=".toList (ageSecs d))
      (field "CACHE-CONTROL".toList (maxAgeText (ageSecs d))).render :=
  emits_writeNumber "CACHE-CONTROL".toList "max-age=".toList (by decide) (ageSecs d)

theorem emits_msearchWriter (m : MSearchRef) : Emits (msearchWriter m) m.wire :=
  emits_wire (by decide) (emitsBlock_cons (emits_writeHeader _ _)
    (emitsBlock_cons (emits_writeHeader _ _)
    (emitsBlock_cons (emits_plainNumber8 _ (by decide) _)
    (emitsBlock_cons (emits_encodeTarget _ _)
    (emitsBlock_whenSome (fun _ => emits_writeHeader _ _) _
    (emitsBlock_whenSome (fun _ => emits_writeHeader _ _) _
    (emitsBlock_whenSome (fun _ => emits_writeHeader _ _) _
    (emitsBlock_whenSome_end (fun _ => emits_plainNumber16 _ (by decide) _) _))))))))

theorem emits_notifyWriter (m : NotifyRef) : Emits (notifyWriter m) m.wire :=
  emits_wire (by decide) (emitsBlock_cons (emits_writeHeader _ _)
    (emitsBlock_cons (emits_encodeTarget _ _) (emitsBlock_cons (emits_writeHeader _ _)
    (emitsBlock_cons (emits_encodeUsn _)
    (emitsBlock_whenSome (fun _ => emits_writeHeader _ _) _
    (emitsBlock_whenSome emits_maxAge _
    (emitsBlock_whenSome (fun _ => emits_writeHeader _ _) _
    (emitsBlock_whenSome (fun _ => emits_plainNumber _ (by decide) _) _
    (emitsBlock_whenSome (fun _ => emits_plainNumber _ (by decide) _) _
    (emitsBlock_whenSome (fun _ => emits_plainNumber _ (by decide) _) _
    (emitsBlock_whenSome_end (fun _ => emits_plainNumber16 _ (by decide) _) _)))))))))))

theorem emits_responseWriter (m : SearchResponseRef) : Emits (responseWriter m) m.wire :=
  emits_wire (by decide) (emitsBlock_cons (emits_maxAge _)
    (emitsBlock_cons (emits_writeHeader _ _) (emitsBlock_cons (emits_encodeTarget _ _)
    (emitsBlock_cons (emits_encodeUsn _)
    (emitsBlock_whenSome (fun _ => emits_writeHeader _ _) _
    (emitsBlock_whenSome (fun _ => emits_plainNumber _ (by decide) _) _
    (emitsBlock_whenSome (fun _ => emits_plainNumber _ (by decide) _) _
    (emitsBlock_whenSome_end (fun _ => emits_plainNumber16 _ (by decide) _) _))))))))

/-- Every encoder returns the whole text of its message, or an error exactly where
the buffer is shorter than that text. -/
theorem encodes_whole :
    (∀ (m : MSearchRef) (out : List UInt8), (encodeMsearch m out).1 =
      if out.length < m.wire.length then .error .bufferTooSmall else .ok m.wire) ∧
    (∀ (m : NotifyRef) (out : List UInt8), (encodeNotify m out).1 =
      if out.length < m.wire.length then .error .bufferTooSmall else .ok m.wire) ∧
    ∀ (m : SearchResponseRef) (out : List UInt8), (encodeResponse m out).1 =
      if out.length < m.wire.length then .error .bufferTooSmall else .ok m.wire := by
  refine ⟨?_, ?_, ?_⟩
  · intro m out
    exact Cursor.encodeInto_eq (emits_msearchWriter m) out
  · intro m out
    exact Cursor.encodeInto_eq (emits_notifyWriter m) out
  · intro m out
    exact Cursor.encodeInto_eq (emits_responseWriter m) out

/-- `encode_msearch` into a fixed buffer. -/
def encodeMsearchInto {n : Nat} (msg : MSearchRef) (buf : Buffer n) :
    Except EncodeError (List UInt8) × Buffer n :=
  ((encodeMsearch msg buf.toList).1, ⟨(encodeMsearch msg buf.toList).2,
    (Cursor.length_encodeInto (emits_msearchWriter msg) buf.toList).trans buf.length_eq⟩)

end RustyCastle.Ssdp
