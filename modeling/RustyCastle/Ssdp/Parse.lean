import RustyCastle.Ssdp.Message

/-!
The datagram parser. The header-block parser of the HTTP library is a parameter;
`SplitsBlock` says what is relied on. Each header loop is a table of arms, tried
in order, over an accumulator of the fields seen so far.
-/

namespace RustyCastle.Ssdp
open Foundation Foundation.HeaderBlock

/-! Start line -/

inductive StartLine where
  | mSearch
  | notify
  | response200
  deriving DecidableEq, Repr

def findCrlf : List UInt8 → Option Nat
  | a :: b :: rest => if a = 13 ∧ b = 10 then some 0 else (findCrlf (b :: rest)).map (· + 1)
  | _ => none

def StartLine.classify (line : Str) : Except ParseError StartLine :=
  if line.eqIgnoreAsciiCase "M-SEARCH * HTTP/1.1".toList then .ok .mSearch
  else if line.eqIgnoreAsciiCase "NOTIFY * HTTP/1.1".toList then .ok .notify
  else if "HTTP/1.1 200".toList.isPrefixOf line then .ok .response200
  else .error .unknownStartLine

def StartLine.parse (buf : List UInt8) : Except ParseError (StartLine × List UInt8) := do
  let crlf ← okOr (findCrlf buf) .tooShort
  let line ← okOr (Str.fromUtf8 (buf.take crlf)) .unknownStartLine
  let rest := buf.drop (crlf + 2)
  let kind ← classify line
  .ok (kind, rest)

theorem findCrlf_append {line : List UInt8} (h : 13 ∉ line) (rest : List UInt8) :
    findCrlf (line ++ 13 :: 10 :: rest) = some line.length := by
  induction line with
  | nil => simp [findCrlf]
  | cons a line ih =>
      have ha : a ≠ 13 := by
        rintro rfl
        simp at h
      have ih' := ih (by simp at h; exact h.2)
      cases line with
      | nil => simp [findCrlf, ha]
      | cons b line => simpa [findCrlf, ha] using ih'

theorem StartLine.parse_line {line : Str} {kind : StartLine} (h : 13 ∉ line.bytes)
    (hkind : classify line = .ok kind) (rest : List UInt8) :
    parse (line.bytes ++ 13 :: 10 :: rest) = .ok (kind, rest) := by
  have hdrop : (line.bytes ++ 13 :: 10 :: rest).drop (line.bytes.length + 2) = rest := by
    simp [List.drop_append]
  have htake : (line.bytes ++ 13 :: 10 :: rest).take line.bytes.length = line.bytes := by simp
  simp only [parse, findCrlf_append h, okOr_some, bind, Except.bind, htake, hdrop,
    Str.fromUtf8_bytes, hkind]

/-! Header loops -/

/-- One arm of a header loop: the name it answers to and what it does. -/
abbrev Arm (α : Type) := Str × (Str → α → Except ParseError α)

section Loop
variable {α : Type}

def headerStep (arms : List (Arm α)) (acc : α) (h : Header) : Except ParseError α := do
  let val ← okOr (Str.fromUtf8 h.value) (.invalidHeaderValue "(non-utf8)")
  match arms.find? fun arm => headerEq h.name arm.1 with
  | some arm => arm.2 val acc
  | none => .ok acc

def headerLoop (arms : List (Arm α)) (headers : List Header) (acc : α) : Except ParseError α :=
  headers.foldlM (headerStep arms) acc

/-- What every arm preserves holds after the loop. -/
theorem headerLoop_invariant {arms : List (Arm α)} {P : α → Prop}
    (harm : ∀ arm ∈ arms, ∀ val acc acc', FieldText val → P acc → arm.2 val acc = .ok acc' →
      P acc')
    {headers : List Header} (hw : ∀ h ∈ headers, h.WellFormed) {acc acc' : α} (hp : P acc)
    (h : headerLoop arms headers acc = .ok acc') : P acc' := by
  induction headers generalizing acc with
  | nil =>
      cases h
      exact hp
  | cons x headers ih =>
      obtain ⟨acc₁, hstep, hrest⟩ := bind_eq_ok.mp (by simpa [headerLoop] using h)
      refine ih (fun y hy => hw y (by simp [hy])) ?_ hrest
      obtain ⟨val, hval, hstep⟩ := bind_eq_ok.mp hstep
      have hft := fieldText_of_wellFormed (hw x (by simp)) (okOr_eq_ok.mp hval)
      split at hstep
      · rename_i arm harm'
        exact harm arm (List.mem_of_find?_eq_some harm') val acc acc₁ hft hp hstep
      · cases hstep
        exact hp

/-- The arm of a name takes the header of that name when no other arm has it. -/
theorem headerStep_arm {arms : List (Arm α)} {arm : Arm α} {name : Str} (val : Str) (acc : α)
    (hmem : arm ∈ arms) (hname : name.bytes.map asciiLower = arm.1.bytes)
    (hd : arms.Pairwise fun a b => a.1.bytes ≠ b.1.bytes) :
    headerStep arms acc (field name val) = arm.2 val acc := by
  have hfind : arms.find? (fun a => headerEq name.bytes a.1) = some arm := by
    induction arms with
    | nil => cases hmem
    | cons a arms ih =>
        obtain ⟨hhead, htail⟩ := List.pairwise_cons.mp hd
        rcases List.mem_cons.mp hmem with rfl | hmem
        · exact List.find?_cons_of_pos (headerEq_iff.mpr hname)
        · have hno : ¬ headerEq name.bytes a.1 = true := by
            rw [headerEq_iff, hname]
            exact (hhead arm hmem).symm
          simp only [List.find?_cons, Bool.eq_false_iff.mpr hno]
          exact ih hmem htail
  simp only [headerStep, field, Str.fromUtf8_bytes, okOr_some, bind, Except.bind, hfind]

/-- The loop does not pass a header that its arm rejects whatever was read before. -/
theorem headerLoop_rejects {arms : List (Arm α)} {arm : Arm α} {name val : Str}
    (hmem : arm ∈ arms) (hname : name.bytes.map asciiLower = arm.1.bytes)
    (hd : arms.Pairwise fun a b => a.1.bytes ≠ b.1.bytes)
    (hrej : ∀ acc acc', arm.2 val acc ≠ .ok acc') {headers : List Header}
    (hh : field name val ∈ headers) (acc acc' : α) : headerLoop arms headers acc ≠ .ok acc' := by
  induction headers generalizing acc with
  | nil => cases hh
  | cons x headers ih =>
      intro h
      obtain ⟨acc₁, hstep, hrest⟩ := bind_eq_ok.mp (by simpa [headerLoop] using h)
      rcases List.mem_cons.mp hh with rfl | hh
      · rw [headerStep_arm val acc hmem hname hd] at hstep
        exact hrej acc acc₁ hstep
      · exact ih hh acc₁ hrest

end Loop

def maxHeaders : Nat := 32

section Parser
variable (httparse : List UInt8 → Nat → Outcome)

def parseRaw (buf : List UInt8) : Except ParseError (List Header × Nat) :=
  match httparse buf maxHeaders with
  | .complete offset headers => .ok (headers, offset)
  | .incomplete => .error .malformedHeaders
  | .invalid => .error .malformedHeaders

/-! M-SEARCH -/

structure MSearchAcc where
  host : Option Str := none
  st : Option TargetRef := none
  mxVal : Option UInt8 := none
  userAgent : Option Str := none
  cpfn : Option Str := none
  cpuuid : Option Str := none
  tcpport : Option UInt16 := none
  sawMan : Bool := false

def msearchArms : List (Arm MSearchAcc) := [
  (Name.host, fun val acc => .ok { acc with host := some val }),
  (Name.st, fun val acc => do
    let t ← TargetRef.parse val
    .ok { acc with st := some t }),
  (Name.man, fun val acc => do
    Man.validate val
    .ok { acc with sawMan := true }),
  (Name.mx, fun val acc => do
    let n ← Mx.parse val
    .ok { acc with mxVal := some n }),
  (Name.userAgent, fun val acc => .ok { acc with userAgent := some val }),
  (Name.cpfn, fun val acc => .ok { acc with cpfn := some val }),
  (Name.cpuuid, fun val acc => .ok { acc with cpuuid := some val }),
  (Name.tcpport, fun val acc => do
    let p ← okOr (parseU16Str val.trim) (.invalidHeaderValue "TCPPORT.UPNP.ORG")
    .ok { acc with tcpport := some p })]

def MSearchAcc.finish (acc : MSearchAcc) : Except ParseError MSearchRef := do
  if acc.sawMan = false then .error (.missingHeader "MAN")
  else
    let host ← okOr acc.host (.missingHeader "HOST")
    let st ← okOr acc.st (.missingHeader "ST")
    let mx ← okOr acc.mxVal (.missingHeader "MX")
    .ok {
      host, st, mx, userAgent := acc.userAgent, cpfn := acc.cpfn, cpuuid := acc.cpuuid,
      tcpport := acc.tcpport }

def parseMsearch (buf : List UInt8) : Except ParseError MSearchRef := do
  let (headers, _) ← parseRaw httparse buf
  let acc ← headerLoop msearchArms headers {}
  acc.finish

/-! NOTIFY -/

structure NotifyAcc where
  host : Option Str := none
  nt : Option TargetRef := none
  nts : Option Nts := none
  usn : Option UsnRef := none
  location : Option Str := none
  maxAge : Option Duration := none
  server : Option Str := none
  bootid : Option UInt32 := none
  configid : Option UInt32 := none
  nextbootid : Option UInt32 := none
  searchport : Option UInt16 := none

def notifyArms : List (Arm NotifyAcc) := [
  (Name.host, fun val acc => .ok { acc with host := some val }),
  (Name.nt, fun val acc => do
    let t ← TargetRef.parse val
    .ok { acc with nt := some t }),
  (Name.nts, fun val acc => do
    let n ← Nts.parse val
    .ok { acc with nts := some n }),
  (Name.usn, fun val acc => do
    let u ← UsnRef.parse val
    .ok { acc with usn := some u }),
  (Name.location, fun val acc =>
    let v := val.trim
    if Uri.isValid v = false then .error (.invalidHeaderValue "LOCATION")
    else .ok { acc with location := some v }),
  (Name.cacheControl, fun val acc => do
    let age ← parseMaxAge val
    .ok { acc with maxAge := some age }),
  (Name.server, fun val acc => .ok { acc with server := some val }),
  (Name.bootid, fun val acc => do
    let id ← parseU32 "BOOTID.UPNP.ORG" val
    .ok { acc with bootid := some id }),
  (Name.configid, fun val acc => do
    let id ← parseU32 "CONFIGID.UPNP.ORG" val
    .ok { acc with configid := some id }),
  (Name.nextbootid, fun val acc => do
    let id ← parseU32 "NEXTBOOTID.UPNP.ORG" val
    .ok { acc with nextbootid := some id }),
  (Name.searchport, fun val acc => do
    let p ← parseSearchport val
    .ok { acc with searchport := some p })]

/-- LOCATION and CACHE-CONTROL are required of all but `ssdp:byebye`. -/
def requiredUnlessByeBye {α : Type} (nts : Nts) (name : String) (o : Option α) :
    Except ParseError (Option α) :=
  match nts with
  | .byeBye => .ok o
  | _ => (okOr o (.missingHeader name)).map some

def NotifyAcc.finish (acc : NotifyAcc) : Except ParseError NotifyRef := do
  let nts ← okOr acc.nts (.missingHeader "NTS")
  let location ← requiredUnlessByeBye nts "LOCATION" acc.location
  let maxAge ← requiredUnlessByeBye nts "CACHE-CONTROL" acc.maxAge
  let host ← okOr acc.host (.missingHeader "HOST")
  let nt ← okOr acc.nt (.missingHeader "NT")
  let usn ← okOr acc.usn (.missingHeader "USN")
  .ok {
    host, nt, nts, usn, location, maxAge, server := acc.server, bootid := acc.bootid,
    configid := acc.configid, nextbootid := acc.nextbootid, searchport := acc.searchport }

def parseNotify (buf : List UInt8) : Except ParseError NotifyRef := do
  let (headers, _) ← parseRaw httparse buf
  let acc ← headerLoop notifyArms headers {}
  acc.finish

/-! Search responses -/

structure ResponseAcc where
  st : Option TargetRef := none
  usn : Option UsnRef := none
  location : Option Str := none
  maxAge : Option Duration := none
  server : Option Str := none
  bootidVal : Option UInt32 := none
  configidVal : Option UInt32 := none
  searchportVal : Option UInt16 := none

def responseArms : List (Arm ResponseAcc) := [
  (Name.st, fun val acc => do
    let t ← TargetRef.parse val
    .ok { acc with st := some t }),
  (Name.usn, fun val acc => do
    let u ← UsnRef.parse val
    .ok { acc with usn := some u }),
  (Name.location, fun val acc =>
    let v := val.trim
    if Uri.isValid v = false then .error (.invalidHeaderValue "LOCATION")
    else .ok { acc with location := some v }),
  (Name.cacheControl, fun val acc => do
    let age ← parseMaxAge val
    .ok { acc with maxAge := some age }),
  (Name.server, fun val acc => .ok { acc with server := some val }),
  (Name.bootid, fun val acc => do
    let id ← parseU32 "BOOTID.UPNP.ORG" val
    .ok { acc with bootidVal := some id }),
  (Name.configid, fun val acc => do
    let id ← parseU32 "CONFIGID.UPNP.ORG" val
    .ok { acc with configidVal := some id }),
  (Name.searchport, fun val acc => do
    let p ← parseSearchport val
    .ok { acc with searchportVal := some p })]

def ResponseAcc.finish (acc : ResponseAcc) : Except ParseError SearchResponseRef := do
  let st ← okOr acc.st (.missingHeader "ST")
  let usn ← okOr acc.usn (.missingHeader "USN")
  let location ← okOr acc.location (.missingHeader "LOCATION")
  let maxAge ← okOr acc.maxAge (.missingHeader "CACHE-CONTROL")
  .ok {
    st, usn, location, maxAge, server := acc.server, bootid := acc.bootidVal,
    configid := acc.configidVal, searchport := acc.searchportVal }

def parseResponse (buf : List UInt8) : Except ParseError SearchResponseRef := do
  let (headers, _) ← parseRaw httparse buf
  let acc ← headerLoop responseArms headers {}
  acc.finish

/-- The message behind a start line. -/
def parseMessage (kind : StartLine) (rest : List UInt8) : Except ParseError MessageRef :=
  match kind with
  | .mSearch => do
      let msg ← parseMsearch httparse rest
      .ok (.search msg)
  | .notify => do
      let msg ← parseNotify httparse rest
      .ok (.notify msg)
  | .response200 => do
      let msg ← parseResponse httparse rest
      .ok (.searchResponse msg)

def parseDatagram (buf : List UInt8) : Except ParseError MessageRef :=
  if buf = [] then .error .tooShort
  else do
    let (kind, rest) ← StartLine.parse buf
    parseMessage httparse kind rest

end Parser
end RustyCastle.Ssdp
