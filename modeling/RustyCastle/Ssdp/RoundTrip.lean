import RustyCastle.Ssdp.Encode
import RustyCastle.Ssdp.ParseSound

/-!
The wire text of a well-formed message parses back to the message. The header
loops are run over the emitted headers one field at a time.
-/

namespace RustyCastle.Ssdp
open Foundation Foundation.Decimal Foundation.HeaderBlock

section Loop
variable {α : Type} {arms : List (Arm α)}

/-- No two arms answer to one name. -/
def DistinctNames (arms : List (Arm α)) : Prop := arms.Pairwise fun a b => a.1.bytes ≠ b.1.bytes

/-- Arm `i` answers to the header name `name`. -/
def Answers (arms : List (Arm α)) (i : Nat) (name : Str)
    (f : Str → α → Except ParseError α) : Prop :=
  ∃ n, arms[i]? = some (n, f) ∧ name.bytes.map asciiLower = n.bytes

theorem headerLoop_field (hd : DistinctNames arms) {i : Nat} {name : Str}
    {f : Str → α → Except ParseError α} (ha : Answers arms i name f) {val : Str} {acc acc' : α}
    (hf : f val acc = .ok acc') (hs : List Header) :
    headerLoop arms (field name val :: hs) acc = headerLoop arms hs acc' := by
  obtain ⟨n, hi, hname⟩ := ha
  have hstep := headerStep_arm val acc (List.mem_of_getElem? hi) hname hd
  simp only [headerLoop, List.foldlM_cons, hstep, hf, bind, Except.bind]

/-- An optional field sets its slot to what is written. -/
theorem headerLoop_option (hd : DistinctNames arms) {i : Nat} {name : Str}
    {f : Str → α → Except ParseError α} (ha : Answers arms i name f) {β : Type} (text : β → Str)
    (set : Option β → α) (o : Option β) (hf : ∀ b ∈ o, f (text b) (set none) = .ok (set (some b)))
    (hs : List Header) :
    headerLoop arms ((o.toList.map fun b => field name (text b)) ++ hs) (set none) =
      headerLoop arms hs (set o) := by
  cases o with
  | none => rfl
  | some b => exact headerLoop_field hd ha (hf b rfl) hs

end Loop

theorem ageSecs_fromSecs (n : UInt32) : ageSecs (Duration.fromSecs n.toNat) = n := by
  rw [ageSecs, Duration.asSecs_fromSecs, UInt32.ofNat_toNat]

theorem parseMaxAge_ageSecs {d : Duration} (h : WholeSecs d) :
    parseMaxAge (maxAgeText (ageSecs d)) = .ok d := by
  obtain ⟨n, rfl⟩ := h
  rw [ageSecs_fromSecs, parseMaxAge_text]

theorem msearchArms_distinct : DistinctNames msearchArms := by
  unfold DistinctNames
  decide

theorem notifyArms_distinct : DistinctNames notifyArms := by
  unfold DistinctNames
  decide

theorem responseArms_distinct : DistinctNames responseArms := by
  unfold DistinctNames
  decide

theorem headerLoop_msearch {m : MSearchRef} (hw : m.WellFormed) :
    headerLoop msearchArms m.headers {} = .ok {
      host := some m.host, st := some m.st, mxVal := some m.mx, userAgent := m.userAgent,
      cpfn := m.cpfn, cpuuid := m.cpuuid, tcpport := m.tcpport, sawMan := true } := by
  have hd := msearchArms_distinct
  have hst := TargetRef.parse_text hw.st.1
  have hmx := Mx.parse_numeral hw.mx
  rw [MSearchRef.headers,
    headerLoop_field hd (i := 0) ⟨_, rfl, by decide⟩ rfl,
    headerLoop_field hd (i := 2) ⟨_, rfl, by decide⟩ rfl,
    headerLoop_field hd (i := 3) ⟨_, rfl, by decide⟩ (by rw [hmx]; rfl),
    headerLoop_field hd (i := 1) ⟨_, rfl, by decide⟩ (by rw [hst]; rfl)]
  let a : MSearchAcc :=
    { host := some m.host, st := some m.st, mxVal := some m.mx, sawMan := true }
  refine (headerLoop_option hd (i := 4) ⟨_, rfl, by decide⟩ (fun v => v)
    (fun o => { a with userAgent := o }) m.userAgent (fun _ _ => rfl) _).trans ?_
  refine (headerLoop_option hd (i := 5) ⟨_, rfl, by decide⟩ (fun v => v)
    (fun o => { a with userAgent := m.userAgent, cpfn := o }) m.cpfn (fun _ _ => rfl) _).trans ?_
  refine (headerLoop_option hd (i := 6) ⟨_, rfl, by decide⟩ (fun v => v)
    (fun o => { a with userAgent := m.userAgent, cpfn := m.cpfn, cpuuid := o }) m.cpuuid
    (fun _ _ => rfl) _).trans ?_
  have hport : ∀ p ∈ m.tcpport, okOr (parseU16Str (Str.trim (numeral p.toNat)))
      (ParseError.invalidHeaderValue "TCPPORT.UPNP.ORG") = .ok p := by
    intro p _
    rw [trim_numeral, parseU16Str_numeral, okOr_some]
  rw [← List.append_nil (m.tcpport.toList.map _)]
  refine (headerLoop_option hd (i := 7) ⟨_, rfl, by decide⟩ (fun p : UInt16 => numeral p.toNat)
    (fun o => { a with
      userAgent := m.userAgent, cpfn := m.cpfn, cpuuid := m.cpuuid, tcpport := o }) m.tcpport
    (fun p hp => ?_) []).trans rfl
  simp only [hport p hp, bind, Except.bind]

theorem headerLoop_notify {m : NotifyRef} (hw : m.WellFormed) :
    headerLoop notifyArms m.headers {} = .ok {
      host := some m.host, nt := some m.nt, nts := some m.nts, usn := some m.usn,
      location := m.location, maxAge := m.maxAge, server := m.server, bootid := m.bootid,
      configid := m.configid, nextbootid := m.nextbootid, searchport := m.searchport } := by
  have hd := notifyArms_distinct
  have hnt := TargetRef.parse_text hw.nt.1
  have hnts := Nts.parse_asStr m.nts
  have husn := UsnRef.parse_text hw.usn.1
  rw [NotifyRef.headers,
    headerLoop_field hd (i := 0) ⟨_, rfl, by decide⟩ rfl,
    headerLoop_field hd (i := 1) ⟨_, rfl, by decide⟩ (by rw [hnt]; rfl),
    headerLoop_field hd (i := 2) ⟨_, rfl, by decide⟩ (by rw [hnts]; rfl),
    headerLoop_field hd (i := 3) ⟨_, rfl, by decide⟩ (by rw [husn]; rfl)]
  let a : NotifyAcc :=
    { host := some m.host, nt := some m.nt, nts := some m.nts, usn := some m.usn }
  refine (headerLoop_option hd (i := 4) ⟨_, rfl, by decide⟩ (fun v => v)
    (fun o => { a with location := o }) m.location (fun v hv => ?_) _).trans ?_
  · have hv := hw.location v hv
    simp only [Str.trim_of_trimmed hv.2, hv.1, Bool.true_eq_false, if_false]
  let b : NotifyAcc := { a with location := m.location }
  refine (headerLoop_option hd (i := 5) ⟨_, rfl, by decide⟩ (fun d => maxAgeText (ageSecs d))
    (fun o => { b with maxAge := o }) m.maxAge (fun d hd => ?_) _).trans ?_
  · simp only [parseMaxAge_ageSecs (hw.maxAge d hd), bind, Except.bind]
  let c : NotifyAcc := { b with maxAge := m.maxAge }
  refine (headerLoop_option hd (i := 6) ⟨_, rfl, by decide⟩ (fun v => v)
    (fun o => { c with server := o }) m.server (fun _ _ => rfl) _).trans ?_
  let d : NotifyAcc := { c with server := m.server }
  refine (headerLoop_option hd (i := 7) ⟨_, rfl, by decide⟩ (fun n : UInt32 => numeral n.toNat)
    (fun o => { d with bootid := o }) m.bootid (fun n _ => ?_) _).trans ?_
  · simp only [parseU32_numeral, bind, Except.bind]
  let e : NotifyAcc := { d with bootid := m.bootid }
  refine (headerLoop_option hd (i := 8) ⟨_, rfl, by decide⟩ (fun n : UInt32 => numeral n.toNat)
    (fun o => { e with configid := o }) m.configid (fun n _ => ?_) _).trans ?_
  · simp only [parseU32_numeral, bind, Except.bind]
  let f : NotifyAcc := { e with configid := m.configid }
  refine (headerLoop_option hd (i := 9) ⟨_, rfl, by decide⟩ (fun n : UInt32 => numeral n.toNat)
    (fun o => { f with nextbootid := o }) m.nextbootid (fun n _ => ?_) _).trans ?_
  · simp only [parseU32_numeral, bind, Except.bind]
  rw [← List.append_nil (m.searchport.toList.map _)]
  refine (headerLoop_option hd (i := 10) ⟨_, rfl, by decide⟩ (fun p : UInt16 => numeral p.toNat)
    (fun o => { f with nextbootid := m.nextbootid, searchport := o }) m.searchport
    (fun p hp => ?_) []).trans rfl
  simp only [parseSearchport_numeral (hw.searchport p hp), bind, Except.bind]

theorem headerLoop_response {m : SearchResponseRef} (hw : m.WellFormed) :
    headerLoop responseArms m.headers {} = .ok {
      st := some m.st, usn := some m.usn, location := some m.location, maxAge := some m.maxAge,
      server := m.server, bootidVal := m.bootid, configidVal := m.configid,
      searchportVal := m.searchport } := by
  have hd := responseArms_distinct
  have hage := parseMaxAge_ageSecs hw.maxAge
  have hst := TargetRef.parse_text hw.st.1
  have husn := UsnRef.parse_text hw.usn.1
  have htrim := Str.trim_of_trimmed hw.location.2
  rw [SearchResponseRef.headers,
    headerLoop_field hd (i := 3) ⟨_, rfl, by decide⟩ (by rw [hage]; rfl),
    headerLoop_field hd (i := 2) ⟨_, rfl, by decide⟩
      (by simp only [htrim, hw.location.1, Bool.true_eq_false, if_false]; rfl),
    headerLoop_field hd (i := 0) ⟨_, rfl, by decide⟩ (by rw [hst]; rfl),
    headerLoop_field hd (i := 1) ⟨_, rfl, by decide⟩ (by rw [husn]; rfl)]
  let a : ResponseAcc := {
    st := some m.st, usn := some m.usn, location := some m.location, maxAge := some m.maxAge }
  refine (headerLoop_option hd (i := 4) ⟨_, rfl, by decide⟩ (fun v => v)
    (fun o => { a with server := o }) m.server (fun _ _ => rfl) _).trans ?_
  let b : ResponseAcc := { a with server := m.server }
  refine (headerLoop_option hd (i := 5) ⟨_, rfl, by decide⟩ (fun n : UInt32 => numeral n.toNat)
    (fun o => { b with bootidVal := o }) m.bootid (fun n _ => ?_) _).trans ?_
  · simp only [parseU32_numeral, bind, Except.bind]
  let c : ResponseAcc := { b with bootidVal := m.bootid }
  refine (headerLoop_option hd (i := 6) ⟨_, rfl, by decide⟩ (fun n : UInt32 => numeral n.toNat)
    (fun o => { c with configidVal := o }) m.configid (fun n _ => ?_) _).trans ?_
  · simp only [parseU32_numeral, bind, Except.bind]
  rw [← List.append_nil (m.searchport.toList.map _)]
  refine (headerLoop_option hd (i := 7) ⟨_, rfl, by decide⟩ (fun p : UInt16 => numeral p.toNat)
    (fun o => { c with configidVal := m.configid, searchportVal := o }) m.searchport
    (fun p hp => ?_) []).trans rfl
  simp only [parseSearchport_numeral (hw.searchport p hp), bind, Except.bind]

/-! The emitted headers are well formed, and few enough. -/

theorem forall_mem_option {β : Type} {P : Header → Prop} {h : β → Header} {o : Option β}
    (hp : ∀ b ∈ o, P (h b)) : ∀ x ∈ o.toList.map h, P x := by
  intro x hx
  obtain ⟨b, hb, rfl⟩ := List.mem_map.mp hx
  exact hp b (Option.mem_toList.mp hb)

theorem field_numeral_wellFormed {name : Str} (hn : TokenName name) (n : Nat) :
    (field name (numeral n)).WellFormed := field_wellFormed hn (fieldText_numeral n)

theorem fieldText_maxAgeText (n : UInt32) : FieldText (maxAgeText n) := by
  refine fieldText_of_trimmed (fun c hc => ?_) (maxAgeText_trimmed n)
  rcases List.mem_append.mp hc with hc | hc
  · exact (by decide : ∀ c ∈ "max-age=".toList, PrintableChar c) c hc |>.valueChar
  · exact valueChar_of_isDigit (numeral_isDigit hc)

theorem fieldText_literal {s : Str} (hc : ∀ c ∈ s, PrintableChar c) (ht : Str.Trimmed s) :
    FieldText s := fieldText_of_trimmed (fun c h => (hc c h).valueChar) ht

theorem fieldText_asStr (n : Nts) : FieldText n.asStr := by
  cases n <;> exact fieldText_literal (by decide) (by decide)

theorem MSearchRef.headers_wellFormed_of_texts {m : MSearchRef} (host : FieldText m.host)
    (st : FieldText m.st.text) (userAgent : ∀ v ∈ m.userAgent, FieldText v)
    (cpfn : ∀ v ∈ m.cpfn, FieldText v) (cpuuid : ∀ v ∈ m.cpuuid, FieldText v) :
    ∀ x ∈ m.headers, x.WellFormed := by
  have hman : FieldText manDiscover := fieldText_literal (by decide) (by decide)
  simp only [headers, List.forall_mem_cons, List.forall_mem_append]
  refine ⟨field_wellFormed (by decide) host, field_wellFormed (by decide) hman,
    field_numeral_wellFormed (by decide) _, field_wellFormed (by decide) st,
    forall_mem_option fun v hv => field_wellFormed (by decide) (userAgent v hv),
    forall_mem_option fun v hv => field_wellFormed (by decide) (cpfn v hv),
    forall_mem_option fun v hv => field_wellFormed (by decide) (cpuuid v hv),
    forall_mem_option fun p _ => field_numeral_wellFormed (by decide) _⟩

theorem MSearchRef.headers_wellFormed {m : MSearchRef} (hw : m.WellFormed) :
    ∀ x ∈ m.headers, x.WellFormed :=
  headers_wellFormed_of_texts hw.host hw.st.fieldText hw.userAgent hw.cpfn hw.cpuuid

theorem NotifyRef.headers_wellFormed_of_texts {m : NotifyRef} (host : FieldText m.host)
    (nt : FieldText m.nt.text) (usn : FieldText m.usn.text)
    (location : ∀ v ∈ m.location, FieldText v) (server : ∀ v ∈ m.server, FieldText v) :
    ∀ x ∈ m.headers, x.WellFormed := by
  simp only [headers, List.forall_mem_cons, List.forall_mem_append]
  refine ⟨field_wellFormed (by decide) host, field_wellFormed (by decide) nt,
    field_wellFormed (by decide) (fieldText_asStr _), field_wellFormed (by decide) usn,
    forall_mem_option fun v hv => field_wellFormed (by decide) (location v hv),
    forall_mem_option fun d _ => field_wellFormed (by decide) (fieldText_maxAgeText _),
    forall_mem_option fun v hv => field_wellFormed (by decide) (server v hv),
    forall_mem_option fun n _ => field_numeral_wellFormed (by decide) _,
    forall_mem_option fun n _ => field_numeral_wellFormed (by decide) _,
    forall_mem_option fun n _ => field_numeral_wellFormed (by decide) _,
    forall_mem_option fun p _ => field_numeral_wellFormed (by decide) _⟩

theorem NotifyRef.headers_wellFormed {m : NotifyRef} (hw : m.WellFormed) :
    ∀ x ∈ m.headers, x.WellFormed :=
  headers_wellFormed_of_texts hw.host hw.nt.fieldText hw.usn.fieldText
    (fun v hv => (hw.location v hv).fieldText) hw.server

theorem SearchResponseRef.headers_wellFormed_of_texts {m : SearchResponseRef}
    (st : FieldText m.st.text) (usn : FieldText m.usn.text) (location : FieldText m.location)
    (server : ∀ v ∈ m.server, FieldText v) : ∀ x ∈ m.headers, x.WellFormed := by
  simp only [headers, List.forall_mem_cons, List.forall_mem_append]
  refine ⟨field_wellFormed (by decide) (fieldText_maxAgeText _),
    field_wellFormed (by decide) location, field_wellFormed (by decide) st,
    field_wellFormed (by decide) usn,
    forall_mem_option fun v hv => field_wellFormed (by decide) (server v hv),
    forall_mem_option fun n _ => field_numeral_wellFormed (by decide) _,
    forall_mem_option fun n _ => field_numeral_wellFormed (by decide) _,
    forall_mem_option fun p _ => field_numeral_wellFormed (by decide) _⟩

theorem SearchResponseRef.headers_wellFormed {m : SearchResponseRef} (hw : m.WellFormed) :
    ∀ x ∈ m.headers, x.WellFormed :=
  headers_wellFormed_of_texts hw.st.fieldText hw.usn.fieldText hw.location.fieldText hw.server

theorem length_option_le {β : Type} (o : Option β) (h : β → Header) :
    (o.toList.map h).length ≤ 1 := by
  cases o <;> simp

theorem MSearchRef.length_headers_le (m : MSearchRef) : m.headers.length ≤ maxHeaders := by
  have := length_option_le m.userAgent
  have := length_option_le m.cpfn
  have := length_option_le m.cpuuid
  have := length_option_le m.tcpport
  simp only [headers, List.length_cons, List.length_append, maxHeaders]
  grind

theorem NotifyRef.length_headers_le (m : NotifyRef) : m.headers.length ≤ maxHeaders := by
  have := length_option_le m.location
  have := length_option_le m.maxAge
  have := length_option_le m.server
  have := length_option_le m.bootid
  have := length_option_le m.configid
  have := length_option_le m.nextbootid
  have := length_option_le m.searchport
  simp only [headers, List.length_cons, List.length_append, maxHeaders]
  grind

theorem SearchResponseRef.length_headers_le (m : SearchResponseRef) :
    m.headers.length ≤ maxHeaders := by
  have := length_option_le m.server
  have := length_option_le m.bootid
  have := length_option_le m.configid
  have := length_option_le m.searchport
  simp only [headers, List.length_cons, List.length_append, maxHeaders]
  grind

/-! Parsing a wire text -/

section Datagram
variable {httparse : List UInt8 → Nat → Outcome}

theorem parseRaw_render (hp : SplitsBlock httparse) {headers : List Header}
    (hw : ∀ x ∈ headers, x.WellFormed) (hm : headers.length ≤ maxHeaders) :
    ∃ offset, parseRaw httparse (headers.flatMap Header.render ++ [13, 10]) =
      .ok (headers, offset) := by
  obtain ⟨offset, h⟩ := hp.parse_render hw hm []
  rw [List.append_nil] at h
  exact ⟨offset, by simp only [parseRaw, h]⟩

theorem parse_block {α β : Type} (hp : SplitsBlock httparse) {headers : List Header}
    (hw : ∀ x ∈ headers, x.WellFormed) (hm : headers.length ≤ maxHeaders)
    {arms : List (Arm α)} {init acc : α} {finish : α → Except ParseError β} {m : β}
    (hloop : headerLoop arms headers init = .ok acc) (hfinish : finish acc = .ok m) :
    (do
      let (headers, _) ← parseRaw httparse (headers.flatMap Header.render ++ [13, 10])
      let acc ← headerLoop arms headers init
      finish acc) = .ok m := by
  obtain ⟨offset, h⟩ := parseRaw_render hp hw hm
  simp only [h, bind, Except.bind, hloop, hfinish]

/-- A block with a header that its arm rejects is not read. -/
theorem parse_block_rejected {α β : Type} (hp : SplitsBlock httparse) {headers : List Header}
    (hw : ∀ x ∈ headers, x.WellFormed) (hm : headers.length ≤ maxHeaders)
    {arms : List (Arm α)} (hd : DistinctNames arms) {i : Nat} {name val : Str}
    {f : Str → α → Except ParseError α} (ha : Answers arms i name f)
    (hfield : field name val ∈ headers) (hrej : ∀ acc acc', f val acc ≠ .ok acc') (init : α)
    (finish : α → Except ParseError β) (m : β) :
    (do
      let (headers, _) ← parseRaw httparse (headers.flatMap Header.render ++ [13, 10])
      let acc ← headerLoop arms headers init
      finish acc) ≠ .ok m := by
  obtain ⟨n, hi, hname⟩ := ha
  obtain ⟨offset, hraw⟩ := parseRaw_render hp hw hm
  intro h
  obtain ⟨x, hx, h⟩ := bind_eq_ok.mp h
  obtain rfl : (headers, offset) = x := Except.ok.inj (hraw.symm.trans hx)
  obtain ⟨acc, hacc, -⟩ := bind_eq_ok.mp h
  exact headerLoop_rejects (List.mem_of_getElem? hi) hname hd hrej hfield _ _ hacc

theorem parseDatagram_wire_eq {line : Str} {kind : StartLine} (headers : List Header)
    (hline : 13 ∉ line.bytes) (hkind : StartLine.classify line = .ok kind) :
    parseDatagram httparse (wire line headers) =
      parseMessage httparse kind (headers.flatMap Header.render ++ [13, 10]) := by
  have hne : wire line headers ≠ [] := by simp [wire]
  rw [parseDatagram, if_neg hne, wire, StartLine.parse_line hline hkind]
  rfl

theorem parseDatagram_wire {line : Str} {kind : StartLine} {headers : List Header}
    {m : MessageRef} (hline : 13 ∉ line.bytes) (hkind : StartLine.classify line = .ok kind)
    (hm : parseMessage httparse kind (headers.flatMap Header.render ++ [13, 10]) = .ok m) :
    parseDatagram httparse (wire line headers) = .ok m :=
  (parseDatagram_wire_eq headers hline hkind).trans hm

theorem parseDatagram_msearch (hp : SplitsBlock httparse) {m : MSearchRef} (hw : m.WellFormed) :
    parseDatagram httparse m.wire = .ok (.search m) := by
  have hm : parseMsearch httparse (m.headers.flatMap Header.render ++ [13, 10]) = .ok m :=
    parse_block hp (MSearchRef.headers_wellFormed hw) m.length_headers_le
      (headerLoop_msearch hw) rfl
  have hkind : StartLine.classify "M-SEARCH * HTTP/1.1".toList = .ok .mSearch := by decide
  refine parseDatagram_wire (by decide) hkind ?_
  simp only [parseMessage, hm, bind, Except.bind]

/-- A search with a header that its arm rejects is not read. -/
theorem parseDatagram_msearch_rejected (hp : SplitsBlock httparse) {m : MSearchRef}
    (hw : ∀ x ∈ m.headers, x.WellFormed) {i : Nat} {name val : Str}
    {f : Str → MSearchAcc → Except ParseError MSearchAcc} (ha : Answers msearchArms i name f)
    (hfield : field name val ∈ m.headers) (hrej : ∀ acc acc', f val acc ≠ .ok acc')
    (r : MessageRef) : parseDatagram httparse m.wire ≠ .ok r := by
  have hkind : StartLine.classify "M-SEARCH * HTTP/1.1".toList = .ok .mSearch := by decide
  intro h
  rw [MSearchRef.wire, parseDatagram_wire_eq _ (by decide) hkind] at h
  obtain ⟨msg, hmsg, -⟩ : ∃ msg, parseMsearch httparse (m.headers.flatMap Header.render ++
      [13, 10]) = .ok msg ∧ _ := bind_eq_ok.mp h
  exact parse_block_rejected hp hw m.length_headers_le msearchArms_distinct ha hfield hrej _ _ _
    hmsg

/-- `NotifyAcc.finish` finds what an alive or update message must carry. -/
theorem requiredUnlessByeBye_of_isSome {α : Type} {nts : Nts} (name : String) {o : Option α}
    (h : nts ≠ .byeBye → o.isSome) : requiredUnlessByeBye nts name o = .ok o := by
  cases nts with
  | byeBye => rfl
  | alive =>
      obtain ⟨a, rfl⟩ := Option.isSome_iff_exists.mp (h (by decide))
      rfl
  | update =>
      obtain ⟨a, rfl⟩ := Option.isSome_iff_exists.mp (h (by decide))
      rfl

theorem parseDatagram_notify (hp : SplitsBlock httparse) {m : NotifyRef} (hw : m.WellFormed) :
    parseDatagram httparse m.wire = .ok (.notify m) := by
  have hloc := requiredUnlessByeBye_of_isSome "LOCATION" fun h => (hw.advertises h).1
  have hage := requiredUnlessByeBye_of_isSome "CACHE-CONTROL" fun h => (hw.advertises h).2
  have hm : parseNotify httparse (m.headers.flatMap Header.render ++ [13, 10]) = .ok m := by
    refine parse_block hp (NotifyRef.headers_wellFormed hw) m.length_headers_le
      (headerLoop_notify hw) ?_
    simp only [NotifyAcc.finish, okOr_some, bind, Except.bind, hloc, hage]
  have hkind : StartLine.classify "NOTIFY * HTTP/1.1".toList = .ok .notify := by decide
  refine parseDatagram_wire (by decide) hkind ?_
  simp only [parseMessage, hm, bind, Except.bind]

/-- A notification with a header that its arm rejects is not read. -/
theorem parseDatagram_notify_rejected (hp : SplitsBlock httparse) {m : NotifyRef}
    (hw : ∀ x ∈ m.headers, x.WellFormed) {i : Nat} {name val : Str}
    {f : Str → NotifyAcc → Except ParseError NotifyAcc} (ha : Answers notifyArms i name f)
    (hfield : field name val ∈ m.headers) (hrej : ∀ acc acc', f val acc ≠ .ok acc')
    (r : MessageRef) : parseDatagram httparse m.wire ≠ .ok r := by
  have hkind : StartLine.classify "NOTIFY * HTTP/1.1".toList = .ok .notify := by decide
  intro h
  rw [NotifyRef.wire, parseDatagram_wire_eq _ (by decide) hkind] at h
  obtain ⟨msg, hmsg, -⟩ : ∃ msg, parseNotify httparse (m.headers.flatMap Header.render ++
      [13, 10]) = .ok msg ∧ _ := bind_eq_ok.mp h
  exact parse_block_rejected hp hw m.length_headers_le notifyArms_distinct ha hfield hrej _ _ _ hmsg

/-- A search response with a header that its arm rejects is not read. -/
theorem parseDatagram_response_rejected (hp : SplitsBlock httparse) {m : SearchResponseRef}
    (hw : ∀ x ∈ m.headers, x.WellFormed) {i : Nat} {name val : Str}
    {f : Str → ResponseAcc → Except ParseError ResponseAcc} (ha : Answers responseArms i name f)
    (hfield : field name val ∈ m.headers) (hrej : ∀ acc acc', f val acc ≠ .ok acc')
    (r : MessageRef) : parseDatagram httparse m.wire ≠ .ok r := by
  have hkind : StartLine.classify "HTTP/1.1 200 OK".toList = .ok .response200 := by decide
  intro h
  rw [SearchResponseRef.wire, parseDatagram_wire_eq _ (by decide) hkind] at h
  obtain ⟨msg, hmsg, -⟩ : ∃ msg, parseResponse httparse (m.headers.flatMap Header.render ++
      [13, 10]) = .ok msg ∧ _ := bind_eq_ok.mp h
  exact parse_block_rejected hp hw m.length_headers_le responseArms_distinct ha hfield hrej _ _ _
    hmsg

/-- The headers of a response are read behind every line that passes for its first. -/
theorem parseDatagram_response_of_line (hp : SplitsBlock httparse) {m : SearchResponseRef}
    (hw : m.WellFormed) {line : Str} (hline : 13 ∉ line.bytes)
    (hkind : StartLine.classify line = .ok .response200) :
    parseDatagram httparse (wire line m.headers) = .ok (.searchResponse m) := by
  have hm : parseResponse httparse (m.headers.flatMap Header.render ++ [13, 10]) = .ok m :=
    parse_block hp (SearchResponseRef.headers_wellFormed hw) m.length_headers_le
      (headerLoop_response hw) rfl
  refine parseDatagram_wire hline hkind ?_
  simp only [parseMessage, hm, bind, Except.bind]

theorem parseDatagram_response (hp : SplitsBlock httparse) {m : SearchResponseRef}
    (hw : m.WellFormed) : parseDatagram httparse m.wire = .ok (.searchResponse m) :=
  parseDatagram_response_of_line hp hw (by decide) (by decide)

end Datagram

/-! Encoding and parsing again -/

def MessageRef.wire : MessageRef → List UInt8
  | .search m => m.wire
  | .searchResponse m => m.wire
  | .notify m => m.wire

/-- The encoder of the message's kind. -/
def MessageRef.encode (m : MessageRef) (out : List UInt8) :
    Except EncodeError (List UInt8) × List UInt8 :=
  match m with
  | .search m => encodeMsearch m out
  | .searchResponse m => encodeResponse m out
  | .notify m => encodeNotify m out

theorem MessageRef.encode_of_fits (m : MessageRef) {out : List UInt8}
    (h : m.wire.length ≤ out.length) : (m.encode out).1 = .ok m.wire := by
  cases m with
  | search m => exact congrArg Prod.fst (Cursor.encodeInto_of_fits (emits_msearchWriter m) h)
  | searchResponse m =>
      exact congrArg Prod.fst (Cursor.encodeInto_of_fits (emits_responseWriter m) h)
  | notify m => exact congrArg Prod.fst (Cursor.encodeInto_of_fits (emits_notifyWriter m) h)

theorem MessageRef.parse_wire {httparse : List UInt8 → Nat → Outcome}
    (hp : SplitsBlock httparse) {m : MessageRef} (hw : m.WellFormed) :
    parseDatagram httparse m.wire = .ok m := by
  cases m with
  | search m => exact parseDatagram_msearch hp hw
  | searchResponse m => exact parseDatagram_response hp hw
  | notify m => exact parseDatagram_notify hp hw

/-- Every parsed message is encoded into every buffer with room for it, and what
is written parses back to it. -/
theorem encode_parses_back (httparse : List UInt8 → Nat → Outcome) (hp : SplitsBlock httparse)
    (b : List UInt8) (m : MessageRef) (h : parseDatagram httparse b = .ok m) :
    ∃ b', (∀ out : List UInt8, b'.length ≤ out.length → (m.encode out).1 = .ok b') ∧
      parseDatagram httparse b' = .ok m :=
  ⟨m.wire, fun _ => m.encode_of_fits, MessageRef.parse_wire hp (wellFormed_of_parseDatagram hp h)⟩

/-- A search for everything. -/
def searchAll : MSearchRef where
  host := "239.255.255.250:1900".toList
  st := .all
  mx := 1
  userAgent := none
  cpfn := none
  cpuuid := none
  tcpport := none

theorem searchAll_wellFormed : searchAll.WellFormed where
  host := fieldText_of_trimmed (by decide) (by decide)
  st := ⟨trivial, trivial⟩
  mx := by decide
  userAgent := nofun
  cpfn := nofun
  cpuuid := nofun

theorem encode_parses_back_sample : ∃ b',
    (∀ out : List UInt8, b'.length ≤ out.length →
      ((MessageRef.search searchAll).encode out).1 = .ok b') ∧
      parseDatagram splitBlock b' = .ok (.search searchAll) :=
  encode_parses_back splitBlock splitBlock_splitsBlock searchAll.wire (.search searchAll)
    (parseDatagram_msearch splitBlock_splitsBlock searchAll_wellFormed)

end RustyCastle.Ssdp
