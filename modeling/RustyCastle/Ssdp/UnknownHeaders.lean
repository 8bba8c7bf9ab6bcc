import RustyCastle.Ssdp.HeaderOrder

/-!
Headers that a parser does not know. Their values are passed over, but not
before they are read as UTF-8: the loops convert every value first and look for
its name afterwards.
-/

namespace RustyCastle.Ssdp
open Foundation Foundation.HeaderBlock

/-- The names that the parser of a kind of message recognises. -/
def StartLine.headerNames : StartLine → List Str
  | .mSearch => msearchArms.map Prod.fst
  | .notify => notifyArms.map Prod.fst
  | .response200 => responseArms.map Prod.fst

section Loop
variable {α : Type} {arms : List (Arm α)} {h : Header}

theorem headerStep_unknown {val : Str} (hval : Str.fromUtf8 h.value = some val)
    (hno : ∀ name ∈ arms.map Prod.fst, headerEq h.name name = false) (acc : α) :
    headerStep arms acc h = .ok acc := by
  have hfind : (arms.find? fun arm => headerEq h.name arm.1) = none := by
    rw [List.find?_eq_none]
    exact fun arm harm => Bool.eq_false_iff.mp (hno arm.1 (List.mem_map_of_mem harm))
  rw [headerStep, hval, hfind]
  rfl

/-- An unknown header with a UTF-8 value changes nothing, wherever it stands. -/
theorem headerLoop_insert {val : Str} (hval : Str.fromUtf8 h.value = some val)
    (hno : ∀ name ∈ arms.map Prod.fst, headerEq h.name name = false) (before after : List Header)
    (acc : α) : headerLoop arms (before ++ h :: after) acc =
      headerLoop arms (before ++ after) acc := by
  have htail : ∀ a, headerLoop arms (h :: after) a = headerLoop arms after a := by
    intro a
    rw [headerLoop, List.foldlM_cons, headerStep_unknown hval hno]
    rfl
  unfold headerLoop at htail ⊢
  rw [List.foldlM_append, List.foldlM_append]
  exact congrArg _ (funext htail)

end Loop

section
variable {httparse : List UInt8 → Nat → Outcome}

/-- The headers of a message all have UTF-8 values. -/
theorem StartLine.Block.utf8 {kind : StartLine} {headers : List Header} {h : Header}
    (hblock : kind.Block headers) (hmem : h ∈ headers) :
    ∃ val, Str.fromUtf8 h.value = some val := by
  cases kind with
  | mSearch | notify | response200 =>
      obtain ⟨val, hval, -⟩ := hblock.1 h hmem
      exact ⟨val, hval⟩

theorem parseRaw_block (hp : SplitsBlock httparse) {lines : List Line}
    (hw : ∀ l ∈ lines, l.WellFormed) (hlength : lines.length ≤ maxHeaders) (last : LineEnd)
    (rest : List UInt8) : parseRaw httparse (block lines last ++ rest) =
      .ok (lines.map Line.header, (block lines last).length) := by
  rw [parseRaw, (hp.block_iff hw).mpr ⟨hlength, rfl, rfl⟩]

theorem parseRaw_malformed {buf : List UInt8}
    (h : ∀ offset headers, httparse buf maxHeaders ≠ .complete offset headers) :
    parseRaw httparse buf = .error .malformedHeaders := by
  rw [parseRaw]
  cases houtcome : httparse buf maxHeaders with
  | complete offset headers => exact absurd houtcome (h offset headers)
  | incomplete => rfl
  | invalid => rfl

theorem parseMessage_malformed {buf : List UInt8} {err : ParseError}
    (h : parseRaw httparse buf = .error err) (kind : StartLine) :
    parseMessage httparse kind buf = .error err := by
  cases kind with
  | mSearch =>
      rw [parseMessage, parseMsearch, h]
      rfl
  | notify =>
      rw [parseMessage, parseNotify, h]
      rfl
  | response200 =>
      rw [parseMessage, parseResponse, h]
      rfl

/-- A text that is a block of header lines and what follows them. -/
def StartsWithBlock (buf : List UInt8) : Prop :=
  ∃ lines last rest, (∀ l ∈ lines, Line.WellFormed l) ∧ buf = block lines last ++ rest

theorem parseRaw_lines_malformed (hp : SplitsBlock httparse) {lines : List Line}
    (hw : ∀ l ∈ lines, l.WellFormed) {tail : List UInt8} (hno : ¬ StartsWithBlock tail) :
    parseRaw httparse (lines.flatMap Line.render ++ tail) = .error .malformedHeaders := by
  refine parseRaw_malformed fun offset headers h => hno ?_
  obtain ⟨lines', last, rest, hbuf, hw', -⟩ := (hp.complete_iff _ _ _ _).mp h
  obtain ⟨after, hafter, rfl⟩ := exists_block_of_lines hw hw' hbuf
  exact ⟨after, last, rest, hafter, rfl⟩

theorem parseRaw_tooMany (hp : SplitsBlock httparse) {lines : List Line}
    (hw : ∀ l ∈ lines, l.WellFormed) (hlength : maxHeaders < lines.length) (last : LineEnd)
    (rest : List UInt8) :
    parseRaw httparse (block lines last ++ rest) = .error .malformedHeaders :=
  parseRaw_malformed fun _ _ h => Nat.not_le_of_lt hlength ((hp.block_iff hw).mp h).1

section Insertion
variable {before after : List Line} {l : Line} {kind : StartLine} {val : Str}

theorem parseMessage_insert (hp : SplitsBlock httparse) (hw : ∀ x ∈ before ++ after, x.WellFormed)
    (hl : l.WellFormed) (hlength : (before ++ after).length < maxHeaders)
    (hno : ∀ name ∈ kind.headerNames, headerEq l.header.name name = false)
    (hval : Str.fromUtf8 l.header.value = some val) (last : LineEnd) (rest : List UInt8) :
    parseMessage httparse kind (block (before ++ l :: after) last ++ rest) =
      parseMessage httparse kind (block (before ++ after) last ++ rest) := by
  have hw' : ∀ x ∈ before ++ l :: after, x.WellFormed :=
    List.forall_mem_append.mpr ⟨(List.forall_mem_append.mp hw).1,
      List.forall_mem_cons.mpr ⟨hl, (List.forall_mem_append.mp hw).2⟩⟩
  have hlength' : (before ++ l :: after).length ≤ maxHeaders := by
    simp only [List.length_append, List.length_cons] at hlength ⊢
    omega
  have hraw := parseRaw_block hp hw (Nat.le_of_lt hlength) last rest
  have hraw' := parseRaw_block hp hw' hlength' last rest
  rw [List.map_append] at hraw
  rw [List.map_append, List.map_cons] at hraw'
  cases kind with
  | mSearch =>
      simp only [parseMessage, parseMsearch, hraw, hraw', bind, Except.bind,
        headerLoop_insert hval hno]
  | notify =>
      simp only [parseMessage, parseNotify, hraw, hraw', bind, Except.bind,
        headerLoop_insert hval hno]
  | response200 =>
      simp only [parseMessage, parseResponse, hraw, hraw', bind, Except.bind,
        headerLoop_insert hval hno]

theorem StartsWithBlock.insert {tail : List UInt8} (hp : SplitsBlock httparse)
    (hb : ∀ x ∈ before, x.WellFormed) (hl : l.WellFormed) (ht : StartsWithBlock tail)
    (hroom : ∀ offset headers, httparse (before.flatMap Line.render ++ tail) maxHeaders =
      .complete offset headers → headers.length < maxHeaders)
    (hno : ∀ name ∈ kind.headerNames, headerEq l.header.name name = false)
    (hval : Str.fromUtf8 l.header.value = some val) :
    parseMessage httparse kind (before.flatMap Line.render ++ (l.render ++ tail)) =
      parseMessage httparse kind (before.flatMap Line.render ++ tail) := by
  obtain ⟨after, last, rest, hafter, rfl⟩ := ht
  have hw : ∀ x ∈ before ++ after, x.WellFormed := List.forall_mem_append.mpr ⟨hb, hafter⟩
  have hbuf : before.flatMap Line.render ++ (block after last ++ rest) =
      block (before ++ after) last ++ rest := by simp [block]
  have hbuf' : before.flatMap Line.render ++ (l.render ++ (block after last ++ rest)) =
      block (before ++ l :: after) last ++ rest := by simp [block]
  rw [hbuf] at hroom ⊢
  rw [hbuf']
  by_cases hlength : (before ++ after).length < maxHeaders
  · exact parseMessage_insert hp hw hl hlength hno hval last rest
  · have hmany : maxHeaders < (before ++ after).length := by
      refine Nat.lt_of_le_of_ne (Nat.le_of_not_lt hlength) fun hfull => hlength ?_
      simpa using hroom _ _ ((hp.block_iff hw).mpr ⟨hfull.ge, rfl, rfl⟩)
    have hmany' : maxHeaders < (before ++ l :: after).length := by
      simp only [List.length_append, List.length_cons] at hmany ⊢
      omega
    have hw' : ∀ x ∈ before ++ l :: after, x.WellFormed :=
      List.forall_mem_append.mpr ⟨hb, List.forall_mem_cons.mpr ⟨hl, hafter⟩⟩
    rw [parseMessage_malformed (parseRaw_tooMany hp hw hmany last rest),
      parseMessage_malformed (parseRaw_tooMany hp hw' hmany' last rest)]

/-- No parser passes a line whose value is not UTF-8. -/
theorem parseMessage_not_utf8 {tail : List UInt8} (hp : SplitsBlock httparse)
    (hb : ∀ x ∈ before, x.WellFormed) (hl : l.WellFormed)
    (hval : Str.fromUtf8 l.header.value = none) (m : MessageRef) :
    parseMessage httparse kind (before.flatMap Line.render ++ (l.render ++ tail)) ≠ .ok m := by
  intro hm
  obtain ⟨offset, headers, hraw, hblock⟩ := parseMessage_ok_iff.mp ⟨m, hm⟩
  obtain ⟨lines, last, rest, hbuf, hw, -⟩ := (hp.complete_iff _ _ _ _).mp hraw
  have hfront : ∀ x ∈ before ++ [l], x.WellFormed :=
    List.forall_mem_append.mpr ⟨hb, List.forall_mem_singleton.mpr hl⟩
  have hsplit : (before ++ [l]).flatMap Line.render ++ tail = block lines last ++ rest := by
    rw [← hbuf]
    simp
  obtain ⟨after, hafter, rfl⟩ := exists_block_of_lines hfront hw hsplit
  have hlines : before.flatMap Line.render ++ (l.render ++ (block after last ++ rest)) =
      block (before ++ l :: after) last ++ rest := by simp [block]
  have hw' : ∀ x ∈ before ++ l :: after, x.WellFormed :=
    List.forall_mem_append.mpr ⟨hb, List.forall_mem_cons.mpr ⟨hl, hafter⟩⟩
  rw [hlines, hp.block_iff hw'] at hraw
  obtain ⟨-, -, rfl⟩ := hraw
  have hmem : l.header ∈ (before ++ l :: after).map Line.header :=
    List.mem_map_of_mem (List.mem_append_right _ (List.mem_cons_self ..))
  obtain ⟨val, hutf8⟩ := hblock.utf8 hmem
  rw [hval] at hutf8
  cases hutf8

end Insertion
end

/-- The parser of a datagram with this first line recognises no such name. Where
the first line is that of no message there is no parser. -/
def UnknownName (first name : List UInt8) : Prop :=
  ∀ line kind, Str.fromUtf8 first = some line → StartLine.classify line = .ok kind →
    ∀ known ∈ kind.headerNames, headerEq name known = false

/-- A line with an unknown name and a UTF-8 value changes nothing in a datagram
with room for it, wherever it stands among the header lines. With another value
the datagram is no message. -/
theorem unknown_header_ignored (httparse : List UInt8 → Nat → Outcome) (hp : SplitsBlock httparse)
    (first : List UInt8) (before : List Line) (l : Line) (tail : List UInt8)
    (hfirst : ¬ [13, 10] <:+: first) (hbefore : ∀ x ∈ before, x.WellFormed) (hl : l.WellFormed)
    (hroom : ∀ offset headers, httparse (before.flatMap Line.render ++ tail) maxHeaders =
      .complete offset headers → headers.length ≤ 31)
    (hunknown : UnknownName first l.header.name) :
    ((∃ val, Str.fromUtf8 l.header.value = some val) →
      parseDatagram httparse
          (first ++ 13 :: 10 :: (before.flatMap Line.render ++ (l.render ++ tail))) =
        parseDatagram httparse (first ++ 13 :: 10 :: (before.flatMap Line.render ++ tail))) ∧
    (Str.fromUtf8 l.header.value = none → ∀ m, parseDatagram httparse
      (first ++ 13 :: 10 :: (before.flatMap Line.render ++ (l.render ++ tail))) ≠ .ok m) := by
  constructor
  · rintro ⟨val, hval⟩
    rw [parseDatagram_first hfirst, parseDatagram_first hfirst]
    cases hline : Str.fromUtf8 first with
    | none => rfl
    | some line =>
        cases hkind : StartLine.classify line with
        | error err =>
            simp only [okOr_some, bind, Except.bind, hkind]
        | ok kind =>
            simp only [okOr_some, bind, Except.bind, hkind]
            have hno := hunknown line kind hline hkind
            by_cases ht : StartsWithBlock tail
            · exact ht.insert hp hbefore hl (fun o hs h => Nat.lt_succ_of_le (hroom o hs h)) hno hval
            · have hlines : before.flatMap Line.render ++ (l.render ++ tail) =
                  (before ++ [l]).flatMap Line.render ++ tail := by simp
              have hw : ∀ x ∈ before ++ [l], x.WellFormed :=
                List.forall_mem_append.mpr ⟨hbefore, List.forall_mem_singleton.mpr hl⟩
              rw [hlines, parseMessage_malformed (parseRaw_lines_malformed hp hw ht),
                parseMessage_malformed (parseRaw_lines_malformed hp hbefore ht)]
  · intro hval m hm
    rw [parseDatagram_first hfirst] at hm
    obtain ⟨line, -, hm⟩ := bind_eq_ok.mp hm
    obtain ⟨kind, -, hm⟩ := bind_eq_ok.mp hm
    exact parseMessage_not_utf8 hp hbefore hl hval m hm

/-- A header of a vendor, in front of the headers of a search. -/
def vendorLine (value : List UInt8) : Line := lineOf ⟨Str.bytes "X-Vendor".toList, value⟩

theorem vendorLine_name (value : List UInt8) :
    (vendorLine value).header.name = Str.bytes "X-Vendor".toList := rfl

theorem unknownName_vendorLine (value : List UInt8) :
    UnknownName (Str.bytes "M-SEARCH * HTTP/1.1".toList) (vendorLine value).header.name := by
  intro line kind hline hkind
  rw [Str.fromUtf8_bytes] at hline
  obtain rfl := Option.some.inj hline
  cases hkind
  rw [vendorLine_name]
  decide

theorem searchAllLines_room (offset : Nat) (headers : List Header)
    (h : splitBlock (block searchAllLines .crlf ++ []) maxHeaders = .complete offset headers) :
    headers.length ≤ 31 := by
  obtain ⟨-, -, rfl⟩ :=
    (splitBlock_splitsBlock.block_iff searchAllLines_wellFormed).mp h
  decide

theorem vendorLine_wellFormed {value : List UInt8} (hv : ∀ b ∈ value, 128 ≤ b) :
    (vendorLine value).WellFormed where
  header := by
    have hblank : ∀ b, 128 ≤ b → isBlank b = false := forall_byte (by decide +kernel)
    have hvalue : ∀ b, 128 ≤ b → isValueByte b = true := forall_byte (by decide +kernel)
    exact ⟨by rw [vendorLine_name]; decide, by rw [vendorLine_name]; decide,
      fun b hb => hvalue b (hv b hb),
      fun b hb => hblank b (hv b (List.mem_of_mem_head? hb)),
      fun b hb => hblank b (hv b (List.mem_of_mem_getLast? hb))⟩
  before := by simp [vendorLine, lineOf, isBlank]
  after := by simp [vendorLine, lineOf]

theorem unknown_header_ignored_sample :
    parseDatagram splitBlock (Str.bytes "M-SEARCH * HTTP/1.1".toList ++ 13 :: 10 ::
      ((vendorLine [0xC3, 0xA9]).render ++ (block searchAllLines .crlf ++ []))) =
      .ok (.search searchAll) ∧
    ∀ m, parseDatagram splitBlock (Str.bytes "M-SEARCH * HTTP/1.1".toList ++ 13 :: 10 ::
      ((vendorLine [0xE9]).render ++ (block searchAllLines .crlf ++ []))) ≠ .ok m := by
  constructor
  · rw [← parseDatagram_searchAllLines]
    exact (unknown_header_ignored splitBlock splitBlock_splitsBlock _ [] _ _ (by decide)
      (by simp) (vendorLine_wellFormed (by decide)) searchAllLines_room
      (unknownName_vendorLine _)).1 ⟨['é'], by decide⟩
  · exact (unknown_header_ignored splitBlock splitBlock_splitsBlock _ [] _ _ (by decide)
      (by simp) (vendorLine_wellFormed (by decide)) searchAllLines_room
      (unknownName_vendorLine _)).2 (by decide)

/-- A single byte `é` under an unknown name: the search is dropped. -/
theorem latin1_header_rejected :
    parseDatagram splitBlock (Str.bytes "M-SEARCH * HTTP/1.1".toList ++ 13 :: 10 ::
      (block searchAllLines .crlf ++ [])) = .ok (.search searchAll) ∧
    (vendorLine [0xE9]).WellFormed ∧
    UnknownName (Str.bytes "M-SEARCH * HTTP/1.1".toList) (vendorLine [0xE9]).header.name ∧
    parseDatagram splitBlock (Str.bytes "M-SEARCH * HTTP/1.1".toList ++ 13 :: 10 ::
      ((vendorLine [0xE9]).render ++ (block searchAllLines .crlf ++ []))) =
      .error (.invalidHeaderValue "(non-utf8)") := by
  refine ⟨parseDatagram_searchAllLines, vendorLine_wellFormed (by decide),
    unknownName_vendorLine _, ?_⟩
  have hw : ∀ l ∈ vendorLine [0xE9] :: searchAllLines, l.WellFormed :=
    List.forall_mem_cons.mpr ⟨vendorLine_wellFormed (by decide), searchAllLines_wellFormed⟩
  have hbuf : (vendorLine [0xE9]).render ++ (block searchAllLines .crlf ++ []) =
      block (vendorLine [0xE9] :: searchAllLines) .crlf ++ [] := by simp [block]
  have hraw := parseRaw_block splitBlock_splitsBlock hw (by decide) .crlf []
  rw [hbuf, parseDatagram_first (by decide), Str.fromUtf8_bytes]
  have hclass : StartLine.classify "M-SEARCH * HTTP/1.1".toList = .ok .mSearch := rfl
  simp only [okOr_some, bind, Except.bind, hclass, parseMessage, parseMsearch, hraw]
  rfl

end RustyCastle.Ssdp
