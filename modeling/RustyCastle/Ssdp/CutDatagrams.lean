import RustyCastle.Ssdp.HeaderOrder
import RustyCastle.Ssdp.SearchQueue

/-!
Datagrams that are read from less than was written. A poll into a short buffer cuts a datagram
off, and a later search writes over one that waits. A cut datagram is not read, and whatever a
control point sends is read as a search if at all.
-/

namespace RustyCastle.Ssdp
open Foundation Foundation.HeaderBlock

/-! Cut datagrams -/

theorem lineOf_wellFormed {h : Header} (hw : h.WellFormed) : (lineOf h).WellFormed :=
  ⟨hw, by simp [lineOf, isBlank], by simp [lineOf]⟩

theorem block_lineOf (headers : List Header) :
    block (headers.map lineOf) .crlf = headers.flatMap Header.render ++ [13, 10] := by
  have hr : ∀ x : Header, (lineOf x).render = x.render := by
    intro x
    simp [lineOf, Line.render, Header.render, LineEnd.bytes]
  simp [block, List.flatMap_map, hr, LineEnd.bytes]

/-- A CRLF that ends the first line of a start of the bytes ends their first line. -/
theorem parse_eq_of_prefix {line : Str} (hline : ¬ [13, 10] <:+: line.bytes) {rest : List UInt8}
    {n : Nat} {kind : StartLine} {rest' : List UInt8}
    (h : StartLine.parse ((line.bytes ++ 13 :: 10 :: rest).take n) = .ok (kind, rest')) :
    StartLine.classify line = .ok kind ∧ rest' = rest.take (n - (line.bytes.length + 2)) ∧
      line.bytes.length + 2 ≤ n := by
  obtain ⟨line', hsplit, hfirst, hkind⟩ := StartLine.parse_ok_iff.mp h
  have hlen := congrArg List.length hsplit
  simp only [List.length_take, List.length_append, List.length_cons] at hlen
  have hwhole : line.bytes ++ 13 :: 10 :: rest = line'.bytes ++ 13 :: 10 ::
      (rest' ++ (line.bytes ++ 13 :: 10 :: rest).drop n) := by
    rw [← List.cons_append, ← List.cons_append, ← List.append_assoc, ← hsplit,
      List.take_append_drop]
  have hcrlf := findCrlf_of_first hline rest
  rw [hwhole, findCrlf_of_first hfirst] at hcrlf
  have hsame := Option.some.inj hcrlf
  obtain ⟨hl, -⟩ := List.append_inj hwhole.symm hsame
  have hread := Str.fromUtf8_bytes line'
  rw [hl, Str.fromUtf8_bytes] at hread
  obtain rfl := Option.some.inj hread
  refine ⟨hkind, ?_, by omega⟩
  have hdrop := congrArg (List.drop (line.bytes.length + 2)) hsplit
  rw [List.drop_take, ← List.drop_drop, List.drop_left, ← List.drop_drop, List.drop_left] at hdrop
  exact hdrop.symm

section
variable {httparse : List UInt8 → Nat → Outcome}

theorem parseMessage_of_incomplete {rest : List UInt8}
    (h : ∀ max offset headers, httparse rest max ≠ .complete offset headers) (kind : StartLine)
    (m : MessageRef) : parseMessage httparse kind rest ≠ .ok m := by
  have hraw : ∀ x, parseRaw httparse rest ≠ .ok x := by
    intro x hx
    unfold parseRaw at hx
    split at hx
    · rename_i hc
      exact h _ _ _ hc
    · cases hx
    · cases hx
  intro hm
  cases kind with
  | mSearch =>
      obtain ⟨msg, hmsg, -⟩ := bind_eq_ok.mp hm
      obtain ⟨x, hx, -⟩ := bind_eq_ok.mp hmsg
      exact hraw x hx
  | notify =>
      obtain ⟨msg, hmsg, -⟩ := bind_eq_ok.mp hm
      obtain ⟨x, hx, -⟩ := bind_eq_ok.mp hmsg
      exact hraw x hx
  | response200 =>
      obtain ⟨msg, hmsg, -⟩ := bind_eq_ok.mp hm
      obtain ⟨x, hx, -⟩ := bind_eq_ok.mp hmsg
      exact hraw x hx

theorem parseDatagram_eq_ok {buf : List UInt8} {m : MessageRef}
    (h : parseDatagram httparse buf = .ok m) :
    ∃ kind rest, StartLine.parse buf = .ok (kind, rest) ∧
      parseMessage httparse kind rest = .ok m := by
  unfold parseDatagram at h
  split at h
  · cases h
  · obtain ⟨⟨kind, rest⟩, hstart, hm⟩ := bind_eq_ok.mp h
    exact ⟨kind, rest, hstart, hm⟩

theorem wire_cut_not_read (hp : SplitsBlock httparse) {line : Str} (hline : 13 ∉ line.bytes)
    {headers : List Header} (hw : ∀ x ∈ headers, x.WellFormed) {n : Nat}
    (hn : n < (wire line headers).length) (m : MessageRef) :
    parseDatagram httparse ((wire line headers).take n) ≠ .ok m := by
  intro h
  obtain ⟨kind, rest, hstart, hm⟩ := parseDatagram_eq_ok h
  have hfirst : ¬ [13, 10] <:+: line.bytes := fun hin => hline (hin.subset (by simp))
  obtain ⟨-, rfl, hle⟩ := parse_eq_of_prefix hfirst hstart
  rw [wire, List.length_append, List.length_cons, List.length_cons, ← block_lineOf] at hn
  refine parseMessage_of_incomplete (fun max offset hs => ?_) kind m hm
  rw [← block_lineOf]
  refine hp.take_not_complete ?_ (by omega) max offset hs
  rw [List.forall_mem_map]
  exact fun x hx => lineOf_wellFormed (hw x hx)

/-- A well-formed message that was cut short is not read. -/
theorem MessageRef.cut_not_read (hp : SplitsBlock httparse) {m : MessageRef} (hw : m.WellFormed)
    {n : Nat} (hn : n < m.wire.length) (r : MessageRef) :
    parseDatagram httparse (m.wire.take n) ≠ .ok r := by
  cases m with
  | search m =>
      exact wire_cut_not_read hp (by decide) (MSearchRef.headers_wellFormed hw) hn r
  | searchResponse m =>
      exact wire_cut_not_read hp (by decide) (SearchResponseRef.headers_wellFormed hw) hn r
  | notify m =>
      exact wire_cut_not_read hp (by decide) (NotifyRef.headers_wellFormed hw) hn r

/-- What is read from a start of a message is the message. -/
theorem MessageRef.read_of_take (hp : SplitsBlock httparse) {m : MessageRef} (hw : m.WellFormed)
    {n : Nat} {r : MessageRef} (h : parseDatagram httparse (m.wire.take n) = .ok r) : r = m := by
  by_cases hn : n < m.wire.length
  · exact absurd h (m.cut_not_read hp hw hn r)
  · rw [List.take_of_length_le (Nat.not_lt.mp hn), parse_wire hp hw] at h
    exact (Except.ok.inj h).symm

/-! The start line of a search -/

def searchLine : Str := "M-SEARCH * HTTP/1.1".toList

/-- The start line of a search, with its end. -/
def searchStart : List UInt8 := searchLine.bytes ++ [13, 10]

theorem read_of_searchStart {rest : List UInt8} {n : Nat} {m : MessageRef}
    (h : parseDatagram httparse ((searchStart ++ rest).take n) = .ok m) :
    ∃ s, m = .search s := by
  obtain ⟨kind, rest', hstart, hm⟩ := parseDatagram_eq_ok h
  have hbuf : searchStart ++ rest = searchLine.bytes ++ 13 :: 10 :: rest := by
    simp [searchStart]
  rw [hbuf] at hstart
  obtain ⟨hkind, -, -⟩ := parse_eq_of_prefix (by decide) hstart
  have hsearch : StartLine.classify searchLine = .ok .mSearch := by decide
  obtain rfl := Except.ok.inj (hkind.symm.trans hsearch)
  obtain ⟨msg, -, hmsg⟩ := bind_eq_ok.mp hm
  exact ⟨msg, (Except.ok.inj hmsg).symm⟩

end

/-- Every encode, also one that fails, leaves the start line at the start of the buffer. -/
theorem searchStart_prefix_written (m : MSearchRef) : searchStart <+: m.written 512 := by
  have hline : Str.bytes "M-SEARCH * HTTP/1.1\r\n".toList = searchStart := by decide
  have hlen : searchStart.length ≤ 512 := by decide
  rw [MSearchRef.written, MSearchRef.pieces, List.singleton_append, hline, Cursor.fitting,
    if_pos hlen]
  exact List.prefix_append _ _

namespace ControlPoint
variable {M : Type}

/-- The buffer starts like a search as soon as something waits in it. -/
def Searching (cp : ControlPoint M) : Prop :=
  cp.pendingTransmits.toList = [] ∨ searchStart <+: cp.scratchBuf.toList

theorem searching_new (ua : Option Str) [MapOps (BoundedStr cacheUsn) CpEntry M] :
    (new ua : ControlPoint M).Searching := .inl rfl

theorem searching_enqueueMsearch (cp : ControlPoint M) (target : TargetRef) (mx : UInt8) :
    searchStart <+: (cp.enqueueMsearch target mx).scratchBuf.toList := by
  have hbuf : (cp.enqueueMsearch target mx).scratchBuf =
      (encodeMsearchInto (cp.searchMessage target mx) cp.scratchBuf).2 := by
    rw [enqueueMsearch_eq]
    split <;> rfl
  rw [hbuf, buf_encodeMsearchInto]
  exact (searchStart_prefix_written _).trans (List.prefix_append _ _)

theorem Searching.of_sameQueue {cp cp' : ControlPoint M} (h : cp.Searching)
    (hs : SameQueue cp cp') : cp'.Searching := by
  obtain ⟨hp, hb⟩ := hs
  rw [Searching, hp, hb]
  exact h

variable [MapOps (BoundedStr cacheUsn) CpEntry M]

theorem searching_step {httparse : List UInt8 → Nat → Outcome} (op : CpOp)
    {cp cp' : ControlPoint M} (h : cp.Searching) (hs : op.step httparse cp = some cp') :
    cp'.Searching := by
  cases op with
  | search target mx now =>
      obtain ⟨timers, rfl⟩ := search_eq_some hs
      exact .inr (cp.searching_enqueueMsearch target mx)
  | pollTransmit bufLen =>
      cases hs
      unfold pollTransmit
      cases hpop : cp.pendingTransmits.pop with
      | none => exact h
      | some x =>
          rcases h with he | hb
          · rw [BoundedVec.pop_eq_none.mpr he] at hpop
            cases hpop
          · exact .inr hb
  | handleDatagram | handleTimeout | pollEvent | pollTimeout =>
      exact h.of_sameQueue (sameQueue_step (by simp) (by simp) hs)

omit [MapOps (BoundedStr cacheUsn) CpEntry M] in
/-- Whatever a control point hands out is read as a search, if it is read. -/
theorem Searching.read_of_poll {httparse : List UInt8 → Nat → Outcome} {cp : ControlPoint M}
    (h : cp.Searching) {bufLen : Nat} {x : Transmit} (hx : (cp.pollTransmit bufLen).1 = some x)
    {m : MessageRef} (hm : parseDatagram httparse x.payload = .ok m) : ∃ s, m = .search s := by
  unfold pollTransmit at hx
  cases hpop : cp.pendingTransmits.pop with
  | none =>
      rw [hpop] at hx
      cases hx
  | some y =>
      rw [hpop] at hx
      obtain rfl := Option.some.inj hx
      rcases h with he | ⟨rest, hb⟩
      · rw [BoundedVec.pop_eq_none.mpr he] at hpop
        cases hpop
      · dsimp only at hm
        rw [← hb] at hm
        exact read_of_searchStart hm

end ControlPoint
end RustyCastle.Ssdp
