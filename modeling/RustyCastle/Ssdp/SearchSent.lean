import RustyCastle.Ssdp.ControlPoint
import RustyCastle.Ssdp.RoundTrip

/-!
The datagram of a search. The control point clamps the waiting time for its own
timers and sends it as it was given, so a receiver reads the search back exactly
when the clamp changes nothing.
-/

namespace RustyCastle.Ssdp
open Foundation Foundation.Decimal Foundation.HeaderBlock

theorem Mx.parse_numeral_out {n : UInt8} (h : ¬ (mxMin ≤ n ∧ n ≤ mxMax)) :
    parse (numeral n.toNat) = .error .mxOutOfRange := by
  simp only [parse, trim_numeral, parseU8Str_numeral, okOr_some, bind, Except.bind, if_neg h]

namespace ControlPoint

/-- The clamp keeps exactly the times that a receiver accepts. -/
theorem clampMx_eq_iff (mx : UInt8) : clampMx mx = mx ↔ mxMin ≤ mx ∧ mx ≤ mxMax := by
  unfold clampMx
  split
  · rename_i h
    refine iff_of_false (fun he => ?_) fun hr => absurd h (UInt8.not_lt.mpr hr.1)
    rw [← he] at h
    exact absurd h (UInt8.lt_irrefl _)
  · rename_i hmin
    split
    · rename_i h
      refine iff_of_false (fun he => ?_) fun hr => absurd h (UInt8.not_lt.mpr hr.2)
      rw [← he] at h
      exact absurd h (UInt8.lt_irrefl _)
    · rename_i hmax
      exact iff_of_true rfl ⟨UInt8.not_lt.mp hmin, UInt8.not_lt.mp hmax⟩

variable {M : Type}

/-- The message that a search encodes. -/
def searchMessage (cp : ControlPoint M) (target : TargetRef) (mx : UInt8) : MSearchRef where
  host := "239.255.255.250:1900".toList
  st := target
  mx
  userAgent := cp.userAgent.map BoundedStr.toStr
  cpfn := none
  cpuuid := none
  tcpport := none

theorem enqueueMsearch_eq (cp : ControlPoint M) (target : TargetRef) (mx : UInt8) :
    cp.enqueueMsearch target mx =
      match (encodeMsearchInto (cp.searchMessage target mx) cp.scratchBuf).1 with
      | .ok enc => { cp with
          scratchBuf := (encodeMsearchInto (cp.searchMessage target mx) cp.scratchBuf).2
          pendingTransmits := cp.pendingTransmits.pushOrDrop (.multicastV4, enc.length) }
      | .error _ => { cp with
          scratchBuf := (encodeMsearchInto (cp.searchMessage target mx) cp.scratchBuf).2 } := rfl

theorem enqueueMsearch_of_fits {cp : ControlPoint M} {target : TargetRef} {mx : UInt8}
    (h : (cp.searchMessage target mx).wire.length ≤ 512) :
    ∃ scratchBuf : Buffer 512,
      scratchBuf.toList = (cp.searchMessage target mx).wire ++
        cp.scratchBuf.toList.drop (cp.searchMessage target mx).wire.length ∧
      cp.enqueueMsearch target mx = { cp with
        scratchBuf
        pendingTransmits := cp.pendingTransmits.pushOrDrop
          (.multicastV4, (cp.searchMessage target mx).wire.length) } := by
  have henc := Cursor.encodeInto_of_fits (emits_msearchWriter (cp.searchMessage target mx))
    (h.trans_eq cp.scratchBuf.length_eq.symm)
  refine ⟨(encodeMsearchInto (cp.searchMessage target mx) cp.scratchBuf).2,
    congrArg Prod.snd henc, ?_⟩
  have hok : (encodeMsearchInto (cp.searchMessage target mx) cp.scratchBuf).1 =
      .ok (cp.searchMessage target mx).wire := congrArg Prod.fst henc
  rw [enqueueMsearch_eq, hok]

theorem enqueueMsearch_of_not_fits {cp : ControlPoint M} {target : TargetRef} {mx : UInt8}
    (h : 512 < (cp.searchMessage target mx).wire.length) :
    cp.enqueueMsearch target mx = { cp with
      scratchBuf := (encodeMsearchInto (cp.searchMessage target mx) cp.scratchBuf).2 } := by
  have herr : (encodeMsearchInto (cp.searchMessage target mx) cp.scratchBuf).1 =
      .error .bufferTooSmall :=
    (Cursor.encodeInto_of_not_fits (emits_msearchWriter (cp.searchMessage target mx))
      (cp.scratchBuf.length_eq.trans_lt h)).1
  rw [enqueueMsearch_eq, herr]

/-- A search enqueues its message and sets the fields of its own timers. -/
theorem search_eq_some {cp cp' : ControlPoint M} {target : TargetRef} {mx : UInt8} {now : Instant}
    (h : cp.search target mx now = some cp') :
    ∃ timers, cp' = { cp.enqueueMsearch target mx with
      timers, retransmitCount := 0, activeMx := clampMx mx } := by
  obtain ⟨t, -, ht⟩ := Option.bind_eq_some_iff.mp h
  obtain rfl := (Option.some.inj ht).symm
  rw [enqueueMsearch_eq, enqueueMsearch_eq]
  dsimp only [searchMessage]
  split <;> exact ⟨_, rfl⟩

/-- Searches send the agent that the control point was created with. -/
theorem searchMessage_of_search {cp cp' : ControlPoint M} {target : TargetRef} {mx : UInt8}
    {now : Instant} (h : cp.search target mx now = some cp') :
    cp'.searchMessage = cp.searchMessage := by
  obtain ⟨timers, rfl⟩ := search_eq_some h
  rw [enqueueMsearch_eq]
  split <;> rfl

/-- A search that a drained control point sends waits alone, at the start of the buffer. -/
theorem drained_search_sends {cp cp' : ControlPoint M} {target : TargetRef} {mx : UInt8}
    {now : Instant} (hdrained : cp.pendingTransmits.toList = [])
    (h : cp.search target mx now = some cp') (hsent : cp'.pendingTransmits.toList ≠ []) :
    cp'.activeMx = clampMx mx ∧
      cp'.pendingTransmits.toList =
        [(.multicastV4, (cp.searchMessage target mx).wire.length)] ∧
      cp'.scratchBuf.toList.take (cp.searchMessage target mx).wire.length =
        (cp.searchMessage target mx).wire := by
  obtain ⟨timers, rfl⟩ := search_eq_some h
  refine ⟨rfl, ?_⟩
  dsimp only at hsent ⊢
  by_cases hfits : (cp.searchMessage target mx).wire.length ≤ 512
  · obtain ⟨scratchBuf, hbuf, he⟩ := enqueueMsearch_of_fits hfits
    rw [he]
    dsimp only
    rw [BoundedVec.toList_pushOrDrop, hdrained, hbuf, List.take_left]
    exact ⟨rfl, rfl⟩
  · rw [enqueueMsearch_of_not_fits (Nat.lt_of_not_le hfits)] at hsent
    exact absurd hdrained hsent

/-- A search whose message fits the buffer returns. -/
theorem search_of_fits (cp : ControlPoint M) (target : TargetRef) (mx : UInt8) (now : Instant)
    (hfits : (cp.searchMessage target mx).wire.length ≤ 512)
    (hmax : now + Duration.fromSecs ((clampMx mx).toNat / 2 + 1) ≤ Duration.max) :
    ∃ timers scratchBuf, cp.search target mx now = some { cp with
      timers, scratchBuf, retransmitCount := 0, activeMx := clampMx mx
      pendingTransmits := cp.pendingTransmits.pushOrDrop
        (.multicastV4, (cp.searchMessage target mx).wire.length) } := by
  let a : ControlPoint M := { cp with retransmitCount := 0, activeMx := clampMx mx }
  obtain ⟨scratchBuf, -, he⟩ :=
    enqueueMsearch_of_fits (show (a.searchMessage target mx).wire.length ≤ 512 from hfits)
  unfold search
  dsimp only
  rw [he, Instant.add_of_le hmax]
  exact ⟨_, scratchBuf, rfl⟩

theorem search_sends (cp : ControlPoint M) (target : TargetRef) (mx : UInt8) (now : Instant)
    (hdrained : cp.pendingTransmits.toList = [])
    (hfits : (cp.searchMessage target mx).wire.length ≤ 512)
    (hmax : now + Duration.fromSecs ((clampMx mx).toNat / 2 + 1) ≤ Duration.max) :
    ∃ cp', cp.search target mx now = some cp' ∧ cp'.pendingTransmits.toList ≠ [] := by
  obtain ⟨timers, scratchBuf, h⟩ := search_of_fits cp target mx now hfits hmax
  refine ⟨_, h, ?_⟩
  dsimp only
  rw [BoundedVec.toList_pushOrDrop, hdrained]
  exact List.cons_ne_nil _ _

/-- The last of the waiting datagrams is polled, whole where the buffer is large enough. -/
theorem pollTransmit_last {cp : ControlPoint M} {q : List (Destination × Nat)} {dest : Destination}
    {len bufLen : Nat} (hq : cp.pendingTransmits.toList = q ++ [(dest, len)])
    (hbuf : 512 ≤ bufLen) :
    ∃ rest, rest.toList = q ∧ cp.pollTransmit bufLen =
      (some ⟨dest, cp.scratchBuf.toList.take len⟩, { cp with pendingTransmits := rest }) := by
  unfold pollTransmit
  cases hpop : cp.pendingTransmits.pop with
  | none =>
      rw [BoundedVec.pop_eq_none.mp hpop] at hq
      simp at hq
  | some r =>
      obtain ⟨⟨dest', len'⟩, rest⟩ := r
      have hsplit := (BoundedVec.pop_eq_some hpop).symm.trans hq
      obtain ⟨hrest, hlast⟩ := List.append_inj' hsplit rfl
      obtain ⟨rfl, rfl⟩ : dest' = dest ∧ len' = len := by simpa using hlast
      have hlen := cp.scratchBuf.length_eq
      refine ⟨rest, hrest, ?_⟩
      dsimp only
      rw [← List.take_take, List.take_of_length_le (hlen.trans_le hbuf)]

end ControlPoint

/-- A search that is readable but for its waiting time is read exactly when the
time is in the range of the parser. -/
theorem parseDatagram_msearch_iff {httparse : List UInt8 → Nat → Outcome}
    (hp : SplitsBlock httparse) {m : MSearchRef}
    (hw : ∀ mx, mxMin ≤ mx ∧ mx ≤ mxMax → { m with mx }.WellFormed) :
    (∃ r, parseDatagram httparse m.wire = .ok r) ↔ mxMin ≤ m.mx ∧ m.mx ≤ mxMax := by
  constructor
  · rintro ⟨r, h⟩
    by_contra hout
    have hw₁ := hw 1 (by decide)
    have hheaders := MSearchRef.headers_wellFormed_of_texts (m := m) hw₁.host hw₁.st.fieldText
      hw₁.userAgent hw₁.cpfn hw₁.cpuuid
    have hmx : field "MX".toList (numeral m.mx.toNat) ∈ m.headers := by simp [MSearchRef.headers]
    refine parseDatagram_msearch_rejected hp hheaders (i := 3) ⟨_, rfl, by decide⟩ hmx ?_ _ h
    intro acc acc' hacc
    rw [Mx.parse_numeral_out hout] at hacc
    cases hacc
  · exact fun h => ⟨_, parseDatagram_msearch hp (hw m.mx h)⟩

/-- A USER-AGENT that a receiver reads back. -/
def PrintableAgent (s : Str) : Prop := (∀ c ∈ s, PrintableChar c) ∧ Str.Trimmed s

theorem searchMessage_wellFormed {M : Type} {cp : ControlPoint M} {target : TargetRef}
    (hparsed : ∃ s, TargetRef.parse s = .ok target) (hchars : target.FreeChars PrintableChar)
    (hagent : ∀ ua ∈ cp.userAgent, PrintableAgent ua.toStr) {mx : UInt8}
    (hmx : mxMin ≤ mx ∧ mx ≤ mxMax) : (cp.searchMessage target mx).WellFormed where
  host := fieldText_literal (s := "239.255.255.250:1900".toList) (by decide) (by decide)
  st := ⟨TargetRef.parsed_iff.mpr hparsed, hchars.imp fun _ => PrintableChar.valueChar⟩
  mx := hmx
  userAgent v hv := by
    obtain ⟨ua, hua, rfl⟩ := Option.mem_map.mp hv
    exact fieldText_literal (hagent ua hua).1 (hagent ua hua).2
  cpfn := nofun
  cpuuid := nofun

/-- The datagram that a drained control point enqueues for a search is polled
whole, and a receiver reads from it the target, the agent and the waiting time
of the control point's own timers exactly when the time was given in range. -/
theorem search_accepted_iff (httparse : List UInt8 → Nat → Outcome) (hp : SplitsBlock httparse)
    {M : Type} (cp cp' : ControlPoint M) (target : TargetRef) (mx : UInt8) (now : Instant)
    (bufLen : Nat) (hparsed : ∃ s, TargetRef.parse s = .ok target)
    (hchars : target.FreeChars PrintableChar)
    (hagent : ∀ ua ∈ cp.userAgent, PrintableAgent ua.toStr)
    (hdrained : cp.pendingTransmits.toList = []) (h : cp.search target mx now = some cp')
    (hsent : cp'.pendingTransmits.toList ≠ []) (hbuf : 512 ≤ bufLen) :
    ∃ payload, (cp'.pollTransmit bufLen).1 = some ⟨.multicastV4, payload⟩ ∧
      cp'.activeMx = ControlPoint.clampMx mx ∧
      ((∃ m, parseDatagram httparse payload = .ok (.search m) ∧ m.st = target ∧
          m.userAgent = cp.userAgent.map BoundedStr.toStr ∧ m.mx = cp'.activeMx) ↔
        mxMin ≤ mx ∧ mx ≤ mxMax) := by
  obtain ⟨hactive, hpending, hwire⟩ := ControlPoint.drained_search_sends hdrained h hsent
  obtain ⟨rest, -, hpoll⟩ := ControlPoint.pollTransmit_last (q := []) hpending hbuf
  rw [hwire] at hpoll
  refine ⟨_, congrArg Prod.fst hpoll, hactive, ?_⟩
  have hw : ∀ n, mxMin ≤ n ∧ n ≤ mxMax → (cp.searchMessage target n).WellFormed :=
    fun n hn => searchMessage_wellFormed hparsed hchars hagent hn
  rw [hactive]
  constructor
  · rintro ⟨m, hm, -⟩
    exact (parseDatagram_msearch_iff hp hw).mp ⟨_, hm⟩
  · intro hmx
    exact ⟨_, parseDatagram_msearch hp (hw mx hmx), rfl, rfl,
      ((ControlPoint.clampMx_eq_iff mx).mpr hmx).symm⟩

/-- A search from the start, for a waiting time in range. -/
theorem search_accepted_iff_sample : ∃ cp' payload m,
    (ControlPoint.new none : ControlPoint CpIndexMap).search .rootDevice 3 0 = some cp' ∧
      (cp'.pollTransmit 512).1 = some ⟨.multicastV4, payload⟩ ∧
      parseDatagram splitBlock payload = .ok (.search m) ∧ m.st = .rootDevice ∧ m.mx = 3 := by
  let start : ControlPoint CpIndexMap := ControlPoint.new none
  obtain ⟨cp', hsearch, hsent⟩ := ControlPoint.search_sends start .rootDevice 3 0 rfl (by decide) (by decide)
  obtain ⟨payload, hpoll, hactive, hiff⟩ := search_accepted_iff splitBlock splitBlock_splitsBlock
    start cp' .rootDevice 3 0 512 ⟨TargetRef.text .rootDevice, TargetRef.parse_text trivial⟩ trivial
    nofun rfl hsearch hsent (Nat.le_refl _)
  obtain ⟨m, hm, hst, -, hmx⟩ := hiff.mpr (by decide)
  exact ⟨cp', payload, m, hsearch, hpoll, hm, hst, hmx.trans hactive⟩

/-- A waiting time of zero is sent as zero, while the control point itself waits
for one second, and no receiver reads the search. -/
theorem search_zero_unread : ∃ cp' payload,
    (ControlPoint.new none : ControlPoint CpIndexMap).search .rootDevice 0 0 = some cp' ∧
      (cp'.pollTransmit 512).1 = some ⟨.multicastV4, payload⟩ ∧ cp'.activeMx = 1 ∧
      ∀ r, parseDatagram splitBlock payload ≠ .ok r := by
  let start : ControlPoint CpIndexMap := ControlPoint.new none
  obtain ⟨cp', hsearch, hsent⟩ := ControlPoint.search_sends start .rootDevice 0 0 rfl (by decide) (by decide)
  obtain ⟨hactive, hpending, hwire⟩ := ControlPoint.drained_search_sends rfl hsearch hsent
  obtain ⟨rest, -, hpoll⟩ := ControlPoint.pollTransmit_last (q := []) hpending (Nat.le_refl 512)
  rw [hwire] at hpoll
  refine ⟨cp', _, hsearch, congrArg Prod.fst hpoll, hactive, fun r hr => ?_⟩
  have hw : ∀ n, mxMin ≤ n ∧ n ≤ mxMax → (start.searchMessage .rootDevice n).WellFormed :=
    fun n hn => searchMessage_wellFormed ⟨TargetRef.text .rootDevice, TargetRef.parse_text trivial⟩
      trivial (fun ua hua => by cases hua) hn
  have hrange := (parseDatagram_msearch_iff splitBlock_splitsBlock hw).mp ⟨r, hr⟩
  exact absurd hrange (by decide)

end RustyCastle.Ssdp
