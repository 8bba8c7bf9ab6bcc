import RustyCastle.Foundation.Inflow
import RustyCastle.Foundation.Splitting
import RustyCastle.Foundation.Utf8Lossy
import RustyCastle.Server.Runtime

/-!
Reading a request off a connection. A request that is read while more may come is the
text of one: a start line, header lines, a line with nothing on it, and the announced
number of bytes. The reader is settled, so the pieces in which a request comes do not
matter, and what follows it is left alone.
-/

namespace RustyCastle.Server
open Foundation

/-- How reading a request goes wrong: an error of the connection or of what came, or a body
that there is no memory for. The program does not survive the second. -/
inductive ReadFailure where
  | io (error : IoError)
  | outOfMemory
  deriving DecidableEq

abbrev ReadFailure.ofMessage (message : String) : ReadFailure := .io { message := message.toList }

/-- The bytes that come in on a connection. -/
abbrev Incoming := Inflow UInt8 ReadFailure

def decodeLine (line : List UInt8) : Except ReadFailure Str :=
  match Str.fromUtf8 line with
  | some text => .ok text
  | none => .error (.ofMessage "stream did not contain valid UTF-8")

/-- A line with its line feed, which the last line may lack. -/
def readLine : Reader UInt8 ReadFailure Str := do
  let line ← Reader.through 10
  Reader.ofExcept (decodeLine line)

def trimLineEnd (line : Str) : Str := line.rdropWhile fun c => c == '\r' || c == '\n'

/-- A header line without its line end, unless nothing is left of it. -/
def readHeaderLine : Reader UInt8 ReadFailure (Option Str) := do
  let line ← readLine
  let trimmed := trimLineEnd line
  pure (if trimmed.isEmpty then none else some trimmed)

/-- The name and value of a header line. A line without a colon is passed over. -/
def headerField (trimmed : Str) : Option (Str × Str) :=
  (Str.cut [':'] trimmed).map fun field => ((Str.trim field.1).map Char.toLower, Str.trim field.2)

def contentLength (headers : List (Str × Str)) : Nat :=
  ((headers.find? fun h => h.1 == "content-length".toList).bind fun h =>
    Decimal.parseUnsigned 64 h.2).getD 0

/-- A body of some number of bytes, for which there has to be memory first. -/
def readBody (memory n : Nat) : Reader UInt8 ReadFailure (List UInt8) := do
  Reader.ofExcept (if n ≤ memory then .ok () else .error .outOfMemory)
  Reader.exactly n (.ofMessage "failed to fill whole buffer")

def readRequest (memory : Nat) : Reader UInt8 ReadFailure HttpRequest := do
  let startLine ← readLine
  let parts := Str.words startLine
  let lines ← Reader.collect readHeaderLine
  let headers := lines.filterMap headerField
  let body ← readBody memory (contentLength headers)
  pure
    { method := parts[0]?.getD []
      path := parts[1]?.getD []
      headers := headers
      body := Utf8.lossyText body }

/-! Lines -/

def lineBytes (line : Str) : List UInt8 := Str.bytes (line ++ ['\n'])

theorem lineBytes_eq (line : Str) : lineBytes line = Str.bytes line ++ [10] := Str.bytes_append ..

theorem feed_notMem_bytes {s : Str} : (10 : UInt8) ∉ Str.bytes s ↔ '\n' ∉ s := by
  refine not_congr ⟨fun h => ?_, fun h => Str.mem_bytes.mpr ⟨'\n', h, by decide⟩⟩
  obtain ⟨c, hc, hb⟩ := Str.mem_bytes.mp h
  by_cases hlow : c.toNat < 128
  · rw [Str.encode_ascii hlow, List.mem_singleton] at hb
    have hfeed : '\n' = c := by
      have := congrArg UInt8.toNat hb
      rw [UInt8.toNat_ofNat', Nat.mod_eq_of_lt (by omega)] at this
      exact Char.toNat_inj.mp this
    exact hfeed ▸ hc
  · exact absurd (Str.encode_nonAscii (Nat.not_lt.mp hlow) 10 hb) (by decide)

theorem readLine_append {line : Str} (h : '\n' ∉ line) (rest : List UInt8)
    (ending : Ending ReadFailure) :
    readLine ⟨lineBytes line ++ rest, ending⟩ = .done (line ++ ['\n']) rest := by
  refine Reader.bind_eq_done.mpr ⟨lineBytes line, rest, ?_, ?_⟩
  · rw [lineBytes_eq, List.append_assoc, List.singleton_append,
      Reader.through_append (feed_notMem_bytes.mpr h)]
  · rw [Reader.ofExcept_eq_done, decodeLine, lineBytes, Str.fromUtf8_bytes]
    exact ⟨rfl, rfl⟩

/-- A line that is read while more may come has its line feed. -/
theorem readLine_pending {arrived rest : List UInt8} {text : Str} :
    readLine ⟨arrived, .pending⟩ = .done text rest ↔
      ∃ line, '\n' ∉ line ∧ text = line ++ ['\n'] ∧ arrived = lineBytes line ++ rest := by
  constructor
  · intro h
    obtain ⟨bytes, mid, hb, hd⟩ := Reader.bind_eq_done.mp h
    obtain ⟨hdecode, rfl⟩ := Reader.ofExcept_eq_done.mp hd
    obtain ⟨u, v, hu, (harr : arrived = u ++ 10 :: v), hr⟩ | ⟨-, hr⟩ :=
      Reader.through_cases 10 (⟨arrived, .pending⟩ : Incoming)
    · obtain ⟨rfl, rfl⟩ := Reading.done.inj (hr.symm.trans hb)
      unfold decodeLine at hdecode
      split at hdecode
      · rename_i s hs
        obtain rfl := Except.ok.inj hdecode
        have hbytes := Str.bytes_of_fromUtf8 hs
        obtain ⟨line, c, tail, -, rfl, -⟩ := Str.bytes_split_ascii hbytes (by decide)
        refine ⟨line, feed_notMem_bytes.mp hu, ?_, ?_⟩
        · have htext := congrArg Str.fromUtf8 (hbytes.trans (lineBytes_eq line).symm)
          rw [lineBytes, Str.fromUtf8_bytes, Str.fromUtf8_bytes] at htext
          exact Option.some.inj htext
        · rw [harr, lineBytes_eq, List.append_assoc, List.singleton_append]
      · cases hdecode
    · cases hr.symm.trans hb
  · rintro ⟨line, hline, rfl, rfl⟩
    exact readLine_append hline rest _

theorem trimLineEnd_append (line : Str) : trimLineEnd (line ++ ['\n']) = trimLineEnd line :=
  List.rdropWhile_concat_pos _ _ _ rfl

theorem readHeaderLine_append {line : Str} (h : '\n' ∉ line) (rest : List UInt8)
    (ending : Ending ReadFailure) : readHeaderLine ⟨lineBytes line ++ rest, ending⟩ =
      .done (if (trimLineEnd line).isEmpty then none else some (trimLineEnd line)) rest :=
  Reader.bind_eq_done.mpr ⟨_, _, readLine_append h rest ending, by rw [trimLineEnd_append]; rfl⟩

theorem readHeaderLine_pending {arrived rest : List UInt8} {x : Option Str} :
    readHeaderLine ⟨arrived, .pending⟩ = .done x rest ↔
      ∃ line, '\n' ∉ line ∧ arrived = lineBytes line ++ rest ∧
        x = if (trimLineEnd line).isEmpty then none else some (trimLineEnd line) := by
  constructor
  · intro h
    obtain ⟨text, mid, hl, hx⟩ := Reader.bind_eq_done.mp h
    obtain ⟨line, hline, rfl, rfl⟩ := readLine_pending.mp hl
    obtain ⟨rfl, rfl⟩ := Reading.done.inj hx
    exact ⟨line, hline, rfl, by rw [trimLineEnd_append]⟩
  · rintro ⟨line, hline, rfl, rfl⟩
    exact readHeaderLine_append hline rest _

theorem consumes_readHeaderLine : readHeaderLine.Consumes := by
  intro s x rest h
  obtain ⟨text, mid, hl, hx⟩ := Reader.bind_eq_done.mp h
  obtain ⟨bytes, mid', hb, hd⟩ := Reader.bind_eq_done.mp hl
  obtain ⟨hdecode, rfl⟩ := Reader.ofExcept_eq_done.mp hd
  obtain ⟨hx, rfl⟩ := Reading.done.inj hx
  obtain ⟨u, v, -, harr, hr⟩ | ⟨-, hr⟩ := Reader.through_cases 10 s
  · obtain ⟨-, rfl⟩ := Reading.done.inj (hr.symm.trans hb)
    rw [harr, List.length_append, List.length_cons]
    dsimp only
    omega
  · -- at the end the rest of the input is taken, and none is left for an empty line
    rw [hr, Reader.atEnd] at hb
    split at hb
    · cases hb
    · obtain ⟨rfl, rfl⟩ := Reading.done.inj hb
      refine List.length_pos_iff.mpr fun hnil => ?_
      rw [hnil] at hdecode
      obtain rfl := Except.ok.inj hdecode
      cases hx
    · cases hb

/-! The text of a request -/

structure RequestText where
  start : Str
  fields : List Str
  last : Str
  body : List UInt8

namespace RequestText
variable (t : RequestText)

def head : List UInt8 := lineBytes t.start ++ t.fields.flatMap lineBytes ++ lineBytes t.last

def bytes : List UInt8 := t.head ++ t.body

def headers : List (Str × Str) := (t.fields.map trimLineEnd).filterMap headerField

/-- The request that a text is of. -/
def request : HttpRequest where
  method := (Str.words t.start)[0]?.getD []
  path := (Str.words t.start)[1]?.getD []
  headers := t.headers
  body := Utf8.lossyText t.body

/-- The lines are lines, the last one is the first with nothing on it, and the body is as long
as announced. -/
structure WellFormed : Prop where
  start : '\n' ∉ t.start
  fields : ∀ field ∈ t.fields, '\n' ∉ field ∧ trimLineEnd field ≠ []
  last : '\n' ∉ t.last ∧ trimLineEnd t.last = []
  body : t.body.length = contentLength t.headers

end RequestText

theorem collects_append {fields : List Str}
    (hfields : ∀ field ∈ fields, '\n' ∉ field ∧ trimLineEnd field ≠ []) {tail rest : List UInt8}
    {ending : Ending ReadFailure} {lines : List Str}
    (h : Reader.Collects readHeaderLine ⟨tail, ending⟩ lines rest) :
    Reader.Collects readHeaderLine ⟨fields.flatMap lineBytes ++ tail, ending⟩
      (fields.map trimLineEnd ++ lines) rest := by
  induction fields with
  | nil => exact h
  | cons field fields ih =>
      obtain ⟨⟨hfield, hne⟩, hfields⟩ := List.forall_mem_cons.mp hfields
      have hread := readHeaderLine_append hfield (fields.flatMap lineBytes ++ tail) ending
      rw [List.isEmpty_eq_false_iff.mpr hne] at hread
      rw [List.flatMap_cons, List.append_assoc]
      exact .cons hread (ih hfields)

theorem collects_headerLines {arrived rest : List UInt8} {lines : List Str} :
    Reader.Collects readHeaderLine ⟨arrived, .pending⟩ lines rest ↔
      ∃ (fields : List Str) (last : Str), (∀ field ∈ fields, '\n' ∉ field ∧ trimLineEnd field ≠ []) ∧
        ('\n' ∉ last ∧ trimLineEnd last = []) ∧ lines = fields.map trimLineEnd ∧
        arrived = fields.flatMap lineBytes ++ lineBytes last ++ rest := by
  constructor
  · intro h
    generalize hs : (⟨arrived, .pending⟩ : Incoming) = s at h
    induction h generalizing arrived with
    | nil h =>
        subst hs
        obtain ⟨line, hline, rfl, hx⟩ := readHeaderLine_pending.mp h
        split at hx
        · rename_i hempty
          exact ⟨[], line, List.forall_mem_nil _, ⟨hline, List.isEmpty_iff.mp hempty⟩, rfl, rfl⟩
        · cases hx
    | cons h _ ih =>
        subst hs
        obtain ⟨line, hline, rfl, hx⟩ := readHeaderLine_pending.mp h
        split at hx
        · cases hx
        · rename_i hempty
          obtain rfl := Option.some.inj hx
          obtain ⟨fields, last, hfields, hlast, rfl, rfl⟩ := ih rfl
          refine ⟨line :: fields, last, List.forall_mem_cons.mpr ⟨⟨hline, ?_⟩, hfields⟩, hlast,
            rfl, by simp⟩
          simpa using hempty
  · rintro ⟨fields, last, hfields, hlast, rfl, rfl⟩
    have hread := readHeaderLine_append hlast.1 rest .pending
    rw [hlast.2] at hread
    rw [List.append_assoc, ← List.append_nil (fields.map trimLineEnd)]
    exact collects_append hfields (.nil hread)

theorem readBody_eq_done {memory n : Nat} {arrived rest body : List UInt8}
    {ending : Ending ReadFailure} : readBody memory n ⟨arrived, ending⟩ = .done body rest ↔
      n ≤ memory ∧ body.length = n ∧ arrived = body ++ rest := by
  rw [readBody, Reader.bind_eq_done]
  constructor
  · rintro ⟨_, mid, hmemory, hbody⟩
    obtain ⟨hmemory, rfl⟩ := Reader.ofExcept_eq_done.mp hmemory
    rw [Reader.exactly] at hbody
    split at hbody
    · rename_i hn
      obtain ⟨rfl, rfl⟩ := Reading.done.inj hbody
      refine ⟨?_, List.length_take_of_le hn, (List.take_append_drop ..).symm⟩
      by_contra hlt
      rw [if_neg hlt] at hmemory
      cases hmemory
    · cases ending <;> cases hbody
  · rintro ⟨hmemory, rfl, rfl⟩
    refine ⟨(), body ++ rest, ?_, ?_⟩
    · rw [if_pos hmemory]
      rfl
    · rw [Reader.exactly, if_pos (by simp), List.take_left, List.drop_left]

/-- What is read while more may come is the text of a request, and what follows it is left. -/
theorem readRequest_pending {memory : Nat} {arrived rest : List UInt8} {request : HttpRequest} :
    readRequest memory ⟨arrived, .pending⟩ = .done request rest ↔
      ∃ t : RequestText, t.WellFormed ∧ t.body.length ≤ memory ∧ arrived = t.bytes ++ rest ∧
        t.request = request := by
  constructor
  · intro h
    obtain ⟨text, _, hstart, h⟩ := Reader.bind_eq_done.mp h
    obtain ⟨start, hfeed, rfl, rfl⟩ := readLine_pending.mp hstart
    obtain ⟨lines, _, hlines, h⟩ := Reader.bind_eq_done.mp h
    obtain ⟨fields, last, hfields, hlast, rfl, rfl⟩ :=
      collects_headerLines.mp ((Reader.collect_iff consumes_readHeaderLine).mp hlines)
    obtain ⟨body, _, hbody, h⟩ := Reader.bind_eq_done.mp h
    obtain ⟨hmemory, hlength, rfl⟩ := readBody_eq_done.mp hbody
    obtain ⟨rfl, rfl⟩ := Reading.done.inj h
    refine ⟨⟨start, fields, last, body⟩, ⟨hfeed, hfields, hlast, hlength⟩, hlength ▸ hmemory, ?_, ?_⟩
    · simp [RequestText.bytes, RequestText.head]
    · have hwords : Str.words (start ++ ['\n']) = Str.words start := by
        rw [Str.words_append_cons (by decide), Str.words_nil, List.append_nil]
      rw [RequestText.request, hwords]
      rfl
  · rintro ⟨t, h, hmemory, rfl, rfl⟩
    have hlines := (Reader.collect_iff consumes_readHeaderLine).mpr (collects_headerLines.mpr
      ⟨t.fields, t.last, h.fields, h.last, rfl, (rfl : _ = _ ++ (t.body ++ rest))⟩)
    have hbody : readBody memory (contentLength t.headers) ⟨t.body ++ rest, .pending⟩ =
        .done t.body rest := readBody_eq_done.mpr ⟨h.body ▸ hmemory, h.body, rfl⟩
    have hwords : Str.words (t.start ++ ['\n']) = Str.words t.start := by
      rw [Str.words_append_cons (by decide), Str.words_nil, List.append_nil]
    have hsplit : t.bytes ++ rest = lineBytes t.start ++
        (t.fields.flatMap lineBytes ++ lineBytes t.last ++ (t.body ++ rest)) := by
      simp [RequestText.bytes, RequestText.head]
    rw [hsplit]
    refine Reader.bind_eq_done.mpr ⟨_, _, readLine_append h.start _ _, ?_⟩
    refine Reader.bind_eq_done.mpr ⟨_, _, hlines, ?_⟩
    refine Reader.bind_eq_done.mpr ⟨_, _, hbody, ?_⟩
    rw [hwords]
    rfl

/-! Settled -/

theorem settled_readLine : readLine.Settled :=
  (Reader.settled_through 10).bind fun line => Reader.settled_ofExcept (decodeLine line)

theorem settled_readHeaderLine : readHeaderLine.Settled :=
  settled_readLine.bind fun _ => Reader.settled_pure _

theorem settled_readBody (memory n : Nat) : (readBody memory n).Settled :=
  (Reader.settled_ofExcept _).bind fun _ => Reader.settled_exactly n _

theorem settled_readRequest (memory : Nat) : (readRequest memory).Settled :=
  settled_readLine.bind fun _ => (Reader.settled_collect settled_readHeaderLine).bind fun _ =>
    (settled_readBody memory _).bind fun _ => Reader.settled_pure _

theorem ends_readLine : readLine.Ends :=
  (Reader.ends_through 10).bind fun line => Reader.ends_ofExcept (decodeLine line)

theorem ends_readRequest (memory : Nat) : (readRequest memory).Ends :=
  ends_readLine.bind fun _ =>
    (Reader.ends_collect consumes_readHeaderLine (ends_readLine.bind fun _ => Reader.ends_pure _)).bind
      fun _ => ((Reader.ends_ofExcept _).bind fun _ => Reader.ends_exactly _ _).bind
        fun _ => Reader.ends_pure _

theorem firm_readRequest (memory : Nat) : (readRequest memory).Firm := by
  have hline : readLine.Firm := (Reader.firm_through 10).bind fun _ => Reader.firm_ofExcept _
  have hheader : readHeaderLine.Firm := hline.bind fun _ => Reader.firm_pure _
  exact hline.bind fun _ => (Reader.firm_collect hheader).bind fun _ =>
    ((Reader.firm_ofExcept _).bind fun _ => Reader.firm_exactly _ _).bind fun _ => Reader.firm_pure _

/-! The end of the input -/

theorem readLine_finished {arrived rest : List UInt8} {text : Str} :
    readLine ⟨arrived, .finished⟩ = .done text rest ↔
      (∃ line, '\n' ∉ line ∧ text = line ++ ['\n'] ∧ arrived = lineBytes line ++ rest) ∨
        '\n' ∉ text ∧ arrived = Str.bytes text ∧ rest = [] := by
  by_cases hfeed : (10 : UInt8) ∈ arrived
  · have hcut : ¬ ('\n' ∉ text ∧ arrived = Str.bytes text ∧ rest = []) := by
      rintro ⟨htext, rfl, -⟩
      exact feed_notMem_bytes.mpr htext hfeed
    rw [or_iff_left hcut, ← readLine_pending]
    obtain ⟨line, tail, rfl, hline⟩ := List.eq_append_cons_of_mem hfeed
    have hsame : ∀ ending : Ending ReadFailure, readLine ⟨line ++ 10 :: tail, ending⟩ =
        Reader.ofExcept (decodeLine (line ++ [10])) ⟨tail, ending⟩ := fun ending => by
      change Reader.bind _ _ _ = _
      rw [Reader.bind, Reader.through_append hline]
    rw [hsame, hsame, Reader.ofExcept_eq_done, Reader.ofExcept_eq_done]
  · have hread : readLine ⟨arrived, .finished⟩ = Reader.ofExcept (decodeLine arrived) ⟨[], .finished⟩ := by
      change Reader.bind _ _ _ = _
      rw [Reader.bind, Reader.through_of_notMem hfeed, Reader.atEnd]
    rw [hread, Reader.ofExcept_eq_done, decodeLine]
    constructor
    · rintro ⟨hd, rfl⟩
      split at hd
      · rename_i s hs
        obtain rfl := Except.ok.inj hd
        obtain rfl := Str.bytes_of_fromUtf8 hs
        exact .inr ⟨feed_notMem_bytes.mp hfeed, rfl, rfl⟩
      · cases hd
    · rintro (⟨line, -, -, rfl⟩ | ⟨-, rfl, rfl⟩)
      · exact absurd (by simp [lineBytes_eq]) hfeed
      · rw [Str.fromUtf8_bytes]
        exact ⟨rfl, rfl⟩

theorem readHeaderLine_cut {line : Str} (h : '\n' ∉ line) :
    readHeaderLine ⟨Str.bytes line, .finished⟩ =
      .done (if (trimLineEnd line).isEmpty then none else some (trimLineEnd line)) [] :=
  Reader.bind_eq_done.mpr ⟨_, _, readLine_finished.mpr (.inr ⟨h, rfl, rfl⟩), rfl⟩

theorem collects_nothing {lines : List Str} {rest : List UInt8} :
    Reader.Collects readHeaderLine ⟨[], .finished⟩ lines rest ↔ lines = [] ∧ rest = [] := by
  have hnone : readHeaderLine ⟨[], .finished⟩ = .done none [] := rfl
  constructor
  · intro h
    cases h with
    | nil h => exact ⟨rfl, (Reading.done.inj (hnone.symm.trans h)).2.symm⟩
    | cons h _ => cases hnone.symm.trans h
  · rintro ⟨rfl, rfl⟩
    exact .nil hnone

/-- The end of the input stands for the line feeds that are missing. -/
theorem collects_finished {arrived rest : List UInt8} {lines : List Str}
    (h : Reader.Collects readHeaderLine ⟨arrived, .finished⟩ lines rest) :
    ∃ (fields : List Str) (last : Str), (∀ field ∈ fields, '\n' ∉ field ∧ trimLineEnd field ≠ []) ∧
      ('\n' ∉ last ∧ trimLineEnd last = []) ∧ lines = fields.map trimLineEnd ∧
      (arrived = fields.flatMap lineBytes ++ lineBytes last ++ rest ∨
        rest = [] ∧ ∃ more, arrived ++ [10, 10] =
          fields.flatMap lineBytes ++ lineBytes last ++ more) := by
  generalize hs : (⟨arrived, .finished⟩ : Incoming) = s at h
  induction h generalizing arrived with
  | nil h =>
      subst hs
      obtain ⟨text, mid, hl, hx⟩ := Reader.bind_eq_done.mp h
      obtain ⟨hempty, rfl⟩ := Reading.done.inj hx
      split at hempty
      · rename_i htrim
        obtain ⟨line, hline, rfl, rfl⟩ | ⟨htext, rfl, rfl⟩ := readLine_finished.mp hl
        · rw [trimLineEnd_append] at htrim
          exact ⟨[], line, List.forall_mem_nil _, ⟨hline, List.isEmpty_iff.mp htrim⟩, rfl, .inl rfl⟩
        · exact ⟨[], text, List.forall_mem_nil _, ⟨htext, List.isEmpty_iff.mp htrim⟩, rfl,
            .inr ⟨rfl, [10], by simp [lineBytes_eq]⟩⟩
      · cases hempty
  | cons h hs' ih =>
      subst hs
      obtain ⟨text, mid, hl, hx⟩ := Reader.bind_eq_done.mp h
      obtain ⟨hsome, rfl⟩ := Reading.done.inj hx
      split at hsome
      · cases hsome
      · rename_i htrim
        obtain rfl := Option.some.inj hsome
        obtain ⟨line, hline, rfl, rfl⟩ | ⟨htext, rfl, rfl⟩ := readLine_finished.mp hl
        · obtain ⟨fields, last, hfields, hlast, rfl, hcases⟩ := ih rfl
          rw [trimLineEnd_append] at htrim ⊢
          refine ⟨line :: fields, last,
            List.forall_mem_cons.mpr ⟨⟨hline, by simpa using htrim⟩, hfields⟩, hlast, rfl, ?_⟩
          obtain rfl | ⟨rfl, more, hmore⟩ := hcases
          · exact .inl (by simp)
          · refine .inr ⟨rfl, more, ?_⟩
            rw [List.append_assoc, hmore, List.flatMap_cons]
            simp
        · obtain ⟨rfl, rfl⟩ := collects_nothing.mp hs'
          refine ⟨[text], [], List.forall_mem_singleton.mpr ⟨htext, by simpa using htrim⟩, by decide,
            rfl, .inr ⟨rfl, [], ?_⟩⟩
          simp [lineBytes_eq]

theorem words_concat_feed (line : Str) : Str.words (line ++ ['\n']) = Str.words line := by
  rw [Str.words_append_cons (by decide), Str.words_nil, List.append_nil]

/-- A request without a body, from its start line and its header lines. -/
theorem readRequest_bodiless {memory : Nat} {t : RequestText} (h : t.WellFormed)
    (hbody : t.body = []) {s : Incoming} {text : Str} {mid : List UInt8}
    (hstart : readLine s = .done text mid) (hwords : Str.words text = Str.words t.start)
    (hlines : Reader.Collects readHeaderLine ⟨mid, s.ending⟩ (t.fields.map trimLineEnd) []) :
    readRequest memory s = .done t.request [] := by
  have hzero : contentLength t.headers = 0 := by rw [← h.body, hbody, List.length_nil]
  have hread : readBody memory (contentLength t.headers) ⟨[], s.ending⟩ = .done [] [] := by
    rw [hzero]
    rfl
  refine Reader.bind_eq_done.mpr ⟨text, mid, hstart, ?_⟩
  refine Reader.bind_eq_done.mpr ⟨_, _, (Reader.collect_iff consumes_readHeaderLine).mpr hlines, ?_⟩
  refine Reader.bind_eq_done.mpr ⟨[], [], hread, ?_⟩
  rw [hwords, RequestText.request, hbody]
  rfl

theorem mem_prefixes {c more : List UInt8} (h : [10, 10] = c ++ more) :
    c = [] ∨ c = [10] ∨ c = [10, 10] := by
  have hmem : c ∈ [[], [10], [10, 10]] := (List.mem_inits c [10, 10]).mpr ⟨more, h.symm⟩
  simpa using hmem

/-- Before a second line feed there is nothing in a line. -/
theorem eq_nil_of_two_feeds {front arrived : List UInt8} {last : Str} (hlast : '\n' ∉ last)
    (h : front ++ lineBytes last = arrived ++ [10, 10]) : last = [] ∧ front = arrived ++ [10] := by
  have hfeed := feed_notMem_bytes.mpr hlast
  have hsplit : front ++ Str.bytes last = arrived ++ [10] := by
    rw [lineBytes_eq, ← List.append_assoc, List.append_cons arrived 10 [10]] at h
    exact List.append_cancel_right h
  obtain hnil | ⟨u, b, hu⟩ := (Str.bytes last).eq_nil_or_concat'
  · rw [hnil, List.append_nil] at hsplit
    exact ⟨Str.bytes_eq_nil.mp hnil, hsplit⟩
  · rw [hu, ← List.append_assoc] at hsplit
    obtain rfl := List.singleton_inj.mp (List.append_inj' hsplit rfl).2
    exact absurd (by simp [hu]) hfeed

/-- Where the head of a request lacks its last line feeds, the end of the input gives them. -/
theorem readRequest_cut {memory : Nat} {arrived more : List UInt8} {t : RequestText}
    (h : t.WellFormed) (hbody : t.body = []) (he : arrived ++ [10, 10] = t.head ++ more)
    (hlt : ¬ t.head <+: arrived) :
    readRequest memory ⟨arrived, .finished⟩ = .done t.request [] := by
  have hnothing := collects_nothing.mpr ⟨(rfl : ([] : List Str) = []), (rfl : ([] : List UInt8) = [])⟩
  obtain ⟨c, hc, hmore⟩ | ⟨c, hc, -⟩ := List.append_eq_append_iff.mp he
  · obtain rfl | rfl | rfl := mem_prefixes hmore
    · rw [List.append_nil] at hc
      exact absurd (hc ▸ List.prefix_rfl) hlt
    · -- the line feed of the last line is missing
      have harr : arrived = lineBytes t.start ++ (t.fields.flatMap lineBytes ++ Str.bytes t.last) := by
        rw [RequestText.head, lineBytes_eq t.last, ← List.append_assoc] at hc
        rw [← List.append_assoc]
        exact (List.append_cancel_right hc).symm
      have hread := readHeaderLine_cut h.last.1
      rw [h.last.2] at hread
      have hlines := collects_append h.fields (.nil hread)
      rw [List.append_nil] at hlines
      rw [harr]
      exact readRequest_bodiless h hbody (readLine_append h.start _ _) (words_concat_feed _) hlines
    · -- the last line is missing, and the line feed of the line before it
      obtain ⟨-, hfront⟩ := eq_nil_of_two_feeds h.last.1 hc
      obtain hnil | ⟨fields, field, hfields⟩ := t.fields.eq_nil_or_concat'
      · rw [hnil, List.flatMap_nil, List.append_nil, lineBytes_eq] at hfront
        obtain rfl := List.append_cancel_right hfront
        refine readRequest_bodiless h hbody (readLine_finished.mpr (.inr ⟨h.start, rfl, rfl⟩)) rfl ?_
        rw [hnil]
        exact hnothing
      · have hall := h.fields
        rw [hfields] at hall
        obtain ⟨hfirst, hlast⟩ := List.forall_mem_append.mp hall
        obtain ⟨hfield, hne⟩ := List.forall_mem_singleton.mp hlast
        have harr : arrived =
            lineBytes t.start ++ (fields.flatMap lineBytes ++ Str.bytes field) := by
          rw [hfields, List.flatMap_append, List.flatMap_singleton, lineBytes_eq field,
            ← List.append_assoc, ← List.append_assoc] at hfront
          rw [← List.append_assoc]
          exact (List.append_cancel_right hfront).symm
        have hread := readHeaderLine_cut hfield
        rw [List.isEmpty_eq_false_iff.mpr hne] at hread
        have hlines := collects_append hfirst (.cons hread hnothing)
        rw [harr]
        refine readRequest_bodiless h hbody (readLine_append h.start _ _) (words_concat_feed _) ?_
        rw [hfields, List.map_append]
        exact hlines
  · exact absurd (hc ▸ List.prefix_append ..) hlt

/-- A text that a reader has in front of it: whole, or with the line feeds that the end gives. -/
def RequestText.At (t : RequestText) (s : Incoming) : Prop :=
  t.bytes <+: s.arrived ∨ s.ending = .finished ∧ t.body = [] ∧ t.head <+: s.arrived ++ [10, 10]

theorem exists_text_of_finished {memory : Nat} {arrived rest : List UInt8} {request : HttpRequest}
    (h : readRequest memory ⟨arrived, .finished⟩ = .done request rest) :
    ∃ t : RequestText, t.WellFormed ∧ t.body.length ≤ memory ∧ t.At ⟨arrived, .finished⟩ ∧
      t.request = request := by
  obtain ⟨text, mid, hstart, h⟩ := Reader.bind_eq_done.mp h
  obtain ⟨lines, mid', hlines, h⟩ := Reader.bind_eq_done.mp h
  obtain ⟨body, left, hbody, h⟩ := Reader.bind_eq_done.mp h
  obtain ⟨rfl, rfl⟩ := Reading.done.inj h
  obtain ⟨hmemory, hlength, rfl⟩ := readBody_eq_done.mp hbody
  have hcollects := (Reader.collect_iff consumes_readHeaderLine).mp hlines
  obtain ⟨start, hfeed, rfl, rfl⟩ | ⟨hfeed, rfl, rfl⟩ := readLine_finished.mp hstart
  · obtain ⟨fields, last, hfields, hlast, rfl, hcases⟩ := collects_finished hcollects
    refine ⟨⟨start, fields, last, body⟩, ⟨hfeed, hfields, hlast, hlength⟩, hlength ▸ hmemory, ?_,
      by rw [words_concat_feed]; rfl⟩
    obtain rfl | ⟨hnil, more, hmore⟩ := hcases
    · refine .inl ⟨left, ?_⟩
      simp [RequestText.bytes, RequestText.head]
    · refine .inr ⟨rfl, (List.append_eq_nil_iff.mp hnil).1, more, ?_⟩
      rw [List.append_assoc _ mid, hmore]
      simp [RequestText.head]
  · obtain ⟨rfl, hnil⟩ := collects_nothing.mp hcollects
    obtain ⟨rfl, rfl⟩ := List.append_eq_nil_iff.mp hnil
    have hlast : '\n' ∉ ([] : Str) ∧ trimLineEnd [] = [] := by decide
    refine ⟨⟨text, [], [], []⟩, ⟨hfeed, List.forall_mem_nil _, hlast, rfl⟩, Nat.zero_le _,
      .inr ⟨rfl, rfl, [], ?_⟩, rfl⟩
    simp [RequestText.head, lineBytes_eq]

theorem exists_text_of_read {memory : Nat} {s : Incoming} {request : HttpRequest} {rest : List UInt8}
    (h : readRequest memory s = .done request rest) :
    ∃ t : RequestText, t.WellFormed ∧ t.body.length ≤ memory ∧ t.At s ∧ t.request = request := by
  obtain ⟨arrived, ending⟩ := s
  have hwhole : readRequest memory ⟨arrived, .pending⟩ = .done request rest →
      ∃ t : RequestText, t.WellFormed ∧ t.body.length ≤ memory ∧ t.At ⟨arrived, ending⟩ ∧
        t.request = request := by
    intro h
    obtain ⟨t, ht, hmemory, rfl, rfl⟩ := readRequest_pending.mp h
    exact ⟨t, ht, hmemory, .inl (List.prefix_append ..), rfl⟩
  cases ending with
  | pending => exact hwhole h
  | broken e => exact hwhole (firm_readRequest memory _ _ _ _ h)
  | finished => exact exists_text_of_finished h

theorem readRequest_of_at {memory : Nat} {s : Incoming} {t : RequestText} (h : t.WellFormed)
    (hmemory : t.body.length ≤ memory) (hat : t.At s) :
    ∃ rest, readRequest memory s = .done t.request rest := by
  obtain ⟨arrived, ending⟩ := s
  have hread : readRequest memory ⟨t.bytes, .pending⟩ = .done t.request [] :=
    readRequest_pending.mpr ⟨t, h, hmemory, (List.append_nil _).symm, rfl⟩
  obtain ⟨rest, rfl⟩ | ⟨rfl, hbody, more, hmore⟩ := hat
  · exact ⟨_, (settled_readRequest memory).done hread rest ending⟩
  · by_cases hwhole : t.head <+: arrived
    · obtain ⟨rest, rfl⟩ := hwhole
      have hbytes : t.head = t.bytes := by rw [RequestText.bytes, hbody, List.append_nil]
      exact ⟨_, hbytes ▸ (settled_readRequest memory).done hread rest .finished⟩
    · exact ⟨[], readRequest_cut h hbody hmore.symm hwhole⟩

/-- What is read is the text of a request, and every text that has come is read. A text that has
come in part is one where the connection ends in its last line feeds. -/
theorem http_request_read_iff (memory : Nat) (s : Incoming) (request : HttpRequest) :
    (∃ rest, readRequest memory s = .done request rest) ↔
      ∃ t : RequestText, t.WellFormed ∧ t.body.length ≤ memory ∧ t.At s ∧ t.request = request := by
  constructor
  · rintro ⟨rest, h⟩
    exact exists_text_of_read h
  · rintro ⟨t, h, hmemory, hat, rfl⟩
    exact readRequest_of_at h hmemory hat

end RustyCastle.Server
