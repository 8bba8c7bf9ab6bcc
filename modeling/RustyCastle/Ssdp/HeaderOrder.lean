import Mathlib.Data.List.Forall2
import RustyCastle.Ssdp.DatagramGrammar

/-!
Neither the order of header lines nor the case of their names matters. Where the
names differ a parser sees of the headers which value stands under which name,
and that is the same for a reordered block.
-/

namespace RustyCastle.Ssdp
open Foundation Foundation.HeaderBlock

/-! Headers as a map from names to values -/

/-- The name of a header without its case. -/
def lowerName (h : Header) : List UInt8 := h.name.map asciiLower

/-- A value that stands under a name. -/
def Under (headers : List Header) (name value : List UInt8) : Prop :=
  ∃ h ∈ headers, lowerName h = name ∧ h.value = value

/-- The names are pairwise different, whatever their case. -/
def DistinctHeaders (headers : List Header) : Prop := (headers.map lowerName).Nodup

theorem lastValue_iff {headers : List Header} (hd : DistinctHeaders headers) {name val : Str} :
    LastValue name headers val ↔
      ∃ value, Under headers name.bytes value ∧ Str.fromUtf8 value = some val := by
  constructor
  · rintro ⟨before, h, after, rfl, hname, -, hval⟩
    exact ⟨h.value, ⟨h, List.mem_append_right _ (List.mem_cons_self ..), headerEq_iff.mp hname, rfl⟩,
      hval⟩
  · rintro ⟨_, ⟨h, hh, hname, rfl⟩, hval⟩
    obtain ⟨before, after, rfl⟩ := List.append_of_mem hh
    refine ⟨before, h, after, rfl, headerEq_iff.mpr hname, fun x hx => ?_, hval⟩
    rw [DistinctHeaders, List.map_append, List.map_cons, List.nodup_append] at hd
    have hne := (List.nodup_cons.mp hd.2.1).1
    refine Bool.eq_false_iff.mpr fun hxname => hne ?_
    rw [hname, ← headerEq_iff.mp hxname]
    exact List.mem_map_of_mem hx

/-- Headers with the same values under the same names. -/
structure Alike (headers headers' : List Header) : Prop where
  distinct : DistinctHeaders headers
  distinct' : DistinctHeaders headers'
  under : ∀ name value, Under headers name value ↔ Under headers' name value

section
variable {headers headers' : List Header}

theorem Alike.lastOf (h : Alike headers headers') {β : Type} (name : Str)
    (read : Str → Except ParseError β) : lastOf name read headers = lastOf name read headers' := by
  refine Option.ext fun x => ?_
  rw [lastOf_eq_some_iff, lastOf_eq_some_iff]
  simp only [lastValue_iff h.distinct, lastValue_iff h.distinct', h.under]

theorem forall_acceptable_iff {rules : List HeaderRule} :
    (∀ h ∈ headers, Acceptable rules h) ↔ ∀ name value, Under headers name value →
      ∃ val, Str.fromUtf8 value = some val ∧
        ∀ rule ∈ rules, name = rule.name.bytes → rule.valid val := by
  constructor
  · rintro hall _ _ ⟨h, hh, rfl, rfl⟩
    obtain ⟨val, hval, hrules⟩ := hall h hh
    exact ⟨val, hval, fun rule hrule hname => hrules rule hrule (headerEq_iff.mpr hname)⟩
  · intro hall h hh
    obtain ⟨val, hval, hrules⟩ := hall _ _ ⟨h, hh, rfl, rfl⟩
    exact ⟨val, hval, fun rule hrule hname => hrules rule hrule (headerEq_iff.mp hname)⟩

theorem Alike.acceptable (h : Alike headers headers') (rules : List HeaderRule) :
    (∀ x ∈ headers, Acceptable rules x) ↔ ∀ x ∈ headers', Acceptable rules x := by
  rw [forall_acceptable_iff, forall_acceptable_iff]
  simp only [h.under]

theorem Alike.msearch (h : Alike headers headers') :
    MSearchAcc.collect headers = MSearchAcc.collect headers' := by
  simp only [MSearchAcc.collect, h.lastOf]

theorem Alike.notify (h : Alike headers headers') :
    NotifyAcc.collect headers = NotifyAcc.collect headers' := by
  simp only [NotifyAcc.collect, h.lastOf]

theorem Alike.response (h : Alike headers headers') :
    ResponseAcc.collect headers = ResponseAcc.collect headers' := by
  simp only [ResponseAcc.collect, h.lastOf]

end

/-! Reordered blocks -/

/-- The letter case of the name changes, and nothing else. -/
structure Recases (l l' : Line) : Prop where
  name : lowerName l'.header = lowerName l.header
  value : l'.header.value = l.header.value
  before : l'.before = l.before
  after : l'.after = l.after
  lineEnd : l'.lineEnd = l.lineEnd

/-- The lines are permuted, and the letter case of their names changes. -/
def Reorders (lines lines' : List Line) : Prop :=
  ∃ moved, moved.Perm lines ∧ List.Forall₂ Recases moved lines'

theorem forall_byte {p : UInt8 → Prop} (h : ∀ n < 256, p (UInt8.ofNat n)) (b : UInt8) : p b := by
  have hb := h b.toNat b.toNat_lt
  rwa [UInt8.ofNat_toNat] at hb

theorem isTokenByte_asciiLower : ∀ b, isTokenByte (asciiLower b) = isTokenByte b :=
  forall_byte (by decide +kernel)

theorem asciiLower_asciiLower : ∀ b, asciiLower (asciiLower b) = asciiLower b :=
  forall_byte (by decide +kernel)

theorem Recases.wellFormed {l l' : Line} (h : Recases l l') (hw : l.WellFormed) :
    l'.WellFormed where
  header := by
    refine ⟨?_, fun b hb => ?_, h.value ▸ hw.header.value_bytes, h.value ▸ hw.header.value_head,
      h.value ▸ hw.header.value_last⟩
    · intro hnil
      have hname := h.name
      rw [lowerName, lowerName, hnil, List.map_nil, eq_comm, List.map_eq_nil_iff] at hname
      exact hw.header.name_ne_nil hname
    · have hmem : asciiLower b ∈ lowerName l.header := h.name ▸ List.mem_map_of_mem hb
      obtain ⟨c, hc, hlower⟩ := List.mem_map.mp hmem
      rw [← isTokenByte_asciiLower, ← hlower, isTokenByte_asciiLower]
      exact hw.header.name_token c hc
  before := h.before ▸ hw.before
  after := h.after ▸ hw.after

theorem Reorders.wellFormed {lines lines' : List Line} (h : Reorders lines lines')
    (hw : ∀ l ∈ lines, l.WellFormed) : ∀ l ∈ lines', l.WellFormed := by
  obtain ⟨moved, hperm, hrecase⟩ := h
  have hmoved : ∀ l ∈ moved, l.WellFormed := fun l hl => hw l (hperm.mem_iff.mp hl)
  clear hperm
  induction hrecase with
  | nil =>
      intro l' hl'
      cases hl'
  | cons hr _ ih =>
      rw [List.forall_mem_cons] at hmoved ⊢
      exact ⟨hr.wellFormed hmoved.1, ih hmoved.2⟩

theorem Reorders.keys {lines lines' : List Line} (h : Reorders lines lines') :
    ((lines'.map Line.header).map fun x => (lowerName x, x.value)).Perm
      ((lines.map Line.header).map fun x => (lowerName x, x.value)) := by
  obtain ⟨moved, hperm, hrecase⟩ := h
  have hsame : (lines'.map Line.header).map (fun x => (lowerName x, x.value)) =
      (moved.map Line.header).map fun x => (lowerName x, x.value) := by
    clear hperm
    induction hrecase with
    | nil => rfl
    | cons hr _ ih => simp only [List.map_cons, hr.name, hr.value, ih]
  rw [hsame]
  exact (hperm.map _).map _

theorem under_iff {headers : List Header} {name value : List UInt8} :
    Under headers name value ↔ (name, value) ∈ headers.map fun x => (lowerName x, x.value) := by
  simp only [Under, List.mem_map, Prod.mk.injEq]

theorem Reorders.alike {lines lines' : List Line} (h : Reorders lines lines')
    (hd : DistinctHeaders (lines.map Line.header)) :
    Alike (lines.map Line.header) (lines'.map Line.header) := by
  have hfst : ∀ headers : List Header,
      (headers.map fun x => (lowerName x, x.value)).map Prod.fst = headers.map lowerName := by
    intro headers
    rw [List.map_map]
    rfl
  have hnames := h.keys.map Prod.fst
  rw [hfst, hfst] at hnames
  refine ⟨hd, hnames.nodup_iff.mpr hd, fun name value => ?_⟩
  rw [under_iff, under_iff, h.keys.mem_iff]

/-! Datagrams -/

section
variable {httparse : List UInt8 → Nat → Outcome}

/-- The first line says of which kind the message behind it is. -/
theorem parseDatagram_first {first : List UInt8} (h : ¬ [13, 10] <:+: first)
    (rest : List UInt8) : parseDatagram httparse (first ++ 13 :: 10 :: rest) =
      (okOr (Str.fromUtf8 first) ParseError.unknownStartLine >>= fun line =>
        StartLine.classify line >>= fun kind => parseMessage httparse kind rest) := by
  have hne : first ++ 13 :: 10 :: rest ≠ [] := by simp
  have hdrop : (first ++ 13 :: 10 :: rest).drop (first.length + 2) = rest := by
    rw [← List.drop_drop, List.drop_left]
    rfl
  rw [parseDatagram, if_neg hne, StartLine.parse]
  simp only [findCrlf_of_first h, okOr_some, bind, Except.bind, List.take_left, hdrop]
  cases Str.fromUtf8 first with
  | none => rfl
  | some line =>
      simp only [okOr_some]
      cases StartLine.classify line with
      | error err => rfl
      | ok kind => rfl

theorem parseDatagram_first_iff {first rest : List UInt8} {m : MessageRef}
    (h : ¬ [13, 10] <:+: first) : parseDatagram httparse (first ++ 13 :: 10 :: rest) = .ok m ↔
      ∃ kind, (∃ line, Str.fromUtf8 first = some line ∧ StartLine.classify line = .ok kind) ∧
        parseMessage httparse kind rest = .ok m := by
  simp only [parseDatagram_first h, bind_eq_ok, okOr_eq_ok]
  constructor
  · rintro ⟨line, hline, kind, hkind, hm⟩
    exact ⟨kind, ⟨line, hline, hkind⟩, hm⟩
  · rintro ⟨kind, ⟨line, hline, hkind⟩, hm⟩
    exact ⟨line, hline, kind, hkind, hm⟩

/-- What a parser reads from a block is read from its list of headers. -/
theorem exists_complete_iff (hp : SplitsBlock httparse) {lines : List Line} {last : LineEnd}
    {rest : List UInt8} (hw : ∀ l ∈ lines, l.WellFormed) {P : List Header → Prop} :
    (∃ offset headers, httparse (block lines last ++ rest) maxHeaders = .complete offset headers ∧
      P headers) ↔ lines.length ≤ maxHeaders ∧ P (lines.map Line.header) := by
  simp only [hp.block_iff hw]
  constructor
  · rintro ⟨_, _, ⟨hlen, rfl, rfl⟩, h⟩
    exact ⟨hlen, h⟩
  · rintro ⟨hlen, h⟩
    exact ⟨_, _, ⟨hlen, rfl, rfl⟩, h⟩

/-- Blocks of as many headers that are alike are read alike. -/
theorem parseMessage_alike (hp : SplitsBlock httparse) {lines lines' : List Line}
    (hw : ∀ l ∈ lines, l.WellFormed) (hw' : ∀ l ∈ lines', l.WellFormed)
    (hlength : lines'.length = lines.length)
    (h : Alike (lines.map Line.header) (lines'.map Line.header)) (last : LineEnd)
    (rest : List UInt8) (kind : StartLine) (m : MessageRef) :
    parseMessage httparse kind (block lines last ++ rest) = .ok m ↔
      parseMessage httparse kind (block lines' last ++ rest) = .ok m := by
  cases kind with
  | mSearch =>
      simp only [parseMessage, bind_eq_ok, parseMsearch_iff, exists_complete_iff hp hw,
        exists_complete_iff hp hw', hlength, h.msearch, h.acceptable]
  | notify =>
      simp only [parseMessage, bind_eq_ok, parseNotify_iff, exists_complete_iff hp hw,
        exists_complete_iff hp hw', hlength, h.notify, h.acceptable]
  | response200 =>
      simp only [parseMessage, bind_eq_ok, parseResponse_iff, exists_complete_iff hp hw,
        exists_complete_iff hp hw', hlength, h.response, h.acceptable]

end

theorem Reorders.length {lines lines' : List Line} (h : Reorders lines lines') :
    lines'.length = lines.length := by
  simpa using h.keys.length_eq

/-- A datagram whose header names are pairwise different is read as it is with
its header lines permuted and their names in another case. -/
theorem reordered_reads_alike (httparse : List UInt8 → Nat → Outcome) (hp : SplitsBlock httparse)
    (first : List UInt8) (lines lines' : List Line) (last : LineEnd) (rest : List UInt8)
    (hfirst : ¬ [13, 10] <:+: first) (hw : ∀ l ∈ lines, l.WellFormed)
    (hd : DistinctHeaders (lines.map Line.header)) (h : Reorders lines lines') (m : MessageRef) :
    parseDatagram httparse (first ++ 13 :: 10 :: (block lines last ++ rest)) = .ok m ↔
      parseDatagram httparse (first ++ 13 :: 10 :: (block lines' last ++ rest)) = .ok m := by
  simp only [parseDatagram_first_iff hfirst,
    parseMessage_alike hp hw (h.wellFormed hw) h.length (h.alike hd)]

def lineOf (h : Header) : Line := ⟨h, [32], [], .crlf⟩

/-- The line with its name in lower case. -/
def lowerLine (l : Line) : Line := { l with header := ⟨lowerName l.header, l.header.value⟩ }

theorem recases_lowerLine (l : Line) : Recases l (lowerLine l) where
  name := by simp [lowerLine, lowerName, asciiLower_asciiLower]
  value := rfl
  before := rfl
  after := rfl
  lineEnd := rfl

def searchAllLines : List Line := searchAll.headers.map lineOf

theorem searchAllLines_wellFormed : ∀ l ∈ searchAllLines, l.WellFormed := by
  rw [searchAllLines, List.forall_mem_map]
  exact fun h hh => ⟨MSearchRef.headers_wellFormed searchAll_wellFormed h hh,
    by simp [lineOf, isBlank], by simp [lineOf]⟩

theorem parseDatagram_searchAllLines : parseDatagram splitBlock
    (Str.bytes "M-SEARCH * HTTP/1.1".toList ++ 13 :: 10 :: (block searchAllLines .crlf ++ [])) =
    .ok (.search searchAll) := by
  have hwire : searchAll.wire = Str.bytes "M-SEARCH * HTTP/1.1".toList ++ 13 :: 10 ::
      (block searchAllLines .crlf ++ []) := by
    rw [List.append_nil, block, searchAllLines, List.flatMap_map]
    rfl
  rw [← hwire]
  exact parseDatagram_msearch splitBlock_splitsBlock searchAll_wellFormed

/-- A search with its lines upside down and in lower case. -/
theorem reordered_reads_alike_sample : parseDatagram splitBlock
    (Str.bytes "M-SEARCH * HTTP/1.1".toList ++ 13 :: 10 ::
      (block ((searchAll.headers.map lineOf).reverse.map lowerLine) .crlf ++ [])) =
    .ok (.search searchAll) := by
  have hreorder : Reorders searchAllLines (searchAllLines.reverse.map lowerLine) :=
    ⟨_, List.reverse_perm _, List.forall₂_map_right_iff.mpr
      (List.forall₂_same.mpr fun l _ => recases_lowerLine l)⟩
  exact (reordered_reads_alike splitBlock splitBlock_splitsBlock _ _ _ .crlf [] (by decide)
    searchAllLines_wellFormed (by unfold DistinctHeaders; decide) hreorder _).mp
    parseDatagram_searchAllLines

end RustyCastle.Ssdp
