import Mathlib.Data.List.DropRight
import Mathlib.Data.List.Infix
import Mathlib.Data.List.TakeWhile

/-!
Header blocks: lines of a token name, a colon and a value, each ended by CRLF or
LF, and an empty line. `SplitsBlock` is the contract of a parser of such blocks,
as its callers rely on it: it completes on exactly the blocks of the grammar and
returns their names and blank-stripped values. `splitBlock` is a parser that
meets the contract.
-/

namespace Foundation.HeaderBlock

structure Header where
  name : List UInt8
  value : List UInt8
  deriving DecidableEq, Repr

/-- The bytes of a token. -/
def isTokenByte (b : UInt8) : Bool :=
  b ∈ [33, 35, 36, 37, 38, 39, 42, 43, 45, 46, 94, 95, 96, 124, 126] ||
    (48 ≤ b && b ≤ 57) || (65 ≤ b && b ≤ 90) || (97 ≤ b && b ≤ 122)

/-- The bytes of a field value: no control byte except the tab. -/
def isValueByte (b : UInt8) : Bool := b == 9 || (32 ≤ b && b != 127)

def isBlank (b : UInt8) : Bool := b == 32 || b == 9

theorem isValueByte_of_isBlank {b : UInt8} (h : isBlank b) : isValueByte b := by
  simp only [isBlank, Bool.or_eq_true, beq_iff_eq] at h
  rcases h with rfl | rfl <;> decide

structure Header.WellFormed (h : Header) : Prop where
  name_ne_nil : h.name ≠ []
  name_token : ∀ b ∈ h.name, isTokenByte b
  value_bytes : ∀ b ∈ h.value, isValueByte b
  value_head : ∀ b ∈ h.value.head?, isBlank b = false
  value_last : ∀ b ∈ h.value.getLast?, isBlank b = false

inductive LineEnd where
  | crlf
  | lf

def LineEnd.bytes : LineEnd → List UInt8
  | .crlf => [13, 10]
  | .lf => [10]

structure Line where
  header : Header
  before : List UInt8
  after : List UInt8
  lineEnd : LineEnd

def Line.render (l : Line) : List UInt8 :=
  l.header.name ++ 58 :: (l.before ++ l.header.value ++ l.after ++ l.lineEnd.bytes)

structure Line.WellFormed (l : Line) : Prop where
  header : l.header.WellFormed
  before : ∀ b ∈ l.before, isBlank b
  after : ∀ b ∈ l.after, isBlank b

inductive Outcome where
  | complete (offset : Nat) (headers : List Header)
  | incomplete
  | invalid
  deriving DecidableEq

def block (lines : List Line) (last : LineEnd) : List UInt8 :=
  lines.flatMap Line.render ++ last.bytes

/-- The contract of a header-block parser with room for `max` headers. -/
structure SplitsBlock (parse : List UInt8 → Nat → Outcome) : Prop where
  complete_iff : ∀ (buf : List UInt8) (max offset : Nat) (headers : List Header),
    parse buf max = .complete offset headers ↔
      ∃ (lines : List Line) (last : LineEnd) (rest : List UInt8),
        buf = block lines last ++ rest ∧ (∀ l ∈ lines, l.WellFormed) ∧
        headers = lines.map Line.header ∧ lines.length ≤ max ∧
        offset = (block lines last).length

/-- The usual way to write a header. -/
def Header.render (h : Header) : List UInt8 := h.name ++ [58, 32] ++ h.value ++ [13, 10]

theorem SplitsBlock.headers_wellFormed {parse : List UInt8 → Nat → Outcome}
    (hp : SplitsBlock parse) {buf : List UInt8} {max offset : Nat} {headers : List Header}
    (h : parse buf max = .complete offset headers) :
    headers.length ≤ max ∧ ∀ x ∈ headers, x.WellFormed := by
  obtain ⟨lines, last, rest, -, hl, rfl, hm, -⟩ := (hp.complete_iff _ _ _ _).mp h
  refine ⟨by simpa using hm, ?_⟩
  intro x hx
  obtain ⟨l, hmem, rfl⟩ := List.mem_map.mp hx
  exact (hl l hmem).header

theorem SplitsBlock.parse_render {parse : List UInt8 → Nat → Outcome}
    (hp : SplitsBlock parse) {headers : List Header} {max : Nat}
    (hw : ∀ x ∈ headers, x.WellFormed) (hm : headers.length ≤ max) (rest : List UInt8) :
    ∃ offset, parse (headers.flatMap Header.render ++ [13, 10] ++ rest) max =
      .complete offset headers := by
  let line (x : Header) : Line := ⟨x, [32], [], .crlf⟩
  refine ⟨_, (hp.complete_iff _ _ _ _).mpr
    ⟨headers.map line, .crlf, rest, ?_, ?_, ?_, by simpa using hm, rfl⟩⟩
  · have hr : ∀ x : Header, (line x).render = x.render := by
      intro x
      simp [line, Line.render, Header.render, LineEnd.bytes]
    simp [block, List.flatMap_map, hr, LineEnd.bytes]
  · intro l hl
    obtain ⟨x, hx, rfl⟩ := List.mem_map.mp hl
    exact ⟨hw x hx, by simp [line, isBlank], by simp [line]⟩
  · simp [line, Function.comp_def]

/-! A parser that meets the contract. -/

inductive Cut where
  | cut (rest : List UInt8)
  | incomplete
  | invalid

def cutLineEnd : List UInt8 → Cut
  | [] => .incomplete
  | [b] => if b = 10 then .cut [] else if b = 13 then .incomplete else .invalid
  | b :: c :: rest =>
      if b = 10 then .cut (c :: rest)
      else if b = 13 ∧ c = 10 then .cut rest
      else .invalid

theorem cutLineEnd_eq_cut {buf rest : List UInt8} :
    cutLineEnd buf = .cut rest ↔ ∃ e : LineEnd, buf = e.bytes ++ rest := by
  constructor
  · intro h
    match buf with
    | [] => simp [cutLineEnd] at h
    | [b] =>
        by_cases hb : b = 10
        · exact ⟨.lf, by simpa [cutLineEnd, hb, LineEnd.bytes, eq_comm] using h⟩
        · simp only [cutLineEnd, hb, if_false] at h
          split at h <;> cases h
    | b :: c :: tail =>
        by_cases hb : b = 10
        · exact ⟨.lf, by simpa [cutLineEnd, hb, LineEnd.bytes] using h⟩
        · by_cases hc : b = 13 ∧ c = 10
          · exact ⟨.crlf, by simpa [cutLineEnd, hc, LineEnd.bytes] using h⟩
          · simp [cutLineEnd, hb, hc] at h
  · rintro ⟨e, rfl⟩
    cases e with
    | crlf => simp [LineEnd.bytes, cutLineEnd]
    | lf => cases rest <;> simp [LineEnd.bytes, cutLineEnd]

theorem cutLineEnd_token {b : UInt8} (h : isTokenByte b) (rest : List UInt8) :
    cutLineEnd (b :: rest) = .invalid := by
  have h10 : b ≠ 10 := by rintro rfl; exact absurd h (by decide)
  have h13 : b ≠ 13 := by rintro rfl; exact absurd h (by decide)
  cases rest <;> simp [cutLineEnd, h10, h13]

def stripBlanks (v : List UInt8) : List UInt8 := (v.dropWhile isBlank).rdropWhile isBlank

theorem stripBlanks_surrounded {before value after : List UInt8}
    (hb : ∀ b ∈ before, isBlank b) (ha : ∀ b ∈ after, isBlank b)
    (hh : ∀ b ∈ value.head?, isBlank b = false)
    (hl : ∀ b ∈ value.getLast?, isBlank b = false) :
    stripBlanks (before ++ value ++ after) = value := by
  have hback : ∀ l : List UInt8, (l ++ after).rdropWhile isBlank = l.rdropWhile isBlank := by
    intro l
    have : ∀ b ∈ after.reverse, isBlank b := by simpa using ha
    simp [List.rdropWhile, List.dropWhile_append_of_pos this]
  have hkeep : value.rdropWhile isBlank = value := by
    rw [List.rdropWhile_eq_self_iff]
    intro hne
    simpa using hl _ (List.getLast?_eq_some_getLast hne)
  rw [stripBlanks, List.append_assoc, List.dropWhile_append_of_pos hb]
  cases value with
  | nil =>
      have : after.dropWhile isBlank = [] := by simpa [List.dropWhile_eq_nil_iff] using ha
      simp [this]
  | cons v value =>
      have hv : isBlank v = false := hh v (by simp)
      rw [List.cons_append, List.dropWhile_cons_of_neg (by simp [hv]), ← List.cons_append,
        hback, hkeep]

/-- Every value splits into blanks, the stripped value and blanks. -/
theorem exists_surrounding (v : List UInt8) :
    ∃ before after, v = before ++ stripBlanks v ++ after ∧
      (∀ b ∈ before, isBlank b) ∧ (∀ b ∈ after, isBlank b) ∧
      (∀ b ∈ (stripBlanks v).head?, isBlank b = false) ∧
      ∀ b ∈ (stripBlanks v).getLast?, isBlank b = false := by
  let d := v.dropWhile isBlank
  refine ⟨v.takeWhile isBlank, d.rtakeWhile isBlank, ?_, ?_, ?_, ?_, ?_⟩
  · rw [List.append_assoc, stripBlanks, List.rdropWhile_append_rtakeWhile,
      List.takeWhile_append_dropWhile]
  · exact fun b hb => List.mem_takeWhile_imp hb
  · exact fun b hb => List.mem_rtakeWhile_imp hb
  · intro b hb
    obtain ⟨r, hr⟩ : ∃ r, stripBlanks v = b :: r := List.head?_eq_some_iff.mp hb
    obtain ⟨t, ht⟩ : stripBlanks v <+: d := List.rdropWhile_prefix _ _
    rw [hr] at ht
    have hd : v.dropWhile isBlank = b :: (r ++ t) := ht.symm
    have hne : v.dropWhile isBlank ≠ [] := by simp [hd]
    have := List.head_dropWhile_not isBlank hne
    simpa [hd] using this
  · intro b hb
    have hne : stripBlanks v ≠ [] := by
      intro h
      simp [h] at hb
    have hlast := List.rdropWhile_last_not isBlank d hne
    rw [List.getLast?_eq_some_getLast hne] at hb
    obtain rfl : (stripBlanks v).getLast hne = b := Option.some.inj hb
    exact Bool.eq_false_iff.mpr hlast

inductive LineOutcome where
  | line (header : Header) (rest : List UInt8)
  | incomplete
  | invalid

def parseLine (buf : List UInt8) : LineOutcome :=
  match buf.dropWhile isTokenByte with
  | [] => .incomplete
  | colon :: tail =>
      if buf.takeWhile isTokenByte = [] ∨ colon ≠ 58 then .invalid
      else match cutLineEnd (tail.dropWhile isValueByte) with
        | .cut rest =>
            .line ⟨buf.takeWhile isTokenByte, stripBlanks (tail.takeWhile isValueByte)⟩ rest
        | .incomplete => .incomplete
        | .invalid => .invalid

theorem lineEnd_stops (e : LineEnd) (rest : List UInt8) :
    (e.bytes ++ rest).dropWhile isValueByte = e.bytes ++ rest ∧
      (e.bytes ++ rest).takeWhile isValueByte = [] := by
  cases e <;> simp [LineEnd.bytes, isValueByte]

theorem parseLine_render {l : Line} (h : l.WellFormed) (rest : List UInt8) :
    parseLine (l.render ++ rest) = .line l.header rest := by
  let v := l.before ++ l.header.value ++ l.after
  have hv : ∀ b ∈ v, isValueByte b := by
    intro b hb
    simp only [v, List.mem_append] at hb
    rcases hb with (hb | hb) | hb
    · exact isValueByte_of_isBlank (h.before b hb)
    · exact h.header.value_bytes b hb
    · exact isValueByte_of_isBlank (h.after b hb)
  have hbuf : l.render ++ rest = l.header.name ++ 58 :: (v ++ (l.lineEnd.bytes ++ rest)) := by
    simp [Line.render, v]
  have hcolon : ∀ t : List UInt8, (58 :: t).takeWhile isTokenByte = [] ∧
      (58 :: t).dropWhile isTokenByte = 58 :: t := by
    intro t
    simp [isTokenByte]
  have hcut : cutLineEnd (l.lineEnd.bytes ++ rest) = .cut rest :=
    cutLineEnd_eq_cut.mpr ⟨_, rfl⟩
  have hstrip : stripBlanks v = l.header.value :=
    stripBlanks_surrounded h.before h.after h.header.value_head h.header.value_last
  rw [hbuf, parseLine]
  simp only [List.dropWhile_append_of_pos h.header.name_token,
    List.takeWhile_append_of_pos h.header.name_token, List.dropWhile_append_of_pos hv,
    List.takeWhile_append_of_pos hv, hcolon, lineEnd_stops, List.append_nil, hcut, hstrip]
  simp [h.header.name_ne_nil]

theorem parseLine_eq_line {buf rest : List UInt8} {x : Header}
    (h : parseLine buf = .line x rest) :
    ∃ l : Line, l.WellFormed ∧ l.header = x ∧ buf = l.render ++ rest := by
  rw [parseLine] at h
  split at h
  · cases h
  · rename_i colon tail hdrop
    split at h
    · cases h
    · rename_i hname
      obtain ⟨hne, hcolon⟩ := not_or.mp hname
      split at h
      · rename_i rest' hcut
        obtain ⟨rfl, rfl⟩ := LineOutcome.line.inj h
        obtain ⟨e, he⟩ := cutLineEnd_eq_cut.mp hcut
        obtain ⟨before, after, hv, hb, ha, hh, hl⟩ :=
          exists_surrounding (tail.takeWhile isValueByte)
        refine ⟨⟨⟨buf.takeWhile isTokenByte, stripBlanks (tail.takeWhile isValueByte)⟩,
          before, after, e⟩, ⟨⟨hne, ?_, ?_, hh, hl⟩, hb, ha⟩, rfl, ?_⟩
        · exact fun b hb => List.mem_takeWhile_imp hb
        · intro b hb
          have : b ∈ tail.takeWhile isValueByte := by
            rw [hv]
            simp [hb]
          exact List.mem_takeWhile_imp this
        · calc
            buf = buf.takeWhile isTokenByte ++ colon :: tail := by
              rw [← hdrop, List.takeWhile_append_dropWhile]
            _ = buf.takeWhile isTokenByte ++
                58 :: (tail.takeWhile isValueByte ++ (e.bytes ++ rest')) := by
              rw [← he, List.takeWhile_append_dropWhile, not_not.mp hcolon]
            _ = _ := by
              rw [hv]
              simp [Line.render, ← hv]
      · cases h
      · cases h

def splitBlockFrom (max : Nat) (buf : List UInt8) : Outcome :=
  match cutLineEnd buf with
  | .cut rest => .complete (buf.length - rest.length) []
  | .incomplete => .incomplete
  | .invalid =>
      match parseLine buf with
      | .incomplete => .incomplete
      | .invalid => .invalid
      | .line header rest =>
          match max with
          | 0 => .invalid
          | max + 1 =>
              match splitBlockFrom max rest with
              | .complete offset headers =>
                  .complete (buf.length - rest.length + offset) (header :: headers)
              | o => o

def splitBlock (buf : List UInt8) (max : Nat) : Outcome := splitBlockFrom max buf

theorem splitBlockFrom_sound {max offset : Nat} {buf : List UInt8} {headers : List Header}
    (h : splitBlockFrom max buf = .complete offset headers) :
    ∃ (lines : List Line) (last : LineEnd) (rest : List UInt8),
      buf = block lines last ++ rest ∧ (∀ l ∈ lines, l.WellFormed) ∧
      headers = lines.map Line.header ∧ lines.length ≤ max ∧
      offset = (block lines last).length := by
  induction max generalizing buf offset headers with
  | zero =>
      rw [splitBlockFrom] at h
      split at h
      · rename_i rest hcut
        obtain ⟨e, rfl⟩ := cutLineEnd_eq_cut.mp hcut
        obtain ⟨rfl, rfl⟩ := Outcome.complete.inj h
        exact ⟨[], e, rest, by simp [block], by simp, rfl, by simp, by simp [block]⟩
      · cases h
      · split at h <;> cases h
  | succ max ih =>
      rw [splitBlockFrom] at h
      split at h
      · rename_i rest hcut
        obtain ⟨e, rfl⟩ := cutLineEnd_eq_cut.mp hcut
        obtain ⟨rfl, rfl⟩ := Outcome.complete.inj h
        exact ⟨[], e, rest, by simp [block], by simp, rfl, by simp, by simp [block]⟩
      · cases h
      · split at h
        · cases h
        · cases h
        · rename_i x rest hline
          obtain ⟨l, hl, rfl, rfl⟩ := parseLine_eq_line hline
          simp only at h
          split at h
          · rename_i offset' headers' hrec
            obtain ⟨rfl, rfl⟩ := Outcome.complete.inj h
            obtain ⟨lines, last, rest', rfl, hw, rfl, hlen, rfl⟩ := ih hrec
            refine ⟨l :: lines, last, rest', ?_, ?_, rfl, by simpa using hlen, ?_⟩
            · simp [block]
            · simpa using ⟨hl, hw⟩
            · simp [block]
          · rename_i hno
            exact absurd h (hno offset headers)

theorem splitBlockFrom_complete {lines : List Line} (last : LineEnd) (rest : List UInt8)
    (hw : ∀ l ∈ lines, l.WellFormed) {max : Nat} (hm : lines.length ≤ max) :
    splitBlockFrom max (block lines last ++ rest) =
      .complete (block lines last).length (lines.map Line.header) := by
  induction lines generalizing max with
  | nil =>
      have hcut : cutLineEnd (last.bytes ++ rest) = .cut rest := cutLineEnd_eq_cut.mpr ⟨_, rfl⟩
      rw [splitBlockFrom]
      simp [block, hcut]
  | cons l lines ih =>
      obtain ⟨room, rfl⟩ : ∃ k, max = k + 1 := by
        simp only [List.length_cons] at hm
        exact ⟨max - 1, by omega⟩
      have hl := hw l (by simp)
      have hbuf : block (l :: lines) last ++ rest =
          l.render ++ (block lines last ++ rest) := by simp [block]
      have hcut : cutLineEnd (l.render ++ (block lines last ++ rest)) = .invalid := by
        obtain ⟨b, name, hname⟩ := List.exists_cons_of_ne_nil hl.header.name_ne_nil
        simp only [Line.render, hname, List.cons_append]
        exact cutLineEnd_token (hl.header.name_token b (by simp [hname])) _
      have hrec : splitBlockFrom room (block lines last ++ rest) = _ :=
        ih (fun x hx => hw x (by simp [hx])) (by simpa using hm)
      rw [hbuf, splitBlockFrom, hcut]
      simp only [parseLine_render hl, hrec]
      simp [block]

/-- The contract is met. -/
theorem splitBlock_splitsBlock : SplitsBlock splitBlock where
  complete_iff buf max offset headers := by
    constructor
    · exact splitBlockFrom_sound
    · rintro ⟨lines, last, rest, rfl, hw, rfl, hm, rfl⟩
      exact splitBlockFrom_complete last rest hw hm

/-- On a block the contract leaves a parser no choice: blocks are read one way only. -/
theorem SplitsBlock.block_iff {parse : List UInt8 → Nat → Outcome} (hp : SplitsBlock parse)
    {lines : List Line} {last : LineEnd} {rest : List UInt8} (hw : ∀ l ∈ lines, l.WellFormed)
    {max offset : Nat} {headers : List Header} :
    parse (block lines last ++ rest) max = .complete offset headers ↔
      lines.length ≤ max ∧ offset = (block lines last).length ∧ headers = lines.map Line.header := by
  constructor
  · intro h
    obtain ⟨lines', last', rest', hbuf, hw', rfl, hmax, rfl⟩ := (hp.complete_iff _ _ _ _).mp h
    have hroom := Nat.le_max_left lines.length lines'.length
    have hroom' := Nat.le_max_right lines.length lines'.length
    have hread := splitBlockFrom_complete last rest hw hroom
    rw [hbuf, splitBlockFrom_complete last' rest' hw' hroom'] at hread
    obtain ⟨hoffset, hheaders⟩ := Outcome.complete.inj hread
    have hlength := congrArg List.length hheaders
    rw [List.length_map, List.length_map] at hlength
    exact ⟨hlength ▸ hmax, hoffset, hheaders⟩
  · rintro ⟨hmax, rfl, rfl⟩
    exact (hp.complete_iff _ _ _ _).mpr ⟨lines, last, rest, rfl, hw, rfl, hmax, rfl⟩

/-- A block that was cut short is not read. -/
theorem SplitsBlock.take_not_complete {parse : List UInt8 → Nat → Outcome}
    (hp : SplitsBlock parse) {lines : List Line} {last : LineEnd} (hw : ∀ l ∈ lines, l.WellFormed)
    {n : Nat} (hn : n < (block lines last).length) (max offset : Nat) (headers : List Header) :
    parse ((block lines last).take n) max ≠ .complete offset headers := by
  intro h
  obtain ⟨lines', last', rest, hbuf, hw', rfl, -, rfl⟩ := (hp.complete_iff _ _ _ _).mp h
  have hwhole : block lines last ++ [] =
      block lines' last' ++ (rest ++ (block lines last).drop n) := by
    rw [← List.append_assoc, ← hbuf, List.take_append_drop, List.append_nil]
  have hread : parse (block lines' last' ++ (rest ++ (block lines last).drop n)) lines'.length =
      .complete (block lines' last').length (lines'.map Line.header) :=
    (hp.block_iff hw').mpr ⟨le_refl _, rfl, rfl⟩
  rw [← hwhole] at hread
  have hlen := ((hp.block_iff hw).mp hread).2.1
  have hle := congrArg List.length hbuf
  rw [List.length_take, List.length_append] at hle
  omega

theorem parseLine_lineEnd (last : LineEnd) (rest : List UInt8) {x : Header} {tail : List UInt8} :
    parseLine (last.bytes ++ rest) ≠ .line x tail := by
  intro h
  obtain ⟨l, hl, -, hbuf⟩ := parseLine_eq_line h
  obtain ⟨b, name, hname⟩ := List.exists_cons_of_ne_nil hl.header.name_ne_nil
  have hcut := cutLineEnd_token (hl.header.name_token b (by simp [hname]))
    (name ++ 58 :: (l.before ++ l.header.value ++ l.after ++ l.lineEnd.bytes) ++ tail)
  rw [← List.cons_append, ← List.cons_append, ← hname, ← Line.render, ← hbuf,
    cutLineEnd_eq_cut.mpr ⟨last, rfl⟩] at hcut
  cases hcut

/-- What follows the first lines of a block is a block. -/
theorem exists_block_of_lines {lines lines' : List Line} (hw : ∀ l ∈ lines, l.WellFormed)
    (hw' : ∀ l ∈ lines', l.WellFormed) {tail rest : List UInt8} {last : LineEnd}
    (h : lines.flatMap Line.render ++ tail = block lines' last ++ rest) :
    ∃ lines₂, (∀ l ∈ lines₂, l.WellFormed) ∧ tail = block lines₂ last ++ rest := by
  induction lines generalizing lines' with
  | nil => exact ⟨lines', hw', h⟩
  | cons l lines ih =>
      rw [List.forall_mem_cons] at hw
      rw [List.flatMap_cons, List.append_assoc] at h
      have hline := parseLine_render hw.1 (lines.flatMap Line.render ++ tail)
      cases lines' with
      | nil =>
          rw [h] at hline
          exact absurd hline (parseLine_lineEnd last rest)
      | cons l' lines' =>
          rw [List.forall_mem_cons] at hw'
          have hbuf : block (l' :: lines') last ++ rest =
              l'.render ++ (block lines' last ++ rest) := by simp [block]
          rw [h, hbuf, parseLine_render hw'.1] at hline
          exact ih hw.2 hw'.2 (LineOutcome.line.inj hline).2.symm

end Foundation.HeaderBlock
