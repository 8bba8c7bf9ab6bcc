import RustyCastle.MediaHttp.Response

/-!
Byte ranges as HTTP reads them, on the natural numbers, against the plan, which reads every
numeral as a 64-bit number. The two agree exactly where every numeral fits.
-/

namespace RustyCastle.MediaHttp
open Foundation RustyCastle.Dlna

/-- A decimal numeral of any number of digits, zeros in front included. -/
structure DecimalText where
  text : Str
  ne_nil : text ≠ []
  digits : ∀ c ∈ text, c.isDigit

def DecimalText.value (numeral : DecimalText) : Nat := Nat.ofDigitChars 10 numeral.text 0

/-- A single byte range in the notation of the header. -/
inductive SingleRange where
  | between (first last : DecimalText) (first_le : first.value ≤ last.value)
  | onward (first : DecimalText)
  | suffix (len : DecimalText)

def SingleRange.header : SingleRange → Str
  | .between first last _ => "bytes=".toList ++ (first.text ++ '-' :: last.text)
  | .onward first => "bytes=".toList ++ (first.text ++ ['-'])
  | .suffix len => "bytes=".toList ++ '-' :: len.text

theorem SingleRange.header_between {first last : DecimalText} (first_le : first.value ≤ last.value) :
    (SingleRange.between first last first_le).header =
      "bytes=".toList ++ (first.text ++ '-' :: last.text) := rfl

theorem SingleRange.header_onward (first : DecimalText) :
    (SingleRange.onward first).header = "bytes=".toList ++ (first.text ++ ['-']) := rfl

theorem SingleRange.header_suffix (len : DecimalText) :
    (SingleRange.suffix len).header = "bytes=".toList ++ '-' :: len.text := rfl

/-- The first and the last byte of the range in a representation, `none` where it has no byte. -/
def SingleRange.bytes (len : Nat) : SingleRange → Option (Nat × Nat)
  | .between first last _ =>
      if first.value < len then some (first.value, min last.value (len - 1)) else none
  | .onward first => if first.value < len then some (first.value, len - 1) else none
  | .suffix n => if 0 < n.value ∧ 0 < len then some (len - n.value, len - 1) else none

/-- A plan serves what HTTP defines: the bytes of the range, or that there are none. -/
def MediaResponsePlan.Serves {len : Nat} (plan : MediaResponsePlan len) :
    Option (Nat × Nat) → Prop
  | some (start, stop) => plan.status = .partialContent ∧
      plan.contentRange = some (.bytes start stop len) ∧
        plan.bodyRange.map (fun r => (r.start, r.stop)) = some (start, stop)
  | none => plan.status = .rangeNotSatisfiable

/-- Every numeral of the range is a 64-bit number. -/
def SingleRange.Fits : SingleRange → Prop
  | .between first last _ => first.value < 2 ^ 64 ∧ last.value < 2 ^ 64
  | .onward first => first.value < 2 ^ 64
  | .suffix n => n.value < 2 ^ 64

/-! Reading the header -/

theorem DecimalText.isEmpty_eq (numeral : DecimalText) : numeral.text.isEmpty = false :=
  List.isEmpty_eq_false_iff.mpr numeral.ne_nil

theorem parseU64_text (numeral : DecimalText) :
    parseU64 numeral.text =
      if numeral.value < 2 ^ 64 then .ok numeral.value else .error .invalid := by
  have hall : numeral.text.all Char.isDigit = true := List.all_eq_true.mpr numeral.digits
  have hparse : Decimal.parseUnsigned 64 numeral.text =
      (some numeral.value).filter (· < 2 ^ 64) :=
    Decimal.parseUnsigned_digits numeral.ne_nil numeral.digits
  simp only [parseU64, numeral.isEmpty_eq, hall, hparse, Option.filter_some]
  by_cases h : numeral.value < 2 ^ 64
  · simp only [h]
    rfl
  · simp only [h]
    rfl

theorem parseU64_fits {numeral : DecimalText} (h : numeral.value < 2 ^ 64) :
    parseU64 numeral.text = .ok numeral.value := by rw [parseU64_text, if_pos h]

theorem parseU64_overflow {numeral : DecimalText} (h : ¬ numeral.value < 2 ^ 64) :
    parseU64 numeral.text = .error .invalid := by rw [parseU64_text, if_neg h]

theorem parseRangeHeader_spec {start stop : Str} (hstart : ∀ c ∈ start, c.isDigit)
    (hstop : ∀ c ∈ stop, c.isDigit) :
    Str.stripPrefix "bytes=".toList (Str.trim ("bytes=".toList ++ (start ++ '-' :: stop))) =
        some (start ++ '-' :: stop) ∧
      ',' ∉ start ++ '-' :: stop ∧
      Str.cut ['-'] (start ++ '-' :: stop) = some (start, stop) := by
  have hdash : '-' ∉ start := fun h => absurd (hstart _ h) (by decide)
  have hword : ∀ c ∈ "bytes=".toList ++ (start ++ '-' :: stop), Str.isWhitespace c = false := by
    intro c hc
    rcases List.mem_append.mp hc with hc | hc
    · exact (by decide : ∀ c ∈ "bytes=".toList, Str.isWhitespace c = false) c hc
    · rcases List.mem_append.mp hc with hc | hc
      · exact Decimal.isDigit_not_whitespace (hstart c hc)
      · rcases List.mem_cons.mp hc with rfl | hc
        · decide
        · exact Decimal.isDigit_not_whitespace (hstop c hc)
  refine ⟨?_, ?_, Str.cut_char stop hdash⟩
  · rw [Str.trim_word (by simp) hword, Str.stripPrefix_append]
  · intro hc
    rcases List.mem_append.mp hc with hc | hc
    · exact absurd (hstart _ hc) (by decide)
    · rcases List.mem_cons.mp hc with hc | hc
      · exact absurd hc (by decide)
      · exact absurd (hstop _ hc) (by decide)

theorem parseRangeHeader_between {first last : DecimalText}
    (first_le : first.value ≤ last.value) :
    parseRangeHeader (SingleRange.between first last first_le).header =
      if last.value < 2 ^ 64 then .ok (.from first.value (some last.value) (by simpa using first_le))
      else .error .invalid := by
  obtain ⟨hstrip, hcomma, hcut⟩ := parseRangeHeader_spec first.digits last.digits
  rw [SingleRange.header_between]
  simp only [parseRangeHeader, hstrip, if_neg hcomma, hcut, first.isEmpty_eq, last.isEmpty_eq]
  by_cases hlast : last.value < 2 ^ 64
  · rw [parseU64_fits (Nat.lt_of_le_of_lt first_le hlast), parseU64_fits hlast, if_pos hlast]
    simp [Nat.not_lt.mpr first_le, bind, Except.bind]
  · rw [parseU64_overflow hlast, if_neg hlast]
    by_cases hfirst : first.value < 2 ^ 64
    · rw [parseU64_fits hfirst]
      rfl
    · rw [parseU64_overflow hfirst]
      rfl

theorem parseRangeHeader_onward (first : DecimalText) :
    parseRangeHeader (SingleRange.onward first).header =
      if first.value < 2 ^ 64 then .ok (.from first.value none nofun) else .error .invalid := by
  obtain ⟨hstrip, hcomma, hcut⟩ := parseRangeHeader_spec first.digits (List.forall_mem_nil _)
  rw [SingleRange.header_onward]
  simp only [parseRangeHeader, hstrip, if_neg hcomma, hcut, first.isEmpty_eq]
  by_cases hfirst : first.value < 2 ^ 64
  · rw [parseU64_fits hfirst, if_pos hfirst]
    rfl
  · rw [parseU64_overflow hfirst, if_neg hfirst]
    rfl

theorem parseRangeHeader_suffix (len : DecimalText) :
    parseRangeHeader (SingleRange.suffix len).header =
      if len.value < 2 ^ 64 then
        if h : len.value = 0 then .error .unsatisfiable
        else .ok (.suffix len.value (Nat.pos_of_ne_zero h))
      else .error .invalid := by
  obtain ⟨hstrip, hcomma, hcut⟩ := parseRangeHeader_spec (List.forall_mem_nil _) len.digits
  rw [List.nil_append] at hstrip hcomma hcut
  rw [SingleRange.header_suffix]
  simp only [parseRangeHeader, hstrip, if_neg hcomma, hcut]
  by_cases hlen : len.value < 2 ^ 64
  · rw [parseU64_fits hlen, if_pos hlen]
    rfl
  · rw [parseU64_overflow hlen, if_neg hlen]
    rfl

/-! The plan of a single range -/

/-- Where the numerals fit, the range that is read has the bytes that HTTP defines. -/
theorem parseRangeHeader_apply (range : SingleRange) (hfits : range.Fits) (len : Nat) :
    (parseRangeHeader range.header >>= fun spec => spec.apply len).map
        (fun r => (r.start, r.stop)) =
      (range.bytes len).elim (.error .unsatisfiable) .ok := by
  cases range with
  | between first last first_le =>
      rw [parseRangeHeader_between, if_pos hfits.2, SingleRange.bytes]
      by_cases hlt : first.value < len
      · have h0 : len ≠ 0 := by omega
        simp [bind, Except.bind, ByteRangeSpec.apply, hlt, h0, Except.map]
      · by_cases h0 : len = 0 <;>
          simp [bind, Except.bind, ByteRangeSpec.apply, hlt, h0, Except.map]
  | onward first =>
      have hfirst : first.value < 2 ^ 64 := hfits
      rw [parseRangeHeader_onward, if_pos hfirst, SingleRange.bytes]
      by_cases hlt : first.value < len
      · have h0 : len ≠ 0 := by omega
        simp [bind, Except.bind, ByteRangeSpec.apply, hlt, h0, Except.map]
      · by_cases h0 : len = 0 <;>
          simp [bind, Except.bind, ByteRangeSpec.apply, hlt, h0, Except.map]
  | suffix n =>
      have hlen : n.value < 2 ^ 64 := hfits
      rw [parseRangeHeader_suffix, if_pos hlen, SingleRange.bytes]
      by_cases hn : n.value = 0
      · simp [hn, bind, Except.bind, Except.map]
      · by_cases h0 : len = 0
        · simp [hn, h0, bind, Except.bind, ByteRangeSpec.apply, Except.map]
        · have hmin : len - min n.value len = len - n.value := by omega
          simp [hn, h0, bind, Except.bind, ByteRangeSpec.apply, Except.map, hmin,
            Nat.pos_of_ne_zero]

/-- A numeral that does not fit makes the header no range at all. -/
theorem parseRangeHeader_overflow (range : SingleRange) (hfits : ¬ range.Fits) :
    parseRangeHeader range.header = .error .invalid := by
  cases range with
  | between first last first_le =>
      have hlast : ¬ last.value < 2 ^ 64 := fun h => hfits ⟨Nat.lt_of_le_of_lt first_le h, h⟩
      rw [parseRangeHeader_between, if_neg hlast]
  | onward first =>
      have hfirst : ¬ first.value < 2 ^ 64 := hfits
      rw [parseRangeHeader_onward, if_neg hfirst]
  | suffix n =>
      have hlen : ¬ n.value < 2 ^ 64 := hfits
      rw [parseRangeHeader_suffix, if_neg hlen]

theorem fullPlan_not_serves (method : Method) (headers : MediaHeadersRef)
    (bytes : Option (Nat × Nat)) : ¬ (fullPlan method headers).Serves bytes := by
  cases bytes with
  | none => exact fun h => by cases h
  | some bytes => exact fun h => by cases h.1

/-- The plan for a single range serves what HTTP defines exactly when every numeral of the
range fits into 64 bits. A larger numeral gets the whole representation. -/
theorem planMediaResponse_serves_iff (method : Method) (headers : MediaHeadersRef)
    (range : SingleRange) :
    (planMediaResponse method headers (some range.header)).Serves (range.bytes headers.len) ↔
      range.Fits := by
  constructor
  · intro hserves
    by_contra hfits
    rw [planMediaResponse, parseRangeHeader_overflow range hfits] at hserves
    exact fullPlan_not_serves method headers _ hserves
  · intro hfits
    have happly := parseRangeHeader_apply range hfits headers.len
    simp only [planMediaResponse]
    cases hread : parseRangeHeader range.header >>= fun spec => spec.apply headers.len with
    | error e =>
        rw [hread] at happly
        cases hbytes : range.bytes headers.len with
        | none =>
            rw [hbytes] at happly
            cases happly
            rfl
        | some bytes =>
            rw [hbytes] at happly
            cases happly
    | ok r =>
        rw [hread] at happly
        cases hbytes : range.bytes headers.len with
        | none =>
            rw [hbytes] at happly
            cases happly
        | some bytes =>
            rw [hbytes] at happly
            cases happly
            exact ⟨rfl, rfl, rfl⟩

/-- The bytes from the first up to a position that does not fit into 64 bits. -/
def largeRange : SingleRange :=
  .between ⟨"0".toList, by decide, by decide⟩
    ⟨"18446744073709551616".toList, by decide, by decide⟩ (by decide)

/-- The large range has all ten bytes of a representation, but the plan does not serve it. -/
theorem planMediaResponse_ignores_largeRange :
    largeRange.header = "bytes=0-18446744073709551616".toList ∧
      largeRange.bytes 10 = some (0, 9) ∧
      ¬ (planMediaResponse .get ⟨10, "video/mp4".toList, ProtocolInfoRef.sonyMp4⟩
        (some largeRange.header)).Serves (some (0, 9)) := by
  have hoverflow : ¬ largeRange.Fits := fun h => absurd h.2 (by decide)
  refine ⟨by decide, by decide, ?_⟩
  rw [planMediaResponse, parseRangeHeader_overflow largeRange hoverflow]
  exact fullPlan_not_serves _ _ _

end RustyCastle.MediaHttp
