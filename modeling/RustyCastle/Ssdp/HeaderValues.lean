import RustyCastle.Foundation.HeaderBlock
import RustyCastle.Ssdp.Target

/-!
Header names and the typed value parsers. Each value parser comes with the lemma
that it reads the canonical text of a value back.
-/

namespace RustyCastle.Ssdp
open Foundation Foundation.Decimal

/-! Canonical header names, in ASCII lowercase. -/

namespace Name

def host : Str := "host".toList
def cacheControl : Str := "cache-control".toList
def location : Str := "location".toList
def nt : Str := "nt".toList
def nts : Str := "nts".toList
def server : Str := "server".toList
def st : Str := "st".toList
def usn : Str := "usn".toList
def man : Str := "man".toList
def mx : Str := "mx".toList
def userAgent : Str := "user-agent".toList
def bootid : Str := "bootid.upnp.org".toList
def configid : Str := "configid.upnp.org".toList
def nextbootid : Str := "nextbootid.upnp.org".toList
def searchport : Str := "searchport.upnp.org".toList
def cpfn : Str := "cpfn.upnp.org".toList
def cpuuid : Str := "cpuuid.upnp.org".toList
def tcpport : Str := "tcpport.upnp.org".toList

end Name

/-- `u8::to_ascii_lowercase`. -/
def asciiLower (b : UInt8) : UInt8 := if 65 ≤ b ∧ b ≤ 90 then b + 32 else b

/-- Case-insensitive comparison with a canonical lowercase name. -/
def headerEq (a : List UInt8) (canonicalLower : Str) : Bool :=
  if a.length ≠ canonicalLower.bytes.length then false
  else (a.zip canonicalLower.bytes).all fun (x, y) => asciiLower x == y

theorem headerEq_iff {a : List UInt8} {c : Str} :
    headerEq a c = true ↔ a.map asciiLower = c.bytes := by
  unfold headerEq
  generalize c.bytes = cs
  induction a generalizing cs with
  | nil => cases cs <;> simp
  | cons x a ih =>
      cases cs with
      | nil => simp
      | cons y cs =>
          have := ih cs
          by_cases hl : a.length = cs.length
          · simp only [hl, ne_eq, not_true, if_false] at this
            simp [hl, this]
          · have hne : a.map asciiLower ≠ cs := fun h => hl (by simp [← h])
            simp [hl, hne]

/-! NTS -/

inductive Nts where
  | alive
  | byeBye
  | update
  deriving DecidableEq, Repr

def Nts.parse (value : Str) : Except ParseError Nts :=
  let v := value.trim
  if v.eqIgnoreAsciiCase "ssdp:alive".toList then .ok .alive
  else if v.eqIgnoreAsciiCase "ssdp:byebye".toList then .ok .byeBye
  else if v.eqIgnoreAsciiCase "ssdp:update".toList then .ok .update
  else .error .unknownNts

def Nts.asStr : Nts → Str
  | .alive => "ssdp:alive".toList
  | .byeBye => "ssdp:byebye".toList
  | .update => "ssdp:update".toList

theorem Nts.parse_asStr (n : Nts) : parse n.asStr = .ok n := by
  cases n <;> decide

/-! MAN and MX -/

/-- `man::validate`. -/
def Man.validate (value : Str) : Except ParseError Unit :=
  if value.trim = manDiscover then .ok () else .error (.invalidHeaderValue "MAN")

/-- `str::parse::<u8>`. -/
def parseU8Str (s : Str) : Option UInt8 := (parseUnsigned 8 s).map UInt8.ofNat

/-- `str::parse::<u16>`. -/
def parseU16Str (s : Str) : Option UInt16 := (parseUnsigned 16 s).map UInt16.ofNat

theorem parseU8Str_numeral (v : UInt8) : parseU8Str (numeral v.toNat) = some v := by
  simp [parseU8Str, parseUnsigned_numeral v.toNat_lt]

theorem parseU16Str_numeral (v : UInt16) : parseU16Str (numeral v.toNat) = some v := by
  simp [parseU16Str, parseUnsigned_numeral v.toNat_lt]

theorem numeral_trimmed (n : Nat) : Str.Trimmed (numeral n) :=
  ⟨fun _ hc => isDigit_not_whitespace (numeral_isDigit (List.mem_of_head? hc)),
    fun _ hc => isDigit_not_whitespace (numeral_isDigit (List.mem_of_getLast? hc))⟩

theorem trim_numeral (n : Nat) : Str.trim (numeral n) = numeral n :=
  Str.trim_of_trimmed (numeral_trimmed n)

/-- `mx::parse`. -/
def Mx.parse (value : Str) : Except ParseError UInt8 := do
  let n ← okOr (parseU8Str value.trim) .mxOutOfRange
  if mxMin ≤ n ∧ n ≤ mxMax then .ok n else .error .mxOutOfRange

theorem Mx.range_of_parse {s : Str} {n : UInt8} (h : parse s = .ok n) : mxMin ≤ n ∧ n ≤ mxMax := by
  obtain ⟨k, -, hk⟩ := bind_eq_ok.mp h
  split at hk
  · rename_i hr
    cases hk
    exact hr
  · cases hk

theorem Mx.parse_numeral {n : UInt8} (h : mxMin ≤ n ∧ n ≤ mxMax) :
    parse (numeral n.toNat) = .ok n := by
  simp only [parse, trim_numeral, parseU8Str_numeral, okOr_some, bind, Except.bind, if_pos h]

/-! BOOTID, CONFIGID, NEXTBOOTID, SEARCHPORT and TCPPORT -/

/-- `bootid::parse_u32`. -/
def parseU32 (headerName : String) (value : Str) : Except ParseError UInt32 :=
  okOr (parseU32Str value.trim) (.invalidHeaderValue headerName)

theorem parseU32_numeral (headerName : String) (n : UInt32) :
    parseU32 headerName (numeral n.toNat) = .ok n := by
  simp only [parseU32, trim_numeral, parseU32Str_numeral, okOr_some]

/-- `bootid::parse_searchport`. -/
def parseSearchport (value : Str) : Except ParseError UInt16 := do
  let port ← okOr (parseU16Str value.trim) (.invalidHeaderValue "SEARCHPORT.UPNP.ORG")
  if port = 0 then .error (.invalidHeaderValue "SEARCHPORT.UPNP.ORG") else .ok port

theorem ne_zero_of_parseSearchport {s : Str} {p : UInt16} (h : parseSearchport s = .ok p) :
    p ≠ 0 := by
  obtain ⟨k, -, hk⟩ := bind_eq_ok.mp h
  split at hk
  · cases hk
  · rename_i hne
    cases hk
    exact hne

theorem parseSearchport_numeral {p : UInt16} (h : p ≠ 0) :
    parseSearchport (numeral p.toNat) = .ok p := by
  simp only [parseSearchport, trim_numeral, parseU16Str_numeral, okOr_some, bind, Except.bind,
    if_neg h]

/-! CACHE-CONTROL -/

/-- `char::is_ascii_whitespace`. -/
def isAsciiWhitespace (c : Char) : Bool :=
  c == ' ' || c == '\t' || c == '\n' || c == '\x0C' || c == '\r'

/-- The directives of a CACHE-CONTROL value, first `max-age` first. -/
def maxAgeOfParts : List Str → Except ParseError Duration
  | [] => .error .invalidCacheControl
  | part :: parts =>
      match Str.stripPrefix "max-age".toList part.trim with
      | none => maxAgeOfParts parts
      | some rest =>
          match Str.stripPrefix "=".toList (rest.dropWhile isAsciiWhitespace) with
          | none => maxAgeOfParts parts
          | some numStr =>
              (okOr (parseU32Str numStr.trim) .invalidCacheControl).map
                fun n => Duration.fromSecs n.toNat

/-- `cache_control::parse_max_age`. -/
def parseMaxAge (value : Str) : Except ParseError Duration :=
  maxAgeOfParts (value.splitOnP (· == ','))

theorem fromSecs_of_maxAgeOfParts {parts : List Str} {d : Duration}
    (h : maxAgeOfParts parts = .ok d) : ∃ n : UInt32, d = Duration.fromSecs n.toNat := by
  induction parts with
  | nil => cases h
  | cons part parts ih =>
      rw [maxAgeOfParts] at h
      split at h
      · exact ih h
      · split at h
        · exact ih h
        · rename_i numStr _
          cases hn : parseU32Str numStr.trim with
          | none =>
              rw [hn] at h
              cases h
          | some n =>
              rw [hn] at h
              exact ⟨n, (Except.ok.inj h).symm⟩

theorem fromSecs_of_parseMaxAge {s : Str} {d : Duration} (h : parseMaxAge s = .ok d) :
    ∃ n : UInt32, d = Duration.fromSecs n.toNat := fromSecs_of_maxAgeOfParts h

def maxAgeText (n : UInt32) : Str := "max-age=".toList ++ numeral n.toNat

theorem maxAgeText_trimmed (n : UInt32) : Str.Trimmed (maxAgeText n) :=
  prefix_trimmed (by decide) (by decide) Nat.toDigits_ne_nil (numeral_trimmed n.toNat).2

theorem parseMaxAge_text (n : UInt32) :
    parseMaxAge (maxAgeText n) = .ok (Duration.fromSecs n.toNat) := by
  have hcomma : ∀ c ∈ maxAgeText n, (c == ',') = false := by
    intro c hc
    rcases List.mem_append.mp hc with hc | hc
    · exact (by decide : ∀ c ∈ "max-age=".toList, (c == ',') = false) c hc
    · have := isDigit_range (numeral_isDigit hc)
      simp only [beq_eq_false_iff_ne]
      rintro rfl
      exact absurd this.1 (by decide)
  have hprefix : Str.stripPrefix "max-age".toList (maxAgeText n) =
      some ("=".toList ++ numeral n.toNat) := Str.stripPrefix_append "max-age".toList _
  have hdrop : ("=".toList ++ numeral n.toNat).dropWhile isAsciiWhitespace =
      "=".toList ++ numeral n.toNat := rfl
  rw [parseMaxAge, List.splitOnP_eq_singleton hcomma, maxAgeOfParts,
    Str.trim_of_trimmed (maxAgeText_trimmed n), hprefix]
  simp only [hdrop, Str.stripPrefix_append, trim_numeral, parseU32Str_numeral, okOr_some]
  rfl

/-! LOCATION -/

def maxUriLen : Nat := 2048

/-- `uri::is_valid`. -/
def Uri.isValid (s : Str) : Bool :=
  s ≠ [] && s.bytes.length ≤ maxUriLen && s.bytes.all fun b => 0x20 ≤ b && b < 0x7F

end RustyCastle.Ssdp
