import RustyCastle.Ssdp.HeaderValues
import RustyCastle.Ssdp.Usn

/-!
SSDP messages, and the well-formedness that every parsed message has: texts that
a header value can carry, targets and names in the image of their parsers, and
numbers in the ranges their parsers accept.
-/

namespace RustyCastle.Ssdp
open Foundation Foundation.Decimal Foundation.HeaderBlock

structure MSearchRef where
  host : Str
  st : TargetRef
  mx : UInt8
  userAgent : Option Str
  cpfn : Option Str
  cpuuid : Option Str
  tcpport : Option UInt16
  deriving DecidableEq, Repr

structure NotifyRef where
  host : Str
  nt : TargetRef
  nts : Nts
  usn : UsnRef
  location : Option Str
  maxAge : Option Duration
  server : Option Str
  bootid : Option UInt32
  configid : Option UInt32
  nextbootid : Option UInt32
  searchport : Option UInt16
  deriving DecidableEq, Repr

structure SearchResponseRef where
  st : TargetRef
  usn : UsnRef
  location : Str
  maxAge : Duration
  server : Option Str
  bootid : Option UInt32
  configid : Option UInt32
  searchport : Option UInt16
  deriving DecidableEq, Repr

inductive MessageRef where
  | search (m : MSearchRef)
  | searchResponse (m : SearchResponseRef)
  | notify (m : NotifyRef)
  deriving DecidableEq, Repr

/-- A character whose encoding a header value can carry. -/
def ValueChar (c : Char) : Prop := ∀ b ∈ String.utf8EncodeChar c, isValueByte b

instance : DecidablePred ValueChar := fun _ => inferInstanceAs (Decidable (∀ _ ∈ _, _))

/-- A text that stands in a header value with nothing stripped from it. -/
structure FieldText (s : Str) : Prop where
  chars : ∀ c ∈ s, ValueChar c
  head : ∀ b ∈ s.bytes.head?, isBlank b = false
  last : ∀ b ∈ s.bytes.getLast?, isBlank b = false

/-- The header of a name and a text. -/
def field (name value : Str) : Header := ⟨name.bytes, value.bytes⟩

def TokenName (name : Str) : Prop := name.bytes ≠ [] ∧ ∀ b ∈ name.bytes, isTokenByte b

instance : DecidablePred TokenName := fun _ => inferInstanceAs (Decidable (_ ∧ _))

theorem field_wellFormed {name value : Str} (hn : TokenName name) (hv : FieldText value) :
    (field name value).WellFormed where
  name_ne_nil := hn.1
  name_token := hn.2
  value_bytes b hb := by
    obtain ⟨c, hc, hb⟩ := Str.mem_bytes.mp hb
    exact hv.chars c hc b hb
  value_head := hv.head
  value_last := hv.last

theorem fieldText_of_wellFormed {h : Header} {s : Str} (hw : h.WellFormed)
    (hs : Str.fromUtf8 h.value = some s) : FieldText s := by
  have hb := Str.bytes_of_fromUtf8 hs
  refine ⟨fun c hc b hbc => hw.value_bytes b ?_, ?_, ?_⟩
  · rw [← hb]
    exact Str.mem_bytes.mpr ⟨c, hc, hbc⟩
  · rw [hb]
    exact hw.value_head
  · rw [hb]
    exact hw.value_last

/-- A blank byte in an encoded character is that character. -/
theorem isWhitespace_of_isBlank {c : Char} {b : UInt8} (hb : b ∈ String.utf8EncodeChar c)
    (h : isBlank b = true) : Str.isWhitespace c = true := by
  have hlt : b.toNat < 128 := by
    simp only [isBlank, Bool.or_eq_true, beq_iff_eq] at h
    rcases h with rfl | rfl <;> decide
  by_cases hc : c.toNat < 128
  · rw [Str.encode_ascii hc, List.mem_singleton] at hb
    have hn : b.toNat = c.toNat := by
      rw [hb, UInt8.toNat_ofNat']
      omega
    simp only [isBlank, Bool.or_eq_true, beq_iff_eq] at h
    rcases h with rfl | rfl <;> simp [Str.isWhitespace, ← hn]
  · have := Str.encode_nonAscii (Nat.le_of_not_lt hc) b hb
    omega

theorem head_bytes {s : Str} {b : UInt8} (h : b ∈ s.bytes.head?) :
    ∃ c ∈ s.head?, b ∈ String.utf8EncodeChar c := by
  cases s with
  | nil => simp at h
  | cons c s =>
      refine ⟨c, by simp, ?_⟩
      have hne := String.utf8EncodeChar_ne_nil (c := c)
      rw [Str.bytes_cons, List.head?_append_of_ne_nil _ hne] at h
      exact List.mem_of_head? h

theorem last_bytes {s : Str} {b : UInt8} (h : b ∈ s.bytes.getLast?) :
    ∃ c ∈ s.getLast?, b ∈ String.utf8EncodeChar c := by
  induction s using List.reverseRecOn with
  | nil => simp at h
  | append_singleton s c _ =>
      refine ⟨c, by simp, ?_⟩
      have hne := String.utf8EncodeChar_ne_nil (c := c)
      rw [Str.bytes_append, show Str.bytes [c] = String.utf8EncodeChar c by simp,
        List.getLast?_append_of_ne_nil _ hne] at h
      exact List.mem_of_getLast? h

theorem fieldText_of_trimmed {s : Str} (hc : ∀ c ∈ s, ValueChar c) (ht : Str.Trimmed s) :
    FieldText s := by
  refine ⟨hc, ?_, ?_⟩
  · intro b hb
    obtain ⟨c, hcs, hbc⟩ := head_bytes hb
    by_contra hblank
    have := isWhitespace_of_isBlank hbc (Bool.not_eq_false _ ▸ hblank)
    simp [ht.1 c hcs] at this
  · intro b hb
    obtain ⟨c, hcs, hbc⟩ := last_bytes hb
    by_contra hblank
    have := isWhitespace_of_isBlank hbc (Bool.not_eq_false _ ▸ hblank)
    simp [ht.2 c hcs] at this

/-- A character of printable ASCII. -/
def PrintableChar (c : Char) : Prop := 0x20 ≤ c.toNat ∧ c.toNat < 0x7F

instance : DecidablePred PrintableChar := fun _ => inferInstanceAs (Decidable (_ ∧ _))

theorem PrintableChar.valueChar {c : Char} (h : PrintableChar c) : ValueChar c := by
  intro b hb
  have := h.1
  have := h.2
  rw [Str.encode_ascii (by omega), List.mem_singleton] at hb
  have hn : b.toNat = c.toNat := by
    rw [hb, UInt8.toNat_ofNat']
    omega
  have h32 : (32 : UInt8) ≤ b := UInt8.le_iff_toNat_le.mpr (by simp; omega)
  have h127 : b ≠ 127 := by
    rintro rfl
    simp at hn
    omega
  simp [isValueByte, h32, h127]

theorem valueChar_of_isDigit {c : Char} (h : c.isDigit) : ValueChar c := by
  have := isDigit_range h
  exact PrintableChar.valueChar ⟨by omega, by omega⟩

theorem fieldText_numeral (n : Nat) : FieldText (numeral n) :=
  fieldText_of_trimmed (fun _ hc => valueChar_of_isDigit (numeral_isDigit hc))
    (numeral_trimmed n)

theorem TargetRef.text_chars {p : Char → Prop} {t : TargetRef} (h : t.FreeChars p)
    (hascii : ∀ c, PrintableChar c → p c) : ∀ c ∈ t.text, p c := by
  have hlit : ∀ s : Str, (∀ c ∈ s, PrintableChar c) → ∀ c ∈ s, p c :=
    fun s hs c hc => hascii c (hs c hc)
  have hnum : ∀ n : Nat, ∀ c ∈ numeral n, p c := by
    intro n c hc
    have := isDigit_range (numeral_isDigit hc)
    exact hascii c ⟨by omega, by omega⟩
  have hcolon : p ':' := hascii _ (by decide)
  have hurn : ∀ (d cls k : Str) (v : UInt32), (∀ c ∈ d, p c) → (∀ c ∈ cls, p c) →
      (∀ c ∈ k, p c) → ∀ c ∈ "urn:".toList ++ urnRest d cls k v, p c := by
    intro d cls k v hd hcls hk c hc
    simp only [urnRest, List.mem_append, List.mem_cons] at hc
    rcases hc with hc | hc | rfl | hc | rfl | hc | rfl | hc
    · exact hlit _ (by decide) c hc
    · exact hd c hc
    · exact hcolon
    · exact hcls c hc
    · exact hcolon
    · exact hk c hc
    · exact hcolon
    · exact hnum _ c hc
  cases t with
  | all => exact hlit _ (by decide)
  | rootDevice => exact hlit _ (by decide)
  | uuid u =>
      intro c hc
      rcases List.mem_append.mp hc with hc | hc
      · exact hlit _ (by decide) c hc
      · exact h c hc
  | deviceType d k v => exact hurn d _ k v h.1 (hlit _ (by decide)) h.2
  | serviceType d k v => exact hurn d _ k v h.1 (hlit _ (by decide)) h.2

theorem UsnRef.text_chars {p : Char → Prop} {u : UsnRef} (h : u.FreeChars p)
    (hascii : ∀ c, PrintableChar c → p c) : ∀ c ∈ u.text, p c := by
  have hlit : ∀ s : Str, (∀ c ∈ s, PrintableChar c) → ∀ c ∈ s, p c :=
    fun s hs c hc => hascii c (hs c hc)
  obtain ⟨d, _ | t⟩ := u
  · intro c hc
    rcases List.mem_append.mp hc with hc | hc
    · exact hlit _ (by decide) c hc
    · exact h.1 c hc
  · intro c hc
    simp only [text, tail, List.mem_append] at hc
    rcases hc with hc | hc | hc | hc
    · exact hlit _ (by decide) c hc
    · exact h.1 c hc
    · exact hlit _ (by decide) c hc
    · exact TargetRef.text_chars (h.2 t rfl) hascii c hc

/-- A target that a header value can carry and a parser can return. -/
def TargetRef.WellFormed (t : TargetRef) : Prop := t.Parsed ∧ t.FreeChars ValueChar

def UsnRef.WellFormed (u : UsnRef) : Prop := u.Parsed ∧ u.FreeChars ValueChar

theorem TargetRef.wellFormed_of_parse {s : Str} {t : TargetRef} (hs : FieldText s)
    (h : parse s = .ok t) : t.WellFormed :=
  ⟨parsed_of_parse h, freeChars_of_parse h hs.chars⟩

theorem UsnRef.wellFormed_of_parse {s : Str} {u : UsnRef} (hs : FieldText s)
    (h : parse s = .ok u) : u.WellFormed :=
  ⟨parsed_of_parse h, freeChars_of_parse h hs.chars⟩

theorem TargetRef.WellFormed.fieldText {t : TargetRef} (h : t.WellFormed) : FieldText t.text :=
  fieldText_of_trimmed (text_chars h.2 fun _ => PrintableChar.valueChar) (text_trimmed h.1)

theorem UsnRef.WellFormed.fieldText {u : UsnRef} (h : u.WellFormed) : FieldText u.text :=
  fieldText_of_trimmed (text_chars h.2 fun _ => PrintableChar.valueChar) (text_trimmed h.1)

/-- A LOCATION that a parser can return. -/
def LocationText (s : Str) : Prop := Uri.isValid s = true ∧ Str.Trimmed s

/-- A max-age that a parser can return. -/
def WholeSecs (d : Duration) : Prop := ∃ n : UInt32, d = Duration.fromSecs n.toNat

structure MSearchRef.WellFormed (m : MSearchRef) : Prop where
  host : FieldText m.host
  st : m.st.WellFormed
  mx : mxMin ≤ m.mx ∧ m.mx ≤ mxMax
  userAgent : ∀ v ∈ m.userAgent, FieldText v
  cpfn : ∀ v ∈ m.cpfn, FieldText v
  cpuuid : ∀ v ∈ m.cpuuid, FieldText v

structure NotifyRef.WellFormed (m : NotifyRef) : Prop where
  host : FieldText m.host
  nt : m.nt.WellFormed
  usn : m.usn.WellFormed
  location : ∀ v ∈ m.location, LocationText v
  maxAge : ∀ v ∈ m.maxAge, WholeSecs v
  server : ∀ v ∈ m.server, FieldText v
  searchport : ∀ v ∈ m.searchport, v ≠ 0
  advertises : m.nts ≠ .byeBye → m.location.isSome ∧ m.maxAge.isSome

structure SearchResponseRef.WellFormed (m : SearchResponseRef) : Prop where
  st : m.st.WellFormed
  usn : m.usn.WellFormed
  location : LocationText m.location
  maxAge : WholeSecs m.maxAge
  server : ∀ v ∈ m.server, FieldText v
  searchport : ∀ v ∈ m.searchport, v ≠ 0

def MessageRef.WellFormed : MessageRef → Prop
  | .search m => m.WellFormed
  | .searchResponse m => m.WellFormed
  | .notify m => m.WellFormed

theorem LocationText.fieldText {s : Str} (h : LocationText s) : FieldText s := by
  refine fieldText_of_trimmed (fun c hc b hb => ?_) h.2
  have hall : s.bytes.all (fun b => 0x20 ≤ b && b < 0x7F) = true := by
    have := h.1
    simp only [Uri.isValid, Bool.and_eq_true] at this
    exact this.2
  have hr := List.all_eq_true.mp hall b (Str.mem_bytes.mpr ⟨c, hc, hb⟩)
  simp only [Bool.and_eq_true, decide_eq_true_eq] at hr
  have h127 : b ≠ 127 := by
    rintro rfl
    exact absurd hr.2 (by decide)
  simp [isValueByte, hr.1, h127]

end RustyCastle.Ssdp
