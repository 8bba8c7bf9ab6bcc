import Mathlib.Data.List.DropRight
import Mathlib.Data.List.Basic
import Mathlib.Data.List.Infix

/-!
UTF-8 text as lists of Unicode scalar values. The operations follow the string
type of a systems language: trimming by the Unicode White_Space property,
ASCII-only case folding, prefix removal, first-occurrence search and bounded
splitting. Bytes are read and written by the core UTF-8 codec.
-/

namespace Foundation

/-- A string is the list of its Unicode scalar values. -/
abbrev Str := List Char

/-! Bounded quantifiers are decided along the list, not over all values of the type. -/

instance (priority := 1100) decidableForallMemList {α : Type} {p : α → Prop} [DecidablePred p] (l : List α) :
    Decidable (∀ a ∈ l, p a) := List.decidableBAll p l

instance (priority := 1100) decidableForallMemOption {α : Type} {p : α → Prop} [DecidablePred p] :
    (o : Option α) → Decidable (∀ a ∈ o, p a)
  | none => .isTrue nofun
  | some a => decidable_of_iff (p a) (by simp)

namespace Str

def bytes (s : Str) : List UInt8 := s.flatMap String.utf8EncodeChar

def fromUtf8 (b : List UInt8) : Option Str :=
  (b.toByteArray.utf8Decode?).map Array.toList

@[simp] theorem bytes_nil : bytes [] = [] := rfl

@[simp] theorem bytes_cons (c : Char) (s : Str) :
    bytes (c :: s) = String.utf8EncodeChar c ++ bytes s := rfl

@[simp] theorem bytes_append (s t : Str) : bytes (s ++ t) = bytes s ++ bytes t := by
  simp [bytes, List.flatMap_append]

@[simp] theorem fromUtf8_bytes (s : Str) : fromUtf8 (bytes s) = some s := by
  have h : (bytes s).toByteArray = List.utf8Encode s := rfl
  simp [fromUtf8, h]

theorem bytes_of_fromUtf8 {b : List UInt8} {s : Str} (h : fromUtf8 b = some s) :
    bytes s = b := by
  obtain ⟨cs, hcs, rfl⟩ := Option.map_eq_some_iff.mp h
  have hs : (b.toByteArray.utf8Decode?).isSome := by simp [hcs]
  have he := ByteArray.utf8Encode_get_utf8Decode? (h := hs)
  simp only [hcs, Option.get_some] at he
  have hl : (bytes cs.toList).toByteArray = b.toByteArray := he
  simpa using congrArg (fun a => a.data.toList) hl

theorem mem_bytes {s : Str} {b : UInt8} :
    b ∈ bytes s ↔ ∃ c ∈ s, b ∈ String.utf8EncodeChar c := by
  simp [bytes]

@[simp] theorem bytes_eq_nil {s : Str} : bytes s = [] ↔ s = [] := by
  cases s with
  | nil => simp
  | cons c s => simp [String.utf8EncodeChar_ne_nil]

theorem encode_ascii {c : Char} (h : c.toNat < 128) :
    String.utf8EncodeChar c = [UInt8.ofNat c.toNat] := by
  have hv : c.val.toNat ≤ 127 := Nat.le_of_lt_succ h
  simp only [String.utf8EncodeChar, hv, if_true]
  rfl

/-- Outside ASCII every byte of an encoded character has its top bit set. -/
theorem encode_nonAscii {c : Char} (h : 128 ≤ c.toNat) :
    ∀ b ∈ String.utf8EncodeChar c, 128 ≤ b.toNat := by
  have hv : ¬ c.val.toNat ≤ 127 := Nat.not_le.mpr h
  intro b hb
  simp only [String.utf8EncodeChar, hv, ite_false] at hb
  split at hb
  · simp at hb
    rcases hb with rfl | rfl <;> simp <;> omega
  · split at hb
    · simp at hb
      rcases hb with rfl | rfl | rfl <;> simp <;> omega
    · simp at hb
      rcases hb with rfl | rfl | rfl | rfl <;> simp <;> omega

/-- The five highest bits of an encoded byte are not all set. -/
theorem encode_lt (c : Char) : ∀ b ∈ String.utf8EncodeChar c, b.toNat < 0xF8 := by
  intro b hb
  simp only [String.utf8EncodeChar] at hb
  split at hb
  · rename_i hv
    have hv' : c.toNat ≤ 127 := hv
    simp at hb
    subst hb
    simp
    omega
  · split at hb
    · simp at hb
      rcases hb with rfl | rfl <;> simp <;> omega
    · split at hb
      · simp at hb
        rcases hb with rfl | rfl | rfl <;> simp <;> omega
      · simp at hb
        rcases hb with rfl | rfl | rfl | rfl <;> simp <;> omega

/-- An ASCII byte of an encoded text is a character of the text. -/
theorem bytes_split_ascii {s : Str} {u v : List UInt8} {b : UInt8} (h : bytes s = u ++ b :: v)
    (hb : b.toNat < 128) : ∃ s₁ c s₂, s = s₁ ++ c :: s₂ ∧ u = bytes s₁ ∧ v = bytes s₂ := by
  induction s generalizing u with
  | nil => simp at h
  | cons c s ih =>
      rw [bytes_cons] at h
      by_cases hc : c.toNat < 128
      · rw [encode_ascii hc, List.singleton_append] at h
        cases u with
        | nil => exact ⟨[], c, s, rfl, rfl, (List.cons.inj h).2.symm⟩
        | cons d u =>
            obtain ⟨rfl, htail⟩ := List.cons.inj h
            obtain ⟨s₁, e, s₂, rfl, rfl, rfl⟩ := ih htail
            exact ⟨c :: s₁, e, s₂, rfl, by rw [bytes_cons, encode_ascii hc, List.singleton_append], rfl⟩
      · have hhigh := encode_nonAscii (Nat.not_lt.mp hc)
        rcases List.append_eq_append_iff.mp h with ⟨a, rfl, htail⟩ | ⟨a, ha, htail⟩
        · obtain ⟨s₁, e, s₂, rfl, rfl, rfl⟩ := ih htail
          exact ⟨c :: s₁, e, s₂, rfl, (bytes_cons c s₁).symm, rfl⟩
        · cases a with
          | nil =>
              obtain ⟨s₁, e, s₂, rfl, hu, rfl⟩ := ih (u := []) htail.symm
              refine ⟨c :: s₁, e, s₂, rfl, ?_, rfl⟩
              rw [bytes_cons, ← hu, List.append_nil, ha, List.append_nil]
          | cons d a =>
              obtain ⟨rfl, -⟩ := List.cons.inj htail
              have := hhigh b (by rw [ha]; simp)
              omega

theorem length_bytes_of_ascii {s : Str} (h : ∀ c ∈ s, c.toNat < 128) :
    (bytes s).length = s.length := by
  induction s with
  | nil => rfl
  | cons c s ih =>
      simp [encode_ascii (h c (by simp)), ih fun d hd => h d (by simp [hd])]

theorem length_le_bytes (s : Str) : s.length ≤ (bytes s).length := by
  induction s with
  | nil => exact Nat.le_refl _
  | cons c s ih =>
      have hpos : 0 < (String.utf8EncodeChar c).length :=
        List.length_pos_iff.mpr String.utf8EncodeChar_ne_nil
      simp only [bytes_cons, List.length_append, List.length_cons]
      omega

/-- The Unicode White_Space property. -/
def isWhitespace (c : Char) : Bool :=
  let n := c.toNat
  (0x09 ≤ n && n ≤ 0x0D) || n == 0x20 || n == 0x85 || n == 0xA0 || n == 0x1680 ||
    (0x2000 ≤ n && n ≤ 0x200A) || n == 0x2028 || n == 0x2029 || n == 0x202F ||
    n == 0x205F || n == 0x3000

def trim (s : Str) : Str := (s.dropWhile isWhitespace).rdropWhile isWhitespace

/-- No white space at either end: the strings that `trim` leaves alone. -/
def Trimmed (s : Str) : Prop :=
  (∀ c ∈ s.head?, isWhitespace c = false) ∧ ∀ c ∈ s.getLast?, isWhitespace c = false

instance (s : Str) : Decidable (Trimmed s) := inferInstanceAs (Decidable (_ ∧ _))

theorem trimmed_of_forall {s : Str} (h : ∀ c ∈ s, isWhitespace c = false) : Trimmed s :=
  ⟨fun c hc => h c (List.mem_of_mem_head? hc), fun c hc => h c (List.mem_of_mem_getLast? hc)⟩

theorem trim_of_trimmed {s : Str} (h : Trimmed s) : trim s = s := by
  have hd : s.dropWhile isWhitespace = s := by
    cases s with
    | nil => rfl
    | cons c s => simp [h.1 c (by simp)]
  rw [trim, hd, List.rdropWhile_eq_self_iff]
  intro hne
  simpa using h.2 _ (List.getLast?_eq_some_getLast hne)

/-- Trimming a text with something behind it shortens both ends on their own, unless the white
space at the end goes on into the text. -/
theorem trim_append {s rest : Str} (hne : s.dropWhile isWhitespace ≠ [])
    (h : (∀ c ∈ s.getLast?, isWhitespace c = false) ∨ rest.rdropWhile isWhitespace ≠ []) :
    trim (s ++ rest) = s.dropWhile isWhitespace ++ rest.rdropWhile isWhitespace := by
  have hdrop : (s ++ rest).dropWhile isWhitespace = s.dropWhile isWhitespace ++ rest := by
    rw [List.dropWhile_append, if_neg (by simpa using hne)]
  have hlast : (∀ c ∈ s.getLast?, isWhitespace c = false) →
      (s.dropWhile isWhitespace).reverse.dropWhile isWhitespace =
        (s.dropWhile isWhitespace).reverse := by
    intro hs
    obtain ⟨c, t, hct⟩ := List.exists_cons_of_ne_nil (List.reverse_ne_nil_iff.mpr hne)
    have hc : c ∈ s.getLast? := by
      have hsuffix : (s.dropWhile isWhitespace).getLast? = some c := by
        rw [List.getLast?_eq_head?_reverse, hct]
        rfl
      obtain ⟨u, hu⟩ := List.dropWhile_suffix (l := s) isWhitespace
      rw [← hu, List.getLast?_append, hsuffix]
      rfl
    rw [hct, List.dropWhile_cons, hs c hc]
    rfl
  rw [trim, hdrop, List.rdropWhile, List.reverse_append, List.dropWhile_append]
  split
  · rename_i hempty
    have hnil : rest.rdropWhile isWhitespace = [] := by
      rw [List.rdropWhile, List.isEmpty_iff.mp hempty]
      rfl
    rw [hlast (h.resolve_right fun hr => hr hnil), hnil, List.reverse_reverse, List.append_nil]
  · rw [List.reverse_append, List.reverse_reverse]
    rfl

/-- Trimming a word with something behind it only shortens what is behind. -/
theorem trim_word_append {word : Str} (hne : word ≠ [])
    (hword : ∀ c ∈ word, isWhitespace c = false) (rest : Str) :
    trim (word ++ rest) = word ++ rest.rdropWhile isWhitespace := by
  have hdrop : word.dropWhile isWhitespace = word := by
    cases word with
    | nil => rfl
    | cons c word => simp [hword c (List.mem_cons_self ..)]
  have htrim : trim (word ++ rest) = word.dropWhile isWhitespace ++ rest.rdropWhile isWhitespace :=
    trim_append (by rwa [hdrop]) (.inl fun c hc => hword c (List.mem_of_mem_getLast? hc))
  rwa [hdrop] at htrim

theorem trim_isInfix (s : Str) : trim s <:+: s :=
  (List.rdropWhile_prefix _ _).isInfix.trans (List.dropWhile_suffix _).isInfix

theorem trim_word {word : Str} (hne : word ≠ []) (hword : ∀ c ∈ word, isWhitespace c = false) :
    trim word = word := by
  have h := trim_word_append hne hword []
  rwa [List.append_nil, List.rdropWhile_nil, List.append_nil] at h

/-- What trimming takes off is white space. -/
theorem exists_trim_append (s : Str) :
    ∃ before after, s = before ++ (trim s ++ after) ∧ (∀ c ∈ before, isWhitespace c = true) ∧
      ∀ c ∈ after, isWhitespace c = true := by
  refine ⟨s.takeWhile isWhitespace, (s.dropWhile isWhitespace).rtakeWhile isWhitespace, ?_,
    fun c hc => List.mem_takeWhile_imp hc, fun c hc => List.mem_rtakeWhile_imp hc⟩
  rw [trim, List.rdropWhile_append_rtakeWhile, List.takeWhile_append_dropWhile]

theorem mem_of_mem_trim {s : Str} {c : Char} (h : c ∈ trim s) : c ∈ s :=
  (trim_isInfix s).subset h

theorem mem_trim_of_mem {s : Str} {c : Char} (h : c ∈ s) (hc : isWhitespace c = false) : c ∈ trim s := by
  obtain ⟨before, after, hs, hbefore, hafter⟩ := exists_trim_append s
  have hblank : ∀ t : Str, (∀ d ∈ t, isWhitespace d = true) → c ∉ t := by
    intro t ht hm
    rw [ht c hm] at hc
    cases hc
  rw [hs, List.mem_append, List.mem_append] at h
  exact (h.resolve_left (hblank _ hbefore)).resolve_right (hblank _ hafter)

theorem trimmed_trim (s : Str) : Trimmed (trim s) := by
  constructor
  · intro c hc
    have hp : trim s <+: s.dropWhile isWhitespace := List.rdropWhile_prefix _ _
    obtain ⟨t, ht⟩ := hp
    obtain ⟨r, hr⟩ : ∃ r, trim s = c :: r := List.head?_eq_some_iff.mp hc
    rw [hr] at ht
    have hne : s.dropWhile isWhitespace ≠ [] := by rw [← ht]; simp
    have := List.head_dropWhile_not isWhitespace hne
    simpa [← ht] using this
  · intro c hc
    have hne : trim s ≠ [] := by
      intro h
      simp [h] at hc
    have hl := List.rdropWhile_last_not isWhitespace (s.dropWhile isWhitespace) hne
    have he : (trim s).getLast hne = c := by
      have := List.getLast?_eq_some_getLast hne
      rw [this] at hc
      exact Option.some.inj hc
    rw [← he]
    exact Bool.eq_false_iff.mpr hl

/-- A last character that is not white space stays the last. -/
theorem getLast_trim_concat (s : Str) {c : Char} (hc : isWhitespace c = false) :
    (trim (s ++ [c])).getLast? = some c := by
  have hdrop : (s ++ [c]).dropWhile isWhitespace = s.dropWhile isWhitespace ++ [c] := by
    rw [List.dropWhile_append]
    split
    · rename_i hempty
      rw [List.isEmpty_iff.mp hempty, List.dropWhile_cons_of_neg (by simp [hc]), List.nil_append]
    · rfl
  rw [trim, hdrop, List.rdropWhile_concat_neg _ _ _ (by simp [hc]), List.getLast?_concat]

theorem length_bytes_trim_le (s : Str) : (bytes (trim s)).length ≤ (bytes s).length := by
  obtain ⟨before, after, h⟩ := trim_isInfix s
  have hb := congrArg (fun s => (bytes s).length) h
  simp only [bytes_append, List.length_append] at hb
  omega

/-- Equality after folding the ASCII letters; every other character is kept. -/
def eqIgnoreAsciiCase (a b : Str) : Bool := a.map Char.toLower == b.map Char.toLower

theorem eqIgnoreAsciiCase_self (a : Str) : eqIgnoreAsciiCase a a = true := by
  simp [eqIgnoreAsciiCase]

theorem length_of_eqIgnoreAsciiCase {a b : Str} (h : eqIgnoreAsciiCase a b = true) :
    a.length = b.length := by
  have := congrArg List.length (beq_iff_eq.mp h)
  simpa using this

/-- Folding an ASCII letter keeps its size. -/
theorem utf8Size_toLower (c : Char) : c.toLower.utf8Size = c.utf8Size := by
  unfold Char.toLower
  split
  · rename_i h
    have h90 : c.toNat ≤ 90 := h.2
    have hupper : c.val ≤ 127 := Nat.le_trans h90 (by decide)
    have hlower : c.val + 32 ≤ 127 := by
      rw [UInt32.le_iff_toNat_le, UInt32.toNat_add]
      have : c.val.toNat = c.toNat := rfl
      have : UInt32.toNat 127 = 127 := rfl
      have : UInt32.toNat 32 = 32 := rfl
      omega
    rw [Char.utf8Size_eq_one_iff.mpr hupper]
    exact Char.utf8Size_eq_one_iff.mpr hlower
  · rfl

theorem length_bytes_of_eqIgnoreAsciiCase {a b : Str} (h : eqIgnoreAsciiCase a b = true) :
    a.bytes.length = b.bytes.length := by
  have hlower : ∀ s : Str, (bytes (s.map Char.toLower)).length = s.bytes.length := by
    intro s
    induction s with
    | nil => rfl
    | cons c s ih => simp [ih, utf8Size_toLower]
  rw [← hlower a, ← hlower b, beq_iff_eq.mp h]

def stripPrefix (p s : Str) : Option Str := p.isPrefixOf? s

@[simp] theorem stripPrefix_eq_some {p s rest : Str} :
    stripPrefix p s = some rest ↔ s = p ++ rest := by
  unfold stripPrefix
  induction p generalizing s with
  | nil => simp [List.isPrefixOf?, eq_comm]
  | cons a p ih =>
      cases s with
      | nil => simp [List.isPrefixOf?]
      | cons b s =>
          simp only [List.isPrefixOf?, beq_iff_eq, List.cons_append, List.cons.injEq]
          by_cases h : a = b
          · simp [h, ih]
          · simp [h, Ne.symm h]

theorem stripPrefix_append (p rest : Str) : stripPrefix p (p ++ rest) = some rest := by simp

/-- The text of a value that may be absent. -/
def whenSome {α : Type} (o : Option α) (f : α → Str) : Str := o.elim [] f

@[simp] theorem whenSome_none {α : Type} (f : α → Str) : whenSome none f = [] := rfl

@[simp] theorem whenSome_some {α : Type} (a : α) (f : α → Str) : whenSome (some a) f = f a := rfl

end Str
end Foundation
