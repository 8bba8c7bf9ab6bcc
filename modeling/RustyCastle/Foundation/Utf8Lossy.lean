import Mathlib.Data.List.Forall2
import RustyCastle.Foundation.Text

/-!
Lossy reading of bytes as UTF-8. The longest start of a sequence that the next
byte does not continue is written as one replacement character, and that byte
is read again as a leading byte.
-/

namespace Foundation.Utf8

/-- U+FFFD. -/
def replacement : List UInt8 := [0xEF, 0xBF, 0xBD]

/-- The ranges of the bytes that have to follow a leading byte. The first range is
narrower where a sequence would be overlong, a surrogate or past U+10FFFF. -/
def following (b : UInt8) : Option (List (Nat × Nat)) :=
  let n := b.toNat
  if n < 0x80 then some []
  else if n < 0xC2 then none
  else if n < 0xE0 then some [(0x80, 0xBF)]
  else if n = 0xE0 then some [(0xA0, 0xBF), (0x80, 0xBF)]
  else if n = 0xED then some [(0x80, 0x9F), (0x80, 0xBF)]
  else if n < 0xF0 then some [(0x80, 0xBF), (0x80, 0xBF)]
  else if n = 0xF0 then some [(0x90, 0xBF), (0x80, 0xBF), (0x80, 0xBF)]
  else if n < 0xF4 then some [(0x80, 0xBF), (0x80, 0xBF), (0x80, 0xBF)]
  else if n = 0xF4 then some [(0x80, 0x8F), (0x80, 0xBF), (0x80, 0xBF)]
  else none

/-- The start of a sequence, and the ranges of the bytes it still needs. -/
structure Pending where
  held : List UInt8
  needs : List (Nat × Nat)

def Pending.empty : Pending := { held := [], needs := [] }

def lead (b : UInt8) : List UInt8 × Pending :=
  match following b with
  | none => (replacement, .empty)
  | some [] => ([b], .empty)
  | some (range :: needs) => ([], { held := [b], needs := range :: needs })

/-- What is written at a byte, and what is pending after it. -/
def Pending.step (p : Pending) (b : UInt8) : List UInt8 × Pending :=
  match p.needs with
  | [] => lead b
  | (low, high) :: needs =>
      if low ≤ b.toNat ∧ b.toNat ≤ high then
        if needs.isEmpty then (p.held ++ [b], .empty)
        else ([], { held := p.held ++ [b], needs := needs })
      else (replacement ++ (lead b).1, (lead b).2)

def Pending.finish (p : Pending) : List UInt8 := if p.needs.isEmpty then [] else replacement

def Pending.run (p : Pending) : List UInt8 → List UInt8
  | [] => p.finish
  | b :: rest => (p.step b).1 ++ (p.step b).2.run rest

def lossy (bytes : List UInt8) : List UInt8 := Pending.empty.run bytes

/-! Bytes that are UTF-8 -/

theorem run_held {held rest : List UInt8} {b : UInt8} {low high : Nat} {needs : List (Nat × Nat)}
    (hlow : low ≤ b.toNat) (hhigh : b.toNat ≤ high) (hne : needs ≠ []) :
    Pending.run { held := held, needs := (low, high) :: needs } (b :: rest) =
      Pending.run { held := held ++ [b], needs := needs } rest := by
  simp [Pending.run, Pending.step, hlow, hhigh, hne]

theorem run_last {held rest : List UInt8} {b : UInt8} {low high : Nat}
    (hlow : low ≤ b.toNat) (hhigh : b.toNat ≤ high) :
    Pending.run { held := held, needs := [(low, high)] } (b :: rest) =
      held ++ b :: lossy rest := by
  simp [Pending.run, Pending.step, hlow, hhigh, lossy]

theorem lossy_lead {rest : List UInt8} {b : UInt8} {range : Nat × Nat} {needs : List (Nat × Nat)}
    (h : following b = some (range :: needs)) :
    lossy (b :: rest) = Pending.run { held := [b], needs := range :: needs } rest := by
  simp [lossy, Pending.run, Pending.step, Pending.empty, lead, h]

theorem lossy_ascii {rest : List UInt8} {b : UInt8} (h : b.toNat < 0x80) :
    lossy (b :: rest) = b :: lossy rest := by
  have hf : following b = some [] := by simp [following, h]
  simp [lossy, Pending.run, Pending.step, Pending.empty, lead, hf]

theorem lossy_two {a b : UInt8} (rest : List UInt8) (ha : 0xC2 ≤ a.toNat ∧ a.toNat < 0xE0)
    (hb : 0x80 ≤ b.toNat ∧ b.toNat ≤ 0xBF) : lossy (a :: b :: rest) = a :: b :: lossy rest := by
  have hf : following a = some [(0x80, 0xBF)] := by
    have h1 : ¬ a.toNat < 0x80 := by omega
    have h2 : ¬ a.toNat < 0xC2 := by omega
    simp [following, h1, h2, ha.2]
  rw [lossy_lead hf, run_last hb.1 hb.2]
  rfl

theorem lossy_three {a b c : UInt8} (rest : List UInt8) {low high : Nat}
    (hf : following a = some [(low, high), (0x80, 0xBF)])
    (hb : low ≤ b.toNat ∧ b.toNat ≤ high) (hc : 0x80 ≤ c.toNat ∧ c.toNat ≤ 0xBF) :
    lossy (a :: b :: c :: rest) = a :: b :: c :: lossy rest := by
  rw [lossy_lead hf, run_held hb.1 hb.2 (by simp), run_last hc.1 hc.2]
  rfl

theorem lossy_four {a b c d : UInt8} (rest : List UInt8) {low high : Nat}
    (hf : following a = some [(low, high), (0x80, 0xBF), (0x80, 0xBF)])
    (hb : low ≤ b.toNat ∧ b.toNat ≤ high) (hc : 0x80 ≤ c.toNat ∧ c.toNat ≤ 0xBF)
    (hd : 0x80 ≤ d.toNat ∧ d.toNat ≤ 0xBF) :
    lossy (a :: b :: c :: d :: rest) = a :: b :: c :: d :: lossy rest := by
  rw [lossy_lead hf, run_held hb.1 hb.2 (by simp), run_held hc.1 hc.2 (by simp),
    run_last hd.1 hd.2]
  rfl

theorem toNat_ofNat {n : Nat} (h : n < 256) : (UInt8.ofNat n).toNat = n := by
  simp [Nat.mod_eq_of_lt h]

theorem lossy_encode (c : Char) (rest : List UInt8) :
    lossy (String.utf8EncodeChar c ++ rest) = String.utf8EncodeChar c ++ lossy rest := by
  have hvalid : c.val.toNat < 0xD800 ∨ 0xDFFF < c.val.toNat ∧ c.val.toNat < 0x110000 := c.valid
  generalize hv : c.val.toNat = v at hvalid
  simp only [String.utf8EncodeChar, hv]
  split
  · exact lossy_ascii (by rw [toNat_ofNat (by omega)]; omega)
  · split
    · refine lossy_two rest ⟨?_, ?_⟩ ⟨?_, ?_⟩ <;> rw [toNat_ofNat (by omega)] <;> omega
    · have hc : 0x80 ≤ (UInt8.ofNat (v % 0x40 + 0x80)).toNat ∧
          (UInt8.ofNat (v % 0x40 + 0x80)).toNat ≤ 0xBF := by
        rw [toNat_ofNat (by omega)]
        omega
      split
      · -- the leading byte fixes the range of the second
        have ha : (UInt8.ofNat (v / 4096 % 0x10 + 0xe0)).toNat = v / 4096 + 0xe0 := by
          rw [toNat_ofNat (by omega)]
          omega
        have hb : (UInt8.ofNat (v / 64 % 0x40 + 0x80)).toNat = v / 64 % 0x40 + 0x80 :=
          toNat_ofNat (by omega)
        by_cases h0 : v / 4096 = 0
        · have hf : following (UInt8.ofNat (v / 4096 % 0x10 + 0xe0)) =
              some [(0xA0, 0xBF), (0x80, 0xBF)] := by simp [following, h0]
          exact lossy_three rest hf (by omega) hc
        · by_cases hd : v / 4096 = 13
          · have hf : following (UInt8.ofNat (v / 4096 % 0x10 + 0xe0)) =
                some [(0x80, 0x9F), (0x80, 0xBF)] := by simp [following, hd]
            exact lossy_three rest hf (by omega) hc
          · have hf : following (UInt8.ofNat (v / 4096 % 0x10 + 0xe0)) =
                some [(0x80, 0xBF), (0x80, 0xBF)] := by
              simp only [following, ha]
              rw [if_neg (by omega), if_neg (by omega), if_neg (by omega), if_neg (by omega),
                if_neg (by omega), if_pos (by omega)]
            exact lossy_three rest hf (by omega) hc
      · have ha : (UInt8.ofNat (v / 262144 % 0x08 + 0xf0)).toNat = v / 262144 + 0xf0 := by
          rw [toNat_ofNat (by omega)]
          omega
        have hb : (UInt8.ofNat (v / 4096 % 0x40 + 0x80)).toNat = v / 4096 % 0x40 + 0x80 :=
          toNat_ofNat (by omega)
        have hm : 0x80 ≤ (UInt8.ofNat (v / 64 % 0x40 + 0x80)).toNat ∧
            (UInt8.ofNat (v / 64 % 0x40 + 0x80)).toNat ≤ 0xBF := by
          rw [toNat_ofNat (by omega)]
          omega
        by_cases h0 : v / 262144 = 0
        · have hf : following (UInt8.ofNat (v / 262144 % 0x08 + 0xf0)) =
              some [(0x90, 0xBF), (0x80, 0xBF), (0x80, 0xBF)] := by simp [following, h0]
          exact lossy_four rest hf (by omega) hm hc
        · by_cases h4 : v / 262144 = 4
          · have hf : following (UInt8.ofNat (v / 262144 % 0x08 + 0xf0)) =
                some [(0x80, 0x8F), (0x80, 0xBF), (0x80, 0xBF)] := by simp [following, h4]
            exact lossy_four rest hf (by omega) hm hc
          · have hf : following (UInt8.ofNat (v / 262144 % 0x08 + 0xf0)) =
                some [(0x80, 0xBF), (0x80, 0xBF), (0x80, 0xBF)] := by
              simp only [following, ha]
              rw [if_neg (by omega), if_neg (by omega), if_neg (by omega), if_neg (by omega),
                if_neg (by omega), if_neg (by omega), if_neg (by omega), if_pos (by omega)]
            exact lossy_four rest hf (by omega) hm hc

/-- UTF-8 is read as it is. -/
theorem lossy_bytes (s : Str) : lossy (Str.bytes s) = Str.bytes s := by
  induction s with
  | nil => rfl
  | cons c s ih => rw [Str.bytes_cons, lossy_encode, ih]

theorem lossy_of_fromUtf8 {bytes : List UInt8} {s : Str} (h : Str.fromUtf8 bytes = some s) :
    lossy bytes = bytes := by
  rw [← Str.bytes_of_fromUtf8 h, lossy_bytes]

/-! Bytes that are not -/

theorem mem_lead {b d : UInt8} (h : d ∈ (lead b).1 ∨ d ∈ (lead b).2.held) :
    d = b ∨ d ∈ replacement := by
  unfold lead at h
  split at h <;> simp_all [Pending.empty]

/-- The step writes and holds bytes it held, the byte it reads and the replacement character. -/
theorem mem_step {p : Pending} {b d : UInt8} (h : d ∈ (p.step b).1 ∨ d ∈ (p.step b).2.held) :
    d ∈ p.held ∨ d = b ∨ d ∈ replacement := by
  unfold Pending.step at h
  split at h
  · exact .inr (mem_lead h)
  · split at h
    · have hp : d ∈ p.held ∨ d = b := by split at h <;> simpa [Pending.empty] using h
      exact hp.imp_right .inl
    · rcases h with h | h
      · rcases List.mem_append.mp h with h | h
        · exact .inr (.inr h)
        · exact .inr (mem_lead (.inl h))
      · exact .inr (mem_lead (.inr h))

theorem mem_run {bytes : List UInt8} {p : Pending} {d : UInt8} (h : d ∈ p.run bytes) :
    d ∈ p.held ∨ d ∈ bytes ∨ d ∈ replacement := by
  induction bytes generalizing p with
  | nil =>
      simp only [Pending.run, Pending.finish] at h
      split at h
      · cases h
      · exact .inr (.inr h)
  | cons b rest ih =>
      have hstep : d ∈ (p.step b).1 ∨ d ∈ (p.step b).2.held → _ := mem_step
      simp only [Pending.run, List.mem_append] at h
      rw [List.mem_cons]
      rcases h with h | h
      · rcases hstep (.inl h) with h | h | h <;> simp [h]
      · rcases ih h with h | h | h
        · rcases hstep (.inr h) with h | h | h <;> simp [h]
        · simp [h]
        · simp [h]

theorem mem_lossy {bytes : List UInt8} {d : UInt8} (h : d ∈ lossy bytes) :
    d ∈ bytes ∨ d ∈ replacement := (mem_run h).resolve_left (by simp [Pending.empty])

/-! What is written is text -/

/-- The code point `n` has the encoding `l`. -/
theorem exists_char {n : Nat} {l : List UInt8} (h : n.isValidChar)
    (he : ∀ c : Char, c.val.toNat = n → String.utf8EncodeChar c = l) :
    ∃ c, String.utf8EncodeChar c = l :=
  ⟨.ofNatAux n h, he _ rfl⟩

theorem ofNat_eq {n : Nat} {b : UInt8} (h : n = b.toNat) : UInt8.ofNat n = b := by
  rw [h, UInt8.ofNat_toNat]

theorem exists_char_one {a : UInt8} (ha : a.toNat < 0x80) :
    ∃ c, String.utf8EncodeChar c = [a] := by
  refine exists_char (n := a.toNat) (.inl (by omega)) fun c hc => ?_
  simp only [String.utf8EncodeChar, hc]
  rw [if_pos (by omega), UInt8.ofNat_toNat]

theorem exists_char_two {a b : UInt8} (ha : 0xC2 ≤ a.toNat ∧ a.toNat < 0xE0)
    (hb : 0x80 ≤ b.toNat ∧ b.toNat ≤ 0xBF) : ∃ c, String.utf8EncodeChar c = [a, b] := by
  refine exists_char (n := (a.toNat - 0xC0) * 64 + (b.toNat - 0x80)) (.inl (by omega))
    fun c hc => ?_
  simp only [String.utf8EncodeChar, hc]
  rw [if_neg (by omega), if_pos (by omega), ofNat_eq (b := a) (by omega),
    ofNat_eq (b := b) (by omega)]

theorem exists_char_three {a b c : UInt8} (ha : 0xE0 ≤ a.toNat ∧ a.toNat < 0xF0)
    (hb : 0x80 ≤ b.toNat ∧ b.toNat ≤ 0xBF) (hc : 0x80 ≤ c.toNat ∧ c.toNat ≤ 0xBF)
    (hlong : a.toNat = 0xE0 → 0xA0 ≤ b.toNat) (hsurrogate : a.toNat = 0xED → b.toNat ≤ 0x9F) :
    ∃ d, String.utf8EncodeChar d = [a, b, c] := by
  refine exists_char
    (n := (a.toNat - 0xE0) * 4096 + (b.toNat - 0x80) * 64 + (c.toNat - 0x80)) ?_ fun d hd => ?_
  · simp only [Nat.isValidChar]
    omega
  · simp only [String.utf8EncodeChar, hd]
    rw [if_neg (by omega), if_neg (by omega), if_pos (by omega), ofNat_eq (b := a) (by omega),
      ofNat_eq (b := b) (by omega), ofNat_eq (b := c) (by omega)]

theorem exists_char_four {a b c d : UInt8} (ha : 0xF0 ≤ a.toNat ∧ a.toNat ≤ 0xF4)
    (hb : 0x80 ≤ b.toNat ∧ b.toNat ≤ 0xBF) (hc : 0x80 ≤ c.toNat ∧ c.toNat ≤ 0xBF)
    (hd : 0x80 ≤ d.toNat ∧ d.toNat ≤ 0xBF) (hlong : a.toNat = 0xF0 → 0x90 ≤ b.toNat)
    (hlast : a.toNat = 0xF4 → b.toNat ≤ 0x8F) :
    ∃ e, String.utf8EncodeChar e = [a, b, c, d] := by
  refine exists_char (n := (a.toNat - 0xF0) * 262144 + (b.toNat - 0x80) * 4096 +
    (c.toNat - 0x80) * 64 + (d.toNat - 0x80)) (.inr ?_) fun e he => ?_
  · omega
  · simp only [String.utf8EncodeChar, he]
    rw [if_neg (by omega), if_neg (by omega), if_neg (by omega), ofNat_eq (b := a) (by omega),
      ofNat_eq (b := b) (by omega), ofNat_eq (b := c) (by omega), ofNat_eq (b := d) (by omega)]

/-- Bytes in the ranges of a sequence. -/
def InRanges : List (Nat × Nat) → List UInt8 → Prop :=
  List.Forall₂ fun range b => range.1 ≤ b.toNat ∧ b.toNat ≤ range.2

/-- A leading byte and bytes in its ranges are a character. -/
theorem exists_char_of_following {a : UInt8} {ranges : List (Nat × Nat)} {tail : List UInt8}
    (h : following a = some ranges) (ht : InRanges ranges tail) :
    ∃ c, String.utf8EncodeChar c = a :: tail := by
  unfold following at h
  dsimp only at h
  unfold InRanges at ht
  split at h
  · obtain rfl := Option.some.inj h
    obtain rfl := List.forall₂_nil_left_iff.mp ht
    exact exists_char_one ‹_›
  split at h
  · cases h
  split at h
  · obtain rfl := Option.some.inj h
    obtain ⟨b, _, hb, hnil, rfl⟩ := List.forall₂_cons_left_iff.mp ht
    obtain rfl := List.forall₂_nil_left_iff.mp hnil
    exact exists_char_two (by omega) hb
  iterate 3
    split at h
    · obtain rfl := Option.some.inj h
      obtain ⟨b, _, hb, ht', rfl⟩ := List.forall₂_cons_left_iff.mp ht
      obtain ⟨c, _, hc, hnil, rfl⟩ := List.forall₂_cons_left_iff.mp ht'
      obtain rfl := List.forall₂_nil_left_iff.mp hnil
      dsimp only at hb hc
      exact exists_char_three (by omega) (by omega) hc (by omega) (by omega)
  iterate 3
    split at h
    · obtain rfl := Option.some.inj h
      obtain ⟨b, _, hb, ht', rfl⟩ := List.forall₂_cons_left_iff.mp ht
      obtain ⟨c, _, hc, ht'', rfl⟩ := List.forall₂_cons_left_iff.mp ht'
      obtain ⟨d, _, hd, hnil, rfl⟩ := List.forall₂_cons_left_iff.mp ht''
      obtain rfl := List.forall₂_nil_left_iff.mp hnil
      dsimp only at hb hc hd
      exact exists_char_four (by omega) (by omega) hc hd (by omega) (by omega)
  · cases h

def IsText (l : List UInt8) : Prop := ∃ s, Str.bytes s = l

theorem isText_append {l l' : List UInt8} (h : IsText l) (h' : IsText l') : IsText (l ++ l') := by
  obtain ⟨s, rfl⟩ := h
  obtain ⟨s', rfl⟩ := h'
  exact ⟨s ++ s', Str.bytes_append s s'⟩

theorem isText_char {l : List UInt8} (h : ∃ c, String.utf8EncodeChar c = l) : IsText l := by
  obtain ⟨c, rfl⟩ := h
  exact ⟨[c], by simp [Str.bytes]⟩

theorem isText_replacement : IsText replacement := ⟨['\uFFFD'], by decide⟩

/-- What is held is the start of a sequence, and what it needs completes it. -/
def Pending.Starts (p : Pending) : Prop :=
  p.needs = [] ∨ ∃ a ranges tail, following a = some (ranges ++ p.needs) ∧ p.held = a :: tail ∧
    InRanges ranges tail

theorem starts_lead (b : UInt8) : IsText (lead b).1 ∧ (lead b).2.Starts := by
  unfold lead
  split
  · exact ⟨isText_replacement, .inl rfl⟩
  · rename_i h
    exact ⟨isText_char (exists_char_of_following h .nil), .inl rfl⟩
  · rename_i h
    exact ⟨⟨[], rfl⟩, .inr ⟨b, [], [], h, rfl, .nil⟩⟩

theorem starts_step {p : Pending} (h : p.Starts) (b : UInt8) :
    IsText (p.step b).1 ∧ (p.step b).2.Starts := by
  unfold Pending.step
  split
  · exact starts_lead b
  · rename_i low high needs hneeds
    obtain hnil | ⟨a, ranges, tail, hf, hheld, htail⟩ := h
    · cases hneeds.symm.trans hnil
    · rw [hneeds, List.append_cons] at hf
      split
      · rename_i hb
        have hnext : InRanges (ranges ++ [(low, high)]) (tail ++ [b]) :=
          List.rel_append htail (.cons hb .nil)
        split
        · rename_i hempty
          rw [List.isEmpty_iff.mp hempty, List.append_nil] at hf
          refine ⟨isText_char ?_, .inl rfl⟩
          rw [hheld]
          exact exists_char_of_following hf hnext
        · refine ⟨⟨[], rfl⟩, .inr ⟨a, _, _, hf, ?_, hnext⟩⟩
          rw [hheld, List.cons_append]
      · exact ⟨isText_append isText_replacement (starts_lead b).1, (starts_lead b).2⟩

theorem isText_run {p : Pending} (h : p.Starts) (bytes : List UInt8) : IsText (p.run bytes) := by
  induction bytes generalizing p with
  | nil =>
      rw [Pending.run, Pending.finish]
      split
      · exact ⟨[], rfl⟩
      · exact isText_replacement
  | cons b rest ih => exact isText_append (starts_step h b).1 (ih (starts_step h b).2)

/-- `from_utf8_lossy` as a text. -/
def lossyText (bytes : List UInt8) : Str := (Str.fromUtf8 (lossy bytes)).getD []

theorem bytes_lossyText (bytes : List UInt8) : (lossyText bytes).bytes = lossy bytes := by
  obtain ⟨s, hs⟩ := isText_run (p := .empty) (.inl rfl) bytes
  rw [lossyText, show lossy bytes = s.bytes from hs.symm, Str.fromUtf8_bytes, Option.getD_some]

/-- A text is read as it is. -/
theorem lossyText_bytes (s : Str) : lossyText s.bytes = s := by
  rw [lossyText, lossy_bytes, Str.fromUtf8_bytes, Option.getD_some]

end Foundation.Utf8
