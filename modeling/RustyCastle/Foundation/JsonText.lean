import RustyCastle.Foundation.Hexadecimal

/-!
Strings and numbers of JSON texts. A character of a string stands for itself, or
is written with an escape: a short one, or one or two UTF-16 units in
hexadecimal. A number is a decimal literal, kept exactly.
-/

namespace Foundation.Json

/-! Characters of strings -/

def isPlain (c : Char) : Bool := 32 ≤ c.toNat && c != '"' && c != '\\'

/-- The character of a short escape. -/
def shortEscape : Char → Option Char
  | '"' => some '"'
  | '\\' => some '\\'
  | '/' => some '/'
  | 'b' => some (Char.ofNat 8)
  | 'f' => some (Char.ofNat 12)
  | 'n' => some '\n'
  | 'r' => some '\r'
  | 't' => some '\t'
  | _ => none

def isHexDigit (c : Char) : Bool := Hexadecimal.digits.contains c.toLower

/-- The unit that four hexadecimal digits name. -/
def unitValue (s : Str) : Nat := Hexadecimal.value (s.map Char.toLower)

/-- Four hexadecimal digits that name a unit. -/
structure UnitText (s : Str) (n : Nat) : Prop where
  length : s.length = 4
  hex : s.all isHexDigit = true
  value : unitValue s = n

/-- The units of a character: one, or a high and a low surrogate with an escape
between them. -/
inductive UnitsText : Str → Char → Prop
  | one {s : Str} {c : Char} (h : UnitText s c.toNat) : UnitsText s c
  | two {s t : Str} {c : Char} {high low : Nat} (hs : UnitText s (0xD800 + high))
      (ht : UnitText t (0xDC00 + low)) (hhigh : high < 0x400) (hlow : low < 0x400)
      (hc : c.toNat = 0x10000 + high * 0x400 + low) :
      UnitsText (s ++ '\\' :: 'u' :: t) c

/-- The texts of a character inside a string. -/
inductive CharText : Str → Char → Prop
  | plain {c : Char} (h : isPlain c = true) : CharText [c] c
  | short {e c : Char} (h : shortEscape e = some c) : CharText ['\\', e] c
  | units {s : Str} {c : Char} (h : UnitsText s c) : CharText ('\\' :: 'u' :: s) c

def charOfNat (n : Nat) : Option Char := if n.isValidChar then some (Char.ofNat n) else none

def readUnit : Str → Option (Nat × Str)
  | a :: b :: c :: d :: rest =>
      if [a, b, c, d].all isHexDigit then some (unitValue [a, b, c, d], rest) else none
  | _ => none

/-- The character of a high surrogate and the escaped unit behind it. -/
def readLow (high : Nat) : Str → Option (Char × Str)
  | '\\' :: 'u' :: t => do
      let (m, rest) ← readUnit t
      if 0xDC00 ≤ m ∧ m < 0xE000 then
        (charOfNat (0x10000 + high * 0x400 + (m - 0xDC00))).map fun c => (c, rest)
      else none
  | _ => none

def readUnits (s : Str) : Option (Char × Str) := do
  let (n, rest) ← readUnit s
  if 0xD800 ≤ n ∧ n < 0xDC00 then readLow (n - 0xD800) rest
  else (charOfNat n).map fun c => (c, rest)

def readChar : Str → Option (Char × Str)
  | '\\' :: 'u' :: s => readUnits s
  | '\\' :: e :: s => (shortEscape e).map fun c => (c, s)
  | c :: s => if isPlain c then some (c, s) else none
  | [] => none

theorem charOfNat_eq_some {n : Nat} {c : Char} : charOfNat n = some c ↔ c.toNat = n := by
  unfold charOfNat
  split
  · rename_i h
    rw [Option.some.injEq]
    constructor
    · rintro rfl
      rw [Char.ofNat, dif_pos h]
      rfl
    · rintro rfl
      exact Char.ofNat_toNat c
  · rename_i h
    refine iff_of_false (fun he => by cases he) fun he => h ?_
    rw [← he]
    exact c.valid

theorem readUnit_sound {s rest : Str} {n : Nat} (h : readUnit s = some (n, rest)) :
    ∃ t, s = t ++ rest ∧ UnitText t n := by
  match s with
  | a :: b :: c :: d :: tail =>
      rw [readUnit] at h
      split at h
      · rename_i hhex
        cases h
        exact ⟨[a, b, c, d], rfl, rfl, hhex, rfl⟩
      · cases h
  | [] | [_] | [_, _] | [_, _, _] => cases h

theorem readUnit_append {t : Str} {n : Nat} (h : UnitText t n) (rest : Str) :
    readUnit (t ++ rest) = some (n, rest) := by
  obtain ⟨hlen, hhex, rfl⟩ := h
  match t with
  | [a, b, c, d] => exact if_pos hhex

theorem not_surrogate (c : Char) : ¬ (0xD800 ≤ c.toNat ∧ c.toNat < 0xE000) := by
  have hvalid := c.valid
  simp only [UInt32.isValidChar, Nat.isValidChar] at hvalid
  simp only [Char.toNat]
  omega

theorem readLow_sound {s rest : Str} {c : Char} {high : Nat}
    (h : readLow high s = some (c, rest)) :
    ∃ t low, s = '\\' :: 'u' :: (t ++ rest) ∧ UnitText t (0xDC00 + low) ∧ low < 0x400 ∧
      c.toNat = 0x10000 + high * 0x400 + low := by
  unfold readLow at h
  split at h
  · obtain ⟨⟨m, tail⟩, hunit, htail⟩ := Option.bind_eq_some_iff.mp h
    obtain ⟨t, rfl, ht⟩ := readUnit_sound hunit
    dsimp only at htail
    split at htail
    · rename_i hm
      obtain ⟨d, hd, he⟩ := Option.map_eq_some_iff.mp htail
      cases he
      refine ⟨t, m - 0xDC00, rfl, ?_, by omega, charOfNat_eq_some.mp hd⟩
      rwa [Nat.add_sub_cancel' hm.1]
    · cases htail
  · cases h

theorem readUnits_sound {s rest : Str} {c : Char} (h : readUnits s = some (c, rest)) :
    ∃ t, s = t ++ rest ∧ UnitsText t c := by
  obtain ⟨⟨n, tail⟩, hunit, htail⟩ := Option.bind_eq_some_iff.mp h
  obtain ⟨t, rfl, ht⟩ := readUnit_sound hunit
  dsimp only at htail
  split at htail
  · rename_i hn
    obtain ⟨u, low, rfl, hu, hlow, hc⟩ := readLow_sound htail
    have hs : UnitText t (0xD800 + (n - 0xD800)) := by rwa [Nat.add_sub_cancel' hn.1]
    exact ⟨t ++ '\\' :: 'u' :: u, by simp, .two hs hu (by omega) hlow hc⟩
  · obtain ⟨d, hd, he⟩ := Option.map_eq_some_iff.mp htail
    cases he
    rw [charOfNat_eq_some] at hd
    exact ⟨t, rfl, .one (hd ▸ ht)⟩

theorem readLow_append {t : Str} {c : Char} {high low : Nat} (ht : UnitText t (0xDC00 + low))
    (hlow : low < 0x400) (hc : c.toNat = 0x10000 + high * 0x400 + low) (rest : Str) :
    readLow high ('\\' :: 'u' :: (t ++ rest)) = some (c, rest) := by
  have hm : 0xDC00 ≤ 0xDC00 + low ∧ 0xDC00 + low < 0xE000 := by omega
  rw [readLow, readUnit_append ht rest, Option.bind_eq_bind, Option.bind_some]
  dsimp only
  rw [if_pos hm, Nat.add_sub_cancel_left, charOfNat_eq_some.mpr hc]
  rfl

theorem readUnits_append {t : Str} {c : Char} (h : UnitsText t c) (rest : Str) :
    readUnits (t ++ rest) = some (c, rest) := by
  cases h with
  | one h =>
      have hno : ¬ (0xD800 ≤ c.toNat ∧ c.toNat < 0xDC00) := fun hn =>
        not_surrogate c ⟨hn.1, by omega⟩
      rw [readUnits, readUnit_append h rest, Option.bind_eq_bind, Option.bind_some]
      dsimp only
      rw [if_neg hno, charOfNat_eq_some.mpr rfl]
      rfl
  | @two s u _ high low hs hu hhigh hlow hc =>
      have hn : 0xD800 ≤ 0xD800 + high ∧ 0xD800 + high < 0xDC00 := by omega
      rw [List.append_assoc, readUnits, readUnit_append hs _, Option.bind_eq_bind,
        Option.bind_some]
      dsimp only
      rw [if_pos hn, Nat.add_sub_cancel_left]
      exact readLow_append hu hlow hc rest

theorem readChar_sound {s rest : Str} {c : Char} (h : readChar s = some (c, rest)) :
    ∃ t, s = t ++ rest ∧ CharText t c := by
  unfold readChar at h
  split at h
  · obtain ⟨t, rfl, ht⟩ := readUnits_sound h
    exact ⟨'\\' :: 'u' :: t, rfl, .units ht⟩
  · rename_i e s _
    obtain ⟨d, hd, he⟩ := Option.map_eq_some_iff.mp h
    cases he
    exact ⟨['\\', e], rfl, .short hd⟩
  · split at h
    · rename_i hplain
      cases h
      exact ⟨[c], rfl, .plain hplain⟩
    · cases h
  · cases h

theorem readChar_append {t : Str} {c : Char} (h : CharText t c) (rest : Str) :
    readChar (t ++ rest) = some (c, rest) := by
  cases h with
  | plain h =>
      have hne : c ≠ '\\' := by
        rintro rfl
        exact absurd h (by decide)
      rw [List.singleton_append, readChar]
      · exact if_pos h
      · exact fun s hs => absurd hs hne
      · exact fun e s hs => absurd hs hne
  | @short e c h =>
      have hne : e ≠ 'u' := by
        rintro rfl
        cases h
      have hcons : ['\\', e] ++ rest = '\\' :: e :: rest := rfl
      rw [hcons, readChar, h]
      · rfl
      · exact fun he => absurd he hne
  | @units s c h => exact readUnits_append h rest

/-! Strings -/

/-- The texts of a string, between its quotation marks. -/
inductive StringText : Str → Str → Prop
  | nil : StringText [] []
  | cons {t u s : Str} {c : Char} (h : CharText t c) (hs : StringText u s) :
      StringText (t ++ u) (c :: s)

/-- Reads up to the closing quotation mark. Every character takes one unit of fuel. -/
def readString : Nat → Str → Option (Str × Str)
  | 0, _ => none
  | _ + 1, '"' :: rest => some ([], rest)
  | fuel + 1, s => do
      let (c, rest) ← readChar s
      let (cs, rest) ← readString fuel rest
      some (c :: cs, rest)

theorem CharText.exists_cons {t : Str} {c : Char} (h : CharText t c) :
    ∃ d u, t = d :: u ∧ d ≠ '"' := by
  cases h with
  | @plain c h =>
      refine ⟨c, [], rfl, ?_⟩
      rintro rfl
      exact absurd h (by decide)
  | short h => exact ⟨_, _, rfl, by decide⟩
  | units h => exact ⟨_, _, rfl, by decide⟩

theorem readString_sound {fuel : Nat} {s cs rest : Str}
    (h : readString fuel s = some (cs, rest)) :
    ∃ t, s = t ++ '"' :: rest ∧ StringText t cs := by
  induction fuel generalizing s cs with
  | zero => cases h
  | succ fuel ih =>
      unfold readString at h
      split at h
      · cases h
      · cases h
        exact ⟨[], rfl, .nil⟩
      · rename_i hfuel _
        cases hfuel
        obtain ⟨⟨c, tail⟩, hchar, htail⟩ := Option.bind_eq_some_iff.mp h
        obtain ⟨t, rfl, ht⟩ := readChar_sound hchar
        obtain ⟨⟨cs', rest'⟩, hstring, he⟩ := Option.bind_eq_some_iff.mp htail
        cases he
        obtain ⟨u, rfl, hu⟩ := ih hstring
        exact ⟨t ++ u, by simp, .cons ht hu⟩

theorem readString_append {t s : Str} (h : StringText t s) (rest : Str) {fuel : Nat}
    (hfuel : t.length < fuel) : readString fuel (t ++ '"' :: rest) = some (s, rest) := by
  induction h generalizing fuel with
  | nil =>
      obtain ⟨k, rfl⟩ := Nat.exists_eq_add_one_of_ne_zero (Nat.pos_iff_ne_zero.mp hfuel)
      rfl
  | @cons t u s c h hs ih =>
      obtain ⟨k, rfl⟩ := Nat.exists_eq_add_one_of_ne_zero (Nat.ne_zero_of_lt hfuel)
      obtain ⟨d, t', rfl, hd⟩ := h.exists_cons
      have hrest := @ih k (by
        simp only [List.length_append, List.length_cons] at hfuel
        omega)
      have hchar := readChar_append h (u ++ '"' :: rest)
      rw [List.append_assoc, readString]
      · rw [hchar, Option.bind_eq_bind, Option.bind_some]
        dsimp only
        rw [hrest]
        rfl
      · intro rest' he
        exact hd (List.cons.inj he).1

/-! Numbers -/

/-- The number plus or minus `mantissa` times ten to the `exponent`. -/
structure Number where
  negative : Bool
  mantissa : Nat
  exponent : Int
  deriving DecidableEq, Repr

def digitsValue (ds : Str) : Nat := Nat.ofDigitChars 10 ds 0

/-- The digits behind a decimal point, and what follows them. -/
def fraction : Str → Option (Str × Str)
  | '.' :: s =>
      if s.takeWhile Char.isDigit = [] then none
      else some (s.takeWhile Char.isDigit, s.dropWhile Char.isDigit)
  | s => some ([], s)

def exponentDigits (ds : Str) : Option Int :=
  if ds ≠ [] ∧ ds.all Char.isDigit then some (digitsValue ds) else none

def exponentValue : Str → Option Int
  | [] => some 0
  | e :: s =>
      if e = 'e' ∨ e = 'E' then
        match s with
        | '+' :: ds => exponentDigits ds
        | '-' :: ds => (exponentDigits ds).map fun n => -n
        | ds => exponentDigits ds
      else none

/-- The number without its sign: an integer without leading zeros, a fraction and
an exponent. -/
def unsignedValue (s : Str) : Option Number :=
  let int := s.takeWhile Char.isDigit
  if int = [] ∨ (int.head? = some '0' ∧ int ≠ ['0']) then none
  else do
    let (frac, rest) ← fraction (s.dropWhile Char.isDigit)
    let exponent ← exponentValue rest
    some ⟨false, digitsValue (int ++ frac), exponent - frac.length⟩

/-- The number of a literal. -/
def numberValue : Str → Option Number
  | '-' :: s => (unsignedValue s).map fun n => { n with negative := true }
  | s => unsignedValue s

/-- The characters of literals: numbers and the three names. -/
def isWordChar (c : Char) : Bool := c.isAlphanum || c == '+' || c == '-' || c == '.'

theorem isWordChar_of_isDigit {c : Char} (h : c.isDigit = true) : isWordChar c = true := by
  simp [isWordChar, Char.isAlphanum, h]

theorem exponentDigits_word {ds : Str} {e : Int} (h : exponentDigits ds = some e) :
    ds.all isWordChar = true := by
  rw [exponentDigits] at h
  split at h
  · rename_i hds
    rw [List.all_eq_true] at hds ⊢
    exact fun c hc => isWordChar_of_isDigit (hds.2 c hc)
  · cases h

theorem exponentValue_word {s : Str} {e : Int} (h : exponentValue s = some e) :
    s.all isWordChar = true := by
  unfold exponentValue at h
  split at h
  · rfl
  · rename_i c s
    split at h
    · rename_i hc
      have hword : isWordChar c = true := by rcases hc with rfl | rfl <;> decide
      have hplus : isWordChar '+' = true := by decide
      have hminus : isWordChar '-' = true := by decide
      rw [List.all_cons, hword, Bool.true_and]
      split at h
      · rw [List.all_cons, hplus, Bool.true_and]
        exact exponentDigits_word h
      · obtain ⟨n, hn, -⟩ := Option.map_eq_some_iff.mp h
        rw [List.all_cons, hminus, Bool.true_and]
        exact exponentDigits_word hn
      · exact exponentDigits_word h
    · cases h

theorem takeWhile_isDigit_word (s : Str) : (s.takeWhile Char.isDigit).all isWordChar = true :=
  List.all_eq_true.mpr fun _ hc => isWordChar_of_isDigit (List.mem_takeWhile_imp hc)

theorem fraction_word {s f rest : Str} (h : fraction s = some (f, rest))
    (hrest : rest.all isWordChar = true) : s.all isWordChar = true := by
  have hpoint : isWordChar '.' = true := by decide
  unfold fraction at h
  split at h
  · rename_i s
    split at h
    · cases h
    · cases h
      rw [List.all_cons, hpoint, Bool.true_and, ← List.takeWhile_append_dropWhile (p := Char.isDigit) (l := s),
        List.all_append, takeWhile_isDigit_word, hrest]
      rfl
  · cases h
    exact hrest

theorem unsignedValue_word {s : Str} {n : Number} (h : unsignedValue s = some n) :
    s ≠ [] ∧ s.all isWordChar = true := by
  unfold unsignedValue at h
  dsimp only at h
  split at h
  · cases h
  · rename_i hint
    obtain ⟨⟨f, rest⟩, hf, htail⟩ := Option.bind_eq_some_iff.mp h
    obtain ⟨e, he, -⟩ := Option.bind_eq_some_iff.mp htail
    refine ⟨?_, ?_⟩
    · rintro rfl
      exact hint (.inl rfl)
    · rw [← List.takeWhile_append_dropWhile (p := Char.isDigit) (l := s), List.all_append,
        takeWhile_isDigit_word, fraction_word hf (exponentValue_word he)]
      rfl

/-- The text of a number is one word. -/
theorem numberValue_word {s : Str} {n : Number} (h : numberValue s = some n) :
    s ≠ [] ∧ s.all isWordChar = true := by
  have hminus : isWordChar '-' = true := by decide
  unfold numberValue at h
  split at h
  · obtain ⟨m, hm, -⟩ := Option.map_eq_some_iff.mp h
    rw [List.all_cons, hminus, Bool.true_and]
    exact ⟨List.cons_ne_nil _ _, (unsignedValue_word hm).2⟩
  · exact unsignedValue_word h

/-- A numeral is the literal of its number. -/
theorem numberValue_numeral (n : Nat) :
    numberValue (Decimal.numeral n) = some ⟨false, n, 0⟩ := by
  have hdigit : ∀ c ∈ Decimal.numeral n, c.isDigit = true := fun _ => Decimal.numeral_isDigit
  have hne : Decimal.numeral n ≠ [] := Nat.toDigits_ne_nil
  have htake : (Decimal.numeral n).takeWhile Char.isDigit = Decimal.numeral n :=
    List.takeWhile_eq_self_iff.mpr hdigit
  have hdrop : (Decimal.numeral n).dropWhile Char.isDigit = [] :=
    List.dropWhile_eq_nil_iff.mpr hdigit
  have hvalue : digitsValue (Decimal.numeral n) = n :=
    Nat.ofDigitChars_toDigits (by decide) (by decide)
  have hint : ¬ (Decimal.numeral n = [] ∨
      ((Decimal.numeral n).head? = some '0' ∧ Decimal.numeral n ≠ ['0'])) := by
    rintro (h | ⟨hhead, hzero⟩)
    · exact hne h
    · rw [Decimal.head_numeral hhead] at hzero
      exact hzero rfl
  have hunsigned : unsignedValue (Decimal.numeral n) = some ⟨false, n, 0⟩ := by
    unfold unsignedValue
    dsimp only
    rw [htake, hdrop, if_neg hint]
    simp [fraction, exponentValue, hvalue]
  unfold numberValue
  split
  · rename_i s hs
    have hminus := hdigit '-' (hs ▸ List.mem_cons_self ..)
    exact absurd hminus (by decide)
  · exact hunsigned

end Foundation.Json
