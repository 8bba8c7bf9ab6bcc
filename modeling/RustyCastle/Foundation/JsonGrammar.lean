import Mathlib.Data.List.Forall2
import RustyCastle.Foundation.JsonText

/-!
The grammar of JSON texts and a decoder for it. A text is said to be the text of
a value nested to some depth; the decoder reads a text exactly when it is the
text of a value, and gives that value.
-/

namespace Foundation.Json

inductive Value where
  | null
  | bool (b : Bool)
  | number (n : Number)
  | string (s : Str)
  | array (elements : List Value)
  | object (members : List (Str × Value))

def isSpace (c : Char) : Bool := c == ' ' || c == '\t' || c == '\n' || c == '\r'

/-- White space around a text. -/
inductive Padded {α : Type} (P : Str → α → Prop) : Str → α → Prop
  | mk {before t after : Str} {a : α} (hbefore : ∀ c ∈ before, isSpace c = true) (h : P t a)
      (hafter : ∀ c ∈ after, isSpace c = true) : Padded P (before ++ t ++ after) a

/-- One item or more, with commas between them. -/
inductive Items {α : Type} (P : Str → α → Prop) : Str → List α → Prop
  | one {t : Str} {a : α} (h : Padded P t a) : Items P t [a]
  | cons {t u : Str} {a : α} {as : List α} (h : Padded P t a) (hs : Items P u as) :
      Items P (t ++ ',' :: u) (a :: as)

/-- What stands between brackets: white space or items. -/
inductive Group {α : Type} (P : Str → α → Prop) : Str → List α → Prop
  | none {t : Str} (h : ∀ c ∈ t, isSpace c = true) : Group P t []
  | some {t : Str} {as : List α} (h : Items P t as) : Group P t as

/-- A name in quotation marks, a colon and a value. -/
inductive Member (P : Str → Value → Prop) : Str → Str × Value → Prop
  | mk {name nameText before after t : Str} {v : Value} (hname : StringText nameText name)
      (hbefore : ∀ c ∈ before, isSpace c = true) (hafter : ∀ c ∈ after, isSpace c = true)
      (h : P t v) :
      Member P ('"' :: (nameText ++ '"' :: (before ++ ':' :: (after ++ t)))) (name, v)

/-- The value of a literal without quotation marks. -/
def scalarValue (s : Str) : Option Value :=
  if s = "null".toList then some .null
  else if s = "true".toList then some (.bool true)
  else if s = "false".toList then some (.bool false)
  else (numberValue s).map .number

/-- The texts of values whose parts have the texts `P`. -/
inductive Layer (P : Str → Value → Prop) : Str → Value → Prop
  | scalar {t : Str} {v : Value} (h : scalarValue t = some v) : Layer P t v
  | string {t s : Str} (h : StringText t s) : Layer P ('"' :: (t ++ ['"'])) (.string s)
  | array {t : Str} {vs : List Value} (h : Group P t vs) :
      Layer P ('[' :: (t ++ [']'])) (.array vs)
  | object {t : Str} {ms : List (Str × Value)} (h : Group (Member P) t ms) :
      Layer P ('{' :: (t ++ ['}'])) (.object ms)

/-- The texts of values that are nested to a depth. -/
def Text : Nat → Str → Value → Prop
  | 0 => fun _ _ => False
  | depth + 1 => Layer (Text depth)

/-- The text is the JSON text of the value. -/
def IsJson (s : Str) (v : Value) : Prop := ∃ depth, Padded (Text depth) s v

/-! The decoder -/

def skip (s : Str) : Str := s.dropWhile isSpace

section
variable {α : Type}

def readItems (item : Str → Option (α × Str)) (close : Char) : Nat → Str → Option (List α × Str)
  | 0, _ => none
  | fuel + 1, s => do
      let (a, rest) ← item s
      match skip rest with
      | [] => none
      | c :: rest =>
          if c = ',' then (readItems item close fuel rest).map fun x => (a :: x.1, x.2)
          else if c = close then some ([a], rest)
          else none

/-- What stands behind an opening bracket, up to the closing one. -/
def readGroup (item : Str → Option (α × Str)) (close : Char) (s : Str) : Option (List α × Str) :=
  match skip s with
  | [] => none
  | c :: rest => if c = close then some ([], rest) else readItems item close s.length s

end

/-- The value of a member, behind its name. -/
def readNamed (value : Str → Option (Value × Str)) (name s : Str) :
    Option ((Str × Value) × Str) :=
  match skip s with
  | ':' :: rest => (value rest).map fun x => ((name, x.1), x.2)
  | _ => none

def readMember (value : Str → Option (Value × Str)) (s : Str) : Option ((Str × Value) × Str) :=
  match skip s with
  | '"' :: rest => (readString rest.length rest).bind fun x => readNamed value x.1 x.2
  | _ => none

def readWord (s : Str) : Option (Value × Str) :=
  (scalarValue (s.takeWhile isWordChar)).map fun v => (v, s.dropWhile isWordChar)

/-- Reads a value that is nested at most as deep as the fuel. -/
def readValue : Nat → Str → Option (Value × Str)
  | 0, _ => none
  | fuel + 1, s =>
      match skip s with
      | '"' :: rest => (readString rest.length rest).map fun x => (.string x.1, x.2)
      | '[' :: rest => (readGroup (readValue fuel) ']' rest).map fun x => (.array x.1, x.2)
      | '{' :: rest =>
          (readGroup (readMember (readValue fuel)) '}' rest).map fun x => (.object x.1, x.2)
      | rest => readWord rest

def decode (s : Str) : Option Value := do
  let (v, rest) ← readValue s.length s
  if skip rest = [] then some v else none

/-! What is decoded is a text of the grammar. -/

theorem exists_skip (s : Str) : ∃ w, s = w ++ skip s ∧ ∀ c ∈ w, isSpace c = true :=
  ⟨s.takeWhile isSpace, List.takeWhile_append_dropWhile.symm, fun _ hc => List.mem_takeWhile_imp hc⟩

section Sound
variable {α : Type} {item : Str → Option (α × Str)} {P : Str → α → Prop}

/-- What an item reader takes is white space and a text of the item. -/
def Sound (item : Str → Option (α × Str)) (P : Str → α → Prop) : Prop :=
  ∀ s a rest, item s = some (a, rest) →
    ∃ before t, s = before ++ (t ++ rest) ∧ (∀ c ∈ before, isSpace c = true) ∧ P t a

theorem readItems_sound (hitem : Sound item P) {close : Char} {fuel : Nat} {s rest : Str}
    {as : List α} (h : readItems item close fuel s = some (as, rest)) :
    ∃ t, s = t ++ close :: rest ∧ Items P t as := by
  induction fuel generalizing s as with
  | zero => cases h
  | succ fuel ih =>
      obtain ⟨⟨a, tail⟩, hread, htail⟩ := Option.bind_eq_some_iff.mp h
      obtain ⟨before, t, rfl, hbefore, ht⟩ := hitem s a tail hread
      obtain ⟨after, hafter, hspace⟩ := exists_skip tail
      dsimp only at htail
      split at htail
      · cases htail
      · rename_i c tail' hskip
        rw [hskip] at hafter
        have hpadded := Padded.mk hbefore ht hspace
        split at htail
        · rename_i hc
          obtain ⟨⟨as', rest'⟩, hrest, he⟩ := Option.map_eq_some_iff.mp htail
          cases he
          obtain ⟨u, rfl, hu⟩ := ih hrest
          refine ⟨before ++ t ++ after ++ ',' :: u, ?_, .cons hpadded hu⟩
          rw [hafter, hc]
          simp
        · split at htail
          · rename_i hc
            cases htail
            refine ⟨before ++ t ++ after, ?_, .one hpadded⟩
            rw [hafter, hc]
            simp
          · cases htail

theorem readGroup_sound (hitem : Sound item P) {close : Char} {s rest : Str} {as : List α}
    (h : readGroup item close s = some (as, rest)) :
    ∃ t, s = t ++ close :: rest ∧ Group P t as := by
  obtain ⟨w, hw, hspace⟩ := exists_skip s
  unfold readGroup at h
  split at h
  · cases h
  · rename_i c tail hskip
    split at h
    · rename_i hc
      cases h
      rw [hskip, hc] at hw
      exact ⟨w, hw, .none hspace⟩
    · obtain ⟨t, ht, hitems⟩ := readItems_sound hitem h
      exact ⟨t, ht, .some hitems⟩

theorem readMember_sound {value : Str → Option (Value × Str)} {P : Str → Value → Prop}
    (hvalue : Sound value P) : Sound (readMember value) (Member P) := by
  intro s m rest h
  obtain ⟨w, hw, hspace⟩ := exists_skip s
  unfold readMember at h
  split at h
  · rename_i tail hskip
    rw [hskip] at hw
    obtain ⟨⟨name, tail'⟩, hname, htail⟩ := Option.bind_eq_some_iff.mp h
    obtain ⟨nameText, rfl, hnameText⟩ := readString_sound hname
    obtain ⟨before, hbefore, hspaceBefore⟩ := exists_skip tail'
    unfold readNamed at htail
    split at htail
    · rename_i tail'' hskip'
      rw [hskip'] at hbefore
      obtain ⟨⟨v, rest'⟩, hread, he⟩ := Option.map_eq_some_iff.mp htail
      cases he
      obtain ⟨after, t, rfl, hspaceAfter, ht⟩ := hvalue _ _ _ hread
      refine ⟨w, _, ?_, hspace, .mk hnameText hspaceBefore hspaceAfter ht⟩
      rw [hw, hbefore]
      simp
    · cases htail
  · cases h

end Sound

theorem readWord_sound {s rest : Str} {v : Value} (h : readWord s = some (v, rest)) :
    ∃ t, s = t ++ rest ∧ scalarValue t = some v := by
  obtain ⟨w, hw, he⟩ := Option.map_eq_some_iff.mp h
  cases he
  exact ⟨s.takeWhile isWordChar, List.takeWhile_append_dropWhile.symm, hw⟩

theorem readValue_sound (fuel : Nat) : Sound (readValue fuel) (Text fuel) := by
  induction fuel with
  | zero => intro s v rest h; cases h
  | succ fuel ih =>
      intro s v rest h
      obtain ⟨w, hw, hspace⟩ := exists_skip s
      unfold readValue at h
      split at h
      · rename_i tail hskip
        rw [hskip] at hw
        obtain ⟨⟨t, rest'⟩, hread, he⟩ := Option.map_eq_some_iff.mp h
        cases he
        obtain ⟨u, rfl, hu⟩ := readString_sound hread
        exact ⟨w, _, by simp [hw], hspace, .string hu⟩
      · rename_i tail hskip
        rw [hskip] at hw
        obtain ⟨⟨vs, rest'⟩, hread, he⟩ := Option.map_eq_some_iff.mp h
        cases he
        obtain ⟨u, rfl, hu⟩ := readGroup_sound ih hread
        exact ⟨w, _, by simp [hw], hspace, .array hu⟩
      · rename_i tail hskip
        rw [hskip] at hw
        obtain ⟨⟨ms, rest'⟩, hread, he⟩ := Option.map_eq_some_iff.mp h
        cases he
        obtain ⟨u, rfl, hu⟩ := readGroup_sound (readMember_sound ih) hread
        exact ⟨w, _, by simp [hw], hspace, .object hu⟩
      · obtain ⟨t, ht, hscalar⟩ := readWord_sound h
        rw [ht] at hw
        exact ⟨w, t, hw, hspace, .scalar hscalar⟩

/-! Every text of the grammar is decoded. -/

theorem skip_space {w : Str} (hw : ∀ c ∈ w, isSpace c = true) (s : Str) :
    skip (w ++ s) = skip s :=
  List.dropWhile_append_of_pos hw

theorem skip_cons {c : Char} (hc : isSpace c = false) (s : Str) : skip (c :: s) = c :: s :=
  List.dropWhile_cons_of_neg (by simp [hc])

/-- The rest does not go on with the word before it. -/
def Stops (rest : Str) : Prop := ∀ c ∈ rest.head?, isWordChar c = false

theorem not_word_of_isSpace {c : Char} (h : isSpace c = true) : isWordChar c = false := by
  simp only [isSpace, Bool.or_eq_true, beq_iff_eq] at h
  rcases h with ((rfl | rfl) | rfl) | rfl <;> decide

theorem stops_space {w : Str} (hw : ∀ c ∈ w, isSpace c = true) {c : Char}
    (hc : isWordChar c = false) (rest : Str) : Stops (w ++ c :: rest) := by
  cases w with
  | nil =>
      rintro _ ⟨⟩
      exact hc
  | cons d w =>
      rintro _ ⟨⟩
      exact not_word_of_isSpace (hw d (List.mem_cons_self ..))

/-- A text of an item starts with a character that no group ends with. -/
def Starts {α : Type} (P : Str → α → Prop) : Prop :=
  ∀ t a, P t a → ∃ c u, t = c :: u ∧ isSpace c = false ∧ c ≠ ']' ∧ c ≠ '}'

section Complete
variable {α : Type} {item : Str → Option (α × Str)} {P : Str → α → Prop} {bound : Nat}

/-- The reader takes every text up to a length, with white space before it. -/
def Reads (item : Str → Option (α × Str)) (P : Str → α → Prop) (bound : Nat) : Prop :=
  ∀ t a, P t a → t.length ≤ bound → ∀ before rest, (∀ c ∈ before, isSpace c = true) →
    Stops rest → item (before ++ (t ++ rest)) = some (a, rest)

theorem Items.starts (hstarts : Starts P) {t : Str} {as : List α} (h : Items P t as) :
    ∃ w c u, t = w ++ c :: u ∧ (∀ d ∈ w, isSpace d = true) ∧ isSpace c = false ∧ c ≠ ']' ∧
      c ≠ '}' := by
  have hpadded : ∀ {t a}, Padded P t a → ∃ w c u, t = w ++ c :: u ∧
      (∀ d ∈ w, isSpace d = true) ∧ isSpace c = false ∧ c ≠ ']' ∧ c ≠ '}' := by
    rintro _ _ ⟨hbefore, h, -⟩
    obtain ⟨c, u, rfl, hc⟩ := hstarts _ _ h
    exact ⟨_, c, _, by rw [List.append_assoc, List.cons_append], hbefore, hc⟩
  cases h with
  | one h => exact hpadded h
  | cons h hs =>
      obtain ⟨w, c, u, rfl, hw⟩ := hpadded h
      exact ⟨w, c, _, by rw [List.append_assoc, List.cons_append], hw⟩

theorem readItems_append (hitem : Reads item P bound) {close : Char} (hword : isWordChar close = false)
    (hspace : isSpace close = false) (hcomma : close ≠ ',') {t : Str} {as : List α}
    (h : Items P t as) (hbound : t.length ≤ bound) {fuel : Nat} (hfuel : t.length < fuel)
    (rest : Str) : readItems item close fuel (t ++ close :: rest) = some (as, rest) := by
  have hseparator : isWordChar ',' = false ∧ isSpace ',' = false := by decide
  induction h generalizing fuel with
  | one h =>
      obtain ⟨hbefore, ht, hafter⟩ := h
      obtain ⟨k, rfl⟩ := Nat.exists_eq_add_one_of_ne_zero (Nat.ne_zero_of_lt hfuel)
      simp only [List.length_append] at hbound
      have hread := hitem _ _ ht (by omega) _ _ hbefore (stops_space hafter hword rest)
      rw [List.append_assoc, List.append_assoc, readItems, hread, Option.bind_eq_bind,
        Option.bind_some]
      dsimp only
      rw [skip_space hafter, skip_cons hspace]
      dsimp only
      rw [if_neg hcomma, if_pos rfl]
  | @cons _ u _ as h hs ih =>
      obtain ⟨hbefore, ht, hafter⟩ := h
      obtain ⟨k, rfl⟩ := Nat.exists_eq_add_one_of_ne_zero (Nat.ne_zero_of_lt hfuel)
      simp only [List.length_append, List.length_cons] at hbound hfuel
      have hread := hitem _ _ ht (by omega) _ _ hbefore
        (stops_space hafter hseparator.1 (u ++ close :: rest))
      have hrest := @ih (by omega) k (by omega)
      rw [List.append_assoc, List.append_assoc, List.append_assoc, List.cons_append, readItems,
        hread, Option.bind_eq_bind, Option.bind_some]
      dsimp only
      rw [skip_space hafter, skip_cons hseparator.2]
      dsimp only
      rw [if_pos rfl, hrest]
      rfl

theorem readGroup_append (hitem : Reads item P bound) (hstarts : Starts P) {close : Char}
    (hclose : close = ']' ∨ close = '}') {t : Str} {as : List α} (h : Group P t as)
    (hbound : t.length ≤ bound) (rest : Str) :
    readGroup item close (t ++ close :: rest) = some (as, rest) := by
  have hchar : isWordChar close = false ∧ isSpace close = false ∧ close ≠ ',' := by
    rcases hclose with rfl | rfl <;> decide
  cases h with
  | none h =>
      rw [readGroup, skip_space h, skip_cons hchar.2.1]
      exact if_pos rfl
  | some h =>
      obtain ⟨w, c, u, ht, hw, hspace, hbracket, hbrace⟩ := h.starts hstarts
      have hne : c ≠ close := by rcases hclose with rfl | rfl <;> assumption
      have hskip : skip (t ++ close :: rest) = c :: (u ++ close :: rest) := by
        rw [ht, List.append_assoc, skip_space hw, List.cons_append, skip_cons hspace]
      have hfuel : t.length < (t ++ close :: rest).length := by simp
      rw [readGroup, hskip]
      dsimp only
      rw [if_neg hne]
      exact readItems_append hitem hchar.1 hchar.2.1 hchar.2.2 h hbound hfuel rest

theorem readMember_reads {value : Str → Option (Value × Str)} {P : Str → Value → Prop}
    (hvalue : Reads value P bound) : Reads (readMember value) (Member P) bound := by
  rintro _ _ ⟨hname, hbefore, hafter, ht⟩ hbound w rest hw hrest
  rename_i name nameText before after t v
  simp only [List.length_cons, List.length_append] at hbound
  have hquote : isSpace '"' = false := by decide
  have hcolon : isSpace ':' = false := by decide
  have hsplit : '"' :: (nameText ++ '"' :: (before ++ ':' :: (after ++ t))) ++ rest =
      '"' :: (nameText ++ '"' :: (before ++ ':' :: (after ++ (t ++ rest)))) := by simp
  have hstring := @readString_append _ _ hname (before ++ ':' :: (after ++ (t ++ rest)))
    (nameText ++ '"' :: (before ++ ':' :: (after ++ (t ++ rest)))).length (by simp)
  have hread := hvalue t v ht (by omega) after rest hafter hrest
  have hnamed : readNamed value name (before ++ ':' :: (after ++ (t ++ rest))) =
      some ((name, v), rest) := by
    rw [readNamed, skip_space hbefore, skip_cons hcolon]
    exact congrArg (Option.map fun x => ((name, x.1), x.2)) hread
  rw [hsplit, readMember, skip_space hw, skip_cons hquote]
  exact (congrArg (Option.bind · fun x : Str × Str => readNamed value x.1 x.2) hstring).trans hnamed

end Complete

theorem member_starts (P : Str → Value → Prop) : Starts (Member P) := by
  rintro _ _ ⟨-, -, -, -⟩
  exact ⟨'"', _, rfl, by decide⟩

theorem scalarValue_word {s : Str} {v : Value} (h : scalarValue s = some v) :
    s ≠ [] ∧ s.all isWordChar = true := by
  unfold scalarValue at h
  split at h
  · rename_i hs
    rw [hs]
    decide
  · split at h
    · rename_i hs
      rw [hs]
      decide
    · split at h
      · rename_i hs
        rw [hs]
        decide
      · obtain ⟨n, hn, -⟩ := Option.map_eq_some_iff.mp h
        exact numberValue_word hn

theorem starts_of_isWordChar {c : Char} (h : isWordChar c = true) :
    isSpace c = false ∧ c ≠ '"' ∧ c ≠ '[' ∧ c ≠ '{' ∧ c ≠ ']' ∧ c ≠ '}' := by
  refine ⟨?_, ?_⟩
  · refine Bool.eq_false_iff.mpr fun hs => ?_
    rw [not_word_of_isSpace hs] at h
    cases h
  · refine ⟨?_, ?_, ?_, ?_, ?_⟩ <;> rintro rfl <;> exact absurd h (by decide)

theorem layer_starts (P : Str → Value → Prop) : Starts (Layer P) := by
  intro t v h
  cases h with
  | scalar h =>
      obtain ⟨hne, hall⟩ := scalarValue_word h
      obtain ⟨c, u, rfl⟩ := List.exists_cons_of_ne_nil hne
      rw [List.all_cons, Bool.and_eq_true] at hall
      obtain ⟨hspace, -, -, -, hbracket, hbrace⟩ := starts_of_isWordChar hall.1
      exact ⟨c, u, rfl, hspace, hbracket, hbrace⟩
  | string h => exact ⟨_, _, rfl, by decide⟩
  | array h => exact ⟨_, _, rfl, by decide⟩
  | object h => exact ⟨_, _, rfl, by decide⟩

theorem text_starts (depth : Nat) : Starts (Text depth) := by
  cases depth with
  | zero => intro t v h; cases h
  | succ depth => exact layer_starts (Text depth)

theorem readWord_append {t rest : Str} {v : Value} (h : scalarValue t = some v)
    (hrest : Stops rest) : readWord (t ++ rest) = some (v, rest) := by
  have hall := List.all_eq_true.mp (scalarValue_word h).2
  have htail : rest.takeWhile isWordChar = [] ∧ rest.dropWhile isWordChar = rest := by
    cases rest with
    | nil => exact ⟨rfl, rfl⟩
    | cons c rest =>
        have hc := hrest c rfl
        simp [hc]
  rw [readWord, List.takeWhile_append_of_pos hall, List.dropWhile_append_of_pos hall, htail.1,
    htail.2, List.append_nil, h]
  rfl

theorem readValue_reads (depth : Nat) {bound fuel : Nat} (hfuel : bound ≤ fuel) :
    Reads (readValue fuel) (Text depth) bound := by
  induction depth generalizing bound fuel with
  | zero => intro t v h; cases h
  | succ depth ih =>
      intro t v h hbound before rest hbefore hrest
      obtain ⟨c, u, ht, hspace, -⟩ := text_starts (depth + 1) t v h
      have hpos : t.length ≠ 0 := by simp [ht]
      obtain ⟨k, rfl⟩ := Nat.exists_eq_add_one_of_ne_zero (n := fuel) (by omega)
      have hskip : skip (before ++ (t ++ rest)) = t ++ rest := by
        rw [skip_space hbefore, ht, List.cons_append, skip_cons hspace]
      rw [readValue, hskip]
      cases h with
      | scalar h =>
          have hall := (scalarValue_word h).2
          rw [ht, List.all_cons, Bool.and_eq_true] at hall
          obtain ⟨-, hquote, hbracket, hbrace, -⟩ := starts_of_isWordChar hall.1
          have hread := readWord_append h hrest
          rw [ht, List.cons_append] at hread ⊢
          split
          · rename_i he
            exact absurd (List.cons.inj he).1 hquote
          · rename_i he
            exact absurd (List.cons.inj he).1 hbracket
          · rename_i he
            exact absurd (List.cons.inj he).1 hbrace
          · exact hread
      | @string t s h =>
          have hsplit : '"' :: (t ++ ['"']) ++ rest = '"' :: (t ++ '"' :: rest) := by simp
          have hread := @readString_append _ _ h rest (t ++ '"' :: rest).length (by simp)
          rw [hsplit]
          exact congrArg (Option.map fun x => (Value.string x.1, x.2)) hread
      | @array t vs h =>
          have hsplit : '[' :: (t ++ [']']) ++ rest = '[' :: (t ++ ']' :: rest) := by simp
          simp only [List.length_cons, List.length_append] at hbound
          have hread := readGroup_append (ih (Nat.le_refl k)) (text_starts depth) (.inl rfl) h
            (by omega) rest
          rw [hsplit]
          exact congrArg (Option.map fun x => (Value.array x.1, x.2)) hread
      | @object t ms h =>
          have hsplit : '{' :: (t ++ ['}']) ++ rest = '{' :: (t ++ '}' :: rest) := by simp
          simp only [List.length_cons, List.length_append] at hbound
          have hread := readGroup_append (readMember_reads (ih (Nat.le_refl k)))
            (member_starts (Text depth)) (.inr rfl) h (by omega) rest
          rw [hsplit]
          exact congrArg (Option.map fun x => (Value.object x.1, x.2)) hread

/-- The decoder reads exactly the JSON texts. -/
theorem decode_eq_some_iff {s : Str} {v : Value} : decode s = some v ↔ IsJson s v := by
  constructor
  · intro h
    obtain ⟨⟨v', rest⟩, hread, h⟩ := Option.bind_eq_some_iff.mp h
    obtain ⟨before, t, hs, hbefore, ht⟩ := readValue_sound _ _ _ _ hread
    dsimp only at h
    split at h
    · rename_i hskip
      cases h
      obtain ⟨w, hw, hafter⟩ := exists_skip rest
      rw [hskip, List.append_nil] at hw
      rw [hw, ← List.append_assoc] at hs
      refine ⟨s.length, ?_⟩
      generalize s.length = depth at ht
      rw [hs]
      exact .mk hbefore ht hafter
    · cases h
  · rintro ⟨depth, hbefore, ht, hafter⟩
    rename_i before t after
    have hstops : Stops after := by
      cases after with
      | nil => intro c hc; cases hc
      | cons c after =>
          rintro _ ⟨⟩
          exact not_word_of_isSpace (hafter c (List.mem_cons_self ..))
    have hread := readValue_reads depth (Nat.le_refl (before ++ t ++ after).length) t v ht
      (by simp; omega) before after hbefore hstops
    have hskip : skip after = [] := List.dropWhile_eq_nil_iff.mpr hafter
    rw [← List.append_assoc] at hread
    rw [decode, hread, Option.bind_eq_bind, Option.bind_some]
    exact if_pos hskip

/-! Texts without white space -/

theorem Padded.self {α : Type} {P : Str → α → Prop} {t : Str} {a : α} (h : P t a) :
    Padded P t a := by
  have hpadded := @Padded.mk α P [] t [] a (by simp) h (by simp)
  rwa [List.nil_append, List.append_nil] at hpadded

/-- The texts with commas between them. -/
def commas : List Str → Str
  | [] => []
  | [t] => t
  | t :: ts => t ++ ',' :: commas ts

theorem group_commas {α : Type} {P : Str → α → Prop} {ts : List Str} {as : List α}
    (h : List.Forall₂ P ts as) : Group P (commas ts) as := by
  cases h with
  | nil => exact .none (by simp [commas])
  | @cons t a ts as h hs =>
      refine .some ?_
      induction hs generalizing t a with
      | nil => exact .one (.self h)
      | cons h' _ ih => exact .cons (.self h) (ih h')

theorem mem_commas {c : Char} {ts : List Str} (h : c ∈ commas ts) :
    c = ',' ∨ ∃ t ∈ ts, c ∈ t := by
  fun_induction commas ts with
  | case1 => cases h
  | case2 t => exact .inr ⟨t, List.mem_singleton_self t, h⟩
  | case3 t ts _ ih =>
      rw [List.mem_append, List.mem_cons] at h
      obtain h | h | h := h
      · exact .inr ⟨t, List.mem_cons_self .., h⟩
      · exact .inl h
      · obtain hc | ⟨u, hu, hc⟩ := ih h
        · exact .inl hc
        · exact .inr ⟨u, List.mem_cons_of_mem t hu, hc⟩

theorem text_number (depth n : Nat) :
    Text (depth + 1) (Decimal.numeral n) (.number ⟨false, n, 0⟩) := by
  have hword : ∀ w : Str, w.all Char.isDigit = false → Decimal.numeral n ≠ w := by
    rintro _ hw rfl
    rw [List.all_eq_true.mpr fun _ => Decimal.numeral_isDigit] at hw
    cases hw
  refine .scalar ?_
  rw [scalarValue, if_neg (hword _ (by decide)), if_neg (hword _ (by decide)),
    if_neg (hword _ (by decide)), numberValue_numeral]
  rfl

/-! Lines -/

/-- The lines of a text, each without its line feed. -/
def lines : Str → List Str
  | [] => []
  | c :: s =>
      if c = '\n' then [] :: lines s
      else match lines s with
        | [] => [[c]]
        | l :: ls => (c :: l) :: ls

theorem lines_append {l : Str} (h : '\n' ∉ l) (rest : Str) :
    lines (l ++ '\n' :: rest) = l :: lines rest := by
  induction l with
  | nil => rfl
  | cons c l ih =>
      rw [List.mem_cons, not_or] at h
      rw [List.cons_append, lines, if_neg (Ne.symm h.1), ih h.2]

end Foundation.Json
