import Mathlib.Data.List.Nodup
import RustyCastle.Foundation.Terminated
import RustyCastle.Foundation.Text

/-!
Escaping by entities. A table names the characters that are written as entities,
the ampersand among them; every other character stands for itself. Decoding replaces
the entities of the table from left to right and leaves everything else as it is, a
part of an entity included.
-/

namespace Foundation

/-- `&name;` -/
def entity (name : Str) : Str := '&' :: (name ++ [';'])

structure Entities where
  entries : List (Char × Str)
  names : ∀ e ∈ entries, '&' ∉ e.2 ∧ ';' ∉ e.2
  distinct : (entries.map Prod.snd).Nodup
  amp : '&' ∈ entries.map Prod.fst

namespace Entities
variable (T : Entities)

def escapeChar (c : Char) : Str :=
  match T.entries.find? fun e => e.1 == c with
  | some e => entity e.2
  | none => [c]

def escape (s : Str) : Str := s.flatMap T.escapeChar

/-- The entry whose entity stands at the front. -/
def front (s : Str) : Option (Char × Str) :=
  T.entries.find? fun e => (entity e.2).isPrefixOf s

/-- Decoding with a number of characters to pass over, which belong to an entity
that was read. -/
def decodeFrom : Nat → Str → Str
  | _, [] => []
  | n + 1, _ :: s => decodeFrom n s
  | 0, c :: s =>
      match T.front (c :: s) with
      | some e => e.1 :: decodeFrom (e.2.length + 1) s
      | none => c :: decodeFrom 0 s

def decode (s : Str) : Str := T.decodeFrom 0 s

/-- An escaper with the entities of a table. No character of markup is left, every
ampersand starts an entity, and decoding gives the text back. -/
structure Escapes (escape : Str → Str) : Prop where
  markup : ∀ s, ∀ c ∈ ['<', '>', '"', '\''], c ∉ escape s
  amp : ∀ s u v, escape s = u ++ '&' :: v → ∃ e ∈ T.entries, entity e.2 <+: '&' :: v
  decode : ∀ s, T.decode (escape s) = s
  append : ∀ s t, escape (s ++ t) = escape s ++ escape t

/-! Characters -/

variable {T}

/-- A character is written as an entity of the table or stands for itself, and the
ampersand does not. -/
theorem escapeChar_cases (c : Char) :
    (∃ name, (c, name) ∈ T.entries ∧ T.escapeChar c = entity name) ∨
      c ∉ T.entries.map Prod.fst ∧ c ≠ '&' ∧ T.escapeChar c = [c] := by
  unfold escapeChar
  cases h : T.entries.find? fun e => e.1 == c with
  | some e =>
      have hkey := List.find?_some h
      obtain rfl : e.1 = c := eq_of_beq hkey
      exact .inl ⟨e.2, List.mem_of_find?_eq_some h, rfl⟩
  | none =>
      have hkey : c ∉ T.entries.map Prod.fst := fun hm => by
        obtain ⟨e, he, rfl⟩ := List.mem_map.mp hm
        exact List.find?_eq_none.mp h e he (beq_self_eq_true e.1)
      exact .inr ⟨hkey, fun he => hkey (he ▸ T.amp), rfl⟩

/-- A function that writes the entries as the table does and no other character is the
escaping of the table. -/
theorem eq_escapeChar {f : Char → Str} (hkeys : ∀ e ∈ T.entries, f e.1 = T.escapeChar e.1)
    (hother : ∀ c, c ∉ T.entries.map Prod.fst → f c = [c]) : f = T.escapeChar := by
  funext c
  obtain ⟨name, he, -⟩ | ⟨hno, -, hw⟩ := T.escapeChar_cases c
  · exact hkeys _ he
  · rw [hother c hno, hw]

theorem escape_append (s t : Str) : T.escape (s ++ t) = T.escape s ++ T.escape t :=
  List.flatMap_append

theorem escape_cons (c : Char) (s : Str) : T.escape (c :: s) = T.escapeChar c ++ T.escape s :=
  List.flatMap_cons

theorem notMem_escape {c : Char} (hkey : c ∈ T.entries.map Prod.fst)
    (hfree : ∀ e ∈ T.entries, c ∉ entity e.2) (s : Str) : c ∉ T.escape s := by
  intro hm
  obtain ⟨d, -, hd⟩ := List.mem_flatMap.mp hm
  obtain ⟨name, he, hw⟩ | ⟨hno, -, hw⟩ := T.escapeChar_cases d
  · rw [hw] at hd
    exact hfree _ he hd
  · rw [hw, List.mem_singleton] at hd
    exact hno (hd ▸ hkey)

/-! Ampersands -/

/-- An entity has its only ampersand at the front. -/
theorem amp_in_entity {name rest u v : Str} (hname : '&' ∉ name)
    (h : entity name ++ rest = u ++ '&' :: v) :
    (u = [] ∧ entity name <+: '&' :: v) ∨ ∃ w, u = entity name ++ w ∧ rest = w ++ '&' :: v := by
  rcases List.append_eq_append_iff.mp h with ⟨w, hu, hw⟩ | ⟨w, hcut, hw⟩
  · exact .inr ⟨w, hu, hw⟩
  · cases w with
    | nil => exact .inr ⟨[], by rw [hcut, List.append_nil, List.append_nil], hw.symm⟩
    | cons d w =>
        obtain ⟨rfl, -⟩ := List.cons.inj hw
        cases u with
        | nil => exact .inl ⟨rfl, rest, h⟩
        | cons e u =>
            have hin : '&' ∈ name ++ [';'] := by
              rw [(List.cons.inj hcut).2]
              exact List.mem_append_right _ (List.mem_cons_self ..)
            rcases List.mem_append.mp hin with hin | hin
            · exact absurd hin hname
            · exact absurd hin (by decide)

theorem amp_escape {s u v : Str} (h : T.escape s = u ++ '&' :: v) :
    ∃ e ∈ T.entries, entity e.2 <+: '&' :: v := by
  induction s generalizing u with
  | nil => cases u <;> cases h
  | cons c s ih =>
      rw [escape_cons] at h
      obtain ⟨name, he, hw⟩ | ⟨-, hne, hw⟩ := T.escapeChar_cases c
      · rw [hw] at h
        rcases amp_in_entity (T.names _ he).1 h with ⟨-, hpre⟩ | ⟨w, -, hw⟩
        · exact ⟨_, he, hpre⟩
        · exact ih hw
      · rw [hw] at h
        cases u with
        | nil => exact absurd (List.cons.inj h).1 hne
        | cons d u => exact ih (List.cons.inj h).2

/-! Decoding -/

theorem decodeFrom_skip (t s : Str) : T.decodeFrom t.length (t ++ s) = T.decodeFrom 0 s := by
  induction t with
  | nil => rfl
  | cons c t ih => exact ih

/-- The entity at the front is the one that was written. -/
theorem front_entity {c : Char} {name rest : Str} (h : (c, name) ∈ T.entries) :
    T.front (entity name ++ rest) = some (c, name) := by
  have hfind : ((entity name).isPrefixOf (entity name ++ rest)) = true :=
    List.isPrefixOf_iff_prefix.mpr (List.prefix_append ..)
  cases hf : T.front (entity name ++ rest) with
  | none => exact absurd hfind (List.find?_eq_none.mp hf _ h)
  | some e =>
      have hpre := List.find?_some hf
      obtain ⟨t, ht⟩ := List.isPrefixOf_iff_prefix.mp hpre
      have hmem := List.mem_of_find?_eq_some hf
      -- both names end at the first semicolon
      have hnames : e.2 ++ ';' :: t = name ++ ';' :: rest := by
        simpa [entity] using ht
      have hname := (cut_terminator_inj (T.names e hmem).2 (T.names _ h).2 hnames).1
      rw [List.inj_on_of_nodup_map T.distinct hmem h hname]

theorem decode_escapeChar (c : Char) (s : Str) :
    T.decode (T.escapeChar c ++ s) = c :: T.decode s := by
  obtain ⟨name, he, hw⟩ | ⟨-, hne, hw⟩ := T.escapeChar_cases c
  · have hfront : T.front ('&' :: ((name ++ [';']) ++ s)) = some (c, name) := front_entity he
    have hskip := T.decodeFrom_skip (name ++ [';']) s
    rw [List.length_append] at hskip
    rw [hw, decode, entity, List.cons_append, decodeFrom, hfront]
    exact congrArg (c :: ·) hskip
  · have hfront : T.front (c :: s) = none :=
      List.find?_eq_none.mpr fun e _ hp => hne (List.cons_prefix_cons.mp
        (List.isPrefixOf_iff_prefix.mp hp)).1.symm
    rw [hw, decode, List.singleton_append, decodeFrom, hfront]
    rfl

theorem decode_escape (s : Str) : T.decode (T.escape s) = s := by
  induction s with
  | nil => rfl
  | cons c s ih => rw [escape_cons, decode_escapeChar, ih]

/-- A table whose entities are free of markup escapes all of it. -/
theorem escapes (h : ∀ c ∈ ['<', '>', '"', '\''],
    c ∈ T.entries.map Prod.fst ∧ ∀ e ∈ T.entries, c ∉ entity e.2) : T.Escapes T.escape where
  markup s c hc := notMem_escape (h c hc).1 (h c hc).2 s
  amp _ _ _ := amp_escape
  decode := decode_escape
  append := escape_append

end Entities
end Foundation
