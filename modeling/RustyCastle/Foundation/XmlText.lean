import RustyCastle.Foundation.Splitting

/-!
Characters and character data of XML 1.0: the Char and Name productions, line
end handling, references, and the values of raw text and raw attribute values.
A raw value that stands for itself is one without the characters that the
decoding treats specially.
-/

namespace Foundation.Xml

def inRanges (ranges : List (Nat × Nat)) (c : Char) : Bool :=
  ranges.any fun r => r.1 ≤ c.toNat && c.toNat ≤ r.2

/-- The Char production. -/
def isChar (c : Char) : Bool :=
  inRanges [(0x9, 0xA), (0xD, 0xD), (0x20, 0xD7FF), (0xE000, 0xFFFD), (0x10000, 0x10FFFF)] c

/-- The NameStartChar production. -/
def isNameStart (c : Char) : Bool :=
  inRanges [(0x3A, 0x3A), (0x41, 0x5A), (0x5F, 0x5F), (0x61, 0x7A), (0xC0, 0xD6), (0xD8, 0xF6),
    (0xF8, 0x2FF), (0x370, 0x37D), (0x37F, 0x1FFF), (0x200C, 0x200D), (0x2070, 0x218F),
    (0x2C00, 0x2FEF), (0x3001, 0xD7FF), (0xF900, 0xFDCF), (0xFDF0, 0xFFFD), (0x10000, 0xEFFFF)] c

/-- The NameChar production. -/
def isNameChar (c : Char) : Bool :=
  isNameStart c ||
    inRanges [(0x2D, 0x2E), (0x30, 0x39), (0xB7, 0xB7), (0x300, 0x36F), (0x203F, 0x2040)] c

def isName : Str → Bool
  | [] => false
  | c :: s => isNameStart c && s.all isNameChar

/-- The white space of the S production. -/
def isSpace (c : Char) : Bool := c == ' ' || c == '\t' || c == '\n' || c == '\r'

/-! Line ends and references -/

/-- A carriage return, with a line feed after it or not, is read as a line feed. -/
def lineEnds : Str → Str
  | [] => []
  | '\r' :: '\n' :: s => '\n' :: lineEnds s
  | c :: s => (if c = '\r' then '\n' else c) :: lineEnds s

def hexDigit (c : Char) : Option Nat :=
  if '0' ≤ c ∧ c ≤ '9' then some (c.toNat - '0'.toNat)
  else if 'a' ≤ c ∧ c ≤ 'f' then some (c.toNat - 'a'.toNat + 10)
  else if 'A' ≤ c ∧ c ≤ 'F' then some (c.toNat - 'A'.toNat + 10)
  else none

/-- The character of a number in the given base. -/
def numbered (base : Nat) (digits : Str) : Option Char := do
  let ns ← digits.mapM hexDigit
  let n := ns.foldl (fun n d => base * n + d) 0
  if digits ≠ [] ∧ ns.all (· < base) ∧ n.isValidChar ∧ isChar (.ofNat n) then some (.ofNat n)
  else none

/-- The character a reference names. Without a document type only the five
predefined entities are declared. -/
def reference : Str → Option Char
  | '#' :: 'x' :: digits => numbered 16 digits
  | '#' :: digits => numbered 10 digits
  | name =>
      if name = "amp".toList then some '&'
      else if name = "lt".toList then some '<'
      else if name = "gt".toList then some '>'
      else if name = "quot".toList then some '"'
      else if name = "apos".toList then some '\''
      else none

/-- The references of a text are replaced by what they name, and the other
characters pass through `keep`. The first argument is the name of the reference
being read, in reverse. -/
def expand (keep : Char → Char) : Option Str → Str → Option Str
  | none, [] => some []
  | some _, [] => none
  | none, c :: s =>
      if c = '&' then expand keep (some []) s
      else (expand keep none s).map (keep c :: ·)
  | some name, c :: s =>
      if c = ';' then (reference name.reverse).bind fun r => (expand keep none s).map (r :: ·)
      else expand keep (some (c :: name)) s

/-- The value of raw character data. -/
def textValue (raw : Str) : Option Str :=
  if Str.find "]]>".toList raw = none then expand id none (lineEnds raw) else none

/-- White space in an attribute value is read as a blank. -/
def blank (c : Char) : Char := if isSpace c then ' ' else c

/-- The value of a raw attribute value. -/
def attributeValue (raw : Str) : Option Str :=
  if '<' ∈ raw then none else expand blank none (lineEnds raw)

/-! Laws of the line ends -/

@[simp] theorem lineEnds_nil : lineEnds [] = [] := rfl

theorem lineEnds_cons {c : Char} (h : c ≠ '\r') (s : Str) : lineEnds (c :: s) = c :: lineEnds s := by
  rw [lineEnds]
  · rw [if_neg h]
  · rintro _ rfl _
    exact h rfl

@[simp] theorem lineEnds_eq_nil {s : Str} : lineEnds s = [] ↔ s = [] := by
  fun_cases lineEnds s <;> simp

theorem length_lineEnds_le (s : Str) : (lineEnds s).length ≤ s.length := by
  fun_induction lineEnds s with
  | case1 => exact Nat.le_refl _
  | case2 s ih =>
      simp only [List.length_cons]
      omega
  | case3 c s h ih =>
      simp only [List.length_cons]
      omega

theorem cr_notMem_lineEnds (s : Str) : '\r' ∉ lineEnds s := by
  fun_induction lineEnds s with
  | case1 => exact List.not_mem_nil
  | case2 s ih => simpa using ih
  | case3 c s h ih =>
      rw [List.mem_cons, not_or]
      refine ⟨?_, ih⟩
      split
      · decide
      · rename_i hc
        exact Ne.symm hc

/-- A piece without carriage returns is left alone, whatever follows it. -/
theorem lineEnds_append_left {s : Str} (h : '\r' ∉ s) (t : Str) :
    lineEnds (s ++ t) = s ++ lineEnds t := by
  induction s with
  | nil => rfl
  | cons c s ih =>
      rw [List.mem_cons, not_or] at h
      rw [List.cons_append, lineEnds_cons (Ne.symm h.1), ih h.2, List.cons_append]

theorem lineEnds_of_notMem {s : Str} (h : '\r' ∉ s) : lineEnds s = s := by
  simpa using lineEnds_append_left h []

theorem lineEnds_eq_self {s : Str} : lineEnds s = s ↔ '\r' ∉ s :=
  ⟨fun h => h ▸ cr_notMem_lineEnds s, lineEnds_of_notMem⟩

/-- Texts are handled piece by piece where the second piece does not start with a line feed. -/
theorem lineEnds_append {s t : Str} (h : ∀ c ∈ t.head?, c ≠ '\n') :
    lineEnds (s ++ t) = lineEnds s ++ lineEnds t := by
  fun_induction lineEnds s with
  | case1 => rfl
  | case2 s ih =>
      have hcut : lineEnds ('\r' :: '\n' :: (s ++ t)) = '\n' :: lineEnds (s ++ t) := rfl
      rw [List.cons_append, List.cons_append, hcut, ih, List.cons_append]
  | case3 c s hc ih =>
      rw [List.cons_append, lineEnds, ih, List.cons_append]
      rintro u rfl hu
      cases s with
      | nil =>
          rw [List.nil_append] at hu
          exact h '\n' (by rw [hu]; rfl) rfl
      | cons d s =>
          obtain ⟨rfl, -⟩ := List.cons.inj hu
          exact hc s rfl rfl

theorem lineEnds_cr {s : Str} (h : ∀ c ∈ s.head?, c ≠ '\n') :
    lineEnds ('\r' :: s) = '\n' :: lineEnds s := by
  have := lineEnds_append (s := ['\r']) h
  simpa [lineEnds] using this

theorem lineEnds_append_of_last {s : Str} (h : s.getLast? ≠ some '\r') (t : Str) :
    lineEnds (s ++ t) = lineEnds s ++ lineEnds t := by
  fun_induction lineEnds s with
  | case1 => rfl
  | case2 s ih =>
      have hcut : lineEnds ('\r' :: '\n' :: (s ++ t)) = '\n' :: lineEnds (s ++ t) := rfl
      rw [List.cons_append, List.cons_append, hcut, ih, List.cons_append]
      rintro hs
      exact h (by simp [List.getLast?_cons, hs])
  | case3 c s hc ih =>
      have hs : s.getLast? ≠ some '\r' := by
        rintro hs
        exact h (by simp [List.getLast?_cons, hs])
      rw [List.cons_append, lineEnds, ih hs, List.cons_append]
      rintro u rfl hu
      cases s with
      | nil => exact h rfl
      | cons d s =>
          obtain ⟨rfl, -⟩ := List.cons.inj hu
          exact hc s rfl rfl

theorem count_lineEnds {c : Char} (hcr : c ≠ '\r') (hlf : c ≠ '\n') (s : Str) :
    (lineEnds s).count c = s.count c := by
  fun_induction lineEnds s with
  | case1 => rfl
  | case2 s ih =>
      rw [List.count_cons_of_ne (Ne.symm hlf), List.count_cons_of_ne (Ne.symm hcr),
        List.count_cons_of_ne (Ne.symm hlf), ih]
  | case3 d s h ih =>
      split
      · rename_i hd
        rw [hd, List.count_cons_of_ne (Ne.symm hlf), List.count_cons_of_ne (Ne.symm hcr), ih]
      · rw [List.count_cons, List.count_cons, ih]

theorem mem_lineEnds {s : Str} {c : Char} (h : c ∈ lineEnds s) : c ∈ s ∨ c = '\n' := by
  fun_induction lineEnds s with
  | case1 => cases h
  | case2 s ih =>
      rcases List.mem_cons.mp h with rfl | h
      · exact .inr rfl
      · exact (ih h).imp_left fun hm => List.mem_cons_of_mem _ (List.mem_cons_of_mem _ hm)
  | case3 d s _ ih =>
      rcases List.mem_cons.mp h with rfl | h
      · split
        · exact .inr rfl
        · exact .inl (List.mem_cons_self ..)
      · exact (ih h).imp_left (List.mem_cons_of_mem _)

theorem exists_lineEnds_cons (c : Char) (s : Str) :
    ∃ d t, lineEnds (c :: s) = d :: t ∧ (d = c ∨ d = '\n') := by
  obtain ⟨d, t, hdt⟩ := List.exists_cons_of_ne_nil
    (fun h => List.cons_ne_nil c s (lineEnds_eq_nil.mp h))
  refine ⟨d, t, hdt, ?_⟩
  rw [lineEnds.eq_def] at hdt
  split at hdt
  · cases hdt
  · exact .inr (List.cons.inj hdt).1.symm
  · rename_i e s' _ heq
    obtain ⟨rfl, rfl⟩ := List.cons.inj heq
    have hd := (List.cons.inj hdt).1
    split at hd
    · exact .inr hd.symm
    · exact .inl hd.symm

/-! Laws of the references -/

section Expand
variable (keep : Char → Char)

@[simp] theorem expand_nil : expand keep none [] = some [] := rfl

theorem expand_cons {c : Char} (h : c ≠ '&') (s : Str) :
    expand keep none (c :: s) = (expand keep none s).map (keep c :: ·) := by
  rw [expand, if_neg h]

theorem expand_pending {name : Str} (h : ';' ∉ name) (acc s : Str) :
    expand keep (some acc) (name ++ ';' :: s) =
      (reference (acc.reverse ++ name)).bind fun r => (expand keep none s).map (r :: ·) := by
  induction name generalizing acc with
  | nil => rw [List.nil_append, expand, if_pos rfl, List.append_nil]
  | cons c name ih =>
      rw [List.mem_cons, not_or] at h
      rw [List.cons_append, expand, if_neg (Ne.symm h.1), ih h.2, List.reverse_cons,
        List.append_assoc]
      rfl

/-- A reference is read as the character it names. -/
theorem expand_reference {name : Str} {c : Char} (hname : ';' ∉ name)
    (h : reference name = some c) (s : Str) :
    expand keep none ('&' :: (name ++ ';' :: s)) = (expand keep none s).map (c :: ·) := by
  rw [expand, if_pos rfl, expand_pending keep hname, List.reverse_nil, List.nil_append, h]
  rfl

theorem length_expand_le {pending : Option Str} {s t : Str}
    (h : expand keep pending s = some t) : t.length ≤ s.length := by
  fun_induction expand keep pending s generalizing t with
  | case1 =>
      cases h
      exact Nat.le_refl _
  | case2 => cases h
  | case3 s ih => exact (ih h).trans (Nat.le_succ _)
  | case4 c s hc ih =>
      obtain ⟨u, hu, rfl⟩ := Option.map_eq_some_iff.mp h
      exact Nat.succ_le_succ (ih hu)
  | case5 name s ih =>
      obtain ⟨r, -, hr⟩ := Option.bind_eq_some_iff.mp h
      obtain ⟨u, hu, rfl⟩ := Option.map_eq_some_iff.mp hr
      exact Nat.succ_le_succ (ih hu)
  | case6 name c s hc ih => exact (ih h).trans (Nat.le_succ _)

/-- What follows the last reference is kept. -/
theorem expand_append {pending : Option Str} {s t : Str} (ht : ∀ c ∈ t, c ≠ '&' ∧ c ≠ ';')
    {v : Str} (h : expand keep pending (s ++ t) = some v) :
    ∃ u, expand keep pending s = some u ∧ v = u ++ t.map keep := by
  induction s generalizing pending v with
  | nil =>
      cases pending with
      | none =>
          refine ⟨[], rfl, ?_⟩
          induction t generalizing v with
          | nil =>
              cases h
              rfl
          | cons c t ih =>
              rw [List.forall_mem_cons] at ht
              rw [List.nil_append, expand, if_neg ht.1.1] at h
              obtain ⟨u, hu, rfl⟩ := Option.map_eq_some_iff.mp h
              rw [ih ht.2 hu]
              rfl
      | some name =>
          induction t generalizing name with
          | nil => cases h
          | cons c t ih =>
              rw [List.forall_mem_cons] at ht
              rw [List.nil_append, expand, if_neg ht.1.2] at h
              obtain ⟨u, hu, -⟩ := ih ht.2 (c :: name) h
              cases hu
  | cons c s ih =>
      cases pending with
      | none =>
          rw [List.cons_append, expand] at h
          rw [expand]
          split at h
          · rename_i hc
            rw [if_pos hc]
            exact ih h
          · rename_i hc
            obtain ⟨w, hw, rfl⟩ := Option.map_eq_some_iff.mp h
            obtain ⟨u, hu, rfl⟩ := ih hw
            exact ⟨keep c :: u, by rw [if_neg hc, hu]; rfl, rfl⟩
      | some name =>
          rw [List.cons_append, expand] at h
          rw [expand]
          split at h
          · rename_i hc
            obtain ⟨r, hr, h⟩ := Option.bind_eq_some_iff.mp h
            obtain ⟨w, hw, rfl⟩ := Option.map_eq_some_iff.mp h
            obtain ⟨u, hu, rfl⟩ := ih hw
            exact ⟨r :: u, by rw [if_pos hc, hr, Option.bind_some, hu]; rfl, rfl⟩
          · rename_i hc
            rw [if_neg hc]
            exact ih h

/-- A reference is longer than what it names, so a text of the same length has none. -/
theorem expand_of_length {s t : Str} (h : expand keep none s = some t) (hlen : s.length ≤ t.length) :
    '&' ∉ s ∧ t = s.map keep := by
  induction s generalizing t with
  | nil =>
      cases h
      exact ⟨List.not_mem_nil, rfl⟩
  | cons c s ih =>
      rw [expand] at h
      split at h
      · have := length_expand_le keep h
        rw [List.length_cons] at hlen
        omega
      · rename_i hc
        obtain ⟨u, hu, rfl⟩ := Option.map_eq_some_iff.mp h
        obtain ⟨hs, rfl⟩ := ih hu (Nat.le_of_succ_le_succ hlen)
        exact ⟨by rw [List.mem_cons, not_or]; exact ⟨Ne.symm hc, hs⟩, rfl⟩

theorem expand_of_notMem {s : Str} (h : '&' ∉ s) : expand keep none s = some (s.map keep) := by
  induction s with
  | nil => rfl
  | cons c s ih =>
      rw [List.mem_cons, not_or] at h
      rw [expand_cons keep (Ne.symm h.1), ih h.2]
      rfl

end Expand

theorem quote_notMem_digits {digits : Str} {ns : List Nat} (h : digits.mapM hexDigit = some ns) :
    '"' ∉ digits := by
  induction digits generalizing ns with
  | nil => exact List.not_mem_nil
  | cons c digits ih =>
      rw [List.mapM_cons] at h
      obtain ⟨n, hn, h⟩ := Option.bind_eq_some_iff.mp h
      obtain ⟨ms, hms, -⟩ := Option.bind_eq_some_iff.mp h
      rw [List.mem_cons, not_or]
      refine ⟨?_, ih hms⟩
      rintro rfl
      have hnone : hexDigit '"' = none := by decide
      rw [hnone] at hn
      cases hn

theorem quote_notMem_reference {name : Str} {c : Char} (h : reference name = some c) :
    '"' ∉ name := by
  unfold reference at h
  split at h
  · obtain ⟨ns, hns, -⟩ := Option.bind_eq_some_iff.mp h
    simpa using quote_notMem_digits hns
  · obtain ⟨ns, hns, -⟩ := Option.bind_eq_some_iff.mp h
    simpa using quote_notMem_digits hns
  · split at h
    · subst name
      decide
    split at h
    · subst name
      decide
    split at h
    · subst name
      decide
    split at h
    · subst name
      decide
    split at h
    · subst name
      decide
    · cases h

/-- Quotation marks are not lost: no reference has one in its name. -/
theorem count_quote_expand {pending : Option Str} {s v : Str}
    (h : expand id pending s = some v) : (pending.getD []).count '"' + s.count '"' ≤ v.count '"' := by
  fun_induction expand id pending s generalizing v with
  | case1 =>
      cases h
      rfl
  | case2 => cases h
  | case3 s ih => simpa using ih h
  | case4 c s hc ih =>
      obtain ⟨u, hu, rfl⟩ := Option.map_eq_some_iff.mp h
      have := ih hu
      simp only [Option.getD_none, List.count_nil, Nat.zero_add, id] at this ⊢
      rw [List.count_cons, List.count_cons]
      omega
  | case5 name s ih =>
      obtain ⟨r, hr, h⟩ := Option.bind_eq_some_iff.mp h
      obtain ⟨u, hu, rfl⟩ := Option.map_eq_some_iff.mp h
      have hname : name.count '"' = 0 := by
        rw [List.count_eq_zero, ← List.mem_reverse]
        exact quote_notMem_reference hr
      have := ih hu
      simp only [Option.getD_none, Option.getD_some, List.count_nil, Nat.zero_add] at this ⊢
      rw [hname, List.count_cons_of_ne (by decide), List.count_cons]
      omega
  | case6 name c s hc ih =>
      have := ih h
      simp only [Option.getD_some, List.count_cons] at this ⊢
      omega

/-! Raw values that stand for themselves -/

/-- Raw character data that is its own value. -/
structure PlainText (s : Str) : Prop where
  amp : '&' ∉ s
  cr : '\r' ∉ s
  cdataEnd : Str.find "]]>".toList s = none

/-- A raw attribute value that is its own value. -/
structure PlainAttribute (s : Str) : Prop where
  lt : '<' ∉ s
  amp : '&' ∉ s
  space : ∀ c ∈ s, blank c = c

instance (s : Str) : Decidable (PlainText s) :=
  decidable_of_iff ('&' ∉ s ∧ '\r' ∉ s ∧ Str.find "]]>".toList s = none)
    ⟨fun h => ⟨h.1, h.2.1, h.2.2⟩, fun h => ⟨h.amp, h.cr, h.cdataEnd⟩⟩

instance (s : Str) : Decidable (PlainAttribute s) :=
  decidable_of_iff ('<' ∉ s ∧ '&' ∉ s ∧ ∀ c ∈ s, blank c = c)
    ⟨fun h => ⟨h.1, h.2.1, h.2.2⟩, fun h => ⟨h.lt, h.amp, h.space⟩⟩

theorem textValue_eq_self {s : Str} : textValue s = some s ↔ PlainText s := by
  rw [textValue]
  constructor
  · intro h
    split at h
    · rename_i hfind
      have hle := length_lineEnds_le s
      obtain ⟨hamp, hs⟩ := expand_of_length id h hle
      rw [List.map_id] at hs
      exact ⟨hs ▸ hamp, lineEnds_eq_self.mp hs.symm, hfind⟩
    · cases h
  · intro h
    rw [if_pos h.cdataEnd, lineEnds_of_notMem h.cr, expand_of_notMem id h.amp, List.map_id]

theorem map_blank_eq_self {s : Str} : s.map blank = s ↔ ∀ c ∈ s, blank c = c := by
  induction s with
  | nil => simp
  | cons c s ih => simp [ih]

theorem blank_ne_cr (c : Char) : blank c ≠ '\r' := by
  rw [blank]
  split
  · decide
  · rintro rfl
    contradiction

theorem PlainAttribute.cr {s : Str} (h : PlainAttribute s) : '\r' ∉ s := fun hm =>
  blank_ne_cr '\r' (h.space '\r' hm)

/-- What is read of `s` has the value `s` only where all of `s` was read. -/
theorem attributeValue_eq_some {raw s : Str} (hpre : raw <+: s) :
    attributeValue raw = some s ↔ raw = s ∧ PlainAttribute s := by
  rw [attributeValue]
  constructor
  · intro h
    split at h
    · cases h
    · rename_i hlt
      have hle := (length_lineEnds_le raw).trans hpre.length_le
      obtain ⟨hamp, hs⟩ := expand_of_length blank h hle
      have hlen : s.length ≤ raw.length := by
        rw [hs, List.length_map]
        exact length_lineEnds_le raw
      obtain rfl := hpre.eq_of_length_le hlen
      have hcr : '\r' ∉ raw := by
        rw [hs]
        intro hm
        obtain ⟨c, -, hc⟩ := List.mem_map.mp hm
        exact blank_ne_cr c hc
      rw [lineEnds_of_notMem hcr] at hs hamp
      exact ⟨rfl, hlt, hamp, map_blank_eq_self.mp hs.symm⟩
  · rintro ⟨rfl, hp⟩
    rw [if_neg hp.lt, lineEnds_of_notMem hp.cr, expand_of_notMem blank hp.amp,
      map_blank_eq_self.mpr hp.space]

end Foundation.Xml
