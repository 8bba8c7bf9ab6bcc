import RustyCastle.Upnp.SoapMessage

/-!
The search for the namespace of an action element. Every occurrence of `xmlns`
in the tag is tried, so the search passes over names and over declarations of
other prefixes, and stops at the declaration of its own.
-/

namespace RustyCastle.Upnp
open Foundation Foundation.Xml

/-- A namespace declaration as it stands in a tag. -/
structure Declaration where
  gap : Str
  pre : Option Str
  left : Str
  right : Str
  quote : Char
  value : Str

def Declaration.write (d : Declaration) : Str :=
  d.gap ++ ("xmlns".toList ++ ((Str.whenSome d.pre fun p => ':' :: p) ++ (d.left ++
    '=' :: (d.right ++ d.quote :: (d.value ++ [d.quote])))))

structure Declaration.Valid (d : Declaration) : Prop where
  gap : IsGap d.gap
  gap_ne_nil : d.gap ≠ []
  pre : ∀ p ∈ d.pre, IsNcName p ∧ Str.find "xmlns".toList p = none
  left : IsGap d.left
  right : IsGap d.right
  quote : d.quote = '"' ∨ d.quote = '\''
  value : '"' ∉ d.value ∧ '\'' ∉ d.value ∧ '<' ∉ d.value ∧ '>' ∉ d.value
  value_xmlns : Str.find "xmlns".toList d.value = none

/-- A declaration of a prefix of all the characters that XML has in names. -/
structure Declaration.WellFormed (d : Declaration) : Prop where
  gap : IsGap d.gap
  gap_ne_nil : d.gap ≠ []
  pre : ∀ p ∈ d.pre, IsXmlNcName p ∧ Str.find "xmlns".toList p = none
  left : IsGap d.left
  right : IsGap d.right
  quote : d.quote = '"' ∨ d.quote = '\''
  value : '"' ∉ d.value ∧ '\'' ∉ d.value ∧ '<' ∉ d.value ∧ '>' ∉ d.value
  value_xmlns : Str.find "xmlns".toList d.value = none

theorem Declaration.Valid.wellFormed {d : Declaration} (h : d.Valid) : d.WellFormed where
  gap := h.gap
  gap_ne_nil := h.gap_ne_nil
  pre p hp := ⟨(h.pre p hp).1.toXml, (h.pre p hp).2⟩
  left := h.left
  right := h.right
  quote := h.quote
  value := h.value
  value_xmlns := h.value_xmlns

/-- The search takes the declaration for one of the prefix: white space behind the prefix looked
for does not count. -/
def Declaration.readsAs (nsPrefix : Option Str) (d : Declaration) : Bool :=
  match nsPrefix, d.pre with
  | none, none => true
  | some p, some q => p.isPrefixOf q && (q.drop p.length).all Str.isWhitespace
  | _, _ => false

theorem Declaration.Valid.readsAs_iff {d : Declaration} (h : d.Valid) (nsPrefix : Option Str) :
    d.readsAs nsPrefix = true ↔ d.pre = nsPrefix := by
  cases nsPrefix with
  | none => cases hd : d.pre <;> simp [readsAs, hd]
  | some p =>
      cases hd : d.pre with
      | none => simp [readsAs, hd]
      | some q =>
          simp only [readsAs, hd, Bool.and_eq_true, List.isPrefixOf_iff_prefix, Option.some.injEq]
          constructor
          · rintro ⟨⟨t, rfl⟩, hspace⟩
            rw [List.drop_left] at hspace
            cases t with
            | nil => rw [List.append_nil]
            | cons c t =>
                have hc := (h.pre _ hd).1.space c (by simp)
                rw [List.all_cons, hc] at hspace
                cases hspace
          · rintro rfl
            simp

/-- The value that an occurrence of `xmlns` gives. -/
def namespaceAt (candidate : Str) (nsPrefix : Option Str) : Option Str :=
  (namespaceAttrLen candidate nsPrefix).bind fun attrLen => findAttrValue (candidate.drop attrLen)

/-! The search, character by character -/

theorem findNamespace_hit {s : Str} (h : "xmlns".toList <+: s) (nsPrefix : Option Str) :
    findNamespace s nsPrefix =
      (namespaceAt s nsPrefix).orElse fun _ => findNamespace (s.drop 5) nsPrefix := by
  have hfind : Str.find "xmlns".toList s = some 0 := by
    obtain ⟨t, rfl⟩ := h
    rfl
  rw [findNamespace.eq_def]
  split
  · rename_i hn
    rw [hfind] at hn
    cases hn
  · rename_i idx hs
    rw [hfind] at hs
    cases hs
    simp only [List.drop_zero]
    rw [← namespaceAt]
    cases namespaceAt s nsPrefix <;> rfl

theorem findNamespace_cons {c : Char} {s : Str} (h : ¬ "xmlns".toList <+: c :: s)
    (nsPrefix : Option Str) : findNamespace (c :: s) nsPrefix = findNamespace s nsPrefix := by
  have hfind : Str.find "xmlns".toList (c :: s) = (Str.find "xmlns".toList s).map (· + 1) := by
    rw [Str.find, if_neg (fun hp => h (List.isPrefixOf_iff_prefix.mp hp))]
  rw [findNamespace.eq_def, findNamespace.eq_def s]
  cases hs : Str.find "xmlns".toList s with
  | none =>
      rw [hs] at hfind
      split
      · rfl
      · rename_i hn
        rw [hfind] at hn
        cases hn
  | some i =>
      rw [hs] at hfind
      split
      · rename_i hn
        rw [hfind] at hn
        cases hn
      · rename_i hn
        rw [hfind] at hn
        cases hn
        rfl

theorem findNamespace_skip {s : Str} (h : ∀ c ∈ s, c ∉ "xmlns".toList) (rest : Str)
    (nsPrefix : Option Str) : findNamespace (s ++ rest) nsPrefix = findNamespace rest nsPrefix := by
  induction s with
  | nil => rfl
  | cons c s ih =>
      rw [List.forall_mem_cons] at h
      have hx : c ≠ 'x' := by
        rintro rfl
        exact h.1 (by decide)
      rw [List.cons_append, findNamespace_cons (fun hp => hx (List.cons_prefix_cons.mp hp).1.symm),
        ih h.2]

/-- A text without the searched word, before a character that is not one of its letters. -/
theorem findNamespace_word {w : Str} (hw : Str.find "xmlns".toList w = none) {z : Char}
    (hz : z ∉ "xmlns".toList) (rest : Str) (nsPrefix : Option Str) :
    findNamespace (w ++ z :: rest) nsPrefix = findNamespace (z :: rest) nsPrefix := by
  induction w with
  | nil => rfl
  | cons c w ih =>
      obtain ⟨hp, hw⟩ := Str.find_cons_eq_none.mp hw
      rw [List.cons_append, findNamespace_cons, ih hw]
      exact fun hpre => hp (Str.prefix_of_notMem (s := c :: w) hpre hz)

theorem trimStart_gap {gap : Str} (h : IsGap gap) (rest : Str) :
    trimStart (gap ++ rest) = trimStart rest :=
  List.dropWhile_append_of_pos fun c hc => isWhitespace_of_isSpace (h c hc)

theorem trimStart_cons {c : Char} (h : Str.isWhitespace c = false) (s : Str) :
    trimStart (c :: s) = c :: s := by
  rw [trimStart, List.dropWhile_cons, h]
  rfl

/-- White space at the start of a text is trimmed, and what follows it is not an equals sign. -/
theorem trimStart_head_ne {word rest : Str} (heq : '=' ∉ word)
    (hrest : (trimStart rest).head? ≠ some '=') : (trimStart (word ++ rest)).head? ≠ some '=' := by
  induction word with
  | nil => exact hrest
  | cons c word ih =>
      rw [List.mem_cons, not_or] at heq
      cases hc : Str.isWhitespace c with
      | true =>
          rw [List.cons_append, trimStart, List.dropWhile_cons_of_pos hc]
          exact ih heq.2
      | false =>
          rw [List.cons_append, trimStart_cons hc]
          rintro ⟨⟩
          exact heq.1 rfl

/-- An occurrence in a name is passed over: a name is not followed by an equals sign. -/
theorem namespaceAt_name {word rest : Str} {nsPrefix : Option Str} (hcolon : ':' ∉ word)
    (heq : '=' ∉ word)
    (hrest : ∃ c s, rest = c :: s ∧ isSpace c = true) (hnext : (trimStart rest).head? ≠ some '=') :
    namespaceAt ("xmlns".toList ++ (word ++ rest)) nsPrefix = none := by
  have hlit : "xmlns".toList = ['x', 'm', 'l', 'n', 's'] := by decide
  obtain ⟨z, s, rfl, hz⟩ := hrest
  have hlen : namespaceAttrLen ("xmlns".toList ++ (word ++ z :: s)) nsPrefix = none := by
    cases nsPrefix with
    | none =>
        have hdrop : ("xmlns".toList ++ (word ++ z :: s)).drop "xmlns".toList.length =
            word ++ z :: s := List.drop_left
        have hhead : (trimStart (word ++ z :: s)).head? ≠ some '=' := trimStart_head_ne heq hnext
        rw [namespaceAttrLen, hdrop]
        exact if_neg hhead
    | some p =>
        have hstrip : Str.stripPrefix "xmlns:".toList ("xmlns".toList ++ (word ++ z :: s)) = none := by
          rw [← Option.not_isSome_iff_eq_none, Option.isSome_iff_exists]
          rintro ⟨t, ht⟩
          have hsplit : "xmlns:".toList = "xmlns".toList ++ [':'] := by decide
          rw [Str.stripPrefix_eq_some, hsplit, List.append_assoc, List.append_cancel_left_eq] at ht
          cases word with
          | nil =>
              obtain ⟨rfl, -⟩ := List.cons.inj ht
              revert hz
              decide
          | cons c word =>
              obtain ⟨rfl, -⟩ := List.cons.inj ht
              exact hcolon (List.mem_cons_self ..)
        rw [namespaceAttrLen, hstrip]
        rfl
  rw [namespaceAt, hlen]
  rfl

theorem findNamespace_name {word rest : Str} {nsPrefix : Option Str} (hcolon : ':' ∉ word)
    (heq : '=' ∉ word)
    (hrest : ∃ c s, rest = c :: s ∧ isSpace c = true) (hnext : (trimStart rest).head? ≠ some '=') :
    findNamespace (word ++ rest) nsPrefix = findNamespace rest nsPrefix := by
  induction hn : word.length using Nat.strongRecOn generalizing word with
  | ind n ih =>
      subst hn
      cases word with
      | nil => rfl
      | cons c word =>
          by_cases hp : "xmlns".toList <+: c :: (word ++ rest)
          · obtain ⟨z, s, hz, hspacez⟩ := hrest
            have hin : "xmlns".toList <+: c :: word := by
              refine Str.prefix_of_notMem (c := z) (t := s) (by rw [List.cons_append, ← hz]; exact hp) ?_
              rcases isSpace_cases hspacez with rfl | rfl | rfl | rfl <;> decide
            obtain ⟨tail, ht⟩ := hin
            have hsub : ∀ c ∈ tail, c ∈ "xmlns".toList ++ tail := fun c hc =>
              List.mem_append_right _ hc
            rw [← ht] at hcolon heq
            have hcolon' : ':' ∉ tail := fun hm => hcolon (hsub _ hm)
            have heq' : '=' ∉ tail := fun hm => heq (hsub _ hm)
            have hlen : tail.length < (c :: word).length := by
              rw [← ht, List.length_append]
              exact Nat.lt_add_of_pos_left (by decide)
            have hdrop : ("xmlns".toList ++ (tail ++ rest)).drop 5 = tail ++ rest := rfl
            have hhit : "xmlns".toList <+: "xmlns".toList ++ (tail ++ rest) := List.prefix_append _ _
            have happ : c :: word ++ rest = "xmlns".toList ++ (tail ++ rest) := by
              rw [← ht, List.append_assoc]
            rw [happ, findNamespace_hit hhit, namespaceAt_name hcolon' heq'
              ⟨z, s, hz, hspacez⟩ hnext, hdrop]
            exact ih tail.length hlen hcolon' heq' rfl
          · rw [List.mem_cons, not_or] at hcolon heq
            rw [List.cons_append, findNamespace_cons hp]
            exact ih word.length (Nat.lt_succ_self _) hcolon.2 heq.2 rfl

/-! Declarations -/

theorem notMem_xmlns_of_isSpace {c : Char} (h : isSpace c = true) : c ∉ "xmlns".toList := by
  rcases isSpace_cases h with rfl | rfl | rfl | rfl <;> decide

namespace Declaration
variable {d : Declaration} (h : d.WellFormed)

/-- What follows the name of the attribute. -/
def equation (d : Declaration) : Str :=
  d.left ++ '=' :: (d.right ++ d.quote :: (d.value ++ [d.quote]))

theorem write_append (d : Declaration) (rest : Str) :
    d.write ++ rest = d.gap ++ ("xmlns".toList ++
      ((Str.whenSome d.pre fun p => ':' :: p) ++ (d.equation ++ rest))) := by
  simp only [write, equation, List.append_assoc, List.cons_append]

include h

theorem trimStart_equation (rest : Str) :
    trimStart (d.equation ++ rest) =
      '=' :: (d.right ++ d.quote :: (d.value ++ d.quote :: rest)) := by
  have happ : d.equation ++ rest =
      d.left ++ '=' :: (d.right ++ d.quote :: (d.value ++ d.quote :: rest)) := by simp [equation]
  rw [happ, trimStart_gap h.left, trimStart_cons (by decide)]

theorem findAttrValue_equation (rest : Str) :
    findAttrValue (d.equation ++ rest) = some d.value := by
  have hquote : Str.isWhitespace d.quote = false ∧ ¬ (d.quote ≠ '"' ∧ d.quote ≠ '\'') ∧
      d.quote ∉ d.value := by
    rcases h.quote with hq | hq <;> rw [hq]
    · exact ⟨by decide, by decide, h.value.1⟩
    · exact ⟨by decide, by decide, h.value.2.1⟩
  have hstrip : Str.stripPrefix ['='] ('=' :: (d.right ++ d.quote :: (d.value ++ d.quote :: rest))) =
      some (d.right ++ d.quote :: (d.value ++ d.quote :: rest)) := Str.stripPrefix_append _ _
  simp only [findAttrValue, trimStart_equation h, hstrip, Option.bind_eq_bind, Option.bind_some,
    trimStart_gap h.right, trimStart_cons hquote.1, if_neg hquote.2.1, Str.cut_char rest hquote.2.2,
    Option.map_some]

theorem head_equation : ∃ z s, d.equation = z :: s ∧ (isSpace z = true ∨ z = '=') := by
  have hleft := h.left
  unfold equation
  cases hd : d.left with
  | nil => exact ⟨'=', _, rfl, .inr rfl⟩
  | cons z s => exact ⟨z, _, rfl, .inl (hleft z (by rw [hd]; exact List.mem_cons_self ..))⟩

/-- The length of an attribute name that a prefix was found in. -/
theorem namespaceAt_prefixed {p q : Str} (hp : ∀ c ∈ p, isNameChar c = true)
    (hq : ∀ c ∈ q, isNameChar c = true) (rest : Str) :
    namespaceAt ("xmlns:".toList ++ (q ++ (d.equation ++ rest))) (some p) =
      if (p.isPrefixOf q && (q.drop p.length).all Str.isWhitespace) = true then some d.value
      else none := by
  obtain ⟨z, s, hz, hzspace⟩ := head_equation h
  have hzname : isNameChar z = false := by
    rcases hzspace with hs | rfl
    · rcases isSpace_cases hs with rfl | rfl | rfl | rfl <;> decide
    · decide
  simp only [namespaceAt, namespaceAttrLen, Str.stripPrefix_append, Option.bind_eq_bind,
    Option.bind_some]
  by_cases hprefix : p <+: q
  · obtain ⟨t, rfl⟩ := hprefix
    have hin : p.isPrefixOf (p ++ t ++ (d.equation ++ rest)) = true :=
      List.isPrefixOf_iff_prefix.mpr ⟨t ++ (d.equation ++ rest), (List.append_assoc ..).symm⟩
    have hin' : p.isPrefixOf (p ++ t) = true := List.isPrefixOf_iff_prefix.mpr (List.prefix_append ..)
    have hdrop : ("xmlns:".toList ++ (p ++ t ++ (d.equation ++ rest))).drop
        ("xmlns:".toList.length + p.length) = t ++ (d.equation ++ rest) := by
      rw [List.append_assoc, ← List.append_assoc, ← List.length_append, List.drop_left]
    rw [if_pos hin, hdrop, hin', List.drop_left, Bool.true_and]
    by_cases hspace : t.all Str.isWhitespace = true
    · have htrim : trimStart (t ++ (d.equation ++ rest)) = trimStart (d.equation ++ rest) :=
        List.dropWhile_append_of_pos fun c hc => List.all_eq_true.mp hspace c hc
      have hhead : (trimStart (d.equation ++ rest)).head? = some '=' := by
        rw [trimStart_equation h]
        rfl
      have hvalue : findAttrValue (t ++ (d.equation ++ rest)) = findAttrValue (d.equation ++ rest) := by
        rw [findAttrValue, findAttrValue, htrim]
      rw [htrim, if_pos hhead, Option.bind_some, hdrop, hvalue, findAttrValue_equation h, if_pos hspace]
    · have hhead : (trimStart (t ++ (d.equation ++ rest))).head? ≠ some '=' := by
        rw [trimStart, List.dropWhile_append]
        cases ht : t.dropWhile Str.isWhitespace with
        | nil => exact absurd (List.all_eq_true.mpr (List.dropWhile_eq_nil_iff.mp ht)) hspace
        | cons c u =>
            have hc := hq c (List.mem_append_right _ ((List.dropWhile_suffix _).subset
              (ht ▸ List.mem_cons_self ..)))
            rintro ⟨⟩
            revert hc
            decide
      rw [if_neg hhead, if_neg hspace]
      rfl
  · have hout : ¬ p.isPrefixOf (q ++ (d.equation ++ rest)) = true := by
      rw [List.isPrefixOf_iff_prefix, hz]
      intro hp'
      refine hprefix (Str.prefix_of_notMem hp' fun hm => ?_)
      rw [hp z hm] at hzname
      cases hzname
    have hout' : ¬ p.isPrefixOf q = true := fun hp' => hprefix (List.isPrefixOf_iff_prefix.mp hp')
    rw [if_neg hout, if_neg (by simp [hout'])]
    rfl

theorem strip_unprefixed (rest : Str) :
    Str.stripPrefix "xmlns:".toList ("xmlns".toList ++ ([] ++ (d.equation ++ rest))) = none := by
  obtain ⟨z, s, hz, hzspace⟩ := head_equation h
  have hcolon : z ≠ ':' := by
    rintro rfl
    revert hzspace
    decide
  rw [← Option.not_isSome_iff_eq_none, Option.isSome_iff_exists]
  rintro ⟨t, ht⟩
  have hsplit : "xmlns:".toList = "xmlns".toList ++ [':'] := by decide
  rw [Str.stripPrefix_eq_some, hsplit, List.append_assoc, List.append_cancel_left_eq, hz] at ht
  exact hcolon (List.cons.inj ht).1

/-- What the search finds at the name of a declaration. -/
theorem namespaceAt_write {nsPrefix : Option Str}
    (hpre : ∀ p ∈ nsPrefix, ∀ c ∈ p, isNameChar c = true) (rest : Str) :
    namespaceAt ("xmlns".toList ++ ((Str.whenSome d.pre fun p => ':' :: p) ++
      (d.equation ++ rest))) nsPrefix = if d.readsAs nsPrefix = true then some d.value else none := by
  cases nsPrefix with
  | none =>
      cases hd : d.pre with
      | none =>
          have hreads : d.readsAs none = true := by simp only [readsAs, hd]
          have hdrop : ("xmlns".toList ++ (d.equation ++ rest)).drop "xmlns".toList.length =
              d.equation ++ rest := List.drop_left
          have hhead : (trimStart (d.equation ++ rest)).head? = some '=' := by
            rw [trimStart_equation h]
            rfl
          rw [if_pos hreads, Str.whenSome_none, List.nil_append, namespaceAt, namespaceAttrLen, hdrop,
            if_pos hhead, Option.bind_some, hdrop, findAttrValue_equation h]
      | some q =>
          have hreads : ¬ d.readsAs none = true := by simp [readsAs, hd]
          have hdrop : ("xmlns".toList ++ (':' :: q ++ (d.equation ++ rest))).drop
              "xmlns".toList.length = ':' :: (q ++ (d.equation ++ rest)) := List.drop_left
          rw [if_neg hreads, Str.whenSome_some, namespaceAt, namespaceAttrLen, hdrop,
            trimStart_cons (by decide), if_neg (by simp)]
          rfl
  | some p =>
      cases hd : d.pre with
      | none =>
          have hreads : ¬ d.readsAs (some p) = true := by simp [readsAs, hd]
          rw [if_neg hreads, Str.whenSome_none, namespaceAt, namespaceAttrLen, strip_unprefixed h]
          rfl
      | some q =>
          have hsplit : "xmlns".toList ++ (':' :: q ++ (d.equation ++ rest)) =
              "xmlns:".toList ++ (q ++ (d.equation ++ rest)) := rfl
          have hq := isNameChar_of_isName (h.pre q hd).1.name
          rw [Str.whenSome_some, hsplit, namespaceAt_prefixed h (hpre p rfl) hq]
          simp only [readsAs, hd]

/-- A declaration in which no occurrence of the word gives a value is passed over. -/
theorem findNamespace_pass {nsPrefix : Option Str} {rest : Str}
    (hat : namespaceAt ("xmlns".toList ++ ((Str.whenSome d.pre fun p => ':' :: p) ++
      (d.equation ++ rest))) nsPrefix = none) :
    findNamespace (d.write ++ rest) nsPrefix = findNamespace rest nsPrefix := by
  have hgap : ∀ {s : Str}, IsGap s → ∀ c ∈ s, c ∉ "xmlns".toList := fun hs c hc =>
    notMem_xmlns_of_isSpace (hs c hc)
  have hquote : d.quote ∉ "xmlns".toList := by
    rcases h.quote with hq | hq <;> rw [hq] <;> decide
  have hname : findNamespace ((Str.whenSome d.pre fun p => ':' :: p) ++
      (d.equation ++ rest)) nsPrefix = findNamespace (d.equation ++ rest) nsPrefix := by
    obtain ⟨z, s, hz, hzspace⟩ := head_equation h
    have hzmem : z ∉ "xmlns".toList := by
      rcases hzspace with hs | rfl
      · exact notMem_xmlns_of_isSpace hs
      · decide
    cases hd : d.pre with
    | none => rfl
    | some q =>
        rw [Str.whenSome_some, List.cons_append,
          findNamespace_cons (fun hp => absurd (List.cons_prefix_cons.mp hp).1 (by decide)), hz,
          List.cons_append, findNamespace_word (h.pre q hd).2 hzmem]
  have hequation : findNamespace (d.equation ++ rest) nsPrefix = findNamespace rest nsPrefix := by
    have happ : d.equation ++ rest =
        d.left ++ (['='] ++ (d.right ++ ([d.quote] ++ (d.value ++ d.quote :: rest)))) := by
      simp [equation]
    rw [happ, findNamespace_skip (hgap h.left), findNamespace_skip (by decide),
      findNamespace_skip (hgap h.right), findNamespace_skip (by simpa using hquote),
      findNamespace_word h.value_xmlns hquote]
    exact findNamespace_skip (s := [d.quote]) (by simpa using hquote) rest nsPrefix
  have hdrop : ("xmlns".toList ++ ((Str.whenSome d.pre fun p => ':' :: p) ++
      (d.equation ++ rest))).drop 5 = (Str.whenSome d.pre fun p => ':' :: p) ++
      (d.equation ++ rest) := rfl
  rw [write_append, findNamespace_skip (hgap h.gap), findNamespace_hit (List.prefix_append _ _),
    hat, hdrop]
  exact hname.trans hequation

/-- The search stops at a declaration that it takes for one of the prefix, and passes over
another one. -/
theorem findNamespace_write {nsPrefix : Option Str}
    (hpre : ∀ p ∈ nsPrefix, ∀ c ∈ p, isNameChar c = true) (rest : Str) :
    findNamespace (d.write ++ rest) nsPrefix =
      if d.readsAs nsPrefix = true then some d.value else findNamespace rest nsPrefix := by
  have hat := namespaceAt_write h hpre rest
  by_cases hreads : d.readsAs nsPrefix = true
  · rw [if_pos hreads] at hat ⊢
    rw [write_append, findNamespace_skip fun c hc => notMem_xmlns_of_isSpace (h.gap c hc),
      findNamespace_hit (List.prefix_append _ _), hat]
    rfl
  · rw [if_neg hreads] at hat ⊢
    exact findNamespace_pass h hat

/-- No declaration is one of a prefix that starts with the word itself. -/
theorem findNamespace_write_xmlns {p : Str} (hp : "xmlns".toList <+: p) (rest : Str) :
    findNamespace (d.write ++ rest) (some p) = findNamespace rest (some p) := by
  refine findNamespace_pass h ?_
  obtain ⟨z, s, hz, hzspace⟩ := head_equation h
  cases hd : d.pre with
  | none =>
      rw [Str.whenSome_none, namespaceAt, namespaceAttrLen, strip_unprefixed h]
      rfl
  | some q =>
      have hsplit : "xmlns".toList ++ (':' :: q ++ (d.equation ++ rest)) =
          "xmlns:".toList ++ (q ++ (d.equation ++ rest)) := rfl
      have hzmem : z ∉ "xmlns".toList := by
        rcases hzspace with hs | rfl
        · exact notMem_xmlns_of_isSpace hs
        · decide
      have hout : ¬ p.isPrefixOf (q ++ (d.equation ++ rest)) = true := by
        rw [List.isPrefixOf_iff_prefix, hz]
        intro hpre
        have hin := Str.prefix_of_notMem (hp.trans hpre) hzmem
        have hnone := (h.pre q hd).2
        obtain ⟨t, rfl⟩ := hin
        rw [show Str.find "xmlns".toList ("xmlns".toList ++ t) = some 0 from rfl] at hnone
        cases hnone
      rw [Str.whenSome_some, hsplit, namespaceAt, namespaceAttrLen, Str.stripPrefix_append]
      simp only [Option.bind_eq_bind, Option.bind_some, if_neg hout, Option.bind_none]

end Declaration

theorem findNamespace_nil (nsPrefix : Option Str) : findNamespace [] nsPrefix = none := by
  rw [findNamespace.eq_def]
  split
  · rfl
  · rename_i hn
    cases hn

/-- Among declarations the first one that is taken for one of the prefix is found. -/
theorem findNamespace_declarations {ds : List Declaration} (h : ∀ d ∈ ds, d.WellFormed)
    {nsPrefix : Option Str} (hpre : ∀ p ∈ nsPrefix, ∀ c ∈ p, isNameChar c = true) :
    findNamespace (ds.flatMap Declaration.write) nsPrefix =
      (ds.find? (Declaration.readsAs nsPrefix)).map Declaration.value := by
  induction ds with
  | nil => exact findNamespace_nil nsPrefix
  | cons d ds ih =>
      rw [List.forall_mem_cons] at h
      rw [List.flatMap_cons, List.find?_cons, Declaration.findNamespace_write h.1 hpre, ih h.2]
      cases d.readsAs nsPrefix <;> rfl

end RustyCastle.Upnp
