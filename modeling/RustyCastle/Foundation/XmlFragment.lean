import RustyCastle.Foundation.XmlTree

/-!
Pieces of a document, written one after another. Of a piece it is said which
tokens it is read as and which texts were put into it, so that a writer is
treated by putting its pieces together.
-/

namespace Foundation.Xml

/-- A text that a writer puts into a document: with its markup characters
escaped, or as it is. -/
inductive Insert where
  | escaped (value : Str)
  | verbatim (value : Str)
  deriving DecidableEq

def Insert.value : Insert → Str
  | .escaped value => value
  | .verbatim value => value

/-- The insert is read as its text. -/
def Insert.Readable : Insert → Prop
  | .escaped value => '\r' ∉ value
  | .verbatim value => PlainText value ∧ '<' ∉ value

def Insert.isPermitted (x : Insert) : Bool := x.value.all isChar

instance (x : Insert) : Decidable x.Readable :=
  match x with
  | .escaped value => inferInstanceAs (Decidable ('\r' ∉ value))
  | .verbatim value => inferInstanceAs (Decidable (PlainText value ∧ '<' ∉ value))

/-- The piece `s` is read as the tokens `ts` exactly when its inserts are readable. -/
structure Written (s : Str) (ts : List Token) (inserts : List Insert) : Prop where
  read : ∀ rest us, tokens (s ++ rest) = some (ts ++ us) ↔
    (∀ x ∈ inserts, x.Readable) ∧ tokens rest = some us
  permitted : s.all isChar = inserts.all Insert.isPermitted

section
variable {s t : Str} {ts us : List Token} {xs ys : List Insert}

theorem Written.nil : Written [] [] [] where
  read _ _ := by simp
  permitted := rfl

theorem Written.congr (h : Written s ts xs) (hs : t = s) (hts : us = ts) (hxs : ys = xs) :
    Written t us ys := by
  rw [hs, hts, hxs]
  exact h

theorem Written.append (h : Written s ts xs) (h' : Written t us ys) :
    Written (s ++ t) (ts ++ us) (xs ++ ys) where
  read rest vs := by
    rw [List.append_assoc, List.append_assoc, h.read, h'.read, List.forall_mem_append, and_assoc]
  permitted := by rw [List.all_append, List.all_append, h.permitted, h'.permitted]

/-- Inserts may be replaced by others of the same worth. -/
theorem Written.replace (h : Written s ts xs)
    (hread : (∀ x ∈ xs, x.Readable) ↔ ∀ x ∈ ys, x.Readable)
    (hpermitted : xs.all Insert.isPermitted = ys.all Insert.isPermitted) : Written s ts ys where
  read rest us := by rw [h.read, hread]
  permitted := h.permitted.trans hpermitted

theorem Written.startTag (name : Str) (as : List (Str × Str)) (hname : isName name = true)
    (hnames : ∀ a ∈ as, isName a.1 = true) (hdistinct : (as.map Prod.fst).Nodup)
    (hquotable : ∀ a ∈ as, Quotable a.2) (hpermitted : ∀ a ∈ as, a.2.all isChar = true) :
    Written (openTag name as) [.start name as] [] where
  read rest us := by
    rw [List.singleton_append, tokens_openTag hname hnames hdistinct, and_iff_right hquotable]
    simp
  permitted := by
    rw [all_isChar_openTag hname hnames, List.all_eq_true.mpr hpermitted]
    rfl

theorem Written.bareTag (name : Str) (hname : isName name = true) :
    Written (openTag name []) [.start name []] [] :=
  startTag name [] hname (by simp) (by simp) (by simp) (by simp)

theorem Written.endTag (name : Str) (hname : isName name = true) :
    Written (closeTag name) [.finish name] [] where
  read rest us := by
    rw [List.singleton_append, tokens_closeTag_eq_some hname]
    simp
  permitted := all_isChar_closeTag hname

/-- An element around what is written. -/
theorem Written.element {name : Str} {ns : List Node} (hname : isName name = true)
    (h : Written s (Node.forestTokens ns) xs) :
    Written (openTag name [] ++ s ++ closeTag name) (Node.element name [] ns).tokens xs := by
  have hall := ((bareTag name hname).append h).append (endTag name hname)
  rw [List.nil_append, List.append_nil] at hall
  rw [Node.tokens_element, ← List.singleton_append, ← List.append_assoc]
  exact hall

theorem Written.flatMap {α : Type} {write : α → Str} {node : α → Node} {inserts : α → List Insert}
    (h : ∀ a, Written (write a) (node a).tokens (inserts a)) (as : List α) :
    Written (as.flatMap write) (Node.forestTokens (as.map node)) (as.flatMap inserts) := by
  induction as with
  | nil =>
      rw [List.map_nil, Node.forestTokens_nil]
      exact nil
  | cons a as ih =>
      rw [List.flatMap_cons, List.map_cons, Node.forestTokens_cons, List.flatMap_cons]
      exact (h a).append ih

end

/-! Inserts that are written as they are -/

theorem readable_verbatim_append {c : Char} {s t : Str} (hc : c ∉ "]]>".toList)
    (hplain : (Insert.verbatim [c]).Readable) :
    (Insert.verbatim (s ++ c :: t)).Readable ↔
      (Insert.verbatim s).Readable ∧ (Insert.verbatim t).Readable := by
  have hfind := Str.find_append_cons_eq_none (s := s) (t := t) hc (by decide)
  obtain ⟨⟨hamp, hcr, -⟩, hlt⟩ := hplain
  rw [List.mem_singleton] at hamp hcr hlt
  have hnot : ∀ d, d ≠ c → (d ∉ s ++ c :: t ↔ d ∉ s ∧ d ∉ t) := by
    intro d hd
    simp [hd]
  constructor
  · rintro ⟨⟨hampAll, hcrAll, hcdata⟩, hltAll⟩
    rw [hnot _ hamp] at hampAll
    rw [hnot _ hcr] at hcrAll
    rw [hnot _ hlt] at hltAll
    obtain ⟨hs, ht⟩ := hfind.mp hcdata
    exact ⟨⟨⟨hampAll.1, hcrAll.1, hs⟩, hltAll.1⟩, ⟨⟨hampAll.2, hcrAll.2, ht⟩, hltAll.2⟩⟩
  · rintro ⟨⟨⟨hamps, hcrs, hs⟩, hlts⟩, ⟨⟨hampt, hcrt, ht⟩, hltt⟩⟩
    exact ⟨⟨(hnot _ hamp).mpr ⟨hamps, hampt⟩, (hnot _ hcr).mpr ⟨hcrs, hcrt⟩, hfind.mpr ⟨hs, ht⟩⟩,
      (hnot _ hlt).mpr ⟨hlts, hltt⟩⟩

theorem readable_verbatim_of_subset {s alphabet : Str} (h : s ⊆ alphabet)
    (hgt : '>' ∉ alphabet) (ha : '&' ∉ alphabet ∧ '\r' ∉ alphabet ∧ '<' ∉ alphabet) :
    (Insert.verbatim s).Readable :=
  ⟨⟨fun hm => ha.1 (h hm), fun hm => ha.2.1 (h hm),
    Str.find_eq_none_of_mem (c := '>') (by decide) fun hm => hgt (h hm)⟩, fun hm => ha.2.2 (h hm)⟩

theorem readable_verbatim_numeral (n : Nat) : (Insert.verbatim (Decimal.numeral n)).Readable :=
  readable_verbatim_of_subset (Decimal.numeral_subset n) (by decide) (by decide)

end Foundation.Xml
