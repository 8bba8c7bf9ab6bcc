import RustyCastle.Foundation.XmlWritten

/-!
Documents of XML 1.0 as trees. Tokens are assembled with a stack of open
elements, and a token list has a forest exactly when it is the flattening of
that forest. A document is an optional declaration and one element, with white
space around it.
-/

namespace Foundation.Xml

inductive Node where
  | element (name : Str) (attrs : List (Str × Str)) (children : List Node)
  | text (value : Str)
  | cdata (value : Str)
  | comment (value : Str)
  | instruction (value : Str)

mutual

def Node.tokens : Node → List Token
  | .element name attrs children =>
      .start name attrs :: (Node.forestTokens children ++ [.finish name])
  | .text value => [.text value]
  | .cdata value => [.cdata value]
  | .comment value => [.comment value]
  | .instruction value => [.instruction value]

def Node.forestTokens : List Node → List Token
  | [] => []
  | n :: ns => n.tokens ++ Node.forestTokens ns

end

/-- The content of an element that holds a text. -/
def textNodes (value : Str) : List Node := if value = [] then [] else [.text value]

/-- An open element with the nodes before it, last node first. -/
structure Frame where
  name : Str
  attrs : List (Str × Str)
  before : List Node

/-- Assembles tokens. `acc` are the finished children of the innermost open
element, last child first. -/
def build : List Token → List Frame → List Node → Option (List Node)
  | [], [], acc => some acc.reverse
  | [], _ :: _, _ => none
  | .start name attrs :: ts, open_, acc => build ts (⟨name, attrs, acc⟩ :: open_) []
  | .finish _ :: _, [], _ => none
  | .finish name :: ts, f :: open_, acc =>
      if name = f.name then build ts open_ (.element f.name f.attrs acc.reverse :: f.before)
      else none
  | .text value :: ts, open_, acc => build ts open_ (.text value :: acc)
  | .cdata value :: ts, open_, acc => build ts open_ (.cdata value :: acc)
  | .comment value :: ts, open_, acc => build ts open_ (.comment value :: acc)
  | .instruction value :: ts, open_, acc => build ts open_ (.instruction value :: acc)

namespace Node

@[simp] theorem forestTokens_nil : forestTokens [] = [] := by rw [forestTokens]

@[simp] theorem forestTokens_cons (n : Node) (ns : List Node) :
    forestTokens (n :: ns) = n.tokens ++ forestTokens ns := by rw [forestTokens]

@[simp] theorem forestTokens_append (ns ms : List Node) :
    forestTokens (ns ++ ms) = forestTokens ns ++ forestTokens ms := by
  induction ns with
  | nil => simp
  | cons n ns ih => simp [ih]

@[simp] theorem tokens_element (name : Str) (attrs : List (Str × Str)) (children : List Node) :
    (element name attrs children).tokens =
      .start name attrs :: (forestTokens children ++ [.finish name]) := by rw [tokens]

@[simp] theorem tokens_text (value : Str) : (text value).tokens = [.text value] := by rw [tokens]

@[simp] theorem forestTokens_textNodes (value : Str) :
    forestTokens (textNodes value) = textTokens value := by
  unfold textNodes textTokens
  split <;> simp

/-- Written elements one after another are read back one by one. -/
theorem tokens_flatMap {α : Type} {write : α → Str} {node : α → Node} {ok : α → Prop}
    (h : ∀ a rest us,
      Xml.tokens (write a ++ rest) = some ((node a).tokens ++ us) ↔
        ok a ∧ Xml.tokens rest = some us)
    (as : List α) (rest : Str) (us : List Token) :
    Xml.tokens (as.flatMap write ++ rest) = some (forestTokens (as.map node) ++ us) ↔
      (∀ a ∈ as, ok a) ∧ Xml.tokens rest = some us := by
  induction as with
  | nil => simp
  | cons a as ih =>
      rw [List.flatMap_cons, List.append_assoc, List.map_cons, forestTokens_cons,
        List.append_assoc, h, ih, List.forall_mem_cons, and_assoc]

mutual

theorem build_tokens (n : Node) (ts : List Token) (open_ : List Frame) (acc : List Node) :
    build (n.tokens ++ ts) open_ acc = build ts open_ (n :: acc) := by
  cases n with
  | element name attrs children =>
      rw [tokens_element, List.cons_append, List.append_assoc, build, build_forest]
      simp [build]
  | text value | cdata value | comment value | instruction value => rfl

theorem build_forest (ns : List Node) (ts : List Token) (open_ : List Frame) (acc : List Node) :
    build (forestTokens ns ++ ts) open_ acc = build ts open_ (ns.reverse ++ acc) := by
  cases ns with
  | nil => simp
  | cons n ns =>
      rw [forestTokens_cons, List.append_assoc, build_tokens, build_forest]
      simp

end

end Node

/-- The tokens that led to a state of the assembly. -/
def openTokens : List Frame → List Node → List Token
  | [], acc => Node.forestTokens acc.reverse
  | f :: open_, acc =>
      openTokens open_ f.before ++ .start f.name f.attrs :: Node.forestTokens acc.reverse

theorem openTokens_cons (open_ : List Frame) (n : Node) (acc : List Node) :
    openTokens open_ (n :: acc) = openTokens open_ acc ++ n.tokens := by
  cases open_ <;> simp [openTokens]

theorem build_sound {ts : List Token} {open_ : List Frame} {acc ns : List Node}
    (h : build ts open_ acc = some ns) : openTokens open_ acc ++ ts = Node.forestTokens ns := by
  fun_induction build ts open_ acc with
  | case1 acc =>
      cases h
      simp [openTokens]
  | case2 => cases h
  | case3 name attrs ts open_ acc ih =>
      rw [← ih h]
      simp [openTokens]
  | case4 => cases h
  | case5 ts f open_ acc ih =>
      rw [← ih h, openTokens_cons]
      simp [openTokens]
  | case6 => cases h
  | case7 _ _ _ _ ih | case8 _ _ _ _ ih | case9 _ _ _ _ ih | case10 _ _ _ _ ih =>
      rw [← ih h, openTokens_cons]
      simp [Node.tokens]

/-- Exactly the flattening of a forest is assembled to it. -/
theorem build_eq_some {ts : List Token} {ns : List Node} :
    build ts [] [] = some ns ↔ ts = Node.forestTokens ns := by
  constructor
  · intro h
    simpa [openTokens] using build_sound h
  · rintro rfl
    have h := Node.build_forest ns [] [] []
    simpa [build] using h

/-- What follows the XML declaration, which may be absent. -/
def afterDeclaration (s : Str) : Option Str :=
  match Str.stripPrefix "<?xml".toList s with
  | none => some s
  | some t => do
      let (declaration, rest) ← Str.cut "?>".toList t
      let (attrs, empty, left) ← readAttributes (declaration ++ ['>'])
      if empty = false ∧ left = [] ∧ attrs.head? = some ("version".toList, "1.0".toList) ∧
          (attrs.tail.map Prod.fst).Sublist ["encoding".toList, "standalone".toList] then some rest
      else none

theorem afterDeclaration_append (s : Str) :
    afterDeclaration ("<?xml version=\"1.0\"?>".toList ++ s) = some s := by
  have hsplit : "<?xml version=\"1.0\"?>".toList ++ s =
      "<?xml".toList ++ (" version=\"1.0\"".toList ++ ("?>".toList ++ s)) := by
    simp
  have hcut : Str.cut "?>".toList (" version=\"1.0\"".toList ++ ("?>".toList ++ s)) =
      some (" version=\"1.0\"".toList, s) := by
    rfl
  have hattrs : readAttributes (" version=\"1.0\"".toList ++ ['>']) =
      some ([("version".toList, "1.0".toList)], false, []) := by
    have hwritten : " version=\"1.0\"".toList = writeAttributes [("version".toList, "1.0".toList)] := by
      decide
    rw [hwritten]
    exact (readAttributes_writeAttributes (by decide)).mpr ⟨by decide, rfl, rfl⟩
  rw [hsplit, afterDeclaration, Str.stripPrefix_append]
  dsimp only
  rw [hcut, Option.bind_eq_bind, Option.bind_some]
  dsimp only
  rw [hattrs]
  rfl

/-- Reads a document: one element, of permitted characters only. -/
def document (s : Str) : Option Node := do
  let body ← afterDeclaration s
  let ts ← tokens ((body.dropWhile isSpace).rdropWhile isSpace)
  match build ts [] [] with
  | some [.element name attrs children] =>
      if s.all isChar then some (.element name attrs children) else none
  | _ => none

/-- A text that stands between its first and last character without white space. -/
theorem strip_eq_self {body : Str} (hhead : ∀ c ∈ body.head?, isSpace c = false)
    (hlast : ∀ c ∈ body.getLast?, isSpace c = false) :
    (body.dropWhile isSpace).rdropWhile isSpace = body := by
  have hd : body.dropWhile isSpace = body := by
    cases body with
    | nil => rfl
    | cons c s => simp [hhead c (by simp)]
  rw [hd, List.rdropWhile_eq_self_iff]
  intro hne
  simpa using hlast _ (List.getLast?_eq_some_getLast hne)

/-- A document without white space around its element is read as the element
whose flattening its tokens are. -/
theorem document_eq_some {s body : Str} {name : Str} {attrs : List (Str × Str)}
    {children : List Node} (hbody : afterDeclaration s = some body)
    (hhead : ∀ c ∈ body.head?, isSpace c = false)
    (hlast : ∀ c ∈ body.getLast?, isSpace c = false) :
    document s = some (.element name attrs children) ↔
      (∀ c ∈ s, isChar c = true) ∧
        tokens body = some (Node.element name attrs children).tokens := by
  have hforest : (Node.element name attrs children).tokens =
      Node.forestTokens [.element name attrs children] := by
    rw [Node.forestTokens_cons, Node.forestTokens_nil, List.append_nil]
  simp only [document, hbody, Option.bind_eq_bind, Option.bind_some, strip_eq_self hhead hlast]
  rw [hforest]
  constructor
  · intro h
    obtain ⟨ts, hts, h⟩ := Option.bind_eq_some_iff.mp h
    split at h
    · rename_i name' attrs' children' hb
      split at h
      · rename_i hall
        rw [Option.some.inj h] at hb
        exact ⟨List.all_eq_true.mp hall, by rw [hts, build_eq_some.mp hb]⟩
      · cases h
    · cases h
  · rintro ⟨hall, hts⟩
    rw [hts, Option.bind_some, build_eq_some.mpr rfl]
    exact if_pos (List.all_eq_true.mpr hall)

end Foundation.Xml
