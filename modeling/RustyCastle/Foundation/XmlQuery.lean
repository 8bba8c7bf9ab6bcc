import RustyCastle.Foundation.XmlFragment

/-!
Reading values out of a document: the child elements of a name, their texts and their attributes.
Escaped texts are read with their line ends.
-/

namespace Foundation.Xml

/-! Queries -/

def Node.isElement (name : Str) : Node → Bool
  | .element tag _ _ => tag == name
  | _ => false

def Node.children : Node → List Node
  | .element _ _ children => children
  | _ => []

def Node.attribute (key : Str) : Node → Option Str
  | .element _ attrs _ => attrs.lookup key
  | _ => none

/-- The text directly in an element. -/
def Node.innerText (n : Node) : Str :=
  n.children.flatMap fun
    | .text value => value
    | .cdata value => value
    | _ => []

/-- The first child element of a name. -/
def Node.child (n : Node) (name : Str) : Option Node := n.children.find? (isElement name)

def Node.childrenNamed (n : Node) (name : Str) : List Node := n.children.filter (isElement name)

def Node.childText (n : Node) (name : Str) : Option Str := (n.child name).map innerText

/-- The items of a list element, none where it is left out. -/
def Node.items (n : Node) (list item : Str) : List Node :=
  (n.child list).elim [] fun l => l.childrenNamed item

theorem innerText_textNodes (name : Str) (attrs : List (Str × Str)) (value : Str) :
    (Node.element name attrs (textNodes value)).innerText = value := by
  unfold Node.innerText textNodes
  by_cases h : value = []
  · rw [if_pos h, h]
    rfl
  · rw [if_neg h]
    exact List.append_nil value

theorem filter_isElement {α : Type} {name : Str} {node : α → Node}
    (h : ∀ a, (node a).isElement name = true) (as : List α) :
    (as.map node).filter (Node.isElement name) = as.map node :=
  List.filter_eq_self.mpr (List.forall_mem_map.mpr fun a _ => h a)

/-- What is read from the elements of a list is what was put into them. -/
theorem mapM_read {α : Type} {read : Node → Option α} {node : α → Node}
    (h : ∀ a, read (node a) = some a) (as : List α) : (as.map node).mapM read = some as := by
  induction as with
  | nil => rfl
  | cons a as ih => rw [List.map_cons, List.mapM_cons, h, ih]; rfl

/-! Line ends -/

/-- An escaped text that is read with its line ends. -/
def lineEnded (value : Str) : Insert := .escaped (lineEnds value)

theorem readable_lineEnded {values : List Str} : ∀ x ∈ values.map lineEnded, x.Readable :=
  List.forall_mem_map.mpr fun value _ => cr_notMem_lineEnds value

theorem all_isChar_lineEnds_eq (s : Str) : (lineEnds s).all isChar = s.all isChar := by
  have hcr : isChar '\r' = true := by decide
  have hlf : isChar '\n' = true := by decide
  fun_induction lineEnds s with
  | case1 => rfl
  | case2 s ih => rw [List.all_cons, List.all_cons, List.all_cons, ih, hcr, hlf, Bool.true_and,
      Bool.true_and]
  | case3 c s h ih =>
      rw [List.all_cons, List.all_cons, ih]
      split
      · rename_i hc
        rw [hc, hcr, hlf]
      · rfl

theorem all_isPermitted_lineEnded (values : List Str) :
    (values.map lineEnded).all Insert.isPermitted = values.all fun value => value.all isChar := by
  have heach : Insert.isPermitted ∘ lineEnded = fun value => value.all isChar := by
    funext value
    exact all_isChar_lineEnds_eq value
  rw [List.all_map, heach]

end Foundation.Xml
