import RustyCastle.Foundation.XmlQuery
import RustyCastle.Upnp.DeviceReading
import RustyCastle.Upnp.ResponseReading
import RustyCastle.Upnp.Scpd

/-!
What a control point reads from a service description. Every text in it is escaped, and is read
with its line ends; nothing else is lost.
-/

namespace RustyCastle.Upnp.Scpd
open Foundation Foundation.Xml

/-! The document meant -/

def ArgumentRef.node (arg : ArgumentRef) : Node :=
  .element "argument".toList []
    [textElement "name".toList arg.name, textElement "direction".toList arg.direction.asStr,
      textElement "relatedStateVariable".toList arg.relatedStateVariable]

def ActionRef.node (action : ActionRef) : Node :=
  .element "action".toList []
    (textElement "name".toList action.name ::
      listElement "argumentList".toList (action.arguments.map ArgumentRef.node))

def AllowedValueListRef.node (list : AllowedValueListRef) : Node :=
  .element "allowedValueList".toList [] (list.values.map (textElement "allowedValue".toList))

def yesNo (b : Bool) : Str := if b then "yes".toList else "no".toList

def StateVariableRef.node (v : StateVariableRef) : Node :=
  .element "stateVariable".toList [("sendEvents".toList, yesNo v.sendEvents)]
    ([textElement "name".toList v.name, textElement "dataType".toList v.dataType] ++
      optionalElement "defaultValue".toList v.defaultValue ++
      (v.allowedValues.map AllowedValueListRef.node).toList)

def scpdAttrs : List (Str × Str) := [("xmlns".toList, "urn:schemas-upnp-org:service-1-0".toList)]

def ScpdRef.tree (scpd : ScpdRef) : Node :=
  .element "scpd".toList scpdAttrs
    (.element "specVersion".toList []
        [numberElement "major".toList scpd.major, numberElement "minor".toList scpd.minor] ::
      (listElement "actionList".toList (scpd.actions.map ActionRef.node) ++
        listElement "serviceStateTable".toList (scpd.stateVariables.map StateVariableRef.node)))

/-! The control point -/

def readDirection (text : Str) : Option ArgumentDirection :=
  if text = "in".toList then some .input
  else if text = "out".toList then some .output
  else none

def readYesNo (text : Str) : Option Bool :=
  if text = "yes".toList then some true
  else if text = "no".toList then some false
  else none

def readArgument (n : Node) : Option ArgumentRef := do
  let name ← n.childText "name".toList
  let direction ← (n.childText "direction".toList).bind readDirection
  let relatedStateVariable ← n.childText "relatedStateVariable".toList
  some ⟨name, direction, relatedStateVariable⟩

def readAction (n : Node) : Option ActionRef := do
  let name ← n.childText "name".toList
  let arguments ← (n.items "argumentList".toList "argument".toList).mapM readArgument
  some ⟨name, arguments⟩

def readAllowedValues (n : Node) : AllowedValueListRef :=
  ⟨(n.childrenNamed "allowedValue".toList).map Node.innerText⟩

def readStateVariable (n : Node) : Option StateVariableRef := do
  let sendEvents ← (n.attribute "sendEvents".toList).bind readYesNo
  let name ← n.childText "name".toList
  let dataType ← n.childText "dataType".toList
  some
    { sendEvents := sendEvents
      name := name
      dataType := dataType
      defaultValue := n.childText "defaultValue".toList
      allowedValues := (n.child "allowedValueList".toList).map readAllowedValues }

def readNumber (n : Node) (name : Str) : Option UInt32 :=
  ((n.childText name).bind (Decimal.parseUnsigned 32)).map UInt32.ofNat

def readScpd (n : Node) : Option ScpdRef := do
  let version ← n.child "specVersion".toList
  let major ← readNumber version "major".toList
  let minor ← readNumber version "minor".toList
  let actions ← (n.items "actionList".toList "action".toList).mapM readAction
  let stateVariables ←
    (n.items "serviceStateTable".toList "stateVariable".toList).mapM readStateVariable
  some ⟨major, minor, actions, stateVariables⟩

/-! Every description is read from its document -/

theorem readArgument_node (arg : ArgumentRef) : readArgument arg.node = some arg := by
  have hname : arg.node.childText "name".toList = some arg.name :=
    congrArg some (innerText_textNodes _ _ _)
  have hdirection : arg.node.childText "direction".toList = some arg.direction.asStr :=
    congrArg some (innerText_textNodes _ _ _)
  have hrelated : arg.node.childText "relatedStateVariable".toList = some arg.relatedStateVariable :=
    congrArg some (innerText_textNodes _ _ _)
  have hread : readDirection arg.direction.asStr = some arg.direction := by
    cases arg.direction <;> decide
  rw [readArgument, hname, hdirection, hrelated]
  simp only [Option.bind_eq_bind, Option.bind_some, hread]

/-- The items of a list element that stands among others. -/
theorem items_listElement {α : Type} {n : Node} {list item : Str} {node : α → Node} {as : List α}
    (hchild : n.child list = (listElement list (as.map node)).head?)
    (hitem : ∀ a, (node a).isElement item = true) : n.items list item = as.map node := by
  rw [Node.items, hchild, listElement]
  cases as with
  | nil => rfl
  | cons a as => exact filter_isElement hitem (a :: as)

theorem head_listElement (name : Str) (nodes : List Node) :
    (listElement name nodes).find? (Node.isElement name) = (listElement name nodes).head? := by
  unfold listElement
  cases nodes with
  | nil => rfl
  | cons n ns => exact List.find?_cons_of_pos (beq_self_eq_true name)

theorem readAction_node (action : ActionRef) : readAction action.node = some action := by
  have hname : action.node.childText "name".toList = some action.name :=
    congrArg some (innerText_textNodes _ _ _)
  have hitems : action.node.items "argumentList".toList "argument".toList =
      action.arguments.map ArgumentRef.node :=
    items_listElement (head_listElement _ _) fun _ => rfl
  rw [readAction, hname, hitems, mapM_read readArgument_node]
  rfl

theorem readAllowedValues_node (list : AllowedValueListRef) : readAllowedValues list.node = list := by
  have hnamed : list.node.childrenNamed "allowedValue".toList =
      list.values.map (textElement "allowedValue".toList) := filter_isElement (fun _ => rfl) _
  have htext : Node.innerText ∘ textElement "allowedValue".toList = id := by
    funext value
    exact innerText_textNodes _ _ value
  rw [readAllowedValues, hnamed, List.map_map, htext, List.map_id]

theorem readStateVariable_node (v : StateVariableRef) : readStateVariable v.node = some v := by
  have hevents : v.node.attribute "sendEvents".toList = some (yesNo v.sendEvents) := rfl
  have hyesNo : ∀ b, readYesNo (yesNo b) = some b := by decide
  have hname : v.node.childText "name".toList = some v.name :=
    congrArg some (innerText_textNodes _ _ _)
  have hdataType : v.node.childText "dataType".toList = some v.dataType :=
    congrArg some (innerText_textNodes _ _ _)
  have hdefault : v.node.childText "defaultValue".toList = v.defaultValue := by
    obtain ⟨sendEvents, name, dataType, defaultValue, allowedValues⟩ := v
    cases defaultValue with
    | none => cases allowedValues <;> rfl
    | some value => exact congrArg some (innerText_textNodes _ _ value)
  have hallowed : v.node.child "allowedValueList".toList =
      v.allowedValues.map AllowedValueListRef.node := by
    obtain ⟨sendEvents, name, dataType, defaultValue, allowedValues⟩ := v
    cases defaultValue <;> cases allowedValues <;> rfl
  have hvalues : readAllowedValues ∘ AllowedValueListRef.node = id := funext readAllowedValues_node
  rw [readStateVariable, hevents, hname, hdataType, hdefault, hallowed, Option.map_map, hvalues,
    Option.map_id]
  simp only [Option.bind_eq_bind, Option.bind_some, hyesNo, id]

theorem readNumber_numberElement {n : Node} {name : Str} (value : UInt32)
    (h : n.child name = some (numberElement name value)) : readNumber n name = some value := by
  rw [readNumber, Node.childText, h, Option.map_some, numberElement, textElement,
    innerText_textNodes, Option.bind_some, Decimal.parseUnsigned_numeral value.toNat_lt,
    Option.map_some, UInt32.ofNat_toNat]

theorem readScpd_tree (scpd : ScpdRef) : readScpd scpd.tree = some scpd := by
  have hversion : scpd.tree.child "specVersion".toList = some (.element "specVersion".toList []
      [numberElement "major".toList scpd.major, numberElement "minor".toList scpd.minor]) := rfl
  have hactions : scpd.tree.items "actionList".toList "action".toList =
      scpd.actions.map ActionRef.node := by
    refine items_listElement ?_ fun _ => rfl
    have hskip : scpd.tree.child "actionList".toList =
        (listElement "actionList".toList (scpd.actions.map ActionRef.node) ++
          listElement "serviceStateTable".toList
            (scpd.stateVariables.map StateVariableRef.node)).find?
          (Node.isElement "actionList".toList) := rfl
    have hother : (listElement "serviceStateTable".toList
        (scpd.stateVariables.map StateVariableRef.node)).find?
          (Node.isElement "actionList".toList) = none := by
      cases scpd.stateVariables <;> rfl
    rw [hskip, List.find?_append, head_listElement, hother, Option.or_none]
  have hvariables : scpd.tree.items "serviceStateTable".toList "stateVariable".toList =
      scpd.stateVariables.map StateVariableRef.node := by
    refine items_listElement ?_ fun _ => rfl
    have hskip : scpd.tree.child "serviceStateTable".toList =
        (listElement "actionList".toList (scpd.actions.map ActionRef.node) ++
          listElement "serviceStateTable".toList
            (scpd.stateVariables.map StateVariableRef.node)).find?
          (Node.isElement "serviceStateTable".toList) := rfl
    have hother : (listElement "actionList".toList (scpd.actions.map ActionRef.node)).find?
          (Node.isElement "serviceStateTable".toList) = none := by
      cases scpd.actions <;> rfl
    rw [hskip, List.find?_append, head_listElement, hother, Option.none_or]
  rw [readScpd, hversion, hactions, hvariables, mapM_read readAction_node,
    mapM_read readStateVariable_node]
  simp only [Option.bind_eq_bind, Option.bind_some]
  rw [readNumber_numberElement scpd.major rfl,
    readNumber_numberElement scpd.minor rfl]
  rfl

/-! The texts of a description -/

def ArgumentRef.texts (arg : ArgumentRef) : List Str := [arg.name, arg.relatedStateVariable]

def ActionRef.texts (action : ActionRef) : List Str :=
  action.name :: action.arguments.flatMap ArgumentRef.texts

def StateVariableRef.texts (v : StateVariableRef) : List Str :=
  [v.name, v.dataType] ++ v.defaultValue.toList ++
    (v.allowedValues.map AllowedValueListRef.values).getD []

def ScpdRef.texts (scpd : ScpdRef) : List Str :=
  scpd.actions.flatMap ActionRef.texts ++ scpd.stateVariables.flatMap StateVariableRef.texts

def ArgumentRef.withLineEnds (arg : ArgumentRef) : ArgumentRef :=
  { arg with
    name := lineEnds arg.name
    relatedStateVariable := lineEnds arg.relatedStateVariable }

def ActionRef.withLineEnds (action : ActionRef) : ActionRef where
  name := lineEnds action.name
  arguments := action.arguments.map ArgumentRef.withLineEnds

def AllowedValueListRef.withLineEnds (list : AllowedValueListRef) : AllowedValueListRef where
  values := list.values.map lineEnds

def StateVariableRef.withLineEnds (v : StateVariableRef) : StateVariableRef where
  sendEvents := v.sendEvents
  name := lineEnds v.name
  dataType := lineEnds v.dataType
  defaultValue := v.defaultValue.map lineEnds
  allowedValues := v.allowedValues.map AllowedValueListRef.withLineEnds

/-- The description that is read. -/
def ScpdRef.withLineEnds (scpd : ScpdRef) : ScpdRef where
  major := scpd.major
  minor := scpd.minor
  actions := scpd.actions.map ActionRef.withLineEnds
  stateVariables := scpd.stateVariables.map StateVariableRef.withLineEnds

theorem map_eq_self {α : Type} {f : α → α} {as : List α} :
    as.map f = as ↔ ∀ a ∈ as, f a = a := by
  induction as with
  | nil => simp
  | cons a as ih => simp [ih]

theorem withLineEnds_argument {arg : ArgumentRef} :
    arg.withLineEnds = arg ↔ ∀ s ∈ arg.texts, '\r' ∉ s := by
  obtain ⟨name, direction, relatedStateVariable⟩ := arg
  simp [ArgumentRef.withLineEnds, ArgumentRef.texts, lineEnds_eq_self]

theorem withLineEnds_action {action : ActionRef} :
    action.withLineEnds = action ↔ ∀ s ∈ action.texts, '\r' ∉ s := by
  obtain ⟨name, arguments⟩ := action
  rw [ActionRef.withLineEnds, ActionRef.mk.injEq, map_eq_self, lineEnds_eq_self, ActionRef.texts,
    List.forall_mem_cons, List.forall_mem_flatMap]
  exact and_congr_right' (forall₂_congr fun _ _ => withLineEnds_argument)

theorem withLineEnds_allowedValues {list : AllowedValueListRef} :
    list.withLineEnds = list ↔ ∀ s ∈ list.values, '\r' ∉ s := by
  obtain ⟨values⟩ := list
  rw [AllowedValueListRef.withLineEnds, AllowedValueListRef.mk.injEq, map_eq_self]
  simp only [lineEnds_eq_self]

theorem withLineEnds_stateVariable {v : StateVariableRef} :
    v.withLineEnds = v ↔ ∀ s ∈ v.texts, '\r' ∉ s := by
  obtain ⟨sendEvents, name, dataType, defaultValue, allowedValues⟩ := v
  cases defaultValue <;> cases allowedValues <;>
    simp [StateVariableRef.withLineEnds, StateVariableRef.texts, lineEnds_eq_self,
      withLineEnds_allowedValues]

theorem withLineEnds_scpd {scpd : ScpdRef} :
    scpd.withLineEnds = scpd ↔ ∀ s ∈ scpd.texts, '\r' ∉ s := by
  obtain ⟨major, minor, actions, stateVariables⟩ := scpd
  rw [ScpdRef.withLineEnds, ScpdRef.mk.injEq, map_eq_self, map_eq_self, ScpdRef.texts,
    List.forall_mem_append, List.forall_mem_flatMap, List.forall_mem_flatMap]
  simp only [true_and, withLineEnds_action, withLineEnds_stateVariable]

/-! Writing -/

theorem written_text (name : Str) (hname : isName name = true) (value : Str) :
    Written (writeTextElement name value) (textElement name (lineEnds value)).tokens
      ([value].map lineEnded) where
  read rest us := by
    rw [textElement, tokens_writeTextElement hname]
    exact (and_iff_right readable_lineEnded).symm
  permitted := by
    rw [all_isChar_writeTextElement value hname, all_isPermitted_lineEnded, List.all_cons,
      List.all_nil, Bool.and_true]

theorem written_argument (arg : ArgumentRef) :
    Written (writeArgument arg) arg.withLineEnds.node.tokens (arg.texts.map lineEnded) := by
  have hopen : "<argument>".toList = openTag "argument".toList [] := by decide
  have hclose : "</argument>".toList = closeTag "argument".toList := by decide
  have hdirection : Written (writeTextElement "direction".toList arg.direction.asStr)
      (textElement "direction".toList arg.direction.asStr).tokens [] := by
    refine (written_textElement "direction".toList (by decide) arg.direction.asStr).replace ?_ ?_
    · cases arg.direction <;> decide
    · cases arg.direction <;> decide
  have hname := (Written.bareTag "argument".toList (by decide)).append
    (written_text "name".toList (by decide) arg.name)
  have hrelated := (hname.append hdirection).append
    (written_text "relatedStateVariable".toList (by decide) arg.relatedStateVariable)
  refine (hrelated.append (Written.endTag "argument".toList (by decide))).congr ?_ ?_ rfl
  · unfold writeArgument
    simp only [hopen, hclose]
  · simp only [ArgumentRef.node, ArgumentRef.withLineEnds, Node.tokens_element,
      Node.forestTokens_cons, Node.forestTokens_nil, List.append_nil, List.append_assoc,
      List.cons_append, List.nil_append]

/-- A list of written elements with an element around it, left out where it is empty. -/
theorem written_listOf {α : Type} {write : α → Str} {node : α → Node} {read : α → α} {texts : α → List Str}
    (name : Str) (hname : isName name = true)
    (h : ∀ a, Written (write a) (node (read a)).tokens ((texts a).map lineEnded)) (as : List α) :
    Written (if as.isEmpty then [] else openTag name [] ++ as.flatMap write ++ closeTag name)
      (Node.forestTokens (listElement name ((as.map read).map node)))
      ((as.flatMap texts).map lineEnded) := by
  rw [List.map_map, List.map_flatMap]
  refine written_list _ hname (Written.flatMap h as) List.isEmpty_map ?_
  rw [List.isEmpty_iff]
  rintro rfl
  rfl

theorem written_action (action : ActionRef) :
    Written (writeAction action) action.withLineEnds.node.tokens (action.texts.map lineEnded) := by
  have hopen : "<action>".toList = openTag "action".toList [] := by decide
  have hclose : "</action>".toList = closeTag "action".toList := by decide
  have hopenList : "<argumentList>".toList = openTag "argumentList".toList [] := by decide
  have hcloseList : "</argumentList>".toList = closeTag "argumentList".toList := by decide
  have hname := (Written.bareTag "action".toList (by decide)).append
    (written_text "name".toList (by decide) action.name)
  have harguments := hname.append
    (written_listOf "argumentList".toList (by decide) written_argument action.arguments)
  refine (harguments.append (Written.endTag "action".toList (by decide))).congr ?_ ?_ ?_
  · unfold writeAction
    simp only [hopen, hclose, hopenList, hcloseList]
  · simp only [ActionRef.node, ActionRef.withLineEnds, Node.tokens_element, Node.forestTokens_cons,
      List.append_assoc, List.cons_append, List.nil_append]
  · simp only [ActionRef.texts, List.map_cons, List.map_nil, List.nil_append, List.append_nil,
      List.singleton_append]

theorem written_optionalText (name : Str) (hname : isName name = true) (value : Option Str) :
    Written (Str.whenSome value (writeTextElement name))
      (Node.forestTokens (optionalElement name (value.map lineEnds)))
      (value.toList.map lineEnded) := by
  cases value with
  | none =>
      rw [optionalElement, Option.map_none, Option.map_none, Option.toList_none,
        Node.forestTokens_nil]
      exact Written.nil
  | some v =>
      rw [optionalElement, Option.map_some, Option.map_some, Option.toList_some,
        Node.forestTokens_cons, Node.forestTokens_nil, List.append_nil]
      exact written_text name hname v

theorem written_allowedValues (allowedValues : Option AllowedValueListRef) :
    Written (Str.whenSome allowedValues fun list =>
        "<allowedValueList>".toList ++ list.values.flatMap (writeTextElement "allowedValue".toList) ++
          "</allowedValueList>".toList)
      (Node.forestTokens ((allowedValues.map AllowedValueListRef.withLineEnds).map
        AllowedValueListRef.node).toList)
      (((allowedValues.map AllowedValueListRef.values).getD []).map lineEnded) := by
  have hopen : "<allowedValueList>".toList = openTag "allowedValueList".toList [] := by decide
  have hclose : "</allowedValueList>".toList = closeTag "allowedValueList".toList := by decide
  cases allowedValues with
  | none =>
      rw [Option.map_none, Option.map_none, Option.toList_none, Node.forestTokens_nil]
      exact Written.nil
  | some list =>
      have hvalues := Written.flatMap
        (written_text "allowedValue".toList (by decide)) list.values
      have hinserts : (list.values.flatMap fun value => [value].map lineEnded) =
          list.values.map lineEnded := List.map_eq_flatMap.symm
      rw [hinserts] at hvalues
      rw [Str.whenSome_some, hopen, hclose, Option.map_some, Option.map_some, Option.toList_some,
        Node.forestTokens_cons, Node.forestTokens_nil, List.append_nil, AllowedValueListRef.node,
        AllowedValueListRef.withLineEnds, List.map_map]
      exact hvalues.element (by decide)

theorem written_stateVariable (v : StateVariableRef) :
    Written (writeStateVariable v) v.withLineEnds.node.tokens (v.texts.map lineEnded) := by
  have hopen : "<stateVariable sendEvents=\"".toList ++
      (if v.sendEvents then "yes".toList else "no".toList) ++ "\">".toList =
      openTag "stateVariable".toList [("sendEvents".toList, yesNo v.sendEvents)] := by
    cases v.sendEvents <;> decide
  have hclose : "</stateVariable>".toList = closeTag "stateVariable".toList := by decide
  have hstart : Written (openTag "stateVariable".toList [("sendEvents".toList, yesNo v.sendEvents)])
      [.start "stateVariable".toList [("sendEvents".toList, yesNo v.sendEvents)]] [] := by
    cases v.sendEvents <;>
      exact Written.startTag _ _ (by decide) (by decide) (by decide) (by decide) (by decide)
  have hname := hstart.append (written_text "name".toList (by decide) v.name)
  have hdataType := hname.append (written_text "dataType".toList (by decide) v.dataType)
  have hdefault := hdataType.append
    (written_optionalText "defaultValue".toList (by decide) v.defaultValue)
  have hallowed := hdefault.append (written_allowedValues v.allowedValues)
  refine (hallowed.append (Written.endTag "stateVariable".toList (by decide))).congr ?_ ?_ ?_
  · unfold writeStateVariable
    rw [hopen, hclose]
  · simp only [StateVariableRef.node, StateVariableRef.withLineEnds, Node.tokens_element,
      Node.forestTokens_cons, Node.forestTokens_append, List.append_assoc, List.cons_append,
      List.nil_append]
  · simp only [StateVariableRef.texts, List.map_append, List.map_cons, List.map_nil,
      List.cons_append, List.nil_append, List.append_nil]

/-! The document -/

/-- The text after the declaration. -/
def scpdBody (scpd : ScpdRef) : Str :=
  openTag "scpd".toList scpdAttrs ++ openTag "specVersion".toList [] ++
    writeDisplayElement "major".toList (Decimal.numeral scpd.major.toNat) ++
    writeDisplayElement "minor".toList (Decimal.numeral scpd.minor.toNat) ++
    closeTag "specVersion".toList ++ writeActions scpd.actions ++
    writeStateVariables scpd.stateVariables ++ closeTag "scpd".toList

theorem writeScpd_eq (scpd : ScpdRef) :
    writeScpd scpd = "<?xml version=\"1.0\"?>".toList ++ scpdBody scpd := by
  have hopen : "<scpd xmlns=\"urn:schemas-upnp-org:service-1-0\">".toList =
      openTag "scpd".toList scpdAttrs := by
    simp [openTag, writeAttributes, writeAttribute, scpdAttrs]
  have hspec : "<specVersion>".toList = openTag "specVersion".toList [] := by decide
  have hspecEnd : "</specVersion>".toList = closeTag "specVersion".toList := by decide
  have hclose : "</scpd>".toList = closeTag "scpd".toList := by decide
  unfold writeScpd scpdBody
  simp only [hopen, hspec, hspecEnd, hclose, List.append_assoc]

theorem written_scpd (scpd : ScpdRef) :
    Written (scpdBody scpd) scpd.withLineEnds.tree.tokens (scpd.texts.map lineEnded) := by
  have hopenActions : "<actionList>".toList = openTag "actionList".toList [] := by decide
  have hcloseActions : "</actionList>".toList = closeTag "actionList".toList := by decide
  have hopenTable : "<serviceStateTable>".toList = openTag "serviceStateTable".toList [] := by decide
  have hcloseTable : "</serviceStateTable>".toList = closeTag "serviceStateTable".toList := by decide
  have hroot := (Written.startTag "scpd".toList scpdAttrs (by decide) (by decide) (by decide)
    (by decide) (by decide)).append (Written.bareTag "specVersion".toList (by decide))
  have hmajor := hroot.append (written_numberElement "major".toList (by decide) scpd.major)
  have hminor := hmajor.append (written_numberElement "minor".toList (by decide) scpd.minor)
  have hspec := hminor.append (Written.endTag "specVersion".toList (by decide))
  have hactions := hspec.append
    (written_listOf "actionList".toList (by decide) written_action scpd.actions)
  have hvariables := hactions.append
    (written_listOf "serviceStateTable".toList (by decide) written_stateVariable scpd.stateVariables)
  refine (hvariables.append (Written.endTag "scpd".toList (by decide))).congr ?_ ?_ ?_
  · unfold scpdBody writeActions writeStateVariables
    simp only [hopenActions, hcloseActions, hopenTable, hcloseTable]
  · simp only [ScpdRef.tree, ScpdRef.withLineEnds, Node.tokens_element, Node.forestTokens_cons,
      Node.forestTokens_nil, Node.forestTokens_append, List.append_nil, List.append_assoc,
      List.cons_append, List.nil_append]
  · simp only [ScpdRef.texts, List.map_append, List.append_nil, List.nil_append]

theorem all_isChar_writeScpd {scpd : ScpdRef} :
    (writeScpd scpd).all isChar = true ↔ ∀ s ∈ scpd.texts, s.all isChar = true := by
  have hdeclaration : "<?xml version=\"1.0\"?>".toList.all isChar = true := by decide
  rw [writeScpd_eq, List.all_append, hdeclaration, Bool.true_and, (written_scpd scpd).permitted,
    all_isPermitted_lineEnded, List.all_eq_true]

theorem document_writeScpd {scpd : ScpdRef} : document (writeScpd scpd) = some scpd.withLineEnds.tree ↔
    ∀ s ∈ scpd.texts, s.all isChar = true := by
  have hend : (closeTag "scpd".toList).getLast? = some '>' := by decide
  have htokens : tokens (scpdBody scpd) = some scpd.withLineEnds.tree.tokens := by
    have hread := (written_scpd scpd).read [] []
    rw [List.append_nil, List.append_nil] at hread
    exact hread.mpr ⟨readable_lineEnded, tokens_nil⟩
  rw [← all_isChar_writeScpd, List.all_eq_true]
  refine (document_eq_some ?_ ?_ ?_).trans (and_iff_left htokens)
  · rw [writeScpd_eq, afterDeclaration_append]
  · rw [scpdBody]
    rintro _ ⟨⟩
    decide
  · rw [scpdBody, List.getLast?_append, hend]
    rintro _ ⟨⟩
    decide

/-- A control point reads a description as it was written exactly when its texts have permitted
characters only and no carriage return. -/
theorem readScpd_document_iff (scpd : ScpdRef) :
    (document (writeScpd scpd)).bind readScpd = some scpd ↔
      ∀ s ∈ scpd.texts, s.all isChar = true ∧ '\r' ∉ s := by
  rw [forall₂_and, ← withLineEnds_scpd]
  constructor
  · intro h
    obtain ⟨n, hn, -⟩ := Option.bind_eq_some_iff.mp h
    have hchars := all_isChar_writeScpd.mp (all_isChar_of_document hn)
    rw [document_writeScpd.mpr hchars, Option.bind_some, readScpd_tree] at h
    exact ⟨hchars, Option.some.inj h⟩
  · rintro ⟨hchars, hends⟩
    rw [document_writeScpd.mpr hchars, Option.bind_some, readScpd_tree, hends]

end RustyCastle.Upnp.Scpd
