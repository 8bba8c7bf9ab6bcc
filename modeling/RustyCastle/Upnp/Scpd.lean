import RustyCastle.Foundation.Decimal
import RustyCastle.Upnp.Xml

/-!
The service description document.
-/

namespace RustyCastle.Upnp.Scpd
open Foundation

inductive ArgumentDirection where
  | input
  | output
  deriving DecidableEq, Repr

def ArgumentDirection.asStr : ArgumentDirection → Str
  | .input => "in".toList
  | .output => "out".toList

structure ArgumentRef where
  name : Str
  direction : ArgumentDirection
  relatedStateVariable : Str
  deriving DecidableEq, Repr

structure ActionRef where
  name : Str
  arguments : List ArgumentRef
  deriving DecidableEq, Repr

structure AllowedValueListRef where
  values : List Str
  deriving DecidableEq, Repr

structure StateVariableRef where
  sendEvents : Bool
  name : Str
  dataType : Str
  defaultValue : Option Str
  allowedValues : Option AllowedValueListRef
  deriving DecidableEq, Repr

structure ScpdRef where
  major : UInt32
  minor : UInt32
  actions : List ActionRef
  stateVariables : List StateVariableRef
  deriving DecidableEq, Repr

def writeArgument (arg : ArgumentRef) : Str :=
  "<argument>".toList ++ writeTextElement "name".toList arg.name ++
    writeTextElement "direction".toList arg.direction.asStr ++
    writeTextElement "relatedStateVariable".toList arg.relatedStateVariable ++
    "</argument>".toList

def writeAction (action : ActionRef) : Str :=
  "<action>".toList ++ writeTextElement "name".toList action.name ++
    (if action.arguments.isEmpty then []
    else "<argumentList>".toList ++ action.arguments.flatMap writeArgument ++
      "</argumentList>".toList) ++
    "</action>".toList

def writeActions (actions : List ActionRef) : Str :=
  if actions.isEmpty then []
  else "<actionList>".toList ++ actions.flatMap writeAction ++ "</actionList>".toList

def writeStateVariable (v : StateVariableRef) : Str :=
  "<stateVariable sendEvents=\"".toList ++ (if v.sendEvents then "yes".toList else "no".toList) ++
    "\">".toList ++ writeTextElement "name".toList v.name ++
    writeTextElement "dataType".toList v.dataType ++
    Str.whenSome v.defaultValue (writeTextElement "defaultValue".toList) ++
    (Str.whenSome v.allowedValues fun list =>
      "<allowedValueList>".toList ++ list.values.flatMap (writeTextElement "allowedValue".toList) ++
        "</allowedValueList>".toList) ++
    "</stateVariable>".toList

def writeStateVariables (vars : List StateVariableRef) : Str :=
  if vars.isEmpty then []
  else "<serviceStateTable>".toList ++ vars.flatMap writeStateVariable ++
    "</serviceStateTable>".toList

def writeScpd (scpd : ScpdRef) : Str :=
  "<?xml version=\"1.0\"?>".toList ++ "<scpd xmlns=\"urn:schemas-upnp-org:service-1-0\">".toList ++
    "<specVersion>".toList ++
    writeDisplayElement "major".toList (Decimal.numeral scpd.major.toNat) ++
    writeDisplayElement "minor".toList (Decimal.numeral scpd.minor.toNat) ++
    "</specVersion>".toList ++ writeActions scpd.actions ++ writeStateVariables scpd.stateVariables ++
    "</scpd>".toList

def scpdToString (scpd : ScpdRef) : Str := writeScpd scpd

end RustyCastle.Upnp.Scpd
