import PlanWire.Action
import PlanWire.DocumentKind
import PlanWire.FormatVersion.Basic
import PlanWire.Text.Quoted
import PlanWire.Time.Basic

/-!
# Broken rules

A document of the right shape may still break a rule. The rule that is broken
names the place where it holds, from the outside in.

The rule that most kinds share is about the version of the format. Its text must
be a version, must be no prerelease and must lie in the range of the kind; a
prerelease of the upper bound lies in the range and is refused all the same.
-/

set_option autoImplicit false

namespace PlanWire

inductive Place where
  | resourceChange (address : String)
  | outputChange (name : String)
  | provider (source : String)
  | schema (name : String)
  | function (name : String)
  deriving DecidableEq

inductive Rule where
  | missingFormatVersion (kind : DocumentKind)
  | invalidFormatVersion (text : String)
  | unsupportedFormatVersion (kind : DocumentKind) (text : String) (least bound : FormatVersion)
  | noActions
  | actionCombination (actions : List Action)
  | unnamedProvider (key : String)
  | emptyModuleCall (path : String)
  | unnamedParameter (position : Nat)
  | attributeWithTwoTypes (name : String)
  | attributeWithoutType (name : String)
  | emptyToolVersion
  | planTime (fault : TimeFault)
  | within (place : Place) (rule : Rule)
  deriving DecidableEq

open Text

def Place.describe : Place → String
  | .resourceChange address => "resource change " ++ quoted address
  | .outputChange name => "output change " ++ quoted name
  | .provider source => "provider " ++ quoted source
  | .schema name => "schema " ++ quoted name
  | .function name => "function " ++ quoted name

namespace Rule

def message : Rule → String
  | .missingFormatVersion kind => "unexpected " ++ kind.name ++ " input, format version is missing"
  | .invalidFormatVersion text => "invalid format version " ++ quoted text
  | .unsupportedFormatVersion kind text least bound =>
    "unsupported " ++ kind.name ++ " format version: " ++ quoted text ++
      " does not satisfy \">= " ++ least.text ++ ", < " ++ bound.text ++ "\""
  | .noActions => "change actions must not be empty"
  | .actionCombination actions =>
    "invalid change action combination [" ++ String.intercalate ", " (actions.map Action.label) ++ "]"
  | .unnamedProvider key => "provider config " ++ quoted key ++ " has an empty name"
  | .emptyModuleCall path => "module call " ++ quoted path ++ " has no module"
  | .unnamedParameter position => "parameter " ++ toString position ++ " has no name"
  | .attributeWithTwoTypes name => "attribute " ++ quoted name ++ " sets both type and nested_type"
  | .attributeWithoutType name => "attribute " ++ quoted name ++ " has neither type nor nested_type"
  | .emptyToolVersion => "version output has an empty terraform_version"
  | .planTime fault => "invalid plan timestamp: " ++ fault.message
  | .within place rule => place.describe ++ ": " ++ rule.message

end Rule

def Place.tell {α : Type} (place : Place) : Except Rule α → Except Rule α :=
  Except.mapError (.within place)

namespace FormatVersion

def supported : Range := ⟨release 0 1, release 2 0⟩

def checkIn (range : Range) (kind : DocumentKind) (text : String) : Except Rule Unit :=
  if text.isEmpty then .error (.missingFormatVersion kind)
  else match ofString? text with
    | none => .error (.invalidFormatVersion text)
    | some v =>
      if v.prerelease || !range.contains v then
        .error (.unsupportedFormatVersion kind text range.least range.bound)
      else .ok ()

def check (kind : DocumentKind) (text : String) : Except Rule Unit := checkIn supported kind text

end FormatVersion

end PlanWire
