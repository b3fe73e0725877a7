import PlanWire.Rule
import PlanWire.Wire.Fault

/-!
# Errors

Everything that may go wrong with a document, with its wording.
-/

set_option autoImplicit false

namespace PlanWire

inductive Cause where
  | shape (fault : Fault)
  | rule (rule : Rule)
  deriving DecidableEq

def Cause.message : Cause → String
  | .shape f => f.message
  | .rule r => r.message

inductive Input where
  | plan
  | rootModuleConfiguration
  deriving DecidableEq

def Input.name : Input → String
  | .plan => "plan"
  | .rootModuleConfiguration => "root module configuration"

inductive Error where
  | malformedInput
  | schemaViolation (cause : Cause)
  | unknownField (kind : DocumentKind) (field : String)
  | notCollection (typeName : String)
  | nilInput (what : Input)
  deriving DecidableEq

namespace Error

open Text in
def message : Error → String
  | .malformedInput => "input is not a valid JSON"
  | .schemaViolation cause => cause.message
  | .unknownField kind field => "unknown field " ++ quoted field ++ " in " ++ kind.name ++ " input"
  | .notCollection typeName => quoted typeName ++ " is not a collection type"
  | .nilInput what => "nil " ++ what.name ++ " supplied"

def shape (f : Fault) : Error := .schemaViolation (.shape f)

def rule (r : Rule) : Error := .schemaViolation (.rule r)

end Error

def ofShape {α : Type} : Except Fault α → Except Error α := Except.mapError Error.shape

def ofRule {α : Type} : Except Rule α → Except Error α := Except.mapError Error.rule

end PlanWire
