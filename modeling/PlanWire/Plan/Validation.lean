import PlanWire.Config.Validation
import PlanWire.Plan.Basic
import PlanWire.Time.Strict

/-!
# Valid plans

A plan has a format version that can be handled, changes whose actions go
together, and a valid state and configuration where it has one. The time when
it was made is kept as a text, and is read only when it is asked for.
-/

set_option autoImplicit false

namespace PlanWire.Plan

def ResourceChange.validate (rc : ResourceChange) : Except Rule Unit :=
  match rc.change with
  | some change => (Place.resourceChange rc.address).tell change.validate
  | none => .ok ()

def validateResourceChanges : List ResourceChange → Except Rule Unit
  | [] => .ok ()
  | rc :: rest => do rc.validate; validateResourceChanges rest

def validateOutputChanges : Dict Change → Except Rule Unit
  | [] => .ok ()
  | (name, change) :: rest => do
    (Place.outputChange name).tell change.validate
    validateOutputChanges rest

def validate (p : Plan) : Except Rule Unit := do
  FormatVersion.check .plan p.formatVersion
  validateResourceChanges (p.resourceDrift ++ p.resourceChanges)
  validateOutputChanges p.outputChanges
  match p.priorState with
  | some state => state.validate
  | none => .ok ()
  match p.config with
  | some config => config.validate
  | none => .ok ()

def resourceChange? (p : Plan) (address : String) : Option ResourceChange :=
  p.resourceChanges.find? fun rc => rc.address = address

def createdAt (p : Plan) : Except Rule (Option Timestamp) :=
  if p.timestamp.isEmpty then .ok none
  else ((Time.Strict.timestamp p.timestamp).map some).mapError .planTime

end PlanWire.Plan
