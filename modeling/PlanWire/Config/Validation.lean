import PlanWire.Config.Basic

/-!
# Valid configurations

Every provider configuration has a name and every module call has its module.
The first fault is reported: providers come first, in the order of their keys,
and then the calls in depth-first order, named by the path that leads to them.
-/

set_option autoImplicit false

namespace PlanWire.Config

def validateProviders : Dict Provider → Except Rule Unit
  | [] => .ok ()
  | (key, provider) :: rest =>
    if provider.name.isEmpty then .error (.unnamedProvider key) else validateProviders rest

def callPath (path name : String) : String :=
  if path.isEmpty then "module." ++ name else path ++ ".module." ++ name

mutual

def Module.validate (path : String) : Module → Except Rule Unit
  | ⟨_, _, calls, _⟩ => validateCalls path calls

def validateCalls (path : String) : List (String × Call Module) → Except Rule Unit
  | [] => .ok ()
  | (name, ⟨_, _, _, _, none, _, _⟩) :: _ => .error (.emptyModuleCall (callPath path name))
  | (name, ⟨_, _, _, _, some m, _, _⟩) :: rest => do
    Module.validate (callPath path name) m
    validateCalls path rest

end

def validate (c : Config) : Except Rule Unit := do
  validateProviders c.providers
  match c.rootModule with
  | some m => m.validate ""
  | none => .ok ()

end PlanWire.Config
