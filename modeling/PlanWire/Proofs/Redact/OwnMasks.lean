import PlanWire.Proofs.Redact.Frame

/-!
# A state redacted by itself

Without a plan every resource is redacted under the mask that it brings along.
Such a mask may be anything: true hides each attribute as a whole, an object
is walked together with the attributes, and everything else hides nothing. Two
states that differ only where their own masks and flags hide them become one
state below a constant, and no redaction touches another part of a state.
-/

set_option autoImplicit false

namespace PlanWire.Redact

def AlikeByOwnMask (r s : State.Resource) : Prop := AlikeResources r.sensitive r s

/-- Masks that reach some attributes; all others hide nothing. -/
inductive ReachesAttributes : Option Json → Prop
  | whole : ReachesAttributes (some (.bool true))
  | members (masks : List (String × Json)) : ReachesAttributes (some (.obj masks))

theorem resource_of_not_reaches (f : Sanitizer) {mask : Option Json} (r : State.Resource)
    (h : ¬ ReachesAttributes mask) : resource f mask r = r := by
  have hkept (mask : Json) (hmask : ∀ name j, attributeValue f mask name j = j) :
      resource f (some mask) r = r := by
    simp [resource, attributes, hmask]
  cases mask with
  | none => rfl
  | some mask =>
    cases mask with
    | bool b =>
      cases b with
      | true => exact absurd .whole h
      | false => exact hkept _ fun _ _ => rfl
    | obj masks => exact absurd (.members masks) h
    | null => exact hkept _ fun _ _ => rfl
    | num n => exact hkept _ fun _ _ => rfl
    | str s => exact hkept _ fun _ _ => rfl
    | arr items => exact hkept _ fun _ _ => rfl

theorem resource_eq_of_own (replacement : Json) (r s : State.Resource) (h : AlikeByOwnMask r s) :
    resource (fun _ => replacement) r.sensitive r = resource (fun _ => replacement) s.sensitive s := by
  have hmask : s.sensitive = r.sensitive := by rw [← h.rest]
  rw [hmask]
  exact resource_eq replacement h

/-- Redacted by itself, a state says nothing about what its own masks and flags
hide: states that differ only there become equal below a constant. A redaction
changes nothing else, and a resource whose mask is neither true nor an object
stays as it is. -/
theorem state_secrecy (s : State) :
    (∀ (replacement : Json) (t : State), RelatedStates AlikeByOwnMask s t →
      state (Policy.constant replacement).apply s =
        state (Policy.constant replacement).apply t) ∧
    ∀ f : Sanitizer,
      RelatedStates
        (fun r t => AlikeByOwnMask r t ∧ (¬ ReachesAttributes r.sensitive → t = r))
        s (state f s) := by
  constructor
  · intro replacement t h
    have hconstant : (Policy.constant replacement).apply = fun _ => replacement := rfl
    have hvalues := option_map_eq h.values fun _ _ =>
      values_congr replacement (resource_eq_of_own replacement)
    rw [hconstant]
    simp only [state, module, hvalues]
    rw [← h.rest]
  · intro f
    have hresource (r : State.Resource) :
        AlikeByOwnMask r (resource f r.sensitive r) ∧
          (¬ ReachesAttributes r.sensitive → resource f r.sensitive r = r) :=
      ⟨alike_resource f r.sensitive r, resource_of_not_reaches f r⟩
    exact ⟨rfl, option_rel_map (related_values f hresource) s.values⟩

namespace stateHolding

def resourceHolding (name : String) (attributes : Dict Json) (mask : Option Json) :
    State.Resource where
  address := name
  mode := .managed
  type := "db"
  name := name
  index := none
  providerName := "example"
  schemaVersion := 0
  attributes := attributes
  sensitive := mask
  dependsOn := []
  tainted := false
  deposedKey := ""

def passwordMask : Json :=
  .obj [("hosts", .arr [.bool false, .bool true]), ("password", .bool true)]

end stateHolding

open stateHolding in
/-- A state with a resource that is hidden as a whole, one whose array mask
hides nothing, and below them one that hides a password and an item of a list. -/
def stateHolding (secret : Json) (token : Option Json) : State where
  formatVersion := "1.0"
  toolVersion := ""
  checks := none
  values := some {
    outputs := [("region", ⟨false, some (.str "eu"), none⟩), ("token", ⟨true, token, none⟩)]
    rootModule := some ⟨[resourceHolding "whole" [("key", secret)] (some (.bool true)),
        resourceHolding "shown" [("key", .null)] (some (.arr [.bool true]))], "",
      [⟨[resourceHolding "main"
        [("hosts", .arr [.str "a", secret, .null]), ("password", secret), ("size", .null)]
        (some passwordMask)], "module.db", []⟩]⟩ }

theorem related_stateHolding (a b : Json) (x y : Option Json) :
    RelatedStates AlikeByOwnMask (stateHolding a x) (stateHolding b y) := by
  have hwhole : AlikeAttributes (some (.bool true)) [("key", a)] [("key", b)] :=
    .masked rfl (.hidden _ _)
  have hhosts : Alike (.arr [.bool false, .bool true])
      (.arr [.str "a", a, .null]) (.arr [.str "a", b, .null]) :=
    .arr (.cons (.same _ _) (.cons (.hidden a b) (.unmasked _)))
  have hmembers : AlikeAttributes (some stateHolding.passwordMask)
      [("hosts", .arr [.str "a", a, .null]), ("password", a), ("size", .null)]
      [("hosts", .arr [.str "a", b, .null]), ("password", b), ("size", .null)] :=
    .masked rfl (.obj (.masked rfl hhosts (.masked rfl (.hidden a b) (.unmasked rfl (.nil _)))))
  have houtputs : Entrywise (fun _ => AlikeOutputs)
      [("region", ⟨false, some (.str "eu"), none⟩), ("token", ⟨true, x, none⟩)]
      [("region", ⟨false, some (.str "eu"), none⟩), ("token", ⟨true, y, none⟩)] :=
    .cons ⟨rfl, rfl, .inr rfl⟩ (.cons ⟨rfl, rfl, .inl rfl⟩ .nil)
  refine ⟨rfl, .some ⟨houtputs, .some (.node ?_ (.cons (.node ?_ .nil) .nil))⟩⟩
  · exact .cons ⟨rfl, hwhole⟩ (.cons ⟨rfl, .same _ _⟩ .nil)
  · exact .cons ⟨rfl, hmembers⟩ .nil

theorem state_secrecy_of_password :
    RelatedStates AlikeByOwnMask (stateHolding (.str "hunter2") none)
        (stateHolding (.arr []) (some .null)) ∧
      state (Policy.constant (.str "R")).apply (stateHolding (.str "hunter2") none) =
        state (Policy.constant (.str "R")).apply (stateHolding (.arr []) (some .null)) :=
  have h := related_stateHolding (.str "hunter2") (.arr []) none (some .null)
  ⟨h, (state_secrecy _).1 (.str "R") _ h⟩

end PlanWire.Redact
