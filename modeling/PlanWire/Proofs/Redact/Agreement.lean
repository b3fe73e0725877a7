import PlanWire.Proofs.Redact.Deposed

/-!
# One object, redacted in two places

A plan holds an object twice: as a resource of the values that it starts from
or leads to, and as the value before or after the change of this resource. The
attributes of the resource are redacted one by one and the value of the change
as a whole, each with a search for the mask of its own. Unless the mask hides
the whole object, both come to the same.
-/

set_option autoImplicit false

namespace PlanWire

open Redact (Side)

namespace Plan

def resourceAt? (p : Plan) (side : Side) (place : List Nat) (i : Nat) : Option State.Resource := do
  (← (← p.rootModule? side).at? place).resources[i]?

end Plan

namespace Redact

/-- What the object of a change is on this side of it. -/
def Side.object (side : Side) (rc : Plan.ResourceChange) : Option Json := do
  let c ← rc.change
  match side with
  | .before => c.before
  | .after => c.after

section Sanitizer

variable {f : Sanitizer}

/-- Attribute by attribute or as one object: that matters only to a mask that
hides the object as a whole. -/
theorem obj_attributes {mask : Json} (h : mask ≠ .bool true) (d : Dict Json) :
    Json.obj (attributes f mask d) = value f (.obj d) mask := by
  have hkept (hattribute : ∀ name j, attributeValue f mask name j = j) : attributes f mask d = d := by
    simp only [attributes, hattribute, List.map_id']
  cases mask with
  | obj masks => rw [attributes_obj, value]
  | bool b =>
    cases b with
    | true => exact absurd rfl h
    | false =>
      rw [hkept fun _ _ => rfl]
      rfl
  | _ =>
    rw [hkept fun _ _ => rfl]
    rfl

theorem object_resourceChange (side : Side) (rc : Plan.ResourceChange) :
    side.object (resourceChange f rc) = optionalValue f (side.object rc) (side.mask rc) := by
  cases hc : rc.change with
  | none => simp [Side.object, Side.mask, resourceChange, hc, optionalValue]
  | some c => cases side <;> simp [Side.object, Side.mask, resourceChange, hc, change]

theorem resourceChange?_of_plan {p q : Plan} (h : plan f p = .ok q) (address : String) :
    q.resourceChange? address = (p.resourceChange? address).map (resourceChange f) := by
  obtain ⟨declared, -, hq⟩ := bind_eq_ok.1 h
  obtain rfl := Except.ok.inj hq
  exact List.find?_map

theorem resourceAt?_of_plan {p q : Plan} (h : plan f p = .ok q) (side : Side) (place : List Nat)
    (i : Nat) :
    q.resourceAt? side place i = (p.resourceAt? side place i).map fun r =>
      resource f ((p.resourceChange? r.address).bind side.mask) r := by
  rw [Plan.resourceAt?, Plan.resourceAt?, rootModule?_of_plan h]
  cases p.rootModule? side with
  | none => rfl
  | some root =>
    simp only [Option.map_some, Option.bind_eq_bind, Option.bind_some, moduleUnder, at?_mapModule]
    cases root.at? place with
    | none => rfl
    | some m =>
      rw [Option.map_some, Option.bind_some, Option.bind_some, mapModule_node, List.getElem?_map]
      rfl

end Sanitizer

/-- The two redactions of one object agree. In a redacted plan the attributes of
a resource are what becomes of them as one object under the mask of its change;
so where this object is what the change has on this side, the redacted change
has there the attributes of the redacted resource. -/
theorem resource_agrees_with_change (f : Sanitizer) {p q : Plan} (h : plan? f (some p) = .ok q)
    (side : Side) (place : List Nat) (i : Nat) {r : State.Resource}
    (hr : p.resourceAt? side place i = some r) :
    ∃ s, q.resourceAt? side place i = some s ∧
      ∀ rc mask, p.resourceChange? r.address = some rc → side.mask rc = some mask →
        mask ≠ .bool true →
        Json.obj s.attributes = value f (.obj r.attributes) mask ∧
        (side.object rc = some (.obj r.attributes) →
          ∃ redacted, q.resourceChange? r.address = some redacted ∧
            side.object redacted = some (.obj s.attributes)) := by
  have hplan : plan f p = .ok q := h
  have hs := resourceAt?_of_plan hplan side place i
  rw [hr, Option.map_some] at hs
  refine ⟨_, hs, ?_⟩
  intro rc mask hrc hmask hne
  have hattributes : Json.obj (resource f ((p.resourceChange? r.address).bind side.mask) r).attributes =
      value f (.obj r.attributes) mask := by
    rw [hrc, Option.bind_some, hmask]
    exact obj_attributes hne r.attributes
  refine ⟨hattributes, ?_⟩
  intro hobject
  refine ⟨resourceChange f rc, ?_, ?_⟩
  · rw [resourceChange?_of_plan hplan, hrc, Option.map_some]
  · rw [object_resourceChange, hobject, hmask, hattributes]
    rfl

def keyRing (first : Json) : Dict Json :=
  [("keys", .arr [first, .str "public"]), ("name", .str "main")]

def keyRingChange (first : Json) : Plan.ResourceChange := databaseChange ""
  ⟨[.create], some .null, some (.obj (keyRing first)), none, some (.bool false),
    some (.obj [("keys", .arr [.bool true, .bool false])]), none, none, ""⟩

def planWithKeys (first : Json) : Plan :=
  { planReplacing [keyRingChange first] with
    plannedValues := some
      ⟨[], some ⟨[], "", [⟨[{ database "" with attributes := keyRing first }], "module.db", []⟩]⟩⟩ }

theorem resource_agrees_with_change_keyRing :
    plan? (Policy.constant (.str "R")).apply (some (planWithKeys (.str "hunter2"))) =
      .ok (planWithKeys (.str "R")) ∧
    (planWithKeys (.str "hunter2")).resourceAt? .after [0] 0 =
      some { database "" with attributes := keyRing (.str "hunter2") } ∧
    ∃ s, (planWithKeys (.str "R")).resourceAt? .after [0] 0 = some s ∧
      s.attributes = keyRing (.str "R") ∧
      ∃ redacted, (planWithKeys (.str "R")).resourceChange? "db.main" = some redacted ∧
        Side.after.object redacted = some (.obj s.attributes) := by
  have hplan : plan? (Policy.constant (.str "R")).apply (some (planWithKeys (.str "hunter2"))) =
      .ok (planWithKeys (.str "R")) := rfl
  have hresource : (planWithKeys (.str "hunter2")).resourceAt? .after [0] 0 =
      some { database "" with attributes := keyRing (.str "hunter2") } := rfl
  obtain ⟨s, hs, hagrees⟩ := resource_agrees_with_change _ hplan .after [0] 0 hresource
  obtain ⟨hattributes, hobject⟩ := hagrees (keyRingChange (.str "hunter2"))
    (.obj [("keys", .arr [.bool true, .bool false])]) rfl rfl nofun
  exact ⟨hplan, hresource, s, hs, Json.obj.inj hattributes, hobject rfl⟩

end Redact
end PlanWire
