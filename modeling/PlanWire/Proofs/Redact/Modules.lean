import Mathlib.Data.List.Forall2
import PlanWire.Proofs.Wire.Laws
import PlanWire.Redact.Plan

/-!
# Modules are redacted in place

Redacting a module tree goes from resource to resource and builds the tree anew
around them. The new tree has the same modules at the same places, and its
resources are listed in the order of the resources that they were made of. A
plan has a tree on each side of its changes. Two trees are related by what
relates their resources, place by place.
-/

set_option autoImplicit false

namespace PlanWire

def State.Module.at? : List Nat → State.Module → Option State.Module
  | [], m => some m
  | i :: place, m => m.children[i]?.bind (at? place)

/-- The resources on one side of the changes: those that the plan starts from
or those that it leads to. -/
def Plan.rootModule? (p : Plan) : Redact.Side → Option State.Module
  | .before => do (← (← p.priorState).values).rootModule
  | .after => do (← p.plannedValues).rootModule

namespace Redact

theorem resource_address (f : Sanitizer) (mask : Option Json) (r : State.Resource) :
    (resource f mask r).address = r.address := by
  cases mask <;> rfl

theorem resource_sensitive (f : Sanitizer) (mask : Option Json) (r : State.Resource) :
    (resource f mask r).sensitive = r.sensitive := by
  cases mask <;> rfl

section Mapping

variable (g : State.Resource → State.Resource)

theorem mapModules_eq_map (ms : List State.Module) : mapModules g ms = ms.map (mapModule g) := by
  induction ms with
  | nil => rfl
  | cons m rest ih => rw [mapModules, ih, List.map_cons]

theorem mapModule_node (m : State.Module) :
    mapModule g m = ⟨m.resources.map g, m.address, m.children.map (mapModule g)⟩ := by
  cases m
  rw [mapModule, mapModules_eq_map]

theorem at?_mapModule (place : List Nat) (m : State.Module) :
    (mapModule g m).at? place = (m.at? place).map (mapModule g) := by
  induction place generalizing m with
  | nil => rfl
  | cons i place ih =>
    rw [mapModule_node, State.Module.at?, State.Module.at?, List.getElem?_map]
    cases m.children[i]? with
    | none => rfl
    | some child => exact ih child

mutual

theorem allResources_mapModule : ∀ m : State.Module,
    (mapModule g m).allResources = m.allResources.map g
  | ⟨resources, _, children⟩ => by
    simp only [mapModule, State.Module.allResources, List.map_append,
      allResourcesOf_mapModules children]

theorem allResourcesOf_mapModules : ∀ ms : List State.Module,
    State.Module.allResourcesOf (mapModules g ms) = (State.Module.allResourcesOf ms).map g
  | [] => rfl
  | m :: rest => by
    simp only [mapModules, State.Module.allResourcesOf, List.map_append,
      allResources_mapModule m, allResourcesOf_mapModules rest]

end

end Mapping

section Lists

variable {α β : Type}

theorem map_eq_map {f : α → β} {xs ys : List α} (h : List.Forall₂ (fun x y => f x = f y) xs ys) :
    xs.map f = ys.map f := by
  rw [← List.forall₂_eq_eq_eq, List.forall₂_map_left_iff, List.forall₂_map_right_iff]
  exact h

theorem option_map_eq {related : α → α → Prop} {f g : α → β} {x y : Option α}
    (h : Option.Rel related x y) (hf : ∀ a b, related a b → f a = g b) : x.map f = y.map g := by
  cases h with
  | some hab => exact congrArg some (hf _ _ hab)
  | none => rfl

theorem list_rel_map {related : α → α → Prop} {g : α → α} (h : ∀ a, related a (g a))
    (xs : List α) : List.Forall₂ related xs (xs.map g) := by
  rw [List.forall₂_map_right_iff, List.forall₂_same]
  exact fun a _ => h a

theorem option_rel_map {related : α → α → Prop} {g : α → α} (h : ∀ a, related a (g a)) :
    ∀ x : Option α, Option.Rel related x (x.map g)
  | none => .none
  | some a => .some (h a)

end Lists

mutual

/-- Module trees of one shape, with the same addresses and with related
resources in the same places. -/
inductive RelatedModules (related : State.Resource → State.Resource → Prop) :
    State.Module → State.Module → Prop
  | node {resources others : List State.Resource} {address : String}
      {children below : List State.Module} (here : List.Forall₂ related resources others)
      (inside : RelatedModuleLists related children below) :
      RelatedModules related ⟨resources, address, children⟩ ⟨others, address, below⟩

inductive RelatedModuleLists (related : State.Resource → State.Resource → Prop) :
    List State.Module → List State.Module → Prop
  | nil : RelatedModuleLists related [] []
  | cons {m n : State.Module} {ms ns : List State.Module} (first : RelatedModules related m n)
      (rest : RelatedModuleLists related ms ns) : RelatedModuleLists related (m :: ms) (n :: ns)

end

section Related

variable {related : State.Resource → State.Resource → Prop} {g : State.Resource → State.Resource}

mutual

theorem mapModule_congr (hg : ∀ r s, related r s → g r = g s) :
    ∀ {m n : State.Module}, RelatedModules related m n → mapModule g m = mapModule g n
  | _, _, .node here inside => by
    have hresources := map_eq_map (here.imp hg)
    have hchildren := mapModules_congr hg inside
    simp only [mapModule, hresources, hchildren]

theorem mapModules_congr (hg : ∀ r s, related r s → g r = g s) :
    ∀ {ms ns : List State.Module}, RelatedModuleLists related ms ns →
      mapModules g ms = mapModules g ns
  | _, _, .nil => rfl
  | _, _, .cons first rest => by
    simp only [mapModules, mapModule_congr hg first, mapModules_congr hg rest]

end

mutual

theorem related_mapModule (hg : ∀ r, related r (g r)) :
    ∀ m : State.Module, RelatedModules related m (mapModule g m)
  | ⟨resources, _, children⟩ =>
    .node (list_rel_map hg resources) (related_mapModules hg children)

theorem related_mapModules (hg : ∀ r, related r (g r)) :
    ∀ ms : List State.Module, RelatedModuleLists related ms (mapModules g ms)
  | [] => .nil
  | m :: rest => .cons (related_mapModule hg m) (related_mapModules hg rest)

end

end Related

theorem rootModule?_of_plan {f : Sanitizer} {p q : Plan} (h : plan f p = .ok q) (side : Side) :
    q.rootModule? side = (p.rootModule? side).map (moduleUnder f p.resourceChanges side) := by
  obtain ⟨declared, -, hq⟩ := bind_eq_ok.1 h
  obtain rfl := Except.ok.inj hq
  cases side with
  | before =>
    cases hprior : p.priorState with
    | none => simp [Plan.rootModule?, hprior]
    | some s => cases hvalues : s.values <;> simp [Plan.rootModule?, hprior, hvalues, values]
  | after => cases hplanned : p.plannedValues <;> simp [Plan.rootModule?, hplanned, values]

/-- Modules of one address with as many children and with resources of the same
addresses, one for one. -/
structure SameModule (m n : State.Module) : Prop where
  address : n.address = m.address
  children : n.children.length = m.children.length
  resources : n.resources.length = m.resources.length
  addresses : n.resources.map (·.address) = m.resources.map (·.address)

section Addresses

variable {g : State.Resource → State.Resource}

theorem sameModule_mapModule (hg : ∀ r, (g r).address = r.address) (m : State.Module) :
    SameModule m (mapModule g m) := by
  rw [mapModule_node]
  constructor
  · rfl
  · exact List.length_map ..
  · exact List.length_map ..
  · rw [List.map_map]
    exact List.map_congr_left fun r _ => hg r

theorem sameModule_at?_mapModule (hg : ∀ r, (g r).address = r.address) (place : List Nat)
    (m : State.Module) :
    Option.Rel SameModule (m.at? place) ((mapModule g m).at? place) := by
  rw [at?_mapModule]
  cases m.at? place with
  | none => exact .none
  | some n => exact .some (sameModule_mapModule hg n)

end Addresses

/-- A redaction keeps every module at its place, with the addresses of its
resources, and lists the resources of the tree in their old order. Each of them
is redacted for itself: under the mask on this side of the first change with its
address or, without changes, under its own. -/
theorem module_keeps_order (f : Sanitizer) (m : State.Module) :
    (∀ changes side,
      (∀ place, Option.Rel SameModule (m.at? place) ((moduleUnder f changes side m).at? place)) ∧
      (moduleUnder f changes side m).allResources = m.allResources.map fun r =>
        resource f ((changes.find? fun rc => rc.address = r.address).bind side.mask) r) ∧
    (∀ place, Option.Rel SameModule (m.at? place) ((module f m).at? place)) ∧
    (module f m).allResources = m.allResources.map fun r => resource f r.sensitive r := by
  refine ⟨fun changes side => ⟨fun place => ?_, ?_⟩, fun place => ?_, ?_⟩
  · exact sameModule_at?_mapModule (fun r => resource_address f _ r) place m
  · exact allResources_mapModule _ m
  · exact sameModule_at?_mapModule (fun r => resource_address f _ r) place m
  · exact allResources_mapModule _ m

end Redact
end PlanWire
