import PlanWire.Proofs.Redact.Frame
import PlanWire.Proofs.Redact.Modules

/-!
# Changes of deposed objects

Of the changes with one address one is for the current object and the others
are for objects that were deposed. The attributes of a resource are redacted
under the mask of the first change with its address, whichever object it is
for. So a deposed object whose change comes first takes the mask of the current
object away, and what only that mask hides is shown.
-/

set_option autoImplicit false

namespace PlanWire

namespace Plan

def plannedResources (p : Plan) : List State.Resource :=
  match p.plannedValues.bind (·.rootModule) with
  | some m => m.allResources
  | none => []

/-- Exactly one change with the address is for the current object, and it is this one. -/
def CurrentChange (p : Plan) (address : String) (rc : ResourceChange) : Prop :=
  p.resourceChanges.filter (fun c => c.address = address ∧ c.deposed = "") = [rc]

/-- No change with the address stands before this one. -/
def FirstChange (p : Plan) (address : String) (rc : ResourceChange) : Prop :=
  rc.address = address ∧ ∃ before behind, p.resourceChanges = before ++ rc :: behind ∧
    ∀ c ∈ before, c.address ≠ address

theorem resourceChange?_eq_some {p : Plan} {address : String} {rc : ResourceChange} :
    p.resourceChange? address = some rc ↔ p.FirstChange address rc := by
  simp [resourceChange?, FirstChange, List.find?_eq_some_iff_append]

theorem CurrentChange.first {p : Plan} {address : String} {rc : ResourceChange}
    (h : p.CurrentChange address rc) :
    p.FirstChange address rc ∨ ∃ first, p.FirstChange address first ∧ first.deposed ≠ "" := by
  have hmem (c : ResourceChange) :
      c ∈ p.resourceChanges ∧ c.address = address ∧ c.deposed = "" ↔ c = rc := by
    have hfilter : c ∈ p.resourceChanges.filter (fun c => c.address = address ∧ c.deposed = "") ↔
        c ∈ [rc] := by
      rw [show p.resourceChanges.filter _ = [rc] from h]
    simpa using hfilter
  obtain ⟨hrc, haddress, -⟩ := (hmem rc).2 rfl
  cases hfind : p.resourceChange? address with
  | none =>
    have hnone := List.find?_eq_none.1 hfind rc hrc
    exact absurd haddress (by simpa using hnone)
  | some first =>
    have hfirst := resourceChange?_eq_some.1 hfind
    by_cases hdeposed : first.deposed = ""
    · have hin : first ∈ p.resourceChanges := List.mem_of_find?_eq_some hfind
      obtain rfl := (hmem first).1 ⟨hin, hfirst.1, hdeposed⟩
      exact .inl hfirst
    · exact .inr ⟨first, hfirst, hdeposed⟩

end Plan

namespace Redact

theorem plannedResources_of_plan {f : Sanitizer} {p q : Plan} (h : plan f p = .ok q) :
    q.plannedResources = p.plannedResources.map fun r => resource f (p.afterMask? r.address) r := by
  have hroot : q.plannedValues.bind (·.rootModule) =
      (p.plannedValues.bind (·.rootModule)).map (moduleUnder f p.resourceChanges .after) :=
    rootModule?_of_plan h .after
  rw [Plan.plannedResources, Plan.plannedResources, hroot]
  cases p.plannedValues.bind (·.rootModule) with
  | none => rfl
  | some m => exact allResources_mapModule _ m

theorem planned_of_first {f : Sanitizer} {p q : Plan} (h : plan f p = .ok q) {i : Nat}
    {r : State.Resource} (hr : p.plannedResources[i]? = some r) {rc : Plan.ResourceChange}
    (hfirst : p.FirstChange r.address rc) :
    q.plannedResources[i]? = some (resource f (Side.after.mask rc) r) := by
  have hmask : p.afterMask? r.address = Side.after.mask rc := by
    rw [Plan.afterMask?, Plan.resourceChange?_eq_some.2 hfirst]
    rfl
  rw [plannedResources_of_plan h, List.getElem?_map, hr, Option.map_some, hmask]

/-- Each planned resource of a redacted plan is redacted under the mask of the
first change with its address. If exactly one change there is for the current
object, it is its mask when it comes first, and otherwise the mask of a deposed
object. -/
theorem planned_under_first_change (f : Sanitizer) {p : Plan} (hp : ¬ p.LacksDeclarations) :
    ∃ q, plan? f (some p) = .ok q ∧ ∀ (i : Nat) r, p.plannedResources[i]? = some r →
      (∀ rc, p.FirstChange r.address rc →
        q.plannedResources[i]? = some (resource f (Side.after.mask rc) r)) ∧
      ∀ rc, p.CurrentChange r.address rc →
        p.FirstChange r.address rc ∧
          q.plannedResources[i]? = some (resource f (Side.after.mask rc) r) ∨
        ∃ other, p.FirstChange r.address other ∧ other.deposed ≠ "" ∧
          q.plannedResources[i]? = some (resource f (Side.after.mask other) r) := by
  obtain ⟨q, hq, -⟩ := plan_of_declared f hp
  refine ⟨q, hq, ?_⟩
  intro i r hr
  refine ⟨fun rc hfirst => planned_of_first hq hr hfirst, ?_⟩
  intro rc hcurrent
  rcases hcurrent.first with hfirst | ⟨other, hfirst, hdeposed⟩
  · exact .inl ⟨hfirst, planned_of_first hq hr hfirst⟩
  · exact .inr ⟨other, hfirst, hdeposed, planned_of_first hq hr hfirst⟩

section Database

def database (password : String) : State.Resource where
  address := "db.main"
  mode := .managed
  type := "db"
  name := "main"
  index := none
  providerName := ""
  schemaVersion := 0
  attributes := [("password", .str password)]
  sensitive := none
  dependsOn := []
  tainted := false
  deposedKey := ""

def databaseChange (deposed : String) (change : Change) : Plan.ResourceChange where
  address := "db.main"
  previousAddress := ""
  moduleAddress := ""
  mode := .managed
  type := "db"
  name := "main"
  index := none
  deposed := deposed
  change := some change
  actionReason := ""
  providerName := ""

def creation : Plan.ResourceChange := databaseChange ""
  ⟨[.create], some .null, some (.obj [("password", .str "hunter2")]), none, some (.bool false),
    some (.obj [("password", .bool true)]), none, none, ""⟩

def deletion : Plan.ResourceChange := databaseChange "00000001"
  ⟨[.delete], some (.obj [("password", .str "old")]), some .null, none,
    some (.obj [("password", .bool true)]), some (.bool false), none, none, ""⟩

def planReplacing (changes : List Plan.ResourceChange) : Plan where
  formatVersion := "1.2"
  toolVersion := ""
  variableValues := []
  plannedValues := some ⟨[], some ⟨[database "hunter2"], "", []⟩⟩
  resourceDrift := []
  resourceChanges := changes
  outputChanges := []
  priorState := none
  config := none
  relevantAttributes := []
  checks := none
  timestamp := ""
  errored := false
  applyable := false
  complete := false

theorem creation_hides :
    resource (Policy.constant (.str "R")).apply (Side.after.mask creation) (database "hunter2") =
      database "R" := by
  have hmask : Side.after.mask creation = some (.obj [("password", .bool true)]) := rfl
  simp [hmask, resource, attributes, attributeValue, Dict.get?, value, Policy.apply, database]

theorem deletion_shows (f : Sanitizer) (r : State.Resource) :
    resource f (Side.after.mask deletion) r = r := by
  have hmask : Side.after.mask deletion = some (.bool false) := rfl
  simp [hmask, resource, attributes, attributeValue]

theorem planned_under_first_change_creation :
    ¬ (planReplacing [creation, deletion]).LacksDeclarations ∧
      ∃ q, plan? (Policy.constant (.str "R")).apply (some (planReplacing [creation, deletion])) =
        .ok q ∧ q.plannedResources[0]? = some (database "R") := by
  have hdeclared : ¬ (planReplacing [creation, deletion]).LacksDeclarations := fun h => h.1 rfl
  obtain ⟨q, hq, hplanned⟩ :=
    planned_under_first_change (Policy.constant (.str "R")).apply hdeclared
  have hfirst : (planReplacing [creation, deletion]).FirstChange "db.main" creation :=
    ⟨rfl, [], [deletion], rfl, by simp⟩
  have hunder := (hplanned 0 (database "hunter2") rfl).1 creation hfirst
  rw [creation_hides] at hunder
  exact ⟨hdeclared, q, hq, hunder⟩

/-- Behind the deletion of the deposed object, the creation does not hide the
password of the current one. -/
theorem password_shown_behind_deposed :
    (planReplacing [deletion, creation]).plannedResources[0]? = some (database "hunter2") ∧
      (database "hunter2").deposedKey = "" ∧
      (planReplacing [deletion, creation]).CurrentChange (database "hunter2").address creation ∧
      ∃ q, plan? (Policy.constant (.str "R")).apply (some (planReplacing [deletion, creation])) =
        .ok q ∧ q.plannedResources[0]? = some (database "hunter2") ∧
        q.plannedResources[0]? ≠ some (resource (Policy.constant (.str "R")).apply
          (Side.after.mask creation) (database "hunter2")) := by
  have hplanned :
      (planReplacing [deletion, creation]).plannedResources[0]? = some (database "hunter2") := rfl
  have hcurrent :
      (planReplacing [deletion, creation]).CurrentChange (database "hunter2").address creation := by
    simp [Plan.CurrentChange, planReplacing, deletion, creation, databaseChange, database]
  have hfirst : (planReplacing [deletion, creation]).FirstChange "db.main" deletion :=
    ⟨rfl, [], [creation], rfl, by simp⟩
  obtain ⟨q, hq, -⟩ := plan_of_declared (Policy.constant (.str "R")).apply
    (p := planReplacing [deletion, creation]) fun h => h.1 rfl
  have hshown : q.plannedResources[0]? = some (database "hunter2") := by
    rw [planned_of_first hq hplanned hfirst, deletion_shows]
  refine ⟨hplanned, rfl, hcurrent, q, hq, hshown, ?_⟩
  rw [hshown, creation_hides]
  simp [database]

end Database

end Redact
end PlanWire
