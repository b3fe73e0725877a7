import PlanWire.Proofs.Config.Valid
import PlanWire.Proofs.FormatVersion.Supported

/-!
# What makes a plan valid

The format versions of a plan and of its prior state are supported, the actions
of every change go together, and the configuration is valid. A lenient reading
takes a plan of the right shape exactly when this holds.
-/

set_option autoImplicit false

namespace PlanWire

open Relation (ReflTransGen)

namespace Change

/-- The actions that go together. -/
def combinations : List (List Action) :=
  [[.noOp], [.create], [.read], [.update], [.delete], [.delete, .create], [.create, .delete],
    [.deleteThenCreate], [.createThenDelete]]

def Combined (c : Change) : Prop := c.actions ∈ combinations

theorem exists_ofActions {actions : List Action} :
    (∃ kind, ChangeKind.ofActions actions = .ok kind) ↔ actions ∈ combinations := by
  constructor
  · rintro ⟨kind, h⟩
    unfold ChangeKind.ofActions at h
    split at h
    all_goals first | decide | cases h
  · intro h
    simp only [combinations, List.mem_cons, List.not_mem_nil, or_false] at h
    rcases h with rfl | rfl | rfl | rfl | rfl | rfl | rfl | rfl | rfl
    all_goals exact ⟨_, rfl⟩

theorem validate_eq_ok {c : Change} : c.validate = .ok () ↔ c.Combined := by
  rw [Combined, ← exists_ofActions, validate, kind, map_eq_ok]
  simp

end Change

namespace Plan

structure Valid (p : Plan) : Prop where
  version : FormatVersion.Supported p.formatVersion
  drift : ∀ rc ∈ p.resourceDrift, ∀ c, rc.change = some c → c.Combined
  changes : ∀ rc ∈ p.resourceChanges, ∀ c, rc.change = some c → c.Combined
  outputs : ∀ entry ∈ p.outputChanges, entry.2.Combined
  prior : ∀ s, p.priorState = some s → FormatVersion.Supported s.formatVersion
  providers : ∀ c, p.config = some c → ∀ entry ∈ c.providers, entry.2.name ≠ ""
  calls : ∀ c, p.config = some c → ∀ root, c.rootModule = some root →
    ∀ m, ReflTransGen Config.Module.LeadsTo root m → m.Carried

theorem ResourceChange.validate_eq_ok {rc : ResourceChange} :
    rc.validate = .ok () ↔ ∀ c, rc.change = some c → c.Combined := by
  cases hc : rc.change with
  | none => simp [validate, hc]
  | some c => simp [validate, hc, Place.tell_eq_ok, Change.validate_eq_ok]

theorem validateResourceChanges_eq_ok {changes : List ResourceChange} :
    validateResourceChanges changes = .ok () ↔
      ∀ rc ∈ changes, ∀ c, rc.change = some c → c.Combined :=
  loop_eq_ok rfl (fun _ _ => rfl) fun _ => ResourceChange.validate_eq_ok

theorem validateOutputChanges_eq_ok {changes : Dict Change} :
    validateOutputChanges changes = .ok () ↔ ∀ entry ∈ changes, entry.2.Combined :=
  loop_eq_ok rfl (fun _ _ => rfl) fun _ => Place.tell_eq_ok.trans Change.validate_eq_ok

theorem validate_checks {p : Plan} :
    p.validate = .ok () ↔
      FormatVersion.check .plan p.formatVersion = .ok () ∧
      validateResourceChanges (p.resourceDrift ++ p.resourceChanges) = .ok () ∧
      validateOutputChanges p.outputChanges = .ok () ∧
      (∀ s, p.priorState = some s → s.validate = .ok ()) ∧
      ∀ c, p.config = some c → c.validate = .ok () := by
  rw [validate, then_eq_ok, then_eq_ok, then_eq_ok]
  cases p.priorState with
  | none => cases p.config <;> simp [then_eq_ok]
  | some s => cases p.config <;> simp [then_eq_ok]

theorem validate_eq_ok {p : Plan} : p.validate = .ok () ↔ p.Valid := by
  simp only [validate_checks, FormatVersion.check_eq_ok, validateResourceChanges_eq_ok,
    validateOutputChanges_eq_ok, State.validate, Config.validate_eq_ok, List.forall_mem_append]
  constructor
  · rintro ⟨hversion, ⟨hdrift, hchanges⟩, houtputs, hprior, hconfig⟩
    exact ⟨hversion, hdrift, hchanges, houtputs, hprior, fun c hc => (hconfig c hc).providers,
      fun c hc => (hconfig c hc).calls⟩
  · intro h
    exact ⟨h.version, ⟨h.drift, h.changes⟩, h.outputs, h.prior,
      fun c hc => ⟨h.providers c hc, h.calls c hc⟩⟩

end Plan

namespace Document

/-- A plan of the right shape is read exactly when it is valid, and otherwise
the rule that it breaks is reported. -/
theorem plan_read_iff_valid {members : List (String × Json)} {p : Plan}
    (hversion : (Dict.get? "format_version" members).isSome = true)
    (hfields : Plan.record.ofMembers members = .ok p) :
    (ofJson false (.obj members) .plan = .ok (plan p) ↔ p.Valid) ∧
      (¬ p.Valid → ∃ rule, ofJson false (.obj members) .plan = .error (.rule rule)) := by
  have hread : ofJson false (.obj members) .plan = (ofRule p.validate).map fun _ => plan p :=
    @Format.map_ofJson_of_fields _ Plan.format plan _ _ hversion hfields
  rw [hread]
  exact judged Plan.validate_eq_ok (plan p)

def nestedCalls (inner : List (String × Json)) : List (String × Json) := [
  ("configuration", .obj [
    ("provider_config", .obj [("aws", .obj [("name", .str "aws")])]),
    ("root_module", .obj [("module_calls", .obj [("net", .obj [
      ("module", .obj [("module_calls", .obj [("dns", .obj inner)])]),
      ("source", .str "./net")])])])]),
  ("format_version", .str "1.2"),
  ("prior_state", .obj [("format_version", .str "v0.2+build")]),
  ("resource_drift", .arr [.obj [
    ("address", .str "db.main"),
    ("change", .obj [("actions", .arr [.str "delete", .str "Create"])]),
    ("mode", .str "managed"),
    ("name", .str "main"),
    ("type", .str "db")]])]

def nestedPlan (carried : Option Config.Module) : Plan where
  formatVersion := "1.2"
  toolVersion := ""
  variableValues := []
  plannedValues := none
  resourceDrift := [⟨"db.main", "", "", .managed, "db", "main", none, "",
    some ⟨[.delete, .create], none, none, none, none, none, none, none, ""⟩, "", ""⟩]
  resourceChanges := []
  outputChanges := []
  priorState := some ⟨"v0.2+build", "", none, none⟩
  config := some ⟨[("aws", ⟨"aws", "", "", "", [], ""⟩)],
    some ⟨[], [], [("net", calling (some ⟨[], [], [("dns", calling carried "./dns")], []⟩)
      "./net")], []⟩⟩
  relevantAttributes := []
  checks := none
  timestamp := ""
  errored := false
  applyable := false
  complete := false
where
  calling (module : Option Config.Module) (source : String) : Config.Call Config.Module :=
    ⟨source, [], none, none, module, "", []⟩

theorem plan_read_iff_valid_nestedPlan :
    Plan.record.ofMembers (nestedCalls [("source", .str "./dns")]) = .ok (nestedPlan none) ∧
      ¬ (nestedPlan none).Valid ∧
      (∃ rule, ofJson false (.obj (nestedCalls [("source", .str "./dns")])) .plan =
        .error (.rule rule)) ∧
      (nestedPlan (some ⟨[], [], [], []⟩)).Valid := by
  have hfields : Plan.record.ofMembers (nestedCalls [("source", .str "./dns")]) =
      .ok (nestedPlan none) := rfl
  have hpart := plan_read_iff_valid rfl hfields
  have hinvalid : ¬ (nestedPlan none).Valid := by
    intro hvalid
    cases hpart.1.2 hvalid
  have hwhole := @plan_read_iff_valid
    (nestedCalls [("module", .obj []), ("source", .str "./dns")]) _ rfl rfl
  exact ⟨hfields, hinvalid, hpart.2 hinvalid, hwhole.1.1 rfl⟩

end Document
end PlanWire
