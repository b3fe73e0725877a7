import PlanWire.Config.Validation
import PlanWire.Proofs.Document.Validity

/-!
# What makes a configuration valid

Every provider configuration has a name, and every call carries its module, in
the root module and in every module that is reached from it through calls.
-/

set_option autoImplicit false

namespace PlanWire.Config

open Relation (ReflTransGen)

namespace Module

def LeadsTo (m n : Module) : Prop := ∃ entry ∈ m.calls, entry.2.module = some n

/-- Every call in the module carries a module. -/
def Carried (m : Module) : Prop := ∀ entry ∈ m.calls, entry.2.module.isSome = true

/-- So does every call in the modules that are reached from it. -/
def CarriedBelow (m : Module) : Prop := ∀ n, ReflTransGen LeadsTo m n → n.Carried

theorem carriedBelow_iff {m : Module} :
    m.CarriedBelow ↔ ∀ entry ∈ m.calls, ∃ n, entry.2.module = some n ∧ n.CarriedBelow := by
  rw [CarriedBelow, forall_reachable]
  constructor
  · intro h entry hentry
    obtain ⟨n, hn⟩ := Option.isSome_iff_exists.1 (h.1 entry hentry)
    exact ⟨n, hn, h.2 n ⟨entry, hentry, hn⟩⟩
  · intro h
    constructor
    · intro entry hentry
      obtain ⟨n, hn, -⟩ := h entry hentry
      simp [hn]
    · rintro n ⟨entry, hentry, hn⟩
      obtain ⟨inner, hinner, hbelow⟩ := h entry hentry
      obtain rfl : inner = n := Option.some.inj (hinner.symm.trans hn)
      exact hbelow

end Module

structure Valid (c : Config) : Prop where
  providers : ∀ entry ∈ c.providers, entry.2.name ≠ ""
  calls : ∀ root, c.rootModule = some root →
    ∀ m, ReflTransGen Module.LeadsTo root m → m.Carried

theorem validateProviders_eq_ok {providers : Dict Provider} :
    validateProviders providers = .ok () ↔ ∀ entry ∈ providers, entry.2.name ≠ "" := by
  induction providers with
  | nil => simp [validateProviders]
  | cons entry rest ih =>
    rw [List.forall_mem_cons, ← ih]
    by_cases hname : entry.2.name = ""
    · simp [validateProviders, hname]
    · simp [validateProviders, hname]

mutual

theorem Module.validate_eq_ok : ∀ (path : String) (m : Module),
    m.validate path = .ok () ↔ m.CarriedBelow
  | path, ⟨_, _, calls, _⟩ => by
    rw [Module.validate, Module.carriedBelow_iff]
    exact validateCalls_eq_ok path calls

theorem validateCalls_eq_ok : ∀ (path : String) (calls : List (String × Call Module)),
    validateCalls path calls = .ok () ↔
      ∀ entry ∈ calls, ∃ m, entry.2.module = some m ∧ m.CarriedBelow
  | _, [] => by simp [validateCalls]
  | _, (_, ⟨_, _, _, _, none, _, _⟩) :: _ => by simp [validateCalls]
  | path, (name, ⟨_, _, _, _, some m, _, _⟩) :: rest => by
    have hm := Module.validate_eq_ok (callPath path name) m
    have hrest := validateCalls_eq_ok path rest
    rw [List.forall_mem_cons, ← hrest, validateCalls, then_eq_ok, hm]
    simp

end

theorem validate_eq_ok {c : Config} : c.validate = .ok () ↔ c.Valid := by
  have hvalid : c.Valid ↔ (∀ entry ∈ c.providers, entry.2.name ≠ "") ∧
      ∀ root, c.rootModule = some root → root.CarriedBelow :=
    ⟨fun h => ⟨h.providers, h.calls⟩, fun h => ⟨h.1, h.2⟩⟩
  rw [hvalid, ← validateProviders_eq_ok, validate, then_eq_ok]
  cases c.rootModule with
  | none => simp
  | some root => simp [Module.validate_eq_ok]

end PlanWire.Config
