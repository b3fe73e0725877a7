import PlanWire.Proofs.Config.Tree
import PlanWire.Proofs.Config.Valid
import PlanWire.Proofs.Wire.Restored

/-!
# Configurations in order

Providers and calls stand in the order of their names in every configuration
that is read. A value that is read again from its own tree is ordered at each
level, since its dictionaries come back sorted.
-/

set_option autoImplicit false

namespace PlanWire.Config

open Relation (ReflTransGen)

namespace Module

/-- In this module and in those that are reached from it the calls stand in the
order of their names. -/
def OrderedBelow (m : Module) : Prop :=
  ∀ n, ReflTransGen LeadsTo m n → Dict.Sorted n.calls

theorem orderedBelow_iff {m : Module} :
    m.OrderedBelow ↔
      Dict.Sorted m.calls ∧ ∀ entry ∈ m.calls, ∀ n, entry.2.module = some n → n.OrderedBelow := by
  rw [OrderedBelow, forall_reachable]
  constructor
  · rintro ⟨hsorted, hbelow⟩
    exact ⟨hsorted, fun entry hentry n hn => hbelow n ⟨entry, hentry, hn⟩⟩
  · rintro ⟨hsorted, hbelow⟩
    refine ⟨hsorted, ?_⟩
    rintro n ⟨entry, hentry, hn⟩
    exact hbelow entry hentry n hn

theorem codec_eq : codec = (record codec).codec := grounded.recursive_eq

theorem calls_of_restored {m : Module} (h : codec.Restored m) :
    Dict.Sorted m.calls ∧ ∀ n, m.LeadsTo n → codec.Restored n := by
  rw [codec_eq] at h
  obtain ⟨-, -, hcalls, -⟩ := Record.restored_iff.1 h
  obtain ⟨hsorted, hentries⟩ := Field.dict_restores.1 hcalls
  refine ⟨hsorted, ?_⟩
  rintro n ⟨entry, hentry, hn⟩
  obtain ⟨-, -, -, -, hmodule, -⟩ := Record.restored_iff.1 (hentries entry hentry)
  rw [codec_eq] at hmodule ⊢
  exact (Field.optional_restores Record.encode_ne_null).1 hmodule n hn

theorem orderedBelow_of_restored {m : Module} (h : codec.Restored m) : m.OrderedBelow := by
  intro n hreached
  have hn : codec.Restored n := by
    induction hreached with
    | refl => exact h
    | tail _ hstep ih => exact (calls_of_restored ih).2 _ hstep
  exact (calls_of_restored hn).1

end Module

structure Ordered (c : Config) : Prop where
  providers : Dict.Sorted c.providers
  modules : ∀ root, c.rootModule = some root → root.OrderedBelow

theorem ordered_of_decode {j : Json} (hj : j.WellFormed) {c : Config}
    (h : codec.decode j = .ok c) : c.Ordered := by
  have hlawful := obeys Law.lawful_ofExpressions (j.nesting + 1)
  have hrestored : codec.Restored c := hlawful.restores hj (Nat.lt_succ_self _) h
  obtain ⟨hproviders, hroot, -⟩ := Record.restored_iff.1 hrestored
  refine ⟨(Field.dict_restores.1 hproviders).1, ?_⟩
  intro root heq
  rw [Module.codec_eq] at hroot
  apply Module.orderedBelow_of_restored
  rw [Module.codec_eq]
  exact (Field.optional_restores Record.encode_ne_null).1 hroot root heq

end PlanWire.Config
