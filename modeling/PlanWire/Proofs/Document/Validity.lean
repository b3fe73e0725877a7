import Mathlib.Logic.Relation
import PlanWire.Proofs.Document.RoundTrip

/-!
# Documents that keep the rules of their kind

A lenient reading of an object whose fields have the right shape depends on the
rules alone: it gives the document if they are kept, and otherwise an error
that tells a broken rule. A rule for all parts of a tree is kept when it is kept
at the root and in every tree right below it.
-/

set_option autoImplicit false

namespace PlanWire

open Relation (ReflTransGen)

theorem Place.tell_eq_ok {α : Type} {place : Place} {x : Except Rule α} {a : α} :
    place.tell x = .ok a ↔ x = .ok a := mapError_eq_ok

theorem then_eq_ok {α : Type} {x : Except Rule Unit} {y : Except Rule α} {a : α} :
    (x >>= fun _ => y) = .ok a ↔ x = .ok () ∧ y = .ok a := by
  rw [bind_eq_ok, Unique.exists_iff]

theorem loop_eq_ok {α : Type} {P : α → Prop} {check : α → Except Rule Unit}
    {loop : List α → Except Rule Unit} {members : List α} (hnil : loop [] = .ok ())
    (hcons : ∀ a rest, loop (a :: rest) = check a >>= fun _ => loop rest)
    (hcheck : ∀ a, check a = .ok () ↔ P a) : loop members = .ok () ↔ ∀ a ∈ members, P a := by
  induction members with
  | nil => simp [hnil]
  | cons a rest ih => rw [hcons, then_eq_ok, hcheck, ih, List.forall_mem_cons]

/-- What holds of everything that can be reached holds at the start and of
everything that can be reached from one step on. -/
theorem forall_reachable {α : Type} {next : α → α → Prop} {P : α → Prop} {a : α} :
    (∀ b, ReflTransGen next a b → P b) ↔
      P a ∧ ∀ c, next a c → ∀ b, ReflTransGen next c b → P b := by
  constructor
  · intro h
    refine ⟨h a .refl, ?_⟩
    intro c hc b hb
    exact h b (.head hc hb)
  · intro h b hb
    rcases hb.cases_head with rfl | ⟨c, hc, hcb⟩
    · exact h.1
    · exact h.2 c hc b hcb

theorem Format.map_ofJson_of_fields {α : Type} {format : Format α} {wrap : α → Document}
    {members : List (String × Json)} {a : α}
    (hversion : (Dict.get? formatVersionKey members).isSome = true)
    (hfields : format.record.ofMembers members = .ok a) :
    (format.ofJson false (.obj members)).map wrap =
      (ofRule (format.validate a)).map fun _ => wrap a := by
  have hcheck : format.checkFormatVersion members = .ok () :=
    checkFormatVersion_eq_ok.2 fun _ => hversion
  simp only [ofJson, ofMembers, hcheck, hfields, Bool.false_eq_true, if_false]
  change (ofRule (format.validate a) >>= fun _ => .ok a).map wrap = _
  cases format.validate a <;> rfl

theorem judged {verdict : Except Rule Unit} {Valid : Prop} (h : verdict = .ok () ↔ Valid)
    (d : Document) :
    ((ofRule verdict).map (fun _ => d) = .ok d ↔ Valid) ∧
      (¬ Valid → ∃ rule, (ofRule verdict).map (fun _ => d) = .error (.rule rule)) := by
  rw [← h]
  cases verdict with
  | ok u => exact ⟨⟨fun _ => rfl, fun _ => rfl⟩, fun hn => absurd rfl hn⟩
  | error rule =>
    refine ⟨⟨?_, ?_⟩, fun _ => ⟨rule, rfl⟩⟩
    · intro hd
      cases hd
    · intro hu
      cases hu

end PlanWire
