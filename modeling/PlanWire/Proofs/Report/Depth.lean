import PlanWire.Proofs.Json.Sorting
import PlanWire.Proofs.Wire.Law
import PlanWire.Report

/-!
# How deep the reports are that are written

The types of a report are not recursive and hold no trees, so the number of
levels that are written for one is bounded, whatever it was read from.
-/

set_option autoImplicit false

namespace PlanWire

namespace Codec

def Shallow {α : Type} (n : Nat) (c : Codec α) : Prop := ∀ a, (c.encode a).nesting ≤ n

namespace Shallow

variable {α : Type} {c : Codec α} {n : Nat}

theorem of_scalar (h : ∀ a, (c.encode a).nesting = 0) : c.Shallow n := by
  intro a
  rw [h a]
  exact Nat.zero_le n

theorem list (h : c.Shallow n) : c.list.Shallow (n + 1) := by
  intro xs
  apply Nat.succ_le_succ
  apply Json.nestingItems_le_iff.2
  intro j hj
  obtain ⟨a, -, rfl⟩ := List.mem_map.1 hj
  exact h a

theorem dict (h : c.Shallow n) : c.dict.Shallow (n + 1) := by
  intro d
  apply Nat.succ_le_succ
  apply Json.nestingMembers_le_iff.2
  intro member hm
  obtain ⟨entry, -, rfl⟩ := List.mem_map.1 hm
  exact h entry.2

theorem optional (h : c.Shallow n) : c.optional.Shallow n := by
  intro o
  cases o with
  | none => exact Nat.zero_le n
  | some a => exact h a

end Shallow
end Codec

inductive Fields.Shallow (n : Nat) : {τ : Type} → Fields τ → Prop
  | nil : Shallow n .nil
  | cons {α β : Type} {f : Field α} {fs : Fields β} (first : f.codec.Shallow n)
      (rest : fs.Shallow n) : Shallow n (.cons f fs)

theorem Fields.Shallow.nestingMembers_le {n : Nat} {τ : Type} {fs : Fields τ} (h : fs.Shallow n)
    (p : τ) : Json.nestingMembers (fs.encode p) ≤ n := by
  induction h with
  | nil => exact Nat.zero_le n
  | cons first _ ih =>
    obtain ⟨a, p⟩ := p
    apply Json.nestingMembers_le_iff.2
    intro member hm
    rcases Fields.mem_encode_cons hm with ⟨-, rfl⟩ | hm
    · exact first a
    · exact Json.nestingMembers_le_iff.1 (ih p) member hm

theorem Record.shallow {α : Type} {r : Record α} {n : Nat} (h : r.fields.Shallow n) :
    r.codec.Shallow (n + 1) := by
  intro a
  exact Nat.succ_le_succ (h.nestingMembers_le (r.parts a))

section Reports

variable {n : Nat}

theorem Codec.shallow_text : Codec.text.Shallow n := .of_scalar fun _ => rfl

theorem Codec.shallow_flag : Codec.flag.Shallow n := .of_scalar fun _ => rfl

theorem Codec.shallow_count : Codec.count.Shallow n := .of_scalar fun _ => rfl

namespace Diagnostic

open Codec (shallow_text shallow_count)

theorem Position.shallow : record.codec.Shallow (n + 1) :=
  Record.shallow <| .cons shallow_count <| .cons shallow_count <| .cons shallow_count .nil

theorem Range.shallow : record.codec.Shallow (n + 2) :=
  Record.shallow <| .cons shallow_text <| .cons Position.shallow <| .cons Position.shallow .nil

theorem ExpressionValue.shallow : record.codec.Shallow (n + 1) :=
  Record.shallow <| .cons shallow_text <| .cons shallow_text .nil

theorem Snippet.shallow : record.codec.Shallow (n + 3) :=
  Record.shallow <|
    .cons shallow_text.optional <|
    .cons shallow_text <|
    .cons shallow_count <|
    .cons shallow_count <|
    .cons shallow_count <|
    .cons ExpressionValue.shallow.list .nil

theorem shallow : record.codec.Shallow 4 :=
  Record.shallow <|
    .cons (.of_scalar fun _ => rfl) <|
    .cons shallow_text <|
    .cons shallow_text <|
    .cons Range.shallow.optional <|
    .cons Snippet.shallow.optional .nil

end Diagnostic

theorem ValidationReport.shallow : record.codec.Shallow 6 :=
  Record.shallow <|
    .cons Codec.shallow_text.optional <|
    .cons Codec.shallow_flag <|
    .cons Codec.shallow_count <|
    .cons Codec.shallow_count <|
    .cons Diagnostic.shallow.list .nil

theorem VersionReport.shallow : record.codec.Shallow 2 :=
  Record.shallow <|
    .cons Codec.shallow_text <|
    .cons Codec.shallow_text <|
    .cons Codec.shallow_text <|
    .cons Codec.shallow_text.dict <|
    .cons Codec.shallow_flag .nil

end Reports

end PlanWire
