import PlanWire.Proofs.Schema.Tree
import PlanWire.Proofs.Wire.Depth

/-!
# How deep the schemas are that are written

Among the types of a schema only nested attributes fill a place: their
dictionary of attributes is written even if none was read. From one such
dictionary to the next, and from one block to the next, there are three levels,
and counted from the root of a document such a dictionary never stands on the
levels 1, 4, 7 and so on. The reader allows 127 levels, so the dictionary is
never the one level too many.
-/

set_option autoImplicit false

namespace PlanWire

theorem Field.Has.exact {α : Type} {fills : Nat → Prop} {n : Nat} {f : Field α}
    (h : f.Has (Law.covering False).toProperty n) : f.Has (.covering fills) n :=
  h.covering_mono nofun

open Json (Covers IsFilling Lifts)

namespace Schema

/-- Every third level, the first one of them given. -/
def EveryThird (first level : Nat) : Prop := level % 3 = first

def Skipping (skipped level : Nat) : Prop := level % 3 ≠ skipped

theorem lifts_everyThird {a b : Nat} (h : b = (a + 1) % 3) :
    Lifts (Covers (EveryThird a)) (IsFilling (EveryThird a)) (Covers (EveryThird b)) := by
  apply Json.lifts_covers
  simp only [EveryThird]
  omega

theorem lifts_skipping {a b : Nat} (ha : a < 3) (h : b = (a + 1) % 3) :
    Lifts (Covers (Skipping a)) (IsFilling (Skipping a)) (Covers (Skipping b)) := by
  apply Json.lifts_covers
  simp only [Skipping]
  omega

theorem skipping_of_everyThird {a b : Nat} (h : a ≠ b) :
    ∀ level, EveryThird a level → Skipping b level := by
  simp only [EveryThird, Skipping]
  omega

theorem covering_ofTypes : (Law.covering False).OfTypes := Law.relating_ofTypes _

variable {n : Nat}

theorem Nested.covering {A : Type} {inner : Codec A}
    (h : inner.Relates (Covers (EveryThird 2)) n) :
    (record inner).codec.Relates (Covers (EveryThird 1)) n := by
  have hdict := h.dict (lifts_everyThird rfl)
  have hfields : (record inner).fields.Have (.covering (EveryThird 0)) n :=
    .cons (.filled hdict.of_succ (.inr ⟨rfl, rfl⟩)) <|
    .cons (.exact (.required (NestingMode.obeys _ n))) <|
    .cons (.exact .count) <|
    .cons (.exact .count) .nil
  exact (Record.relates_succ (lifts_everyThird rfl) hfields).of_succ

theorem Attribute.covering (n : Nat) : codec.Relates (Covers (EveryThird 2)) n := by
  induction n with
  | zero => exact .zero _
  | succ n ih =>
    have hnested := (Nested.covering ih).optional (Json.covers_self _)
    have hfields : (record codec).fields.Have (.covering (EveryThird 1)) n :=
      .cons (.exact (.optional (covering_ofTypes n))) <|
      .cons (.of_optional hnested) <|
      .cons (.exact .text) <|
      .cons (.exact (.optional (DescriptionKind.obeys _ n))) <|
      .cons (.exact .flag) <|
      .cons (.exact .flag) <|
      .cons (.exact .flag) <|
      .cons (.exact .flag) <|
      .cons (.exact .flag) <|
      .cons (.exact .flag) .nil
    have hrecord := Record.relates_succ (lifts_everyThird rfl) hfields
    rw [codec, grounded.recursive_eq]
    exact hrecord

theorem BlockTypeOf.covering {B : Type} {block : Codec B}
    (h : block.Relates (Covers (EveryThird 1)) n) :
    (record block).codec.Relates (Covers (EveryThird 2)) n := by
  have hfields : (record block).fields.Have (.covering (EveryThird 1)) n :=
    .cons (.exact (.required (NestingMode.obeys _ n))) <|
    .cons (.of_optional (h.optional (Json.covers_self _))) <|
    .cons (.exact .count) <|
    .cons (.exact .count) .nil
  exact (Record.relates_succ (lifts_everyThird rfl) hfields).of_succ

theorem Block.covering (n : Nat) : codec.Relates (Covers (EveryThird 1)) n := by
  induction n with
  | zero => exact .zero _
  | succ n ih =>
    have hattributes := (Attribute.covering n).dict (lifts_everyThird rfl)
    have htypes := (BlockTypeOf.covering ih).dict (lifts_everyThird rfl)
    have hfields : (record codec).fields.Have (.covering (EveryThird 0)) n :=
      .cons (.of_dict (hattributes.of_succ)) <|
      .cons (.of_dict (htypes.of_succ)) <|
      .cons (.exact .text) <|
      .cons (.exact (.optional (DescriptionKind.obeys _ n))) <|
      .cons (.exact .flag) .nil
    have hrecord := Record.relates_succ (lifts_everyThird rfl) hfields
    rw [codec, grounded.recursive_eq]
    exact hrecord

theorem covering (n : Nat) : record.codec.Relates (Covers (EveryThird 2)) n := by
  have hfields : record.fields.Have (.covering (EveryThird 1)) n :=
    .cons (.exact (.filled (Law.covering False).count (Law.covering False).default_count)) <|
    .cons (.of_optional ((Block.covering n).optional (Json.covers_self _))) .nil
  exact (Record.relates_succ (lifts_everyThird rfl) hfields).of_succ

end Schema

open Schema

theorem ProviderSchema.covering (n : Nat) : record.codec.Relates (Covers (Skipping 2)) n := by
  have hschema : Schema.record.codec.Relates (Covers (Skipping 1)) n :=
    (Schema.covering n).covers_mono (skipping_of_everyThird (by decide))
  have hprovider := hschema.optional (Json.covers_self _)
  have hdict := (Schema.covering n).dict (lifts_everyThird rfl)
  have hschemas : Schema.record.codec.dict.Relates (Covers (Skipping 1)) n :=
    hdict.of_succ.covers_mono (skipping_of_everyThird (by decide))
  have hfields : record.fields.Have (.covering (Skipping 1)) n :=
    .cons (.of_optional hprovider) <|
    .cons (.of_dict hschemas) <|
    .cons (.of_dict hschemas) <|
    .cons (.of_dict hschemas) <|
    .cons (.exact (.dict (Function.Signature.obeys Schema.covering_ofTypes n))) .nil
  exact (Record.relates_succ (lifts_skipping (by decide) rfl) hfields).of_succ

/-- The root of a document of schemas stands on a level of its own. -/
theorem ProviderSchemas.covering (n : Nat) : record.codec.Relates (Covers (Skipping 1)) n := by
  have hdict := (ProviderSchema.covering n).dict (lifts_skipping (by decide) rfl)
  have hfields : record.fields.Have (.covering (Skipping 0)) n :=
    .cons (.exact (.required (Law.covering False).text)) <|
    .cons (.of_dict (hdict.of_succ)) .nil
  exact (Record.relates_succ (lifts_skipping (by decide) rfl) hfields).of_succ

end PlanWire
