import PlanWire.Proofs.Wire.Relating

/-!
# How deep the tree is that is written

What is written for a value reaches as deep as the tree that it was read from,
and no deeper, but for one thing: an empty object may be written where there
was a null or nothing at all, and if that was below the innermost container the
tree written is one level deeper. At which distance from the root this may
happen is left open, and with it whether it happens at all.
-/

set_option autoImplicit false

namespace PlanWire

open Json (Child Holds Path Lifts)

namespace Json

/-- Every array and object of the second tree is less deep than the first tree,
or it is an empty object, exactly as deep, and stands for a null or for nothing.
How long the path to such an object may be is left open. -/
def Covers (fills : Nat → Prop) (v w : Json) : Prop :=
  ∀ path u, w.Holds path u → 0 < u.nesting →
    path.length < v.nesting ∨
      fills path.length ∧ path.length = v.nesting ∧ u = .obj [] ∧
        (v.at? path = none ∨ v.at? path = some .null)

def IsFilling (fills : Nat → Prop) (j : Json) : Prop := j.nesting = 0 ∨ fills 0 ∧ j = .obj []

variable {fills further : Nat → Prop} {v w : Json}

/-- A tree that is deeper than the one that covers it is so by an empty object. -/
theorem Covers.deeper (h : Covers fills v w) (hd : v.nesting < w.nesting) :
    fills v.nesting ∧ w.nesting = v.nesting + 1 ∧
      ∃ path, w.Holds path (.obj []) ∧ path.length = v.nesting ∧
        (v.at? path = none ∨ v.at? path = some .null) := by
  obtain ⟨path, u, hu, hlength, hpos⟩ := exists_deepest (n := w.nesting - 1) (j := w) (by omega)
  rcases h path u hu hpos with hlt | ⟨hfills, heq, rfl, hat⟩
  · omega
  · refine ⟨heq ▸ hfills, by omega, path, hu, heq, hat⟩

theorem Covers.nesting_le (h : Covers (fun _ => False) v w) : w.nesting ≤ v.nesting := by
  apply Nat.le_of_not_lt
  intro hd
  exact (h.deeper hd).1

theorem Covers.mono (h : Covers fills v w) (hf : ∀ n, fills n → further n) :
    Covers further v w := by
  intro path u hu hpos
  rcases h path u hu hpos with hlt | ⟨hfills, hrest⟩
  · exact .inl hlt
  · exact .inr ⟨hf _ hfills, hrest⟩

theorem covers_of_le (h : w.nesting ≤ v.nesting) : Covers fills v w := by
  intro path u hu hpos
  have hle := nesting_le_of_holds hu
  left
  omega

theorem covers_self (v : Json) : Covers fills v v := covers_of_le (Nat.le_refl _)

theorem eq_nil_of_holds_empty {t : Json} {path : Path} (h : Holds (.obj []) path t) :
    path = [] ∧ t = .obj [] := by
  cases h with
  | here => exact ⟨rfl, rfl⟩
  | inside first _ => exact absurd first (not_child_empty _ _)

theorem covers_null (h : fills 0) : Covers fills .null (.obj []) := by
  intro path u hu hpos
  obtain ⟨rfl, rfl⟩ := eq_nil_of_holds_empty hu
  exact .inr ⟨h, rfl, rfl, .inr rfl⟩

theorem lifts_covers (hf : ∀ n, fills n → further (n + 1)) :
    Lifts (Covers fills) (IsFilling fills) (Covers further) := by
  intro v w hv _ h path t ht hpos
  cases ht with
  | here => exact .inl hv
  | @inside _ u _ s path first rest =>
    simp only [List.length_cons, at?]
    rcases h s u first with ⟨_, j, hj, hcovers, hselect⟩ | ⟨hfill, hselect⟩
    · have hlt := nesting_lt_of_child hj
      rcases hcovers path t rest hpos with hless | ⟨hfills, heq, hempty, hat⟩
      · left
        omega
      · by_cases hdeep : path.length + 1 < v.nesting
        · exact .inl hdeep
        · right
          refine ⟨hf _ hfills, by omega, hempty, ?_⟩
          rcases hselect with hnone | hsome
          · simp [hnone]
          · simpa [hsome] using hat
    · rcases hfill with hzero | ⟨hfills, rfl⟩
      · have hle := nesting_le_of_holds rest
        omega
      · obtain ⟨rfl, rfl⟩ := eq_nil_of_holds_empty rest
        by_cases hdeep : 1 < v.nesting
        · exact .inl hdeep
        · right
          refine ⟨hf _ hfills, ?_, rfl, by simp [hselect]⟩
          simp only [List.length_nil]
          omega

theorem keeps_covers (fills : Prop) : Keeps (Covers fun _ => fills) (IsFilling fun _ => fills) where
  same := covers_self
  leaf hu _ := covers_of_le (hu.nesting_eq ▸ Nat.zero_le _)
  default hu := .inl hu.nesting_eq
  inside := lifts_covers fun _ => id

end Json

open Json (Covers IsFilling)

theorem Codec.Relates.covers_mono {α : Type} {fills further : Nat → Prop} {n : Nat} {c : Codec α}
    (h : c.Relates (Covers fills) n) (hf : ∀ m, fills m → further m) :
    c.Relates (Covers further) n := h.mono fun _ _ hcovers => hcovers.mono hf

abbrev Codec.Property.covering (fills : Nat → Prop) : Codec.Property :=
  .relating (Covers fills) (IsFilling fills)

theorem Field.Has.covering_mono {α : Type} {fills further : Nat → Prop} {n : Nat} {f : Field α}
    (hf : ∀ m, fills m → further m) (h : f.Has (.covering fills) n) :
    f.Has (.covering further) n where
  codec := Codec.Relates.covers_mono h.codec hf
  skipped := h.skipped
  written {a} ha hs := by
    have hfill : IsFilling fills (f.codec.encode a) := h.written ha hs
    rcases hfill with hzero | ⟨hfills, hempty⟩
    · exact .inl hzero
    · exact .inr ⟨hf 0 hfills, hempty⟩

abbrev Law.covering (fills : Prop) : Law := .relating (Json.keeps_covers fills)

end PlanWire
