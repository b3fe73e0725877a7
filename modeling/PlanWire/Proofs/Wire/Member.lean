import PlanWire.Proofs.Wire.Records

/-!
# Records with one more member

A record that is read from an object is read from the object with one more
member under the name of a field exactly when that member is read by itself,
and then only this field has another value.
-/

set_option autoImplicit false

namespace PlanWire

namespace Fields

inductive Ref : {τ : Type} → Fields τ → Type → Type 1
  | here {α β : Type} (f : Field α) (fs : Fields β) : Ref (.cons f fs) α
  | there {α β γ : Type} (g : Field β) {fs : Fields γ} (ref : Ref fs α) : Ref (.cons g fs) α

namespace Ref

variable {α : Type}

def field : {τ : Type} → {fs : Fields τ} → Ref fs α → Field α
  | _, _, here f _ => f
  | _, _, there _ ref => ref.field

/-- The values of the fields, with another value at this place. -/
def set : {τ : Type} → {fs : Fields τ} → Ref fs α → α → τ → τ
  | _, _, here _ _, a, (_, rest) => (a, rest)
  | _, _, there _ ref, a, (b, rest) => (b, ref.set a rest)

def outcome {τ : Type} {fs : Fields τ} (ref : Ref fs α) (p : τ) : Except Fault α → Outcome τ
  | .ok a => .read (ref.set a p)
  | .error fault => .faulty ref.field.name fault

theorem name_mem {τ : Type} {fs : Fields τ} (ref : Ref fs α) : ref.field.name ∈ fs.names := by
  induction ref with
  | here f fs => exact List.mem_cons_self ..
  | there g ref ih => exact List.mem_cons_of_mem _ ih

end Ref

theorem read_insert {α τ : Type} {fs : Fields τ} (ref : Ref fs α) (hnames : fs.names.Nodup)
    {members : List (String × Json)} {p : τ} (h : fs.read members = .read p) (j : Json) :
    fs.read (Dict.insert ref.field.name j members) =
      ref.outcome p (ref.field.codec.decode j) := by
  induction ref with
  | here f fs =>
    obtain ⟨a, rest⟩ := p
    obtain ⟨hother, -⟩ := List.nodup_cons.1 hnames
    have hfound : Dict.get? f.name (Dict.insert f.name j members) = some j := by
      rw [Dict.get?_insert, if_pos rfl]
    have hrest : fs.read (Dict.insert f.name j members) = .read rest := by
      rw [← (Outcome.both_eq_read.1 h).2]
      apply fs.read_congr
      intro name hname
      have hne : name ≠ f.name := fun heq => hother (heq ▸ hname)
      exact (Dict.get?_insert members f.name name j).trans (if_neg hne)
    simp only [read, Field.read, Ref.field, hfound, hrest]
    cases f.codec.decode j <;> rfl
  | there g ref ih =>
    obtain ⟨b, rest⟩ := p
    obtain ⟨hb, hrest⟩ := Outcome.both_eq_read.1 h
    obtain ⟨hother, hnames⟩ := List.nodup_cons.1 hnames
    have hne : g.name ≠ ref.field.name := fun heq => hother (heq ▸ ref.name_mem)
    have hsame : g.read (Dict.insert ref.field.name j members) = .read b := by
      rw [← hb, Field.read, Field.read, Dict.get?_insert, if_neg hne]
    simp only [read, Ref.field, hsame, ih hnames hrest]
    cases ref.field.codec.decode j <;> rfl

end Fields

theorem Record.ofMembers_insert {α β : Type} {r : Record β} (ref : Fields.Ref r.fields α)
    {members : List (String × Json)} {b : β} (h : r.ofMembers members = .ok b) (j : Json) :
    r.ofMembers (Dict.insert ref.field.name j members) =
      (ref.field.codec.decode j).map fun a => r.make (ref.set a (r.parts b)) := by
  rw [ofMembers, Fields.read_insert ref r.distinct (ofMembers_eq_ok.1 h) j]
  cases ref.field.codec.decode j <;> rfl

end PlanWire
