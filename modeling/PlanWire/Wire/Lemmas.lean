import PlanWire.Wire.Record

/-!
# What is written is read

A value of a record whose fields have different names is read back from the
members written for it. For a single field this asks that the value left out
is the one taken for an absent field, and that a value written is read back.
-/

set_option autoImplicit false

namespace PlanWire

def Field.Restores {α : Type} (f : Field α) (a : α) : Prop :=
  (f.skip a = true → f.absent = some a) ∧
    (f.skip a = false → f.codec.decode (f.codec.encode a) = .ok a)

namespace Fields

def Restores : {τ : Type} → Fields τ → τ → Prop
  | _, .nil, _ => True
  | _, .cons f fs, (a, rest) => f.Restores a ∧ fs.Restores rest

theorem get?_encode_of_not_mem {τ : Type} (fs : Fields τ) (p : τ) {name : String}
    (h : name ∉ fs.names) : Dict.get? name (fs.encode p) = none := by
  induction fs with
  | nil => rfl
  | cons f fs ih =>
    obtain ⟨a, rest⟩ := p
    simp only [names, List.mem_cons, not_or] at h
    simp only [encode]
    split
    · exact ih rest h.2
    · simp [Dict.get?, ih rest h.2, Ne.symm h.1]

theorem read_cons_of_not_mem {τ : Type} (fs : Fields τ) {name : String} (j : Json)
    (members : List (String × Json)) (h : name ∉ fs.names) :
    fs.read ((name, j) :: members) = fs.read members := by
  induction fs with
  | nil => rfl
  | cons f fs ih =>
    simp only [names, List.mem_cons, not_or] at h
    simp only [read, ih h.2, Field.read, Dict.get?, if_neg h.1]

theorem read_encode {τ : Type} (fs : Fields τ) (p : τ) (hn : fs.names.Nodup)
    (hp : fs.Restores p) : fs.read (fs.encode p) = .read p := by
  induction fs with
  | nil => rfl
  | cons f fs ih =>
    obtain ⟨a, rest⟩ := p
    obtain ⟨hf, hr⟩ := hp
    obtain ⟨hm, hn⟩ := List.nodup_cons.1 hn
    have hrest := ih rest hn hr
    simp only [encode]
    split
    · next hk =>
      simp [read, Field.read, get?_encode_of_not_mem fs rest hm, hf.1 hk, hrest, Outcome.both]
    · next hk =>
      have ha := hf.2 (by simpa using hk)
      simp [read, Field.read, Dict.get?, ha, read_cons_of_not_mem fs _ _ hm, hrest, Outcome.both]

end Fields

theorem Record.decode_encode {α : Type} (r : Record α) (a : α)
    (ha : r.fields.Restores (r.parts a)) : r.codec.decode (r.codec.encode a) = .ok a := by
  simp [codec, ofMembers, r.fields.read_encode _ r.distinct ha, Outcome.toExcept, Except.map, r.make_parts]

end PlanWire
