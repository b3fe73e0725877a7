import PlanWire.Proofs.Wire.Records

/-!
# Codecs of recursive types

The levels of a recursive type agree wherever both reach: no level looks
further into a tree or a value than its number says. The codec of the type is
therefore a fixed point of the function that describes it.
-/

set_option autoImplicit false

namespace PlanWire

open Json (nestingItems nestingMembers)

attribute [ext] Codec

namespace Codec

variable {α : Type}

/-- The codecs read every tree with fewer than `n` levels alike. -/
def AgreeBelow (n : Nat) (c d : Codec α) : Prop := ∀ j : Json, j.nesting < n → c.decode j = d.decode j

namespace AgreeBelow

variable {n : Nat} {c d : Codec α}

theorem refl (c : Codec α) : AgreeBelow n c c := fun _ _ => rfl

theorem of_succ (h : AgreeBelow (n + 1) c d) : AgreeBelow n c d :=
  fun j hn => h j (Nat.lt_succ_of_lt hn)

theorem decodeItems (h : AgreeBelow n c d) {items : List Json} (hn : nestingItems items < n) :
    c.decodeItems items = d.decodeItems items := by
  induction items with
  | nil => rfl
  | cons j rest ih =>
    obtain ⟨hj, hr⟩ := Nat.max_lt.1 hn
    rw [Codec.decodeItems, Codec.decodeItems, h j hj, ih hr]

theorem list (h : AgreeBelow n c d) : AgreeBelow n c.list d.list := by
  intro j hn
  cases j with
  | arr items => exact h.decodeItems (Nat.lt_of_succ_lt hn)
  | _ => rfl

theorem decodeMembers (h : AgreeBelow n c d) {members : List (String × Json)}
    (hn : nestingMembers members < n) : c.decodeMembers members = d.decodeMembers members := by
  induction members with
  | nil => rfl
  | cons member rest ih =>
    obtain ⟨hj, hr⟩ := Nat.max_lt.1 hn
    rw [Codec.decodeMembers, Codec.decodeMembers, h member.2 hj, ih hr]

theorem dict (h : AgreeBelow n c d) : AgreeBelow n c.dict d.dict := by
  intro j hn
  cases j with
  | obj members => exact h.decodeMembers (Nat.lt_of_succ_lt hn)
  | _ => rfl

theorem optional (h : AgreeBelow n c d) : AgreeBelow n c.optional d.optional := by
  intro j hn
  by_cases hj : j = .null
  · subst hj
    rfl
  · rw [decode_optional hj, decode_optional hj, h j hn]

end AgreeBelow

variable {c d : Codec α}

theorem encode_list_congr {xs : List α} (h : ∀ a ∈ xs, c.encode a = d.encode a) :
    c.list.encode xs = d.list.encode xs :=
  congrArg Json.arr (List.map_congr_left h)

theorem encode_dict_congr {entries : Dict α}
    (h : ∀ name a, (name, a) ∈ entries → c.encode a = d.encode a) :
    c.dict.encode entries = d.dict.encode entries :=
  congrArg Json.obj <| List.map_congr_left fun entry he =>
    congrArg (entry.1, ·) (h entry.1 entry.2 he)

theorem encode_optional_congr {o : Option α} (h : ∀ a ∈ o, c.encode a = d.encode a) :
    c.optional.encode o = d.optional.encode o := by
  cases o with
  | none => rfl
  | some a => exact h a rfl

end Codec

namespace Fields

theorem encode_congr {α β : Type} {f g : Field α} {fs gs : Fields β} {a : α} {p : β}
    (name : f.name = g.name) (skip : f.skip = g.skip)
    (first : f.codec.encode a = g.codec.encode a) (rest : fs.encode p = gs.encode p) :
    (Fields.cons f fs).encode (a, p) = (Fields.cons g gs).encode (a, p) := by
  simp only [encode, name, skip, first, rest]

theorem encode_same {α β : Type} (f : Field α) {fs gs : Fields β} {a : α} {p : β}
    (rest : fs.encode p = gs.encode p) :
    (Fields.cons f fs).encode (a, p) = (Fields.cons f gs).encode (a, p) :=
  encode_congr rfl rfl rfl rest

inductive AgreeBelow (n : Nat) : {τ : Type} → Fields τ → Fields τ → Prop
  | nil : AgreeBelow n .nil .nil
  | cons {α β : Type} {f g : Field α} {fs gs : Fields β} (name : f.name = g.name)
      (absent : f.absent = g.absent) (first : f.codec.AgreeBelow n g.codec)
      (rest : AgreeBelow n fs gs) : AgreeBelow n (.cons f fs) (.cons g gs)

namespace AgreeBelow

variable {n : Nat}

theorem refl {τ : Type} (fs : Fields τ) : AgreeBelow n fs fs := by
  induction fs with
  | nil => exact .nil
  | cons f fs ih => exact .cons rfl rfl (.refl f.codec) ih

theorem same {α β : Type} (f : Field α) {fs gs : Fields β} (rest : AgreeBelow n fs gs) :
    AgreeBelow n (.cons f fs) (.cons f gs) :=
  .cons rfl rfl (.refl f.codec) rest

variable {τ : Type} {fs gs : Fields τ}

theorem names (h : AgreeBelow n fs gs) : fs.names = gs.names := by
  induction h with
  | nil => rfl
  | cons name _ _ _ ih => rw [Fields.names, Fields.names, name, ih]

theorem read (h : AgreeBelow n fs gs) {members : List (String × Json)}
    (hn : nestingMembers members < n) : fs.read members = gs.read members := by
  induction h with
  | nil => rfl
  | @cons _ _ f g fs gs name absent first _ ih =>
    have hf : f.read members = g.read members := by
      rw [Field.read, Field.read, name, absent]
      cases hj : Dict.get? g.name members with
      | none => rfl
      | some j =>
        have hd : f.codec.decode j = g.codec.decode j :=
          first j (Nat.lt_of_le_of_lt (Json.nesting_le_of_get? hj) hn)
        simp only [hd]
    rw [Fields.read, Fields.read, hf, ih]

theorem take (h : AgreeBelow n fs gs) (expected : String) (index : Nat) {items : List Json}
    (hn : nestingItems items < n) : fs.take expected index items = gs.take expected index items := by
  induction h generalizing index items with
  | nil => rfl
  | cons _ absent first _ ih =>
    cases items with
    | nil => rw [Fields.take, Fields.take, absent, ih (index + 1) hn]
    | cons j items =>
      obtain ⟨hj, hi⟩ := Nat.max_lt.1 hn
      simp only [Fields.take, first j hj, ih (index + 1) hi]

end AgreeBelow
end Fields

namespace Record

inductive AgreeBelow {α : Type} (n : Nat) : Record α → Record α → Prop
  | of_fields {name : String} {Parts : Type} {fs gs : Fields Parts} {hf : fs.names.Nodup}
      {hg : gs.names.Nodup} {make : Parts → α} {parts : α → Parts}
      {make_parts : ∀ a, make (parts a) = a} {parts_make : ∀ p, parts (make p) = p}
      (h : fs.AgreeBelow n gs) :
      AgreeBelow n ⟨name, Parts, fs, hf, make, parts, make_parts, parts_make⟩
        ⟨name, Parts, gs, hg, make, parts, make_parts, parts_make⟩

theorem AgreeBelow.codec {α : Type} {n : Nat} {r s : Record α} (h : r.AgreeBelow n s) :
    r.codec.AgreeBelow (n + 1) s.codec := by
  obtain @⟨name, _, fs, gs, _, _, _, _, _, _, h⟩ := h
  intro j hn
  cases j with
  | obj members => simp only [Record.codec, ofMembers, h.read (Nat.lt_of_succ_lt_succ hn)]
  | arr items =>
    have ht := fun expected => h.take expected 0 (Nat.lt_of_succ_lt_succ hn)
    simp only [Record.codec, ofItems, lengthTitle, title, h.names, ht]
    cases gs.take _ 0 items with
    | error fault => rfl
    | ok result =>
      obtain ⟨p, left⟩ := result
      cases left <;> rfl
  | _ => rfl

end Record

namespace Codec

variable {α : Type} {build : Codec α → Codec α} {height : α → Nat}

/-- The function looks one level into a tree or a value before it asks the
codec of the inner values. -/
structure Grounded (build : Codec α → Codec α) (height : α → Nat) : Prop where
  decode : ∀ {n : Nat} {c d : Codec α}, AgreeBelow n c d → AgreeBelow (n + 1) (build c) (build d)
  encode : ∀ {c d : Codec α} {a : α}, (∀ b, height b < height a → c.encode b = d.encode b) →
    (build c).encode a = (build d).encode a

namespace Grounded

variable (h : Grounded build height)

include h

theorem decode_level {m n : Nat} (hmn : m ≤ n) : AgreeBelow m (level build m) (level build n) := by
  induction m generalizing n with
  | zero => exact fun _ hn => absurd hn (Nat.not_lt_zero _)
  | succ m ih =>
    cases n with
    | zero => exact absurd hmn (Nat.not_succ_le_zero m)
    | succ n => exact h.decode (ih (Nat.le_of_succ_le_succ hmn))

theorem encode_level {m n : Nat} {a : α} (hm : height a < m) (hn : height a < n) :
    (level build m).encode a = (level build n).encode a := by
  induction m generalizing n a with
  | zero => exact absurd hm (Nat.not_lt_zero _)
  | succ m ih =>
    cases n with
    | zero => exact absurd hn (Nat.not_lt_zero _)
    | succ n => exact h.encode fun b hb => ih (by omega) (by omega)

/-- The codec reads and writes one level and leaves what is inside to itself. -/
theorem recursive_eq : recursive build height = build (recursive build height) := by
  ext x
  · have hl : AgreeBelow x.nesting (level build x.nesting) (recursive build height) :=
      fun j hj => (h.decode_level hj j (Nat.lt_succ_self _)).symm
    exact h.decode hl x (Nat.lt_succ_self _)
  · exact h.encode fun b hb => h.encode_level hb (Nat.lt_succ_self _)

end Grounded
end Codec
end PlanWire
