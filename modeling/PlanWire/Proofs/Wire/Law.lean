import PlanWire.Proofs.Wire.Recursion

/-!
# Laws of codecs

A law is a property that codecs have up to a number of levels and that every
way of making a codec from others keeps. A type is then described once, by the
fields of its record, and obeys every law.
-/

set_option autoImplicit false

namespace PlanWire

/-- A property of codecs up to a number of levels, and one of the defaults that
a field may write without having read them. -/
structure Codec.Property where
  holds : {α : Type} → Nat → Codec α → Prop
  default : {α : Type} → Codec α → α → Prop

/-- What a property of codecs asks of a field: a value left out is the one
taken for an absent field, and a default is left out or may be written. -/
structure Field.Has {α : Type} (P : Codec.Property) (n : Nat) (f : Field α) : Prop where
  codec : P.holds n f.codec
  skipped : ∀ {a : α}, f.skip a = true → f.absent = some a
  written : ∀ {a : α}, f.absent = some a → f.skip a = false → P.default f.codec a

inductive Fields.Have (P : Codec.Property) (n : Nat) : {τ : Type} → Fields τ → Prop
  | nil : Have P n .nil
  | cons {α β : Type} {f : Field α} {fs : Fields β} (first : f.Has P n) (rest : fs.Have P n) :
      Have P n (.cons f fs)

/-- A property that the combinators keep. -/
structure Law extends Codec.Property where
  zero {α : Type} (c : Codec α) : holds 0 c
  of_succ {α : Type} {n : Nat} {c : Codec α} : holds (n + 1) c → holds n c
  value {n : Nat} : holds n Codec.value
  kept {n : Nat} : holds n Codec.kept
  text {n : Nat} : holds n Codec.text
  flag {n : Nat} : holds n Codec.flag
  count {n : Nat} : holds n Codec.count
  variant {α : Type} {n : Nat} {v : Codec.Variants α} :
    (∀ a, v.find (v.name a) = .ok a) → holds n (Codec.variant v)
  list {α : Type} {n : Nat} {c : Codec α} : holds n c → holds n c.list
  dict {α : Type} {n : Nat} {c : Codec α} : holds n c → holds n c.dict
  optional {α : Type} {n : Nat} {c : Codec α} : holds n c → holds n c.optional
  record_succ {α : Type} {n : Nat} {r : Record α} :
    r.fields.Have toProperty n → holds (n + 1) r.codec
  default_text : default Codec.text ""
  default_flag : default Codec.flag false
  default_count : default Codec.count 0
  default_none {α : Type} {c : Codec α} : default c.optional none

namespace Law

variable (L : Law)

/-- A law under which a field may write an empty container that was not read. -/
structure FillsContainers : Prop where
  list : ∀ {α : Type} (c : Codec α), L.default c.list []
  dict : ∀ {α : Type} (c : Codec α), L.default c.dict []

variable {L}

theorem record {α : Type} {n : Nat} {r : Record α} (h : r.fields.Have L.toProperty n) :
    L.holds n r.codec := L.of_succ (L.record_succ h)

theorem recursive {α : Type} {build : Codec α → Codec α} {height : α → Nat}
    (h : Codec.Grounded build height)
    (step : ∀ {n : Nat} {c : Codec α}, L.holds n c → L.holds (n + 1) (build c)) (n : Nat) :
    L.holds n (Codec.recursive build height) := by
  induction n with
  | zero => exact L.zero _
  | succ n ih =>
    rw [h.recursive_eq]
    exact step ih

end Law

namespace Field.Has

variable {α : Type} {P : Codec.Property} {L : Law} {n : Nat} {c : Codec α} {name : String}

theorem required (h : P.holds n c) : (Field.required name c).Has P n where
  codec := h
  skipped hs := by cases hs
  written ha := by cases ha

theorem filled {default : α} (h : P.holds n c) (hd : P.default c default) :
    (Field.filled name c default).Has P n where
  codec := h
  skipped hs := by cases hs
  written ha _ := by cases ha; exact hd

theorem of_optional (h : P.holds n c.optional) : (Field.optional name c).Has P n where
  codec := h
  skipped {a} hs := by cases a with
    | none => rfl
    | some a => cases hs
  written ha hs := by cases ha; cases hs

theorem optional (h : L.holds n c) : (Field.optional name c).Has L.toProperty n :=
  of_optional (L.optional h)

theorem kept : (Field.kept name).Has L.toProperty n where
  codec := L.kept
  skipped {a} hs := by cases a with
    | none => rfl
    | some a => cases hs
  written ha hs := by cases ha; cases hs

theorem text : (Field.text name).Has L.toProperty n where
  codec := L.text
  skipped {a} hs := by
    obtain rfl : a = "" := by simpa [Field.text] using hs
    rfl
  written ha hs := by cases ha; simp [Field.text] at hs

theorem flag : (Field.flag name).Has L.toProperty n where
  codec := L.flag
  skipped {a} hs := by cases a with
    | false => rfl
    | true => cases hs
  written ha hs := by cases ha; cases hs

theorem count : (Field.count name).Has L.toProperty n where
  codec := L.count
  skipped {a} hs := by
    obtain rfl : a = 0 := by simpa [Field.count] using hs
    rfl
  written ha hs := by cases ha; cases hs

theorem list (h : L.holds n c) : (Field.list name c).Has L.toProperty n where
  codec := L.list h
  skipped {a} hs := by cases a with
    | nil => rfl
    | cons first rest => cases hs
  written ha hs := by cases ha; cases hs

theorem of_dict (h : P.holds n c.dict) : (Field.dict name c).Has P n where
  codec := h
  skipped {a} hs := by cases a with
    | nil => rfl
    | cons first rest => cases hs
  written ha hs := by cases ha; cases hs

theorem dict (h : L.holds n c) : (Field.dict name c).Has L.toProperty n := of_dict (L.dict h)

end Field.Has

def Codec.Property.lawful : Codec.Property where
  holds := Codec.Lawful
  default c a := c.decode (c.encode a).sorted = .ok a

theorem Fields.lawful_of_have {n : Nat} {τ : Type} {fs : Fields τ} (h : fs.Have .lawful n) :
    fs.Lawful n := by
  induction h with
  | nil => exact .nil
  | cons first _ ih => exact .cons ⟨first.codec, first.skipped, first.written⟩ ih

def Law.lawful : Law where
  toProperty := .lawful
  zero := .zero
  of_succ := .of_succ
  value := .value
  kept := .kept
  text := .text
  flag := .flag
  count := .count
  variant := .variant
  list := .list
  dict := .dict
  optional := .optional
  record_succ h := Record.lawful_succ (Fields.lawful_of_have h)
  default_text := rfl
  default_flag := rfl
  default_count := Codec.Lawful.restores_count 0
  default_none := rfl

theorem Law.lawful_fillsContainers : Law.lawful.FillsContainers := ⟨fun _ => rfl, fun _ => rfl⟩

end PlanWire
