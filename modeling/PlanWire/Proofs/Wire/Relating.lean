import PlanWire.Proofs.Json.Paths
import PlanWire.Proofs.Wire.Law

/-!
# Trees that are read and trees that are written

A relation between the tree that a value was read from and the tree that is
written for it. It holds of every codec if it lifts from the values in a
container to the container: each value written there is related to one that was
read, from the same place if the tree that was read has this place, or it fills
a place where nothing was.
-/

set_option autoImplicit false

namespace PlanWire

open Json (Child Selector WellFormedItems WellFormedMembers nestingItems nestingMembers)

namespace Json

variable (R : Json → Json → Prop) (F : Json → Prop)

/-- A value written into a container is related to one that was read from
there, or it fills a place where nothing was. -/
def Placed (v : Json) (s : Selector) (u : Json) : Prop :=
  (∃ t j, Child v t j ∧ R j u ∧ (v.select? s = none ∨ v.select? s = some j)) ∨
    F u ∧ v.select? s = none

/-- A container is related to another by `S` when what is in it is placed by `R`. -/
def Lifts (S : Json → Json → Prop) : Prop :=
  ∀ v w, 0 < v.nesting → 0 < w.nesting → (∀ s u, Child w s u → Placed R F v s u) → S v w

inductive Leaf : Json → Prop
  | null : Leaf .null
  | text (s : String) : Leaf (.str s)
  | flag (b : Bool) : Leaf (.bool b)
  | count (n : UInt64) : Leaf (.num (.int n.toNat))

theorem Leaf.nesting_eq {u : Json} (h : Leaf u) : u.nesting = 0 := by
  cases h <;> rfl

structure Keeps : Prop where
  same : ∀ j, R j j
  leaf : ∀ {u}, Leaf u → ∀ j, R j u
  default : ∀ {u}, Leaf u → F u
  inside : Lifts R F R

end Json

open Json (Placed Lifts Keeps)

/-- What the codec writes for a value is related to the tree that it read it from,
if this tree has fewer levels. -/
def Codec.Relates {α : Type} (R : Json → Json → Prop) (n : Nat) (c : Codec α) : Prop :=
  ∀ j a, j.WellFormed → j.nesting < n → c.decode j = .ok a → R j (c.encode a)

def Codec.Property.relating (R : Json → Json → Prop) (F : Json → Prop) : Codec.Property where
  holds n c := c.Relates R n
  default c a := F (c.encode a)

variable {R S : Json → Json → Prop} {F : Json → Prop} {n : Nat}

namespace Codec

variable {α : Type} {c : Codec α}

namespace Relates

theorem of_all (h : ∀ j a, R j (c.encode a)) : c.Relates R n := fun j a _ _ _ => h j a

theorem zero (c : Codec α) : c.Relates R 0 := by
  intro j a _ hn
  cases hn

theorem of_succ (h : c.Relates R (n + 1)) : c.Relates R n := by
  intro j a hw hn
  exact h j a hw (Nat.lt_succ_of_lt hn)

theorem mono (h : c.Relates R n) (hRS : ∀ v w, R v w → S v w) : c.Relates S n := by
  intro j a hw hn hd
  exact hRS _ _ (h j a hw hn hd)

theorem list (hl : Lifts R F S) (h : c.Relates R n) : c.list.Relates S (n + 1) := by
  intro j xs hw hn hd
  cases j with
  | arr items =>
    apply hl (.arr items) (.arr (xs.map c.encode)) (Nat.succ_pos _) (Nat.succ_pos _)
    intro s u hu
    cases s with
    | key name => cases hu
    | index i =>
      have hmap : (xs.map c.encode)[i]? = some u := hu
      obtain ⟨a, ha, rfl⟩ := Option.map_eq_some_iff.1 (List.getElem?_map .. ▸ hmap)
      obtain ⟨j, hj, hdj⟩ := exists_item_of_decodeItems hd ha
      have hwj := (Json.wellFormedItems_iff items).1 hw j (List.mem_of_getElem? hj)
      have hlt : j.nesting < (Json.arr items).nesting := Json.nesting_lt_of_child (s := .index i) hj
      exact .inl ⟨.index i, j, hj, h j a hwj (by omega) hdj, .inr hj⟩
  | _ => simp [Codec.list, mismatch] at hd

theorem dict (hl : Lifts R F S) (h : c.Relates R n) : c.dict.Relates S (n + 1) := by
  intro j d hw hn hd
  cases j with
  | obj members =>
    apply hl (.obj members) (.obj (d.mapValues c.encode)) (Nat.succ_pos _) (Nat.succ_pos _)
    intro s u hu
    cases s with
    | index i => cases hu
    | key name =>
      have hmap : (name, u) ∈ d.mapValues c.encode := hu
      obtain ⟨⟨other, a⟩, ha, heq⟩ := List.mem_map.1 hmap
      cases heq
      have hkeys : d.keys.Nodup := by
        rw [keys_of_decodeMembers hd]
        exact Dict.nodup_keys_of_sorted hw.1
      obtain ⟨j, hj, hdj⟩ := exists_member_of_decodeMembers hd (Dict.get?_of_mem hkeys ha)
      have hmem := Dict.mem_of_get? hj
      have hlt : j.nesting < (Json.obj members).nesting :=
        Json.nesting_lt_of_child (s := .key name) hmem
      have hwj := Json.wellFormed_of_get? hw.2 hj
      exact .inl ⟨.key name, j, hmem, h j a hwj (by omega) hdj, .inr hj⟩
  | _ => simp [Codec.dict, mismatch] at hd

theorem optional (hnull : R .null .null) (h : c.Relates R n) : c.optional.Relates R n := by
  intro j o hw hn hd
  by_cases hj : j = .null
  · subst hj
    obtain rfl : none = o := by simpa [Codec.optional] using hd
    exact hnull
  · rw [decode_optional hj] at hd
    obtain ⟨a, ha, rfl⟩ := map_eq_ok.1 hd
    exact h j a hw hn ha

end Relates
end Codec

namespace Field.Has

variable {α : Type} {f : Field α}

theorem placed_of_absent (h : f.Has (.relating R F) n) {a : α} (ha : f.absent = some a)
    (hs : ¬ f.skip a = true) {v : Json} {s : Selector} (hv : v.select? s = none) :
    Placed R F v s (f.codec.encode a) :=
  .inr ⟨h.written ha (by simpa using hs), hv⟩

theorem placed_of_read (h : f.Has (.relating R F) n) {members : List (String × Json)} {a : α}
    (hw : WellFormedMembers members) (hn : (Json.obj members).nesting ≤ n)
    (hr : f.read members = .read a) (hs : ¬ f.skip a = true) :
    Placed R F (.obj members) (.key f.name) (f.codec.encode a) := by
  rcases Field.read_eq_read.1 hr with ⟨j, hget, hd⟩ | ⟨hget, ha⟩
  · have hmem := Dict.mem_of_get? hget
    have hlt : j.nesting < (Json.obj members).nesting :=
      Json.nesting_lt_of_child (s := .key f.name) hmem
    have hwj := Json.wellFormed_of_get? hw hget
    exact .inl ⟨.key f.name, j, hmem, h.codec j a hwj (by omega) hd, .inr hget⟩
  · exact h.placed_of_absent ha hs hget

end Field.Has

namespace Fields

variable {τ : Type} {fs : Fields τ}

theorem placed_of_read (h : fs.Have (.relating R F) n) {members : List (String × Json)} {p : τ}
    (hw : WellFormedMembers members) (hn : (Json.obj members).nesting ≤ n)
    (hr : fs.read members = .read p) {name : String} {u : Json} (hu : (name, u) ∈ fs.encode p) :
    Placed R F (.obj members) (.key name) u := by
  induction h with
  | nil => cases hu
  | @cons _ _ f fs first _ ih =>
    obtain ⟨a, p⟩ := p
    obtain ⟨hf, hrest⟩ := Outcome.both_eq_read.1 hr
    rcases mem_encode_cons hu with ⟨hs, heq⟩ | hu
    · cases heq
      exact first.placed_of_read hw hn hf hs
    · exact ih hrest hu

/-- The fields of a record may be given by position, under no names. -/
theorem placed_of_take (h : fs.Have (.relating R F) n) {items given left : List Json}
    {expected : String} {index : Nat} {p : τ} (hw : WellFormedItems items)
    (hg : given ⊆ items) (hn : (Json.arr items).nesting ≤ n)
    (ht : fs.take expected index given = .ok (p, left)) {name : String} {u : Json}
    (hu : (name, u) ∈ fs.encode p) : Placed R F (.arr items) (.key name) u := by
  induction h generalizing index given with
  | nil => cases hu
  | @cons _ _ f fs first _ ih =>
    cases given with
    | nil =>
      cases ha : f.absent with
      | none => simp [take, ha] at ht
      | some a =>
        simp only [take, ha, bind_eq_ok] at ht
        obtain ⟨⟨rest, others⟩, hrest, ht⟩ := ht
        cases ht
        rcases mem_encode_cons hu with ⟨hs, heq⟩ | hu
        · cases heq
          exact first.placed_of_absent ha hs rfl
        · exact ih hg hrest hu
    | cons j given =>
      obtain ⟨hj, hrestg⟩ := List.cons_subset.1 hg
      simp only [take, bind_eq_ok] at ht
      obtain ⟨a, hd, ⟨rest, others⟩, hrest, ht⟩ := ht
      cases ht
      rcases mem_encode_cons hu with ⟨-, heq⟩ | hu
      · cases heq
        obtain ⟨i, hi⟩ := List.getElem?_of_mem hj
        have hlt : j.nesting < (Json.arr items).nesting :=
          Json.nesting_lt_of_child (s := .index i) hi
        have hwj := (Json.wellFormedItems_iff items).1 hw j hj
        exact .inl ⟨.index i, j, hi, first.codec j a hwj (by omega) hd, .inl rfl⟩
      · exact ih hrestg hrest hu

end Fields

theorem Record.relates_succ {α : Type} {r : Record α} (hl : Lifts R F S)
    (h : r.fields.Have (.relating R F) n) : r.codec.Relates S (n + 1) := by
  intro j a hw hn hd
  have hle : j.nesting ≤ n := Nat.le_of_lt_succ hn
  cases j with
  | obj members =>
    apply hl (.obj members) (r.codec.encode a) (Nat.succ_pos _) (Nat.succ_pos _)
    intro s u hu
    cases s with
    | index i => cases hu
    | key name => exact Fields.placed_of_read h hw.2 hle (ofMembers_eq_ok.1 hd) hu
  | arr items =>
    apply hl (.arr items) (r.codec.encode a) (Nat.succ_pos _) (Nat.succ_pos _)
    intro s u hu
    cases s with
    | index i => cases hu
    | key name =>
      have hi : r.ofItems items = .ok a := hd
      rw [ofItems, bind_eq_ok] at hi
      obtain ⟨⟨p, left⟩, ht, hi⟩ := hi
      cases left with
      | cons j left => cases hi
      | nil =>
        cases hi
        have hu : (name, u) ∈ r.fields.encode (r.parts (r.make p)) := hu
        rw [r.parts_make] at hu
        exact Fields.placed_of_take h hw (List.Subset.refl _) hle ht hu
  | _ => simp [codec, Codec.mismatch] at hd

def Law.relating (h : Keeps R F) : Law where
  toProperty := .relating R F
  zero := Codec.Relates.zero
  of_succ := Codec.Relates.of_succ
  value := by
    intro n j a _ _ hd
    cases hd
    exact h.same j
  kept := by
    intro n j a _ _ hd
    cases hd
    exact h.same j
  text := Codec.Relates.of_all fun j s => h.leaf (.text s) j
  flag := Codec.Relates.of_all fun j b => h.leaf (.flag b) j
  count := Codec.Relates.of_all fun j k => h.leaf (.count k) j
  variant _ := Codec.Relates.of_all fun j _ => h.leaf (.text _) j
  list hc := Codec.Relates.of_succ (Codec.Relates.list h.inside hc)
  dict hc := Codec.Relates.of_succ (Codec.Relates.dict h.inside hc)
  optional hc := Codec.Relates.optional (h.same _) hc
  record_succ hr := Record.relates_succ h.inside hr
  default_text := h.default (.text "")
  default_flag := h.default (.flag false)
  default_count := h.default (.count 0)
  default_none := h.default .null

end PlanWire
