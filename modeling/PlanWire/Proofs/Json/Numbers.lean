import PlanWire.Proofs.Json.Reading
import PlanWire.Proofs.Number.Readable

/-!
# The numbers in a tree

A tree that was read holds no other numbers than literals stand for. So every
number in it has a text that is read as some number again.
-/

set_option autoImplicit false

namespace PlanWire.Json

def Numbers (P : Number → Prop) (j : Json) : Prop := ∀ path n, j.Holds path (.num n) → P n

abbrev Rereads (j : Json) : Prop := j.Numbers Number.Rereads

section Numbers

variable {P : Number → Prop}

namespace Numbers

theorem mono {Q : Number → Prop} {j : Json} (h : j.Numbers P) (hPQ : ∀ n, P n → Q n) :
    j.Numbers Q :=
  fun path n hn => hPQ n (h path n hn)

theorem of_child {j child : Json} {s : Selector} (h : j.Numbers P) (hc : Child j s child) :
    child.Numbers P := by
  intro path n hn
  exact h (s :: path) n (.inside hc hn)

theorem of_children {j : Json} (hj : ∀ n, j = .num n → P n)
    (h : ∀ s child, Child j s child → child.Numbers P) : j.Numbers P := by
  intro path n hn
  cases hn with
  | here => exact hj n rfl
  | inside first rest => exact h _ _ first _ n rest

theorem of_leaf {j : Json} (hj : ∀ n, j ≠ .num n) (h : ∀ s child, ¬ Child j s child) :
    j.Numbers P :=
  of_children (fun n hn => absurd hn (hj n)) fun s child hc => absurd hc (h s child)

end Numbers

theorem numbers_arr {items : List Json} :
    (Json.arr items).Numbers P ↔ ∀ j ∈ items, j.Numbers P := by
  constructor
  · intro h j hj
    obtain ⟨i, hi⟩ := List.getElem?_of_mem hj
    exact h.of_child (s := .index i) hi
  · intro h
    refine Numbers.of_children nofun ?_
    intro s child hc
    cases s with
    | key name => cases hc
    | index i => exact h child (List.mem_of_getElem? hc)

theorem numbers_obj {members : List (String × Json)} :
    (Json.obj members).Numbers P ↔ ∀ member ∈ members, member.2.Numbers P := by
  constructor
  · intro h member hm
    exact h.of_child (s := .key member.1) hm
  · intro h
    refine Numbers.of_children nofun ?_
    intro s child hc
    cases s with
    | key name => exact h (name, child) hc
    | index i => cases hc

theorem numbers_num {n : Number} : (Json.num n).Numbers P ↔ P n := by
  constructor
  · intro h
    exact h [] n (.here _)
  · intro h
    refine Numbers.of_children ?_ nofun
    intro m hm
    cases hm
    exact h

theorem numbers_str (s : String) : (Json.str s).Numbers P :=
  .of_leaf nofun nofun

theorem numbers_bool (b : Bool) : (Json.bool b).Numbers P :=
  .of_leaf nofun nofun

theorem numbers_null : Json.null.Numbers P :=
  .of_leaf nofun nofun

mutual

theorem numbers_sorted : ∀ {j : Json}, j.Numbers P → j.sorted.Numbers P
  | .null, h | .bool _, h | .num _, h | .str _, h => h
  | .arr items, h => numbers_arr.2 (numbers_sortedItems (numbers_arr.1 h))
  | .obj members, h => by
    have hmembers := numbers_sortedMembers (numbers_obj.1 h)
    exact numbers_obj.2 fun member hm => hmembers member (Dict.mem_ofList hm)

theorem numbers_sortedItems : ∀ {items : List Json}, (∀ j ∈ items, j.Numbers P) →
    ∀ j ∈ sortedItems items, j.Numbers P
  | [], _ => nofun
  | _ :: _, h => by
    obtain ⟨hj, hrest⟩ := List.forall_mem_cons.1 h
    exact List.forall_mem_cons.2 ⟨numbers_sorted hj, numbers_sortedItems hrest⟩

theorem numbers_sortedMembers : ∀ {members : List (String × Json)},
    (∀ member ∈ members, member.2.Numbers P) →
    ∀ member ∈ sortedMembers members, member.2.Numbers P
  | [], _ => nofun
  | _ :: _, h => by
    obtain ⟨hj, hrest⟩ := List.forall_mem_cons.1 h
    exact List.forall_mem_cons.2 ⟨numbers_sorted hj, numbers_sortedMembers hrest⟩

end

end Numbers

mutual

theorem readable_of_spells : ∀ {ts : List Token} {j : Json}, Spells ts j → j.Numbers Number.Readable
  | _, _, .null => numbers_null
  | _, _, .bool b => numbers_bool b
  | _, _, .num value => numbers_num.2 (Number.readable_of_value? value)
  | _, _, .str _ => numbers_str _
  | _, _, .noItems => numbers_arr.2 nofun
  | _, _, .items first behind =>
    numbers_arr.2 <|
      List.forall_mem_cons.2 ⟨readable_of_spells first, readable_of_spellsItems behind⟩
  | _, _, .noMembers => numbers_obj.2 nofun
  | _, _, .members _ first behind =>
    numbers_obj.2 <|
      List.forall_mem_cons.2 ⟨readable_of_spells first, readable_of_spellsMembers behind⟩

theorem readable_of_spellsItems : ∀ {ts : List Token} {items : List Json}, SpellsItems ts items →
    ∀ j ∈ items, j.Numbers Number.Readable
  | _, _, .nil => nofun
  | _, _, .cons first behind =>
    List.forall_mem_cons.2 ⟨readable_of_spells first, readable_of_spellsItems behind⟩

theorem readable_of_spellsMembers : ∀ {ts : List Token} {members : List (String × Json)},
    SpellsMembers ts members → ∀ member ∈ members, member.2.Numbers Number.Readable
  | _, _, .nil => nofun
  | _, _, .cons _ first behind =>
    List.forall_mem_cons.2 ⟨readable_of_spells first, readable_of_spellsMembers behind⟩

end

/-- Whatever number was read is written as a text that is read. -/
theorem readable_of_read {bytes : List UInt8} {v : Json} (h : read bytes = some v) :
    v.Numbers Number.Readable := by
  obtain ⟨j, hj, -, rfl⟩ := read_eq_some.1 h
  exact numbers_sorted (readable_of_spells hj)

end PlanWire.Json
