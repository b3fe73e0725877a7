import PlanWire.Proofs.Json.Sorting

/-!
# Paths into a tree

A path leads from the root of a tree to one of its values, and where keys differ
only to this one. The deepest array or object lies at the end of a path that is
one shorter than the tree is deep.
-/

set_option autoImplicit false

namespace PlanWire

namespace Dict

variable {α : Type}

theorem mem_of_get? {d : Dict α} {key : String} {a : α} (h : get? key d = some a) :
    (key, a) ∈ d := by
  induction d with
  | nil => cases h
  | cons entry rest ih =>
    obtain ⟨k, b⟩ := entry
    by_cases hk : k = key
    · obtain rfl : b = a := by simpa [get?, hk] using h
      rw [hk]
      exact List.mem_cons_self ..
    · apply List.mem_cons_of_mem
      apply ih
      simpa [get?, hk] using h

theorem get?_of_mem {d : Dict α} (hd : d.keys.Nodup) {key : String} {a : α} (h : (key, a) ∈ d) :
    get? key d = some a := by
  induction d with
  | nil => cases h
  | cons entry rest ih =>
    obtain ⟨k, b⟩ := entry
    obtain ⟨hk, hrest⟩ := List.nodup_cons.1 hd
    rcases List.mem_cons.1 h with heq | hmem
    · cases heq
      simp [get?]
    · have hkey : key ∈ keys rest := List.mem_map.2 ⟨(key, a), hmem, rfl⟩
      have hne : k ≠ key := fun he => hk (he ▸ hkey)
      simpa [get?, hne] using ih hrest hmem

theorem nodup_keys_of_sorted {d : Dict α} (h : d.Sorted) : d.keys.Nodup := by
  rw [sorted_iff_keys] at h
  apply h.imp
  intro k l hkl he
  rw [he] at hkl
  exact String.lt_irrefl l hkl

end Dict

namespace Json

inductive Selector where
  | key (name : String)
  | index (position : Nat)
  deriving DecidableEq

abbrev Path := List Selector

def select? : Json → Selector → Option Json
  | .obj members, .key name => Dict.get? name members
  | .arr items, .index position => items[position]?
  | _, _ => none

def at? : Json → Path → Option Json
  | j, [] => some j
  | j, s :: path => (j.select? s).bind fun child => child.at? path

theorem at?_append (j : Json) (path rest : Path) :
    j.at? (path ++ rest) = (j.at? path).bind fun child => child.at? rest := by
  induction path generalizing j with
  | nil => rfl
  | cons s path ih => cases h : j.select? s <;> simp [at?, h, ih]

theorem select?_sorted_arr (items : List Json) (i : Nat) :
    (Json.arr items).sorted.select? (.index i) = items[i]?.map sorted := by
  rw [sorted, sortedItems_eq_map, select?, List.getElem?_map]

theorem select?_sorted_obj {members : Dict Json} (hn : members.keys.Nodup) (name : String) :
    (Json.obj members).sorted.select? (.key name) = (Dict.get? name members).map sorted := by
  rw [sorted, select?, get?_sorted hn, sortedMembers_eq_mapValues, Dict.get?_mapValues]

theorem at?_eq_none {j : Json} (hj : ∀ s, j.select? s = none) {path : Path} (hp : path ≠ []) :
    j.at? path = none := by
  cases path with
  | nil => exact absurd rfl hp
  | cons s rest => simp [at?, hj s]

/-- A value right inside a container. Of several members with one key each counts. -/
def Child : Json → Selector → Json → Prop
  | .obj members, .key name, j => (name, j) ∈ members
  | .arr items, .index i, j => items[i]? = some j
  | _, _, _ => False

def children : Json → List Json
  | .arr items => items
  | .obj members => members.map (·.2)
  | _ => []

theorem mem_children_iff {j child : Json} : child ∈ j.children ↔ ∃ s, Child j s child := by
  cases j with
  | arr items =>
    constructor
    · intro h
      obtain ⟨i, hi⟩ := List.getElem?_of_mem h
      exact ⟨.index i, hi⟩
    · rintro ⟨s, h⟩
      cases s with
      | key name => cases h
      | index i => exact List.mem_of_getElem? h
  | obj members =>
    constructor
    · intro h
      obtain ⟨⟨name, child⟩, hmem, rfl⟩ := List.mem_map.1 h
      exact ⟨.key name, hmem⟩
    · rintro ⟨s, h⟩
      cases s with
      | key name => exact List.mem_map.2 ⟨(name, child), h, rfl⟩
      | index i => cases h
  | _ => simp [children, Child]

inductive Holds : Json → Path → Json → Prop
  | here (j : Json) : Holds j [] j
  | inside {j child u : Json} {s : Selector} {path : Path} (first : Child j s child)
      (rest : Holds child path u) : Holds j (s :: path) u

theorem child_of_select? {j child : Json} {s : Selector} (h : j.select? s = some child) :
    Child j s child := by
  cases j with
  | obj members =>
    cases s with
    | key name => exact Dict.mem_of_get? h
    | index i => cases h
  | arr items =>
    cases s with
    | key name => cases h
    | index i => exact h
  | _ => cases h

theorem holds_of_at? {j u : Json} {path : Path} (h : j.at? path = some u) : Holds j path u := by
  induction path generalizing j with
  | nil =>
    obtain rfl := Option.some.inj h
    exact .here j
  | cons s path ih =>
    obtain ⟨child, hchild, hrest⟩ := Option.bind_eq_some_iff.1 h
    exact .inside (child_of_select? hchild) (ih hrest)

/-- No object in the tree has two members with one key. -/
def KeysDiffer (j : Json) : Prop :=
  ∀ path members, j.Holds path (.obj members) → (Dict.keys members).Nodup

theorem KeysDiffer.nodup {members : Dict Json} (h : (Json.obj members).KeysDiffer) :
    members.keys.Nodup := h [] members (.here _)

theorem KeysDiffer.of_child {j child : Json} {s : Selector} (h : j.KeysDiffer)
    (hc : Child j s child) : child.KeysDiffer := by
  intro path members hm
  exact h (s :: path) members (.inside hc hm)

theorem keysDiffer_of_children {j : Json}
    (here : ∀ members, j = .obj members → (Dict.keys members).Nodup)
    (inside : ∀ child ∈ j.children, child.KeysDiffer) : j.KeysDiffer := by
  intro path members h
  cases h with
  | here => exact here members rfl
  | inside first rest => exact inside _ (mem_children_iff.2 ⟨_, first⟩) _ members rest

theorem select?_of_child {j child : Json} {s : Selector} (hj : j.KeysDiffer)
    (h : Child j s child) : j.select? s = some child := by
  cases j with
  | obj members =>
    cases s with
    | key name => exact Dict.get?_of_mem hj.nodup h
    | index i => cases h
  | arr items =>
    cases s with
    | key name => cases h
    | index i => exact h
  | _ => cases h

theorem at?_of_holds {j u : Json} {path : Path} (hj : j.KeysDiffer) (h : Holds j path u) :
    j.at? path = some u := by
  induction h with
  | here j => rfl
  | inside first _ ih =>
    rw [at?, select?_of_child hj first]
    exact ih (hj.of_child first)

theorem nesting_lt_of_child {j child : Json} {s : Selector} (h : Child j s child) :
    child.nesting < j.nesting := by
  cases j with
  | obj members =>
    cases s with
    | key name =>
      have hle := nesting_le_of_mem_members h
      exact Nat.lt_succ_of_le hle
    | index i => cases h
  | arr items =>
    cases s with
    | key name => cases h
    | index i =>
      have hle := nesting_le_of_mem_items (List.mem_of_getElem? h)
      exact Nat.lt_succ_of_le hle
  | _ => cases h

theorem not_child_empty (s : Selector) (child : Json) : ¬ Child (.obj []) s child := by
  cases s with
  | key name => exact List.not_mem_nil
  | index i => exact id

theorem nesting_le_of_holds {j u : Json} {path : Path} (h : Holds j path u) :
    path.length + u.nesting ≤ j.nesting := by
  induction h with
  | here j => simp
  | inside first _ ih =>
    have hlt := nesting_lt_of_child first
    simp only [List.length_cons]
    omega

theorem exists_mem_nestingItems {items : List Json} (h : 0 < nestingItems items) :
    ∃ j ∈ items, j.nesting = nestingItems items := by
  induction items with
  | nil => simp [nestingItems] at h
  | cons j rest ih =>
    rw [nestingItems] at h ⊢
    by_cases hj : nestingItems rest ≤ j.nesting
    · exact ⟨j, List.mem_cons_self .., (Nat.max_eq_left hj).symm⟩
    · obtain ⟨i, hi, hn⟩ := ih (by omega)
      exact ⟨i, List.mem_cons_of_mem _ hi, by omega⟩

theorem exists_mem_nestingMembers {members : List (String × Json)}
    (h : 0 < nestingMembers members) :
    ∃ member ∈ members, member.2.nesting = nestingMembers members := by
  induction members with
  | nil => simp [nestingMembers] at h
  | cons member rest ih =>
    obtain ⟨k, j⟩ := member
    rw [nestingMembers] at h ⊢
    by_cases hj : nestingMembers rest ≤ j.nesting
    · exact ⟨(k, j), List.mem_cons_self .., (Nat.max_eq_left hj).symm⟩
    · obtain ⟨m, hm, hn⟩ := ih (by omega)
      exact ⟨m, List.mem_cons_of_mem _ hm, by omega⟩

theorem exists_deepest_child {j : Json} (h : 1 < j.nesting) :
    ∃ s child, Child j s child ∧ child.nesting + 1 = j.nesting := by
  cases j with
  | obj members =>
    have hpos : 0 < nestingMembers members := by
      rw [nesting] at h
      omega
    obtain ⟨⟨name, child⟩, hmem, hn⟩ := exists_mem_nestingMembers hpos
    refine ⟨.key name, child, hmem, ?_⟩
    rw [nesting, ← hn]
  | arr items =>
    have hpos : 0 < nestingItems items := by
      rw [nesting] at h
      omega
    obtain ⟨child, hmem, hn⟩ := exists_mem_nestingItems hpos
    obtain ⟨i, hi⟩ := List.getElem?_of_mem hmem
    refine ⟨.index i, child, hi, ?_⟩
    rw [nesting, ← hn]
  | _ => simp [nesting] at h

/-- A tree that is deep at all is as deep as the path to some container is long. -/
theorem exists_deepest {n : Nat} {j : Json} (h : j.nesting = n + 1) :
    ∃ path u, Holds j path u ∧ path.length = n ∧ 0 < u.nesting := by
  induction n generalizing j with
  | zero => exact ⟨[], j, .here j, rfl, by omega⟩
  | succ n ih =>
    obtain ⟨s, child, hchild, hn⟩ := exists_deepest_child (j := j) (by omega)
    obtain ⟨path, u, hu, hlength, hpos⟩ := ih (j := child) (by omega)
    exact ⟨s :: path, u, .inside hchild hu, by simp [hlength], hpos⟩

end Json
end PlanWire
