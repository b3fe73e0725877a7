import PlanWire.Json.Basic

/-!
# Trees with sorted keys

Sorting changes nothing in a well formed tree. In an object whose keys differ
it moves the members without changing what is found under a key.
-/

set_option autoImplicit false

namespace PlanWire

namespace Dict

variable {α β : Type}

theorem get?_of_not_mem {d : Dict α} {key : String} (h : key ∉ d.keys) : get? key d = none := by
  induction d with
  | nil => rfl
  | cons entry rest ih =>
    obtain ⟨k, v⟩ := entry
    simp only [keys, List.map_cons, List.mem_cons, not_or] at h
    simpa [get?, Ne.symm h.1] using ih h.2

theorem get?_foldl_insert {entries : Dict α} (hn : entries.keys.Nodup) (d : Dict α) (key : String) :
    get? key (entries.foldl (fun d (k, v) => d.insert k v) d) =
      (get? key entries).or (get? key d) := by
  induction entries generalizing d with
  | nil => rfl
  | cons entry rest ih =>
    obtain ⟨k, v⟩ := entry
    obtain ⟨hk, hr⟩ := List.nodup_cons.1 hn
    rw [List.foldl_cons, ih hr, get?_insert]
    by_cases h : k = key
    · subst h
      have hm : get? k rest = none := get?_of_not_mem hk
      simp [get?, hm]
    · simp [get?, h, Ne.symm h]

theorem get?_ofList {entries : Dict α} (hn : entries.keys.Nodup) (key : String) :
    get? key (ofList entries) = get? key entries := by
  have h := get?_foldl_insert hn [] key
  simpa [ofList, get?] using h

theorem mem_foldl_insert (entries : List (String × α)) (d : Dict α) {entry : String × α}
    (h : entry ∈ entries.foldl (fun d (k, v) => d.insert k v) d) : entry ∈ d ∨ entry ∈ entries := by
  induction entries generalizing d with
  | nil => exact .inl h
  | cons first rest ih =>
    rcases ih _ h with hi | hr
    · rcases mem_insert hi with rfl | hd
      · exact .inr (List.mem_cons_self ..)
      · exact .inl hd
    · exact .inr (List.mem_cons_of_mem _ hr)

theorem mem_ofList {entries : List (String × α)} {entry : String × α} (h : entry ∈ ofList entries) :
    entry ∈ entries := by
  simpa using mem_foldl_insert entries [] h

theorem mem_keys_ofList {entries : Dict α} {key : String} (h : key ∈ keys (ofList entries)) :
    key ∈ entries.keys := by
  obtain ⟨entry, he, rfl⟩ := List.mem_map.1 h
  exact List.mem_map.2 ⟨entry, mem_ofList he, rfl⟩

theorem keys_mapValues (f : α → β) (d : Dict α) : (d.mapValues f).keys = d.keys := by
  simp [keys, mapValues]

theorem get?_mapValues (f : α → β) (d : Dict α) (key : String) :
    get? key (d.mapValues f) = (get? key d).map f := by
  induction d with
  | nil => rfl
  | cons entry rest ih =>
    obtain ⟨k, v⟩ := entry
    by_cases hk : k = key
    · simp [mapValues, get?, hk]
    · simpa [mapValues, get?, hk] using ih

theorem insert_mapValues (f : α → β) (key : String) (a : α) (d : Dict α) :
    insert key (f a) (d.mapValues f) = (insert key a d).mapValues f := by
  induction d with
  | nil => rfl
  | cons entry rest ih =>
    obtain ⟨k, b⟩ := entry
    simp only [mapValues, List.map_cons, insert] at ih ⊢
    split
    · rfl
    · split
      · rfl
      · rw [ih]
        rfl

theorem ofList_mapValues (f : α → β) (entries : Dict α) :
    ofList (entries.mapValues f) = (ofList entries).mapValues f := by
  have hfold (d : Dict α) :
      (entries.mapValues f).foldl (fun d (k, v) => d.insert k v) (d.mapValues f) =
        (entries.foldl (fun d (k, v) => d.insert k v) d).mapValues f := by
    induction entries generalizing d with
    | nil => rfl
    | cons entry rest ih =>
      obtain ⟨k, a⟩ := entry
      have hd := ih (d.insert k a)
      rw [← insert_mapValues] at hd
      exact hd
  exact hfold []

theorem get?_filter {d : Dict α} {keep : String → Bool} {key : String} (h : keep key = true) :
    get? key (d.filter fun entry => keep entry.1) = get? key d := by
  induction d with
  | nil => rfl
  | cons entry rest ih =>
    obtain ⟨k, v⟩ := entry
    by_cases hk : k = key
    · subst hk
      simp [get?, h]
    · by_cases hkeep : keep k = true
      · simpa [get?, hk, hkeep] using ih
      · simpa [get?, hk, hkeep] using ih

theorem sorted_iff_keys (d : Dict α) : d.Sorted ↔ d.keys.Pairwise (· < ·) := by
  simp [Sorted, keys, List.pairwise_map]

end Dict

namespace Json

theorem sortedMembers_eq_mapValues (members : Dict Json) :
    sortedMembers members = members.mapValues sorted := by
  induction members with
  | nil => rfl
  | cons member rest ih =>
    obtain ⟨k, j⟩ := member
    simp only [sortedMembers, ih]
    rfl

theorem sortedItems_eq_map (items : List Json) : sortedItems items = items.map sorted := by
  induction items with
  | nil => rfl
  | cons j rest ih => rw [sortedItems, ih, List.map_cons]

theorem keys_sortedMembers (members : Dict Json) : (Dict.keys (sortedMembers members)) = members.keys := by
  rw [sortedMembers_eq_mapValues, Dict.keys_mapValues]

mutual

theorem sorted_of_wellFormed : ∀ j : Json, j.WellFormed → j.sorted = j
  | .null, _ | .bool _, _ | .num _, _ | .str _, _ => rfl
  | .arr items, h => by rw [sorted, sortedItems_of_wellFormed items h]
  | .obj members, h => by
    rw [sorted, sortedMembers_of_wellFormed members h.2, Dict.ofList_of_sorted h.1]

theorem sortedItems_of_wellFormed : ∀ items, WellFormedItems items → sortedItems items = items
  | [], _ => rfl
  | j :: rest, h => by
    rw [sortedItems, sorted_of_wellFormed j h.1, sortedItems_of_wellFormed rest h.2]

theorem sortedMembers_of_wellFormed :
    ∀ members, WellFormedMembers members → sortedMembers members = members
  | [], _ => rfl
  | (_, j) :: rest, h => by
    rw [sortedMembers, sorted_of_wellFormed j h.1, sortedMembers_of_wellFormed rest h.2]

end

theorem wellFormedItems_iff (items : List Json) : WellFormedItems items ↔ ∀ j ∈ items, j.WellFormed := by
  induction items with
  | nil => simp [WellFormedItems]
  | cons j rest ih => simp [WellFormedItems, ih]

theorem wellFormedMembers_iff (members : List (String × Json)) :
    WellFormedMembers members ↔ ∀ member ∈ members, member.2.WellFormed := by
  induction members with
  | nil => simp [WellFormedMembers]
  | cons member rest ih => simp [WellFormedMembers, ih]

mutual

theorem wellFormed_sorted : ∀ j : Json, j.sorted.WellFormed
  | .null | .bool _ | .num _ | .str _ => trivial
  | .arr items => wellFormed_sortedItems items
  | .obj members => by
    have hmembers := (wellFormedMembers_iff _).1 (wellFormed_sortedMembers members)
    constructor
    · exact Dict.sorted_ofList _
    · exact (wellFormedMembers_iff _).2 fun member hm => hmembers member (Dict.mem_ofList hm)

theorem wellFormed_sortedItems : ∀ items, WellFormedItems (sortedItems items)
  | [] => trivial
  | j :: rest => ⟨wellFormed_sorted j, wellFormed_sortedItems rest⟩

theorem wellFormed_sortedMembers : ∀ members, WellFormedMembers (sortedMembers members)
  | [] => trivial
  | (_, j) :: rest => ⟨wellFormed_sorted j, wellFormed_sortedMembers rest⟩

end

/-- Sorting changes exactly the trees that are not well formed. -/
theorem sorted_eq_self {j : Json} : j.sorted = j ↔ j.WellFormed := by
  constructor
  · intro h
    rw [← h]
    exact wellFormed_sorted j
  · exact sorted_of_wellFormed j

theorem sorted_ne_null {j : Json} (h : j ≠ .null) : j.sorted ≠ .null := by
  cases j with
  | null => exact absurd rfl h
  | bool b => simp [sorted]
  | num n => simp [sorted]
  | str s => simp [sorted]
  | arr items => simp [sorted]
  | obj members => simp [sorted]

theorem sorted_obj {members : Dict Json} (h : members.Sorted) :
    (Json.obj members).sorted = .obj (sortedMembers members) := by
  have hs : Dict.Sorted (sortedMembers members) := by
    rw [Dict.sorted_iff_keys, keys_sortedMembers, ← Dict.sorted_iff_keys]
    exact h
  rw [sorted, Dict.ofList_of_sorted hs]

theorem wellFormed_of_get? {members : Dict Json} {key : String} {j : Json}
    (hw : WellFormedMembers members) (h : Dict.get? key members = some j) : j.WellFormed := by
  induction members with
  | nil => cases h
  | cons member rest ih =>
    obtain ⟨k, i⟩ := member
    by_cases hk : k = key
    · obtain rfl : i = j := by simpa [Dict.get?, hk] using h
      exact hw.1
    · exact ih hw.2 (by simpa [Dict.get?, hk] using h)

theorem nesting_le_of_get? {members : Dict Json} {key : String} {j : Json}
    (h : Dict.get? key members = some j) : j.nesting ≤ nestingMembers members := by
  induction members with
  | nil => cases h
  | cons member rest ih =>
    obtain ⟨k, i⟩ := member
    by_cases hk : k = key
    · obtain rfl : i = j := by simpa [Dict.get?, hk] using h
      exact Nat.le_max_left ..
    · exact Nat.le_trans (ih (by simpa [Dict.get?, hk] using h)) (Nat.le_max_right ..)

theorem nestingItems_le_iff {items : List Json} {n : Nat} :
    nestingItems items ≤ n ↔ ∀ j ∈ items, j.nesting ≤ n := by
  induction items with
  | nil => simp [nestingItems]
  | cons j rest ih => rw [nestingItems, Nat.max_le, ih, List.forall_mem_cons]

theorem nestingMembers_le_iff {members : List (String × Json)} {n : Nat} :
    nestingMembers members ≤ n ↔ ∀ member ∈ members, member.2.nesting ≤ n := by
  induction members with
  | nil => simp [nestingMembers]
  | cons member rest ih => rw [nestingMembers, Nat.max_le, ih, List.forall_mem_cons]

theorem nesting_le_of_mem_items {items : List Json} {j : Json} (h : j ∈ items) :
    j.nesting ≤ nestingItems items := nestingItems_le_iff.1 (Nat.le_refl _) j h

theorem nesting_le_of_mem_members {members : List (String × Json)} {member : String × Json}
    (h : member ∈ members) : member.2.nesting ≤ nestingMembers members :=
  nestingMembers_le_iff.1 (Nat.le_refl _) member h

mutual

theorem nesting_sorted_le : ∀ j : Json, j.sorted.nesting ≤ j.nesting
  | .null | .bool _ | .num _ | .str _ => Nat.le_refl _
  | .arr items => by
    have hitems := nestingItems_sorted_le items
    simp only [sorted, nesting]
    omega
  | .obj members => by
    have hmembers := nestingMembers_sorted_le members
    have hkept : nestingMembers (Dict.ofList (sortedMembers members)) ≤
        nestingMembers (sortedMembers members) :=
      nestingMembers_le_iff.2 fun member hm => nesting_le_of_mem_members (Dict.mem_ofList hm)
    simp only [sorted, nesting]
    omega

theorem nestingItems_sorted_le : ∀ items, nestingItems (sortedItems items) ≤ nestingItems items
  | [] => Nat.le_refl _
  | j :: rest => by
    have hj := nesting_sorted_le j
    have hrest := nestingItems_sorted_le rest
    simp only [sortedItems, nestingItems]
    omega

theorem nestingMembers_sorted_le :
    ∀ members, nestingMembers (sortedMembers members) ≤ nestingMembers members
  | [] => Nat.le_refl _
  | (_, j) :: rest => by
    have hj := nesting_sorted_le j
    have hrest := nestingMembers_sorted_le rest
    simp only [sortedMembers, nestingMembers]
    omega

end

theorem sorted_eq_str {j : Json} {s : String} (h : j.sorted = .str s) : j = .str s := by
  cases j <;> simp_all [sorted]

theorem sorted_eq_arr {j : Json} {items : List Json} (h : j.sorted = .arr items) :
    ∃ others, j = .arr others ∧ others.map sorted = items := by
  cases j <;> simp_all [sorted, sortedItems_eq_map]

theorem sorted_eq_obj {j : Json} {members : List (String × Json)} (h : j.sorted = .obj members) :
    ∃ others, j = .obj others ∧ Dict.ofList (Dict.mapValues sorted others) = members := by
  cases j <;> simp_all [sorted, sortedMembers_eq_mapValues]

theorem get?_sorted {members : Dict Json} (hn : members.keys.Nodup) (key : String) :
    Dict.get? key (Dict.ofList (sortedMembers members)) = Dict.get? key (sortedMembers members) :=
  Dict.get?_ofList (by rwa [keys_sortedMembers]) key

end Json
end PlanWire
