/-!
# Dictionaries

Names with values, in the order in which they are written. Reading builds
dictionaries whose names increase strictly, in the order of their characters;
`insert` keeps this order, and `ofList` brings it about. Of the entries with
one name `ofList` keeps the last.
-/

set_option autoImplicit false

namespace PlanWire

abbrev Dict (α : Type) := List (String × α)

namespace Dict

variable {α β : Type}

def get? (key : String) : Dict α → Option α
  | [] => none
  | (k, v) :: rest => if k = key then some v else get? key rest

def keys (d : Dict α) : List String := d.map (·.1)

def mapValues (f : α → β) (d : Dict α) : Dict β := d.map fun (k, v) => (k, f v)

/-- Puts a value in its place by name; it replaces one with the same name. -/
def insert (key : String) (value : α) : Dict α → Dict α
  | [] => [(key, value)]
  | (k, v) :: rest =>
    if key < k then (key, value) :: (k, v) :: rest
    else if key = k then (key, value) :: rest
    else (k, v) :: insert key value rest

def ofList (entries : List (String × α)) : Dict α :=
  entries.foldl (fun d (k, v) => d.insert k v) []

def Sorted (d : Dict α) : Prop := d.Pairwise fun a b => a.1 < b.1

theorem get?_insert (d : Dict α) (key k : String) (value : α) :
    get? k (insert key value d) = if k = key then some value else get? k d := by
  induction d with
  | nil => simp [insert, get?, eq_comm]
  | cons entry rest ih =>
    obtain ⟨l, v⟩ := entry
    simp only [insert]
    split
    · simp [get?, eq_comm]
    · split
      · next h =>
        subst h
        by_cases hk : key = k
        · simp [get?, hk]
        · simp [get?, hk, Ne.symm hk]
      · next h =>
        by_cases hl : l = k
        · subst hl; simp [get?, Ne.symm h]
        · simp [get?, hl, ih]

theorem mem_insert {d : Dict α} {key : String} {value : α} {entry : String × α}
    (h : entry ∈ insert key value d) : entry = (key, value) ∨ entry ∈ d := by
  induction d with
  | nil => simpa [insert] using h
  | cons first rest ih =>
    obtain ⟨l, v⟩ := first
    simp only [insert] at h
    split at h
    · simpa using h
    · split at h
      · rcases List.mem_cons.1 h with rfl | h
        · exact .inl rfl
        · exact .inr (List.mem_cons_of_mem _ h)
      · rcases List.mem_cons.1 h with rfl | h
        · exact .inr (List.mem_cons_self ..)
        · exact (ih h).imp id (List.mem_cons_of_mem _)

theorem sorted_insert {d : Dict α} (h : Sorted d) (key : String) (value : α) :
    Sorted (insert key value d) := by
  induction d with
  | nil => exact List.pairwise_singleton ..
  | cons entry rest ih =>
    obtain ⟨l, v⟩ := entry
    obtain ⟨hl, hr⟩ := List.pairwise_cons.1 h
    simp only [insert]
    split
    · next hk =>
      refine List.pairwise_cons.2 ⟨fun e he => ?_, h⟩
      rcases List.mem_cons.1 he with rfl | he
      · exact hk
      · exact String.lt_trans hk (hl e he)
    · split
      · next hk => subst hk; exact List.pairwise_cons.2 ⟨hl, hr⟩
      · next hk he =>
        refine List.pairwise_cons.2 ⟨fun e hm => ?_, ih hr⟩
        rcases mem_insert hm with rfl | hm
        · exact Decidable.byContradiction fun hl => he (String.le_antisymm hl hk)
        · exact hl e hm

theorem sorted_ofList (entries : List (String × α)) : Sorted (ofList entries) := by
  have (d : Dict α) (h : Sorted d) :
      Sorted (entries.foldl (fun d (k, v) => d.insert k v) d) := by
    induction entries generalizing d with
    | nil => exact h
    | cons entry rest ih => exact ih _ (sorted_insert h _ _)
  exact this [] .nil

theorem insert_of_lt {d : Dict α} {key : String} {value : α} (h : ∀ e ∈ d, e.1 < key) :
    insert key value d = d ++ [(key, value)] := by
  induction d with
  | nil => rfl
  | cons entry rest ih =>
    obtain ⟨l, v⟩ := entry
    have hl : l < key := h (l, v) (List.mem_cons_self ..)
    have hn : ¬ key < l := fun hk => String.lt_irrefl l (String.lt_trans hl hk)
    have he : key ≠ l := fun hk => String.lt_irrefl l (hk ▸ hl)
    simp [insert, hn, he, ih fun e hm => h e (List.mem_cons_of_mem _ hm)]

theorem ofList_of_sorted {d : Dict α} (h : Sorted d) : ofList d = d := by
  have (before : Dict α) (rest : List (String × α)) (h : Sorted (before ++ rest)) :
      rest.foldl (fun d (k, v) => d.insert k v) before = before ++ rest := by
    induction rest generalizing before with
    | nil => simp
    | cons entry rest ih =>
      obtain ⟨k, v⟩ := entry
      have hb : ∀ e ∈ before, e.1 < k := fun e he =>
        (List.pairwise_append.1 h).2.2 e he (k, v) (List.mem_cons_self ..)
      rw [List.foldl_cons]
      dsimp only
      rw [insert_of_lt hb, ih _ (by simpa using h)]
      simp
  exact this [] d h

end Dict
end PlanWire
