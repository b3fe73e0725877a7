import PlanWire.Proofs.Wire.Records

/-!
# Values that are read again

A value is restored by a codec when it is read from the tree that is written
for it and sorted. Whether a value is restored depends on its parts alone: a
list on its values, a dictionary also on the order of its names, and a record on
its fields.
-/

set_option autoImplicit false

namespace PlanWire

open Json (sortedItems sortedMembers)

namespace Codec

variable {α : Type} {c : Codec α}

def Restored (c : Codec α) (a : α) : Prop := c.decode (c.encode a).sorted = .ok a

theorem restored_value {j : Json} : Codec.value.Restored j ↔ j.WellFormed := by
  rw [← Json.sorted_eq_self]
  exact Except.ok.injEq _ _ ▸ Iff.rfl

theorem restored_list {xs : List α} : c.list.Restored xs ↔ ∀ a ∈ xs, c.Restored a := by
  show c.decodeItems (sortedItems (xs.map c.encode)) = .ok xs ↔ _
  induction xs with
  | nil => simp [sortedItems, decodeItems]
  | cons a rest ih =>
    rw [List.forall_mem_cons, ← ih, List.map_cons, sortedItems, decodeItems_cons]
    constructor
    · rintro ⟨b, bs, hb, hbs, hab⟩
      obtain ⟨rfl, rfl⟩ := List.cons.inj hab
      exact ⟨hb, hbs⟩
    · rintro ⟨ha, hrest⟩
      exact ⟨a, rest, ha, hrest, rfl⟩

theorem decodeMembers_sortedMembers {d : Dict α} :
    c.decodeMembers (sortedMembers (d.mapValues c.encode)) = .ok d ↔
      ∀ entry ∈ d, c.Restored entry.2 := by
  induction d with
  | nil => simp [Dict.mapValues, sortedMembers, decodeMembers]
  | cons entry rest ih =>
    rw [List.forall_mem_cons, ← ih]
    show c.decodeMembers ((entry.1, (c.encode entry.2).sorted) ::
      sortedMembers (Dict.mapValues c.encode rest)) = _ ↔ _
    rw [decodeMembers_cons]
    constructor
    · rintro ⟨b, bs, hb, hbs, hab⟩
      obtain ⟨hentry, rfl⟩ := List.cons.inj hab
      rw [← hentry] at hb ⊢
      exact ⟨hb, hbs⟩
    · rintro ⟨ha, hrest⟩
      exact ⟨entry.2, rest, ha, hrest, rfl⟩

theorem decode_sorted_dict {d : Dict α} (hd : d.Sorted) :
    c.dict.decode (c.dict.encode d).sorted =
      c.decodeMembers (sortedMembers (d.mapValues c.encode)) := by
  have hs : Dict.Sorted (d.mapValues c.encode) := by
    rw [Dict.sorted_iff_keys, Dict.keys_mapValues, ← Dict.sorted_iff_keys]
    exact hd
  rw [Codec.dict, Json.sorted_obj hs]

theorem restored_dict {d : Dict α} :
    c.dict.Restored d ↔ d.Sorted ∧ ∀ entry ∈ d, c.Restored entry.2 := by
  constructor
  · intro h
    have hkeys := keys_of_decodeMembers h
    have hd : d.Sorted := by
      rw [Dict.sorted_iff_keys, hkeys, ← Dict.sorted_iff_keys]
      exact Dict.sorted_ofList _
    rw [Restored, decode_sorted_dict hd] at h
    exact ⟨hd, decodeMembers_sortedMembers.1 h⟩
  · rintro ⟨hd, hentries⟩
    rw [Restored, decode_sorted_dict hd]
    exact decodeMembers_sortedMembers.2 hentries

theorem restored_optional (hc : ∀ a, c.encode a ≠ .null) {o : Option α} :
    c.optional.Restored o ↔ ∀ a ∈ o, c.Restored a := by
  cases o with
  | none => simp [Restored, Codec.optional, Json.sorted]
  | some a =>
    have hs : (c.encode a).sorted ≠ .null := Json.sorted_ne_null (hc a)
    show c.optional.decode (c.encode a).sorted = .ok (some a) ↔ _
    rw [decode_optional hs, map_eq_ok]
    simp [Restored]

end Codec

namespace Field

variable {α : Type} {c : Codec α} {name : String}

/-- A field is restored when its value is, if only values that count as absent
are left out. -/
theorem restores_iff {f : Field α} (hskip : ∀ a, f.skip a = true → f.absent = some a)
    (habsent : ∀ a, f.skip a = true → f.codec.Restored a) {a : α} :
    f.sorting.Restores a ↔ f.codec.Restored a := by
  constructor
  · intro h
    by_cases hs : f.skip a = true
    · exact habsent a hs
    · have hwritten : f.sorting.skip a = false := Bool.eq_false_iff.2 hs
      exact h.2 hwritten
  · intro h
    exact ⟨hskip a, fun _ => h⟩

theorem optional_restores (hc : ∀ a, c.encode a ≠ .null) {o : Option α} :
    (Field.optional name c).sorting.Restores o ↔ ∀ a ∈ o, c.Restored a := by
  rw [← Codec.restored_optional hc]
  apply restores_iff
  · intro a hs
    rw [Option.isNone_iff_eq_none.1 hs]
    rfl
  · intro a hs
    rw [Option.isNone_iff_eq_none.1 hs]
    rfl

theorem text_restores {s : String} : (Field.text name).sorting.Restores s := by
  rw [restores_iff]
  · rfl
  · intro a hs
    rw [String.isEmpty_iff.1 hs]
    rfl
  · intro a _
    rfl

theorem kept_restores {o : Option Json} :
    (Field.kept name).sorting.Restores o ↔ ∀ j ∈ o, j.WellFormed := by
  cases o with
  | none => simp [Restores, Field.kept, sorting]
  | some j => simp [Restores, Field.kept, sorting, Codec.sorting, Codec.kept, Json.sorted_eq_self]

theorem list_restores {xs : List α} :
    (Field.list name c).sorting.Restores xs ↔ ∀ a ∈ xs, c.Restored a := by
  rw [← Codec.restored_list]
  apply restores_iff
  · intro a hs
    rw [List.isEmpty_iff.1 hs]
    rfl
  · intro a hs
    rw [List.isEmpty_iff.1 hs]
    rfl

theorem dict_restores {d : Dict α} :
    (Field.dict name c).sorting.Restores d ↔ d.Sorted ∧ ∀ entry ∈ d, c.Restored entry.2 := by
  rw [← Codec.restored_dict]
  apply restores_iff
  · intro a hs
    rw [List.isEmpty_iff.1 hs]
    rfl
  · intro a hs
    rw [List.isEmpty_iff.1 hs]
    rfl

theorem list_map_restores {g : α → α} (hg : ∀ a, c.Restored a → c.Restored (g a)) {xs : List α}
    (h : (Field.list name c).sorting.Restores xs) :
    (Field.list name c).sorting.Restores (xs.map g) := by
  rw [list_restores] at h ⊢
  intro b hb
  obtain ⟨a, ha, rfl⟩ := List.mem_map.1 hb
  exact hg a (h a ha)

theorem dict_map_restores {g : String → α → α} (hg : ∀ name a, c.Restored a → c.Restored (g name a))
    {d : Dict α} (h : (Field.dict name c).sorting.Restores d) :
    (Field.dict name c).sorting.Restores (d.map fun entry => (entry.1, g entry.1 entry.2)) := by
  rw [dict_restores] at h ⊢
  obtain ⟨hsorted, hentries⟩ := h
  constructor
  · rw [Dict.Sorted, List.pairwise_map]
    exact hsorted
  · intro entry he
    obtain ⟨old, hold, rfl⟩ := List.mem_map.1 he
    exact hg old.1 old.2 (hentries old hold)

theorem optional_map_restores (hc : ∀ a, c.encode a ≠ .null) {g : α → α}
    (hg : ∀ a, c.Restored a → c.Restored (g a)) {o : Option α}
    (h : (Field.optional name c).sorting.Restores o) :
    (Field.optional name c).sorting.Restores (o.map g) := by
  rw [optional_restores hc] at h ⊢
  intro b hb
  obtain ⟨a, ha, rfl⟩ := Option.map_eq_some_iff.1 hb
  exact hg a (h a ha)

end Field

namespace Fields

theorem restores_of_read_encode {τ : Type} (fs : Fields τ) (p : τ) (hn : fs.names.Nodup)
    (h : fs.read (fs.encode p) = .read p) : fs.Restores p := by
  induction fs with
  | nil => trivial
  | cons f fs ih =>
    obtain ⟨a, rest⟩ := p
    obtain ⟨hm, hn⟩ := List.nodup_cons.1 hn
    obtain ⟨hfirst, hrest⟩ := Outcome.both_eq_read.1 h
    have hwritten := get?_encode_cons hm a rest
    constructor
    · rw [Field.read_eq_read, hwritten] at hfirst
      by_cases hs : f.skip a = true
      · simpa [Field.Restores, hs] using hfirst
      · simpa [Field.Restores, hs] using hfirst
    · apply ih rest hn
      rw [← hrest]
      apply fs.read_congr
      intro name hname
      have hne : f.name ≠ name := fun he => hm (he ▸ hname)
      exact (get?_encode_cons_of_ne hne a rest).symm

end Fields

namespace Record

variable {α : Type} {r : Record α}

theorem restored_iff {a : α} : r.codec.Restored a ↔ r.fields.sorting.Restores (r.parts a) := by
  constructor
  · intro h
    have hread := ofMembers_eq_ok.1 h
    apply Fields.restores_of_read_encode
    · rw [Fields.names_sorting]
      exact r.distinct
    · have hk : (Dict.keys (r.fields.encode (r.parts a))).Nodup :=
        (r.fields.keys_encode _).nodup r.distinct
      rw [Fields.read_sorting, Fields.encode_sorting, ← hread]
      exact r.fields.read_congr fun name _ => (Json.get?_sorted hk name).symm
  · exact ofMembers_sorted_encode

theorem encode_ne_null (a : α) : r.codec.encode a ≠ .null := nofun

end Record

end PlanWire
