import PlanWire.Proofs.Expression.Tree

/-!
# The shapes of expressions

An expression is read from null, from an array of objects whose members are
expressions again, and from an object whose references, if it has any, are an
array of strings. Besides these the scalar record can be given as an array of
its fields: one item that is no object is a constant, and of two items the
second holds the references. No other array with an item that is no object is
read, on the outside or within a block.
-/

set_option autoImplicit false

namespace PlanWire

namespace Json

def IsTexts (j : Json) : Prop := ∃ texts : List String, j = .arr (texts.map .str)

theorem isObject_iff {j : Json} : j.isObject = true ↔ ∃ members, j = .obj members := by
  cases j <;> simp [isObject]

theorem IsTexts.isObject {j : Json} (h : j.IsTexts) : j.isObject = false := by
  obtain ⟨texts, rfl⟩ := h
  rfl

end Json

namespace Codec

theorem decodeItems_text {items : List Json} {texts : List String} :
    text.decodeItems items = .ok texts ↔ items = texts.map .str := by
  constructor
  · intro h
    induction items generalizing texts with
    | nil =>
      obtain rfl : [] = texts := by simpa [decodeItems] using h
      rfl
    | cons j rest ih =>
      obtain ⟨s, ss, hs, hss, rfl⟩ := decodeItems_cons.1 h
      cases j with
      | str t =>
        obtain rfl : t = s := by simpa [text] using hs
        rw [ih hss, List.map_cons]
      | _ => simp [text, mismatch] at hs
  · rintro rfl
    have hread : ∀ s ∈ texts, text.decode (text.encode s) = .ok s := fun _ _ => rfl
    exact decodeItems_map_encode hread

theorem exists_decode_texts {j : Json} :
    (∃ texts, text.list.decode j = .ok texts) ↔ j.IsTexts := by
  cases j with
  | arr items =>
    have hitems (texts : List String) :
        text.list.decode (.arr items) = .ok texts ↔ items = texts.map .str := decodeItems_text
    simp only [hitems, Json.IsTexts, Json.arr.injEq]
  | _ => simp [list, mismatch, Json.IsTexts]

end Codec

namespace Expression

theorem exists_scalar_members {members : List (String × Json)} :
    (∃ p, scalar.codec.decode (.obj members) = .ok p) ↔
      ∀ j, Dict.get? "references" members = some j → j.IsTexts := by
  have hread : (∃ p, scalar.codec.decode (.obj members) = .ok p) ↔
      ∃ p, scalar.fields.read members = .read p := by
    constructor
    · rintro ⟨p, h⟩
      exact ⟨scalar.parts p, Record.ofMembers_eq_ok.1 h⟩
    · rintro ⟨p, h⟩
      exact ⟨scalar.make p, Record.ofMembers_eq_ok.2 h⟩
  have hconstant : ∃ c, (Field.kept "constant_value").read members = .read c :=
    (Field.exists_read rfl).2 fun j _ => ⟨some j, rfl⟩
  have hreferences : (∃ r, (Field.list "references" Codec.text).read members = .read r) ↔
      ∀ j, Dict.get? "references" members = some j → j.IsTexts := by
    rw [Field.exists_read rfl]
    exact forall₂_congr fun _ _ => Codec.exists_decode_texts
  have hend : ∃ p, Fields.nil.read members = .read p := ⟨(), rfl⟩
  rw [hread, ← hreferences]
  constructor
  · intro h
    exact (Fields.exists_read_cons.1 (Fields.exists_read_cons.1 h).2).1
  · intro h
    exact Fields.exists_read_cons.2 ⟨hconstant, Fields.exists_read_cons.2 ⟨h, hend⟩⟩

theorem scalar_two_items (j refs : Json) :
    scalar.codec.decode (.arr [j, refs]) =
      (Codec.text.list.decode refs).map fun texts => (some j, texts) := by
  change scalar.ofItems [j, refs] = _
  cases h : Codec.text.list.decode refs <;>
    simp [Record.ofItems, scalar, Fields.take, Field.kept, Field.list, Codec.kept, h, bind,
      Except.bind, pure, Except.pure, Except.map]

theorem scalar_excess (j refs excess : Json) (rest : List Json) :
    ∃ fault, scalar.codec.decode (.arr (j :: refs :: excess :: rest)) = .error fault := by
  change ∃ fault, scalar.ofItems (j :: refs :: excess :: rest) = .error fault
  cases h : Codec.text.list.decode refs <;>
    simp [Record.ofItems, scalar, Fields.take, Field.kept, Field.list, Codec.kept, h, bind,
      Except.bind, pure, Except.pure]

theorem exists_scalar_items {items : List Json} :
    (∃ p, scalar.codec.decode (.arr items) = .ok p) ↔
      items = [] ∨ (∃ j, items = [j]) ∨ ∃ j refs, items = [j, refs] ∧ refs.IsTexts := by
  match items with
  | [] => exact ⟨fun _ => .inl rfl, fun _ => ⟨(none, []), rfl⟩⟩
  | [j] => exact ⟨fun _ => .inr (.inl ⟨j, rfl⟩), fun _ => ⟨(some j, []), rfl⟩⟩
  | [j, refs] =>
    rw [scalar_two_items, exists_map_eq_ok, Codec.exists_decode_texts]
    constructor
    · intro h
      exact .inr (.inr ⟨j, refs, rfl, h⟩)
    · rintro (h | ⟨_, h⟩ | ⟨_, _, h, hrefs⟩)
      · cases h
      · cases h
      · cases h
        exact hrefs
  | j :: refs :: excess :: rest =>
    obtain ⟨fault, h⟩ := scalar_excess j refs excess rest
    simp [h]

theorem exists_decode_obj {members : List (String × Json)} :
    (∃ e, decode (.obj members) = .ok e) ↔
      ∀ j, Dict.get? "references" members = some j → j.IsTexts := by
  rw [decode_obj, exists_map_eq_ok, exists_scalar_members]

theorem exists_decode_blocks {items : List Json} (h : items.all Json.isObject = true) :
    (∃ e, decode (.arr items) = .ok e) ↔
      ∀ members, .obj members ∈ items → ∀ member ∈ members, ∃ e, decode member.2 = .ok e := by
  rw [decode_blocks h, exists_map_eq_ok, Codec.exists_decodeItems]
  constructor
  · intro hitems members hm
    exact Codec.exists_decodeMembers.1 (hitems (.obj members) hm)
  · intro hmembers j hj
    obtain ⟨members, rfl⟩ := Json.isObject_iff.1 (List.all_eq_true.1 h j hj)
    exact Codec.exists_decodeMembers.2 (hmembers members hj)

theorem exists_decode_mixed {items : List Json} (h : ¬ items.all Json.isObject = true) :
    (∃ e, decode (.arr items) = .ok e) ↔
      (∃ j, items = [j]) ∨ ∃ j refs, items = [j, refs] ∧ refs.IsTexts := by
  have hne : items ≠ [] := by
    rintro rfl
    exact h rfl
  rw [decode_mixed h, exists_map_eq_ok, exists_scalar_items]
  simp only [hne, false_or]

/-- What an expression is read from. The last two are the array forms of the
scalar record that are not taken for blocks. -/
inductive InGrammar : Json → Prop
  | null : InGrammar .null
  | blocks {items : List Json} (objects : items.all Json.isObject = true)
      (inside : ∀ members, .obj members ∈ items → ∀ member ∈ members, InGrammar member.2) :
      InGrammar (.arr items)
  | scalar {members : List (String × Json)}
      (references : ∀ j, Dict.get? "references" members = some j → j.IsTexts) :
      InGrammar (.obj members)
  | constant {j : Json} (plain : j.isObject = false) : InGrammar (.arr [j])
  | items (j : Json) {refs : Json} (references : refs.IsTexts) : InGrammar (.arr [j, refs])

theorem exists_decode_of_inGrammar {v : Json} (h : InGrammar v) : ∃ e, decode v = .ok e := by
  induction h with
  | null => exact ⟨{}, by simp [decode]⟩
  | blocks objects _ ih => exact (exists_decode_blocks objects).2 ih
  | scalar references => exact exists_decode_obj.2 references
  | @constant j plain =>
    have hmixed : ¬ [j].all Json.isObject = true := by simp [plain]
    exact (exists_decode_mixed hmixed).2 (.inl ⟨j, rfl⟩)
  | @items j refs references =>
    have hmixed : ¬ [j, refs].all Json.isObject = true := by simp [references.isObject]
    exact (exists_decode_mixed hmixed).2 (.inr ⟨j, refs, rfl, references⟩)

/-- To show something of every tree, it may be assumed of the members of the
objects in it when it is an array. -/
theorem block_induction {P : Json → Prop}
    (step : ∀ v, (∀ items members, v = .arr items → .obj members ∈ items →
      ∀ member ∈ members, P member.2) → P v) (v : Json) : P v := by
  induction hn : v.nesting using Nat.strongRecOn generalizing v with
  | _ n ih =>
    apply step
    rintro items members rfl hm member hmember
    have hobject : (Json.obj members).nesting ≤ Json.nestingItems items :=
      Json.nesting_le_of_mem_items hm
    have hinner : member.2.nesting ≤ Json.nestingMembers members :=
      Json.nesting_le_of_mem_members hmember
    simp only [Json.nesting] at hobject hn
    exact ih member.2.nesting (by omega) member.2 rfl

theorem inGrammar_of_exists_decode (v : Json) : (∃ e, decode v = .ok e) → InGrammar v := by
  induction v using block_induction with
  | step v ih =>
    intro h
    cases v with
    | null => exact .null
    | arr items =>
      by_cases hobjects : items.all Json.isObject = true
      · have hblocks := (exists_decode_blocks hobjects).1 h
        exact .blocks hobjects fun members hm member hmember =>
          ih items members rfl hm member hmember (hblocks members hm member hmember)
      · rcases (exists_decode_mixed hobjects).1 h with ⟨j, rfl⟩ | ⟨j, refs, rfl, hrefs⟩
        · exact .constant (by simpa using hobjects)
        · exact .items j hrefs
    | obj members => exact .scalar (exists_decode_obj.1 h)
    | _ => simp [decode, Record.codec, Codec.mismatch, Except.map] at h

/-- A tree of the grammar is read, and any other is refused for a fault of its
shape. -/
theorem read_or_refused (v : Json) :
    (InGrammar v ∧ ∃ e, ofShape (decode v) = .ok e) ∨
      (¬ InGrammar v ∧ ∃ fault, ofShape (decode v) = .error (.schemaViolation (.shape fault))) := by
  cases hd : decode v with
  | ok e =>
    have hv : InGrammar v := inGrammar_of_exists_decode v ⟨e, hd⟩
    exact .inl ⟨hv, e, rfl⟩
  | error fault =>
    refine .inr ⟨?_, fault, rfl⟩
    intro hv
    obtain ⟨e, he⟩ := exists_decode_of_inGrammar hv
    rw [hd] at he
    cases he

/-- Arrays with items that are no objects are not always refused, neither on
the outside nor within a block. -/
theorem array_of_scalars_is_read :
    decode (.arr [.str "a"]) = .ok (ofConstant (.str "a")) ∧
      decode (.arr [.obj [("b", .arr [.obj [], .arr [.str "a"]])]]) =
        .ok (ofBlocks [[("b", { constant := some (.obj []), references := ["a"] })]]) := by
  exact ⟨rfl, rfl⟩

end Expression
end PlanWire
