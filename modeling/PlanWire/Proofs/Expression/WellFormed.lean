import PlanWire.Proofs.Expression.Grammar

/-!
# Well-formed expressions

Only well-formed expressions are read, and they are exactly the ones that are
read again from the tree written for them: a constant or a reference beside
blocks is not written, and so it is lost.
-/

set_option autoImplicit false

namespace PlanWire.Expression

theorem wellFormed_iff {e : Expression} :
    e.WellFormed ↔ (e.blocks ≠ [] → e.constant = none ∧ e.references = []) ∧
      ∀ block ∈ e.blocks, ∀ entry ∈ block, entry.2.WellFormed := by
  constructor
  · intro h
    cases h with
    | scalar constant references =>
      refine ⟨fun hb => absurd rfl hb, ?_⟩
      intro block hblock
      cases hblock
    | nested blocks inside => exact ⟨fun _ => ⟨rfl, rfl⟩, inside⟩
  · rintro ⟨halone, hinside⟩
    obtain ⟨constant, references, blocks⟩ := e
    by_cases hb : blocks = []
    · subst hb
      exact .scalar constant references
    · obtain ⟨hc, hr⟩ := halone hb
      dsimp only at hc hr
      subst hc hr
      exact .nested blocks hinside

inductive Inside (e : Expression) : Expression → Prop
  | self : Inside e e
  | nested {f : Expression} {block : List (String × Expression)} {entry : String × Expression}
      (outer : Inside e f) (hblock : block ∈ f.blocks) (hentry : entry ∈ block) :
      Inside e entry.2

theorem Inside.within {e g : Expression} {block : List (String × Expression)}
    {entry : String × Expression} (hblock : block ∈ e.blocks) (hentry : entry ∈ block)
    (h : Inside entry.2 g) : Inside e g := by
  induction h with
  | self => exact .nested .self hblock hentry
  | nested _ hb he ih => exact .nested ih hb he

theorem sizeOf_lt_of_mem {e : Expression} {block : List (String × Expression)}
    {entry : String × Expression} (hblock : block ∈ e.blocks) (hentry : entry ∈ block) :
    sizeOf entry.2 < sizeOf e := by
  obtain ⟨constant, references, blocks⟩ := e
  obtain ⟨name, f⟩ := entry
  have hb : sizeOf block < sizeOf blocks := List.sizeOf_lt_of_mem hblock
  have he : sizeOf (name, f) < sizeOf block := List.sizeOf_lt_of_mem hentry
  simp only [Prod.mk.sizeOf_spec, mk.sizeOf_spec] at he ⊢
  omega

theorem wellFormed_of_inside (e : Expression)
    (h : ∀ f, Inside e f → f.blocks ≠ [] → f.constant = none ∧ f.references = []) :
    e.WellFormed := by
  refine wellFormed_iff.2 ⟨h e .self, ?_⟩
  intro block hblock entry hentry
  have hlt : sizeOf entry.2 < sizeOf e := sizeOf_lt_of_mem hblock hentry
  exact wellFormed_of_inside entry.2 fun f hf => h f (hf.within hblock hentry)
termination_by sizeOf e

/-- An expression is well formed when at every depth the blocks stand alone. -/
theorem wellFormed_iff_inside {e : Expression} :
    e.WellFormed ↔ ∀ f, Inside e f → f.blocks ≠ [] → f.constant = none ∧ f.references = [] := by
  constructor
  · intro h f hf
    have hw : f.WellFormed := by
      induction hf with
      | self => exact h
      | nested _ hblock hentry ih => exact (wellFormed_iff.1 ih).2 _ hblock _ hentry
    exact (wellFormed_iff.1 hw).1
  · exact wellFormed_of_inside e

theorem wellFormed_ofScalar (p : Option Json × List String) : (ofScalar p).WellFormed :=
  .scalar p.1 p.2

theorem wellFormed_of_decode (v : Json) : ∀ e, decode v = .ok e → e.WellFormed := by
  induction v using block_induction with
  | step v ih =>
    intro e h
    cases v with
    | null =>
      obtain rfl : {} = e := by simpa [decode] using h
      exact .scalar none []
    | arr items =>
      by_cases hobjects : items.all Json.isObject = true
      · rw [decode_blocks hobjects] at h
        obtain ⟨blocks, hblocks, rfl⟩ := map_eq_ok.1 h
        refine .nested blocks ?_
        intro block hblock entry hentry
        obtain ⟨j, hj, hd⟩ := Codec.exists_of_mem_decodeItems hblocks hblock
        obtain ⟨members, rfl⟩ := Json.isObject_iff.1 (List.all_eq_true.1 hobjects j hj)
        obtain ⟨member, hm, he⟩ := Codec.exists_of_mem_decodeMembers hd hentry
        exact ih items members rfl hj member hm entry.2 he
      · rw [decode_mixed hobjects] at h
        obtain ⟨p, -, rfl⟩ := map_eq_ok.1 h
        exact wellFormed_ofScalar p
    | _ =>
      simp only [decode] at h
      obtain ⟨p, -, rfl⟩ := map_eq_ok.1 h
      exact wellFormed_ofScalar p

theorem restores_scalar_parts (p : Option Json × List String) :
    scalar.fields.Restores (scalar.parts p) := by
  obtain ⟨constant, references⟩ := p
  have hconstant : (Field.kept "constant_value").Restores constant := by
    cases constant with
    | none => exact ⟨fun _ => rfl, nofun⟩
    | some j => exact ⟨nofun, fun _ => rfl⟩
  have htexts : Codec.text.decodeItems (references.map .str) = .ok references :=
    Codec.decodeItems_text.2 rfl
  have hreferences : (Field.list "references" Codec.text).Restores references := by
    cases references with
    | nil => exact ⟨fun _ => rfl, nofun⟩
    | cons first rest => exact ⟨nofun, fun _ => htexts⟩
  exact ⟨hconstant, hreferences, trivial⟩

theorem decode_encode_scalar (constant : Option Json) (references : List String) :
    decode (encode { constant, references }) = .ok { constant, references } := by
  have hread : scalar.codec.decode (scalar.codec.encode (constant, references)) =
      .ok (constant, references) := scalar.decode_encode _ (restores_scalar_parts _)
  have hencode : encode { constant, references } = scalar.codec.encode (constant, references) :=
    encode_ofScalar (constant, references)
  rw [hencode]
  change decode (.obj _) = _
  rw [decode_obj]
  exact map_eq_ok.2 ⟨(constant, references), hread, rfl⟩

theorem decode_encode_of_wellFormed {e : Expression} (h : e.WellFormed) :
    decode (encode e) = .ok e := by
  induction h with
  | scalar constant references => exact decode_encode_scalar constant references
  | nested blocks _ ih =>
    by_cases hb : blocks = []
    · subst hb
      exact decode_encode_scalar none []
    · have hblock : ∀ block ∈ blocks, codec.dict.decode (codec.dict.encode block) = .ok block :=
        fun block hblock => Codec.decodeMembers_mapValues_encode (ih block hblock)
      have hobjects : (blocks.map codec.dict.encode).all Json.isObject = true := by
        simp [Codec.dict, Json.isObject]
      have hread := Codec.decodeItems_map_encode hblock
      change decode (encode (ofBlocks blocks)) = .ok (ofBlocks blocks)
      rw [encode_ofBlocks hb, decode_blocks hobjects]
      exact map_eq_ok.2 ⟨blocks, hread, rfl⟩

/-- What is read is well formed, and exactly the well-formed expressions are
read again from their own trees. -/
theorem decode_encode_iff_wellFormed :
    (∀ v e, decode v = .ok e → e.WellFormed) ∧
      ∀ e : Expression, decode e.encode = .ok e ↔ e.WellFormed := by
  refine ⟨wellFormed_of_decode, ?_⟩
  intro e
  constructor
  · intro h
    exact wellFormed_of_decode e.encode e h
  · intro h
    exact decode_encode_of_wellFormed h

def blockTree : Json := .arr [.obj [
  ("a", .obj [("constant_value", .null)]),
  ("b", .obj []),
  ("c", .arr [.obj []]),
  ("d", .obj [("constant_value", .arr [.obj []]), ("references", .arr [.str "local.a"])])]]

def blockExpression : Expression := ofBlocks [[
  ("a", ofConstant .null),
  ("b", {}),
  ("c", ofBlocks [[]]),
  ("d", { constant := some (.arr [.obj []]), references := ["local.a"] })]]

theorem decode_encode_blockExpression :
    decode blockTree = .ok blockExpression ∧ blockExpression.WellFormed ∧
      decode blockExpression.encode = .ok blockExpression := by
  have hread : decode blockTree = .ok blockExpression := rfl
  have hw : blockExpression.WellFormed :=
    decode_encode_iff_wellFormed.1 blockTree blockExpression hread
  exact ⟨hread, hw, (decode_encode_iff_wellFormed.2 blockExpression).2 hw⟩

end PlanWire.Expression
