import PlanWire.Document.Basic
import PlanWire.Proofs.Config.Tree
import PlanWire.Proofs.Plan.Parts

/-!
# What a plan keeps as it is

The codec of every part of a plan keeps the values that are watched in the part.
So absent, null and any other kept value stay apart from reading to writing, at
any depth of modules and of nested blocks.
-/

set_option autoImplicit false

namespace PlanWire

open Json (Path)
open Plan (Part Slot)

namespace Expression

theorem scalar_keeps (n : Nat) :
    scalar.codec.Keeps (.members Part.expression.watch?) (n + 1) := by
  apply Part.keeps_members (by decide)
  exact
    .watched rfl Field.keeps_kept <|
    .unwatched rfl .nil

theorem blocks_keep {n : Nat} (h : codec.Keeps (Slot.one .expression).watch n) {items : List Json}
    {blocks : List (Dict Expression)} (hw : (Json.arr items).WellFormed)
    (hn : (Json.arr items).nesting < n + 1) (hnamed : (Slot.one .expression).Named (.arr items))
    (hd : codec.dict.decodeItems items = .ok blocks) {path : Path}
    (hpath : (Slot.one .expression).Leads path .kept) :
    (encode (ofBlocks blocks)).sorted.at? path = (Json.arr items).at? path := by
  cases hpath with
  | field =>
    by_cases he : blocks = []
    · subst he
      rfl
    · rw [encode_ofBlocks he]
      rfl
  | @block _ rest i k hrest =>
    have hlist : codec.dict.list.Keeps (Slot.one .expression).watch.entries.items (n + 1) :=
      Codec.keeps_of_succ (Codec.keeps_list (Codec.keeps_dict h))
    have hadmits : (Slot.one .expression).watch.entries.items.admits (.arr items) := by
      intro i u hu k w hk
      apply Slot.named_of_leads [.index i, .key k] hnamed
      · simp [Json.at?, hu, hk]
      · intro rest q hrest
        exact .block i k hrest
    have hkeeps := hlist (.arr items) blocks hw hn hadmits hd _
      ⟨i, .key k :: rest, rfl, k, rest, rfl, hrest⟩
    rw [← hkeeps]
    by_cases he : blocks = []
    · subst he
      rfl
    · rw [encode_ofBlocks he]
      rfl

/-- The induction is on the levels of the tree: the blocks of an expression hold
expressions again. -/
theorem keeps (n : Nat) : codec.Keeps (Slot.one .expression).watch n := by
  induction n with
  | zero => exact Codec.keeps_zero codec
  | succ n ih =>
    intro j e hw hn hnamed hd path hpath
    change decode j = .ok e at hd
    change (encode e).sorted.at? path = _
    cases j with
    | null =>
      obtain rfl : {} = e := by simpa [decode] using hd
      cases hpath with
      | field => rfl
      | block => rfl
    | arr items =>
      have hi : items.all Json.isObject = true := hnamed [] .expression _ (.here _) rfl
      rw [decode_blocks hi] at hd
      obtain ⟨blocks, hb, rfl⟩ := map_eq_ok.1 hd
      exact blocks_keep ih hw hn hnamed hb hpath
    | obj members =>
      rw [decode_obj] at hd
      obtain ⟨p, hp, rfl⟩ := map_eq_ok.1 hd
      rw [encode_ofScalar]
      cases hpath with
      | field hs hrest =>
        have hadmits := Part.admits_members hnamed (by simp)
        exact scalar_keeps n (.obj members) p hw hn hadmits hp _ (Part.position_members hs hrest)
      | block => rfl
    | _ => simp [decode, Record.codec, Codec.mismatch, map_eq_ok] at hd

theorem encode_empty : codec.encode {} = .obj [] := by
  change encode {} = _
  simp [encode, scalar, Record.codec, Fields.encode, Field.kept, Field.list]

end Expression

namespace Change

theorem keeps (n : Nat) : codec.Keeps (Slot.one .change).watch n := by
  apply Part.keeps_record (by decide) _ (by decide)
  exact
    .unwatched rfl <|
    .watched rfl Field.keeps_kept <|
    .watched rfl Field.keeps_kept <|
    .watched rfl Field.keeps_kept <|
    .watched rfl Field.keeps_kept <|
    .watched rfl Field.keeps_kept <|
    .unwatched rfl <|
    .unwatched rfl <|
    .unwatched rfl .nil

end Change

namespace State

theorem Output.keeps (n : Nat) : record.codec.Keeps (Slot.one .output).watch n := by
  apply Part.keeps_record (by decide) _ (by decide)
  exact
    .unwatched rfl <|
    .watched rfl Field.keeps_kept <|
    .unwatched rfl .nil

theorem Values.keeps (n : Nat) : record.codec.Keeps (Slot.one .values).watch n := by
  apply Part.keeps_record (by decide) _ (by decide)
  exact
    .watched rfl (Part.keeps_dict (Output.keeps n)) <|
    .unwatched rfl .nil

theorem keeps (n : Nat) : codec.Keeps (Slot.one .state).watch n := by
  apply Part.keeps_record (by decide) _ (by decide)
  exact
    .unwatched rfl <|
    .unwatched rfl <|
    .watched rfl (Part.keeps_one (Values.keeps n)) <|
    .unwatched rfl .nil

end State

namespace Config

theorem Provider.keeps (n : Nat) : record.codec.Keeps (Slot.one .provider).watch n := by
  apply Part.keeps_record (by decide) _ (by decide)
  exact
    .unwatched rfl <|
    .unwatched rfl <|
    .unwatched rfl <|
    .unwatched rfl <|
    .watched rfl (Part.keeps_dict (Expression.keeps n)) <|
    .unwatched rfl .nil

theorem Provisioner.keeps (n : Nat) : record.codec.Keeps (Slot.one .provisioner).watch n := by
  apply Part.keeps_record (by decide) _ (by decide)
  exact
    .unwatched rfl <|
    .watched rfl (Part.keeps_dict (Expression.keeps n)) .nil

theorem Resource.keeps (n : Nat) : record.codec.Keeps (Slot.one .resource).watch n := by
  apply Part.keeps_record (by decide) _ (by decide)
  exact
    .unwatched rfl <|
    .unwatched rfl <|
    .unwatched rfl <|
    .unwatched rfl <|
    .unwatched rfl <|
    .watched rfl (Part.keeps_list (Provisioner.keeps n)) <|
    .watched rfl (Part.keeps_dict (Expression.keeps n)) <|
    .unwatched rfl <|
    .watched rfl (Part.keeps_one (Expression.keeps n)) <|
    .watched rfl (Part.keeps_one (Expression.keeps n)) <|
    .unwatched rfl .nil

theorem Output.keeps (n : Nat) : record.codec.Keeps (Slot.one .moduleOutput).watch n := by
  apply Part.keeps_record (by decide) _ (by decide)
  exact
    .unwatched rfl <|
    .watched rfl
      (Field.keeps_filled Expression.encode_empty (Part.watch_inside _) (Expression.keeps n)) <|
    .unwatched rfl <|
    .unwatched rfl .nil

theorem Variable.keeps (n : Nat) : record.codec.Keeps (Slot.one .declaration).watch n := by
  apply Part.keeps_record (by decide) _ (by decide)
  exact
    .watched rfl Field.keeps_kept <|
    .unwatched rfl <|
    .unwatched rfl .nil

theorem Call.keeps {M : Type} {module : Codec M} {n : Nat}
    (h : module.Keeps (Slot.one .module).watch n) :
    (Call.record module).codec.Keeps (Slot.one .call).watch n := by
  have hnames : Part.call.slots.keys ⊆ (Call.record module).fields.names := by
    show Part.call.slots.keys ⊆ ["source", "expressions", "count_expression",
      "for_each_expression", "module", "version_constraint", "depends_on"]
    decide
  apply Part.keeps_record hnames _ (by decide)
  exact
    .unwatched rfl <|
    .watched rfl (Part.keeps_dict (Expression.keeps n)) <|
    .watched rfl (Part.keeps_one (Expression.keeps n)) <|
    .watched rfl (Part.keeps_one (Expression.keeps n)) <|
    .watched rfl (Part.keeps_one h) <|
    .unwatched rfl <|
    .unwatched rfl .nil

theorem Module.keeps (n : Nat) : codec.Keeps (Slot.one .module).watch n := by
  induction n with
  | zero => exact Codec.keeps_zero codec
  | succ n ih =>
    have hcodec : codec = (record codec).codec := grounded.recursive_eq
    rw [hcodec]
    apply Part.keeps_record_succ (by decide) _ (by decide)
    exact
      .watched rfl (Part.keeps_dict (Output.keeps n)) <|
      .watched rfl (Part.keeps_list (Resource.keeps n)) <|
      .watched rfl (Part.keeps_dict (Call.keeps ih)) <|
      .watched rfl (Part.keeps_dict (Variable.keeps n)) .nil

theorem keeps (n : Nat) : codec.Keeps (Slot.one .config).watch n := by
  apply Part.keeps_record (by decide) _ (by decide)
  exact
    .watched rfl (Part.keeps_dict (Provider.keeps n)) <|
    .watched rfl (Part.keeps_one (Module.keeps n)) .nil

end Config

namespace Plan

theorem Variable.keeps (n : Nat) : record.codec.Keeps (Slot.one .input).watch n := by
  apply Part.keeps_record (by decide) _ (by decide)
  exact .watched rfl Field.keeps_kept .nil

theorem ResourceChange.keeps (n : Nat) :
    record.codec.Keeps (Slot.one .resourceChange).watch n := by
  apply Part.keeps_record (by decide) _ (by decide)
  exact
    .unwatched rfl <|
    .unwatched rfl <|
    .unwatched rfl <|
    .unwatched rfl <|
    .unwatched rfl <|
    .unwatched rfl <|
    .unwatched rfl <|
    .unwatched rfl <|
    .watched rfl (Part.keeps_one (Change.keeps n)) <|
    .unwatched rfl <|
    .unwatched rfl .nil

theorem keeps (n : Nat) : codec.Keeps (Slot.one .plan).watch n := by
  apply Part.keeps_record (by decide) _ (by decide)
  exact
    .unwatched rfl <|
    .unwatched rfl <|
    .watched rfl (Part.keeps_dict (Variable.keeps n)) <|
    .watched rfl (Part.keeps_one (State.Values.keeps n)) <|
    .watched rfl (Part.keeps_list (ResourceChange.keeps n)) <|
    .watched rfl (Part.keeps_list (ResourceChange.keeps n)) <|
    .watched rfl (Part.keeps_dict (Change.keeps n)) <|
    .watched rfl (Part.keeps_one (State.keeps n)) <|
    .watched rfl (Part.keeps_one (Config.keeps n)) <|
    .unwatched rfl <|
    .unwatched rfl <|
    .unwatched rfl <|
    .unwatched rfl <|
    .unwatched rfl <|
    .unwatched rfl .nil

/-- A kept value stands in the tree of a plan exactly where it stands in the tree
that the plan was read from, and is the same. Null is a value like any other. -/
theorem at?_toJson_of_kept {v : Json} {p : Plan} (hw : v.WellFormed)
    (hnamed : (Slot.one .plan).Named v) (hd : codec.decode v = .ok p) {path : Path}
    (hpath : (Slot.one .plan).Leads path .kept) :
    (Document.plan p).toJson.at? path = v.at? path :=
  keeps (v.nesting + 1) v p hw (Nat.lt_succ_self _) hnamed hd path hpath

def nullAndNone : Json := .obj [("inner", .obj [("constant_value", .null)]), ("other", .obj [])]

def blockOutput : Json := .obj [("expression", .arr [nullAndNone])]

def blockTree : Json := .obj [
  ("configuration", .obj [("root_module", .obj [("outputs", .obj [("id", blockOutput)])])]),
  ("format_version", .str "1.2")]

def constantOf (name : String) : Path :=
  [.key "configuration", .key "root_module", .key "outputs", .key "id", .key "expression",
    .index 0, .key name, .key "constant_value"]

theorem leads_constantOf (name : String) : (Slot.one .plan).Leads (constantOf name) .kept := by
  have hexpression :
      (Slot.one .expression).Leads [.index 0, .key name, .key "constant_value"] .kept :=
    .block 0 name (.field rfl (.here _))
  exact .field rfl (.field rfl (.field rfl (.entry "id" (.field rfl hexpression))))

theorem named_nullAndNone : (Slot.dict .expression).Named nullAndNone := by
  apply Slot.named_dict
  intro member hmember
  simp only [List.mem_cons, List.not_mem_nil, or_false] at hmember
  rcases hmember with rfl | rfl
  · apply Slot.named_obj
    simp [Part.slots, Slot.named_kept]
  · apply Slot.named_obj
    simp [Part.slots, Slot.named_kept]

theorem named_blockTree : (Slot.one .plan).Named blockTree := by
  have hexpression : (Slot.one .expression).Named (.arr [nullAndNone]) := by
    apply Slot.named_blocks rfl
    simpa using named_nullAndNone
  have houtput : (Slot.one .moduleOutput).Named blockOutput := by
    apply Slot.named_obj
    simpa [Part.slots, Dict.get?] using hexpression
  have houtputs : (Slot.dict .moduleOutput).Named (.obj [("id", blockOutput)]) := by
    apply Slot.named_dict
    simpa using houtput
  have hmodule : (Slot.one .module).Named (.obj [("outputs", .obj [("id", blockOutput)])]) := by
    apply Slot.named_obj
    simpa [Part.slots, Dict.get?] using houtputs
  have hconfig : (Slot.one .config).Named
      (.obj [("root_module", .obj [("outputs", .obj [("id", blockOutput)])])]) := by
    apply Slot.named_obj
    simpa [Part.slots, Dict.get?] using hmodule
  apply Slot.named_obj
  simpa [Part.slots, Dict.get?] using hconfig

theorem at?_toJson_of_kept_blockTree :
    blockTree.WellFormed ∧ (Slot.one .plan).Named blockTree ∧
    ∃ p, codec.decode blockTree = .ok p ∧
      (Document.plan p).toJson.at? (constantOf "inner") = some .null ∧
      (Document.plan p).toJson.at? (constantOf "other") = none := by
  have hw : blockTree.WellFormed := by
    simp only [blockTree, blockOutput, nullAndNone, Json.WellFormed, Json.WellFormedMembers,
      Json.WellFormedItems, Dict.Sorted]
    decide
  refine ⟨hw, named_blockTree, _, rfl, ?_, ?_⟩
  · exact at?_toJson_of_kept hw named_blockTree rfl (leads_constantOf "inner")
  · exact at?_toJson_of_kept hw named_blockTree rfl (leads_constantOf "other")

end Plan
end PlanWire
