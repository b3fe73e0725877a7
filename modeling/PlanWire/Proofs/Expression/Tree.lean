import PlanWire.Expression
import PlanWire.Proofs.Wire.Relating

/-!
# Expressions and their trees

Blocks are read and written as lists of dictionaries of expressions, and every
other expression as a scalar record. No expression is written as null: what is
read from null is an empty record, and so is a list of no blocks.
-/

set_option autoImplicit false

namespace PlanWire.Expression

theorem decodeBlock_eq (members : List (String × Json)) :
    decodeBlock members = codec.decodeMembers members := by
  induction members with
  | nil => simp [decodeBlock, Codec.decodeMembers]
  | cons member rest ih =>
    obtain ⟨name, j⟩ := member
    simp only [decodeBlock, Codec.decodeMembers, ih]
    rfl

theorem decodeBlocks_eq {items : List Json} (h : items.all Json.isObject = true) :
    decodeBlocks items = codec.dict.decodeItems items := by
  induction items with
  | nil => simp [decodeBlocks, Codec.decodeItems]
  | cons j rest ih =>
    obtain ⟨hj, hr⟩ := Bool.and_eq_true_iff.1 h
    cases j with
    | obj members =>
      simp only [decodeBlocks, Codec.decodeItems, ih hr, decodeBlock_eq]
      rfl
    | _ => cases hj

theorem encodeBlock_eq (block : Dict Expression) : encodeBlock block = block.mapValues codec.encode := by
  induction block with
  | nil => rfl
  | cons entry rest ih =>
    obtain ⟨name, e⟩ := entry
    simp only [encodeBlock, ih]
    rfl

theorem encodeBlocks_eq (blocks : List (Dict Expression)) :
    encodeBlocks blocks = blocks.map codec.dict.encode := by
  induction blocks with
  | nil => rfl
  | cons block rest ih =>
    simp only [encodeBlocks, ih, encodeBlock_eq]
    rfl

theorem decode_blocks {items : List Json} (h : items.all Json.isObject = true) :
    decode (.arr items) = (codec.dict.decodeItems items).map ofBlocks := by
  simp only [decode, h, decodeBlocks_eq h, if_true]

theorem decode_mixed {items : List Json} (h : ¬ items.all Json.isObject = true) :
    decode (.arr items) = (scalar.codec.decode (.arr items)).map ofScalar := by
  simp only [decode, h]
  rfl

theorem decode_obj (members : List (String × Json)) :
    decode (.obj members) = (scalar.codec.decode (.obj members)).map ofScalar := by
  simp [decode]

theorem encode_ofScalar (p : Option Json × List String) :
    encode (ofScalar p) = scalar.codec.encode p := by
  simp [ofScalar, encode]

theorem encode_ofBlocks {blocks : List (Dict Expression)} (h : blocks ≠ []) :
    encode (ofBlocks blocks) = .arr (blocks.map codec.dict.encode) := by
  cases blocks with
  | nil => exact absurd rfl h
  | cons block rest =>
    simp only [ofBlocks, encode, encodeBlock_eq, encodeBlocks_eq]
    rfl

theorem encode_ne_null (e : Expression) : encode e ≠ .null := by
  obtain ⟨constant, references, blocks⟩ := e
  cases blocks <;> simp [encode, Record.codec]

theorem isObject_blocks (blocks : List (Dict Expression)) :
    (Json.sortedItems (blocks.map codec.dict.encode)).all Json.isObject = true := by
  induction blocks with
  | nil => rfl
  | cons block rest ih =>
    simpa [Json.sortedItems, Codec.dict, Json.sorted, Json.isObject] using ih

theorem scalar_obeys (L : Law) (n : Nat) : L.holds n scalar.codec :=
  Law.record <| .cons .kept <| .cons (.list L.text) .nil

theorem restores_scalar {j : Json} {e : Expression} (hw : j.WellFormed)
    (hd : (scalar.codec.decode j).map ofScalar = .ok e) : decode (encode e).sorted = .ok e := by
  obtain ⟨p, hp, rfl⟩ := map_eq_ok.1 hd
  have hlawful : scalar.codec.Lawful (j.nesting + 1) := scalar_obeys .lawful _
  have hr := hlawful.restores hw (Nat.lt_succ_self _) hp
  rw [encode_ofScalar]
  change decode (.obj _) = _
  rw [decode_obj]
  exact map_eq_ok.2 ⟨p, hr, rfl⟩

theorem restores_empty : decode (encode {}).sorted = .ok {} :=
  restores_scalar (j := .obj []) ⟨.nil, trivial⟩ rfl

theorem lawful_codec (n : Nat) : codec.Lawful n := by
  induction n with
  | zero => exact .zero _
  | succ n ih =>
    refine ⟨fun {j e} hw hn hd => ?_, fun _ _ _ => encode_ne_null _⟩
    change decode j = .ok e at hd
    change decode (encode e).sorted = .ok e
    cases j with
    | null =>
      obtain rfl : {} = e := by simpa [decode] using hd
      exact restores_empty
    | arr items =>
      by_cases hi : items.all Json.isObject = true
      · rw [decode_blocks hi] at hd
        obtain ⟨blocks, hb, rfl⟩ := map_eq_ok.1 hd
        by_cases he : blocks = []
        · subst he
          exact restores_empty
        · have hr := ih.dict.decodeItems_sorted hw (Nat.lt_of_succ_lt_succ hn) hb
          rw [encode_ofBlocks he, Json.sorted, decode_blocks (isObject_blocks blocks)]
          exact map_eq_ok.2 ⟨blocks, hr, rfl⟩
      · simp only [decode, hi] at hd
        exact restores_scalar hw hd
    | _ =>
      simp only [decode] at hd
      exact restores_scalar hw hd

/-- Of the relations that every codec keeps, expressions keep those that a null
has to an empty object. -/
theorem relates_codec {R : Json → Json → Prop} {F : Json → Prop} (h : Json.Keeps R F)
    (hnull : R .null (.obj [])) (n : Nat) : codec.Relates R n := by
  induction n with
  | zero => exact Codec.Relates.zero _
  | succ n ih =>
    intro j e hw hn hd
    have hscalar (hs : (scalar.codec.decode j).map ofScalar = .ok e) : R j (encode e) := by
      obtain ⟨p, hp, rfl⟩ := map_eq_ok.1 hs
      rw [encode_ofScalar]
      exact scalar_obeys (Law.relating h) (n + 1) j p hw hn hp
    change decode j = .ok e at hd
    change R j (encode e)
    cases j with
    | null =>
      obtain rfl : {} = e := by simpa [decode] using hd
      exact hnull
    | arr items =>
      by_cases hi : items.all Json.isObject = true
      · rw [decode_blocks hi] at hd
        obtain ⟨blocks, hb, rfl⟩ := map_eq_ok.1 hd
        by_cases he : blocks = []
        · subst he
          exact h.inside (.arr items) (.obj []) (Nat.succ_pos _) (Nat.succ_pos _) fun s u hu =>
            absurd hu (Json.not_child_empty s u)
        · have hblocks : codec.dict.list.decode (.arr items) = .ok blocks := hb
          have hdict : codec.dict.Relates R n := (Law.relating h).dict ih
          have hlist := hdict.list h.inside
          rw [encode_ofBlocks he]
          exact hlist _ _ hw hn hblocks
      · rw [decode_mixed hi] at hd
        exact hscalar hd
    | obj members => exact hscalar (by rwa [decode_obj] at hd)
    | _ => exact hscalar (by simpa only [decode] using hd)

end PlanWire.Expression
