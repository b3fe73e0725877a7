import PlanWire.Proofs.Json.Numbers

/-!
# Trees are read as they are written

Both texts of a tree are cut into the same tokens. If every number has a text
that is read as some number, they spell the tree with these numbers in it, so
the machine builds that tree with its keys sorted, unless more containers are
open than it allows: then the text is no JSON to it. If every number is read
from its own text, the tree is the one that was written.
-/

set_option autoImplicit false

namespace PlanWire.Json

open Text.Utf8

def literal (n : Number) : Number.Literal :=
  (cutLiteral (encode n.text)).elim ⟨false, [], [], none⟩ Prod.fst

theorem cutLiteral_literal (n : Number) : cutLiteral (encode n.text) = some (literal n, []) := by
  obtain ⟨l, hcut⟩ := n.exists_literal
  simp [literal, hcut]

mutual

def written : Json → List Token
  | .null => [.null]
  | .bool b => [.bool b]
  | .num n => [.number (literal n)]
  | .str s => [.text (rawText s)]
  | .arr [] => [.openArray, .closeArray]
  | .arr (j :: rest) => [.openArray] ++ written j ++ writtenItems rest
  | .obj [] => [.openObject, .closeObject]
  | .obj ((k, j) :: rest) =>
    [.openObject, .text (rawText k), .colon] ++ written j ++ writtenMembers rest

def writtenItems : List Json → List Token
  | [] => [.closeArray]
  | j :: rest => [.comma] ++ written j ++ writtenItems rest

def writtenMembers : List (String × Json) → List Token
  | [] => [.closeObject]
  | (k, j) :: rest => [.comma, .text (rawText k), .colon] ++ written j ++ writtenMembers rest

end

mutual

/-- The tree with the numbers that their texts are read as. -/
def again : Json → Json
  | .num n => .num ((literal n).value?.getD n)
  | .arr items => .arr (againItems items)
  | .obj members => .obj (againMembers members)
  | j => j

def againItems : List Json → List Json
  | [] => []
  | j :: rest => again j :: againItems rest

def againMembers : List (String × Json) → List (String × Json)
  | [] => []
  | (k, j) :: rest => (k, again j) :: againMembers rest

end

mutual

theorem nesting_again : ∀ j : Json, j.again.nesting = j.nesting
  | .null => rfl
  | .bool _ => rfl
  | .num _ => rfl
  | .str _ => rfl
  | .arr items => congrArg Nat.succ (nestingItems_again items)
  | .obj members => congrArg Nat.succ (nestingMembers_again members)

theorem nestingItems_again : ∀ items : List Json,
    nestingItems (againItems items) = nestingItems items
  | [] => rfl
  | j :: rest => by
    rw [againItems, nestingItems, nestingItems, nesting_again j, nestingItems_again rest]

theorem nestingMembers_again : ∀ members : List (String × Json),
    nestingMembers (againMembers members) = nestingMembers members
  | [] => rfl
  | (_, j) :: rest => by
    rw [againMembers, nestingMembers, nestingMembers, nesting_again j, nestingMembers_again rest]

end

theorem value?_literal {n : Number} (h : n.Readable) :
    (literal n).value? = some ((literal n).value?.getD n) := by
  rw [Number.Readable, Number.ofText?, cutLiteral_literal] at h
  change (literal n).value?.isSome = true at h
  obtain ⟨m, hm⟩ := Option.isSome_iff_exists.1 h
  rw [hm]
  rfl

mutual

theorem again_of_rereads : ∀ j : Json, j.Rereads → j.again = j
  | .null, _ => rfl
  | .bool _, _ => rfl
  | .num n, h => by
    obtain ⟨l, hcut, hvalue⟩ := numbers_num.1 h
    have hl : literal n = l := by simp [literal, hcut]
    simp [again, hl, hvalue]
  | .str _, _ => rfl
  | .arr items, h => congrArg Json.arr (againItems_of_rereads items (numbers_arr.1 h))
  | .obj members, h => congrArg Json.obj (againMembers_of_rereads members (numbers_obj.1 h))

theorem againItems_of_rereads : ∀ items : List Json, (∀ j ∈ items, j.Rereads) →
    againItems items = items
  | [], _ => rfl
  | j :: rest, h => by
    obtain ⟨hj, hrest⟩ := List.forall_mem_cons.1 h
    rw [againItems, again_of_rereads j hj, againItems_of_rereads rest hrest]

theorem againMembers_of_rereads : ∀ members : List (String × Json),
    (∀ member ∈ members, member.2.Rereads) → againMembers members = members
  | [], _ => rfl
  | (k, j) :: rest, h => by
    obtain ⟨hj, hrest⟩ := List.forall_mem_cons.1 h
    rw [againMembers, again_of_rereads j hj, againMembers_of_rereads rest hrest]

end

section Texts

theorem foreign_of_mem {b : UInt8} (h : b ∈ [0x5d, 0x7d, 0x2c, 0x0a]) : Foreign b := by
  simp only [List.mem_cons, List.not_mem_nil, or_false] at h
  rcases h with rfl | rfl | rfl | rfl
  all_goals exact ⟨rfl, by decide, by decide, by decide⟩

theorem closes_of_cuts {c : Char} {b : UInt8} {cs : List Char} {ts : List Token}
    (hc : encodeChar c = [b]) (hb : b ∈ [0x5d, 0x7d, 0x2c, 0x0a]) (h : Cuts (encode (c :: cs)) ts) :
    Closes (c :: cs) ts where
  cuts := h
  stops rest d hd := by
    have hbytes : encode (c :: cs) = b :: encode cs := by
      show encodeChar c ++ encode cs = b :: encode cs
      rw [hc]
      rfl
    rw [hbytes] at hd
    obtain rfl : b = d := by simpa using hd
    exact foreign_of_mem hb

variable {c : Char} {t : Token} {gap space value closing : List Char} {us vs : List Token}

theorem cuts_item (hc : Lexes (encode [c]) [t]) (hg : Lexes (encode gap) [])
    (hv : Cuts (encode value) us) (hr : Closes closing vs) :
    Cuts (encode (c :: gap ++ value ++ closing)) ([t] ++ us ++ vs) :=
  cuts_entry (lexes_append hc hg) hv hr

theorem cuts_member (hc : Lexes (encode [c]) [t]) (hg : Lexes (encode gap) []) (k : String)
    (hs : Lexes (encode space) []) (hv : Cuts (encode value) us) (hr : Closes closing vs) :
    Cuts (encode (c :: gap ++ stringText k ++ ':' :: (space ++ value) ++ closing))
      ([t, .text (rawText k), .colon] ++ us ++ vs) := by
  have hopening : Lexes (encode (c :: gap ++ stringText k ++ ':' :: space))
      [t, .text (rawText k), .colon] :=
    lexes_append (lexes_append (lexes_append hc hg) (lexes_text k)) (lexes_append lexes_colon hs)
  have hentry := cuts_entry hopening hv hr
  simpa only [List.append_assoc, List.cons_append, List.nil_append] using hentry

theorem lexes_nothing : Lexes (encode []) [] := lexes_blank nofun

theorem lexes_space : Lexes (encode [' ']) [] := lexes_blank (by simp)

theorem lexes_newLine (depth : Nat) : Lexes (encode (newLine depth)) [] := by
  apply lexes_blank
  intro c hc
  rcases List.mem_cons.1 hc with rfl | hc
  · exact .inr rfl
  · exact .inl (List.eq_of_mem_replicate hc)

theorem lexes_null : Lexes (encode nullText) [.null] :=
  lexes_of_cutToken rfl (by simp) fun _ => rfl

theorem lexes_bool (b : Bool) : Lexes (encode (boolText b)) [.bool b] := by
  cases b with
  | true => exact lexes_of_cutToken rfl (by simp) fun _ => rfl
  | false => exact lexes_of_cutToken rfl (by simp) fun _ => rfl

-- A member is elaborated before it is compared with its text: the empty gaps cannot be found there.
mutual

theorem cuts_compactText : ∀ j : Json, Cuts (encode (compactText j)) (written j)
  | .null => lexes_null.cuts
  | .bool b => (lexes_bool b).cuts
  | .num n => cuts_number (cutLiteral_literal n)
  | .str s => (lexes_text s).cuts
  | .arr [] => (lexes_cons lexes_openArray lexes_closeArray).cuts
  | .arr (j :: rest) =>
    cuts_item lexes_openArray lexes_nothing (cuts_compactText j) (closes_compactItems rest)
  | .obj [] => (lexes_cons lexes_openObject lexes_closeObject).cuts
  | .obj ((k, j) :: rest) =>
    (cuts_member lexes_openObject lexes_nothing k lexes_nothing (cuts_compactText j)
      (closes_compactMembers rest) :)

theorem closes_compactItems : ∀ items : List Json,
    Closes (compactItems items) (writtenItems items)
  | [] => closes_of_cuts rfl (by simp) lexes_closeArray.cuts
  | j :: rest =>
    closes_of_cuts rfl (by simp) <|
      cuts_item lexes_comma lexes_nothing (cuts_compactText j) (closes_compactItems rest)

theorem closes_compactMembers : ∀ members : List (String × Json),
    Closes (compactMembers members) (writtenMembers members)
  | [] => closes_of_cuts rfl (by simp) lexes_closeObject.cuts
  | (k, j) :: rest =>
    closes_of_cuts rfl (by simp) <|
      (cuts_member lexes_comma lexes_nothing k lexes_nothing (cuts_compactText j)
        (closes_compactMembers rest) :)

end

mutual

theorem cuts_prettyText : ∀ (j : Json) (depth : Nat),
    Cuts (encode (prettyText depth j)) (written j)
  | .null, _ => lexes_null.cuts
  | .bool b, _ => (lexes_bool b).cuts
  | .num n, _ => cuts_number (cutLiteral_literal n)
  | .str s, _ => (lexes_text s).cuts
  | .arr [], _ => (lexes_cons lexes_openArray lexes_closeArray).cuts
  | .arr (j :: rest), depth =>
    cuts_item lexes_openArray (lexes_newLine _) (cuts_prettyText j _)
      (closes_prettyItems rest depth)
  | .obj [], _ => (lexes_cons lexes_openObject lexes_closeObject).cuts
  | .obj ((k, j) :: rest), depth =>
    cuts_member lexes_openObject (lexes_newLine _) k lexes_space (cuts_prettyText j _)
      (closes_prettyMembers rest depth)

theorem closes_prettyItems : ∀ (items : List Json) (depth : Nat),
    Closes (prettyItems depth items) (writtenItems items)
  | [], depth =>
    closes_of_cuts rfl (by simp) (lexes_append (lexes_newLine depth) lexes_closeArray).cuts
  | j :: rest, depth =>
    closes_of_cuts rfl (by simp) <|
      cuts_item lexes_comma (lexes_newLine _) (cuts_prettyText j _) (closes_prettyItems rest depth)

theorem closes_prettyMembers : ∀ (members : List (String × Json)) (depth : Nat),
    Closes (prettyMembers depth members) (writtenMembers members)
  | [], depth =>
    closes_of_cuts rfl (by simp) (lexes_append (lexes_newLine depth) lexes_closeObject).cuts
  | (k, j) :: rest, depth =>
    closes_of_cuts rfl (by simp) <|
      cuts_member lexes_comma (lexes_newLine _) k lexes_space (cuts_prettyText j _)
        (closes_prettyMembers rest depth)

end

end Texts

mutual

theorem spells_written : ∀ j : Json, j.Numbers Number.Readable → Spells (written j) j.again
  | .null, _ => .null
  | .bool b, _ => .bool b
  | .num _, h => .num (value?_literal (numbers_num.1 h))
  | .str s, _ => .str (text?_rawText s)
  | .arr [], _ => .noItems
  | .arr (j :: rest), h =>
    have hall := List.forall_mem_cons.1 (numbers_arr.1 h)
    .items (spells_written j hall.1) (spellsItems_written rest hall.2)
  | .obj [], _ => .noMembers
  | .obj ((k, j) :: rest), h =>
    have hall := List.forall_mem_cons.1 (numbers_obj.1 h)
    .members (text?_rawText k) (spells_written j hall.1) (spellsMembers_written rest hall.2)

theorem spellsItems_written : ∀ items : List Json, (∀ j ∈ items, j.Numbers Number.Readable) →
    SpellsItems (writtenItems items) (againItems items)
  | [], _ => .nil
  | j :: rest, h =>
    have hall := List.forall_mem_cons.1 h
    .cons (spells_written j hall.1) (spellsItems_written rest hall.2)

theorem spellsMembers_written : ∀ members : List (String × Json),
    (∀ member ∈ members, member.2.Numbers Number.Readable) →
    SpellsMembers (writtenMembers members) (againMembers members)
  | [], _ => .nil
  | (k, j) :: rest, h =>
    have hall := List.forall_mem_cons.1 h
    .cons (text?_rawText k) (spells_written j hall.1) (spellsMembers_written rest hall.2)

end

theorem spells_again {j : Json} (h : j.Numbers Number.Readable) {text : List UInt8}
    (ht : text = j.bytes ∨ text = j.prettyBytes) : Spells (tokens text) j.again := by
  have hcuts : Cuts text (written j) := by
    rcases ht with rfl | rfl
    · exact cuts_compactText j
    · exact cuts_prettyText j 0
  rw [tokens_of_cuts hcuts]
  exact spells_written j h

theorem spells_texts {j : Json} (h : j.Rereads) {text : List UInt8}
    (ht : text = j.bytes ∨ text = j.prettyBytes) : Spells (tokens text) j := by
  have hspells := spells_again (h.mono fun _ => Number.readable_of_rereads) ht
  rwa [again_of_rereads j h] at hspells

/-- Either text of a tree is read as the tree, sorted and with the numbers that are read,
unless it is too deep. -/
theorem read_again {j : Json} (h : j.Numbers Number.Readable) {text : List UInt8}
    (ht : text = j.bytes ∨ text = j.prettyBytes) :
    read text = within nestingLimit j.nesting (some j.again.sorted) := by
  rw [read_of_spells (spells_again h ht), nesting_again]

theorem read_texts {j : Json} (h : j.Rereads) {text : List UInt8}
    (ht : text = j.bytes ∨ text = j.prettyBytes) :
    read text = within nestingLimit j.nesting (some j.sorted) :=
  read_of_spells (spells_texts h ht)

theorem read_bytes {j : Json} (h : j.Rereads) (hw : j.WellFormed) (hn : j.nesting ≤ nestingLimit) :
    read j.bytes = some j := by
  rw [read_texts h (.inl rfl), within_of_le _ hn, sorted_of_wellFormed _ hw]

theorem bytes_injective {i j : Json} (hi : i.Rereads) (hj : j.Rereads) (h : i.bytes = j.bytes) :
    i = j := by
  have hspells : Spells (tokens i.bytes) j := by
    rw [h]
    exact spells_texts hj (.inl rfl)
  exact (spells_texts hi (.inl rfl)).tree_eq hspells

end PlanWire.Json
