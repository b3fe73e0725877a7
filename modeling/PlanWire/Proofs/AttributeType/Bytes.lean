import PlanWire.AttributeType.Scan
import PlanWire.Proofs.Json.Lexing

/-!
# Attribute types are read as they are written

The compact form of a type is a list of tokens, and the one-pass reader takes
exactly these tokens and returns the type, as long as no more containers are
open than the reader allows. One level too many is no JSON to it, wherever in
the type it stands.
-/

set_option autoImplicit false

namespace PlanWire.AttributeType

open Json (Token Lexes nestingLimit rawText)

mutual

/-- The fields of every object increase strictly by name, as they do in a
dictionary that was read. -/
def WellFormed : AttributeType → Prop
  | .primitive _ => True
  | .collection _ element => WellFormed element
  | .object fields => Dict.Sorted fields ∧ WellFormedFields fields

def WellFormedFields : List (String × AttributeType) → Prop
  | [] => True
  | (_, t) :: rest => WellFormed t ∧ WellFormedFields rest

end

mutual

/-- A collection opens one container around its element; an object opens two
around its fields. -/
def levels : AttributeType → Nat
  | .primitive _ => 0
  | .collection _ element => levels element + 1
  | .object fields => levelsOf fields + 2

def levelsOf : List (String × AttributeType) → Nat
  | [] => 0
  | (_, t) :: rest => max (levels t) (levelsOf rest)

end

mutual

def written : AttributeType → List Token
  | .primitive kind => [.text (rawText kind.name)]
  | .collection kind element =>
    .openArray :: .text (rawText kind.name) :: .comma :: (written element ++ [.closeArray])
  | .object fields =>
    .openArray :: .text (rawText objectName) :: .comma :: .openObject ::
      (writtenFields fields ++ [.closeArray])

def writtenFields : List (String × AttributeType) → List Token
  | [] => [.closeObject]
  | (n, t) :: rest => .text (rawText n) :: .colon :: (written t ++ writtenRest rest)

def writtenRest : List (String × AttributeType) → List Token
  | [] => [.closeObject]
  | (n, t) :: rest => .comma :: .text (rawText n) :: .colon :: (written t ++ writtenRest rest)

end

section Lexing

open Json

mutual

theorem lexes_compactText : ∀ t : AttributeType,
    Lexes (Text.Utf8.encode (compactText t.encode)) (written t)
  | .primitive kind => lexes_text kind.name
  | .collection kind element =>
    lexes_append (lexes_cons lexes_openArray (lexes_text kind.name))
      (lexes_append (lexes_cons lexes_comma (lexes_compactText element)) lexes_closeArray)
  | .object fields =>
    lexes_append (lexes_cons lexes_openArray (lexes_text objectName))
      (lexes_append (lexes_cons lexes_comma (lexes_compactFields fields)) lexes_closeArray)

theorem lexes_compactFields : ∀ fields : List (String × AttributeType),
    Lexes (Text.Utf8.encode (compactText (.obj (encodeFields fields)))) (.openObject :: writtenFields fields)
  | [] => lexes_cons lexes_openObject lexes_closeObject
  | (n, t) :: rest =>
    lexes_append (lexes_append (lexes_cons lexes_openObject (lexes_text n))
      (lexes_cons lexes_colon (lexes_compactText t))) (lexes_compactRest rest)

theorem lexes_compactRest : ∀ fields : List (String × AttributeType),
    Lexes (Text.Utf8.encode (compactMembers (encodeFields fields))) (writtenRest fields)
  | [] => lexes_closeObject
  | (n, t) :: rest =>
    lexes_append (lexes_append (lexes_cons lexes_comma (lexes_text n))
      (lexes_cons lexes_colon (lexes_compactText t))) (lexes_compactRest rest)

end

theorem tokens_toBytes (t : AttributeType) : tokens t.toBytes = written t :=
  tokens_of_lexes (lexes_compactText t)

end Lexing

theorem ofName_name (kind : PrimitiveKind) : ofName kind.name = .ok (.primitive kind) := by
  cases kind <;> rfl

theorem ofName?_name (kind : CollectionKind) : CollectionKind.ofName? kind.name = some kind := by
  cases kind <;> rfl

theorem readFront_text {raw : List UInt8} {s : String} (h : Json.text? raw = some s) (limit : Nat)
    (ts : List Token) : Json.readFront limit (.text raw :: ts) = some (.str s, ts) := by
  simp [Json.readFront, Json.run, Json.step, Json.stepValue, h, Json.deliver]

theorem another_written {α : Type} (t : AttributeType) (ts : List Token)
    (next : List Token → Except Error α) :
    another (.comma :: (written t ++ ts)) next = next (written t ++ ts) := by
  cases t <;> rfl

theorem another_object {α : Type} (ts : List Token) (next : List Token → Except Error α) :
    another (.comma :: .openObject :: ts) next = next (.openObject :: ts) := rfl

theorem objectName_not_collection : CollectionKind.ofName? objectName = none := rfl

theorem scanDescription_collection {raw : List UInt8} {name : String} {kind : CollectionKind}
    (h : Json.text? raw = some name) (hk : CollectionKind.ofName? name = some kind)
    (fuel depth : Nat) (ts : List Token) :
    scanDescription (fuel + 1) depth (.text raw :: ts) =
      another ts fun ts => scanType fuel depth ts >>= fun (element, ts) =>
        close (.collection kind element) ts := by
  simp only [scanDescription, readFront_text h, hk]

theorem scanDescription_object {raw : List UInt8} (h : Json.text? raw = some objectName)
    (fuel depth : Nat) (ts : List Token) :
    scanDescription (fuel + 1) depth (.text raw :: ts) =
      another ts fun ts => scanObject fuel depth ts >>= fun (fields, ts) =>
        close (.object fields) ts := by
  simp only [scanDescription, readFront_text h, objectName_not_collection, if_true]

def within {α : Type} (opened : Nat) (outcome : Except Error α) : Except Error α :=
  if opened ≤ nestingLimit then outcome else malformed

theorem within_of_le {α : Type} {opened : Nat} (outcome : Except Error α)
    (h : opened ≤ nestingLimit) : within opened outcome = outcome := if_pos h

theorem within_of_lt {α : Type} {opened : Nat} (outcome : Except Error α)
    (h : nestingLimit < opened) : within opened outcome = malformed := if_neg (Nat.not_le.2 h)

theorem within_bind {α β : Type} (opened : Nat) (outcome : Except Error α)
    (next : α → Except Error β) :
    (within opened outcome >>= next) = within opened (outcome >>= next) := by
  simp only [within]
  split <;> rfl

theorem within_within {α : Type} (opened more : Nat) (outcome : Except Error α) :
    within opened (within more outcome) = within (max opened more) outcome := by
  by_cases ho : opened ≤ nestingLimit
  · by_cases hm : more ≤ nestingLimit
    · rw [within_of_le _ ho, within_of_le _ hm, within_of_le _ (by omega)]
    · rw [within_of_le _ ho, within_of_lt _ (by omega), within_of_lt _ (by omega)]
  · rw [within_of_lt _ (by omega), within_of_lt _ (by omega)]

theorem opened_eq {α : Type} {depth inside : Nat} {reading outcome : Except Error α}
    (h : depth + 1 ≤ nestingLimit → reading = within (depth + 1 + inside) outcome) :
    (if depth < nestingLimit then reading else malformed) = within (depth + (inside + 1)) outcome := by
  by_cases hd : depth < nestingLimit
  · rw [if_pos hd, h hd, Nat.add_assoc, Nat.add_comm 1]
  · rw [if_neg hd, within_of_lt _ (by omega)]

theorem writtenRest_cons (entry : String × AttributeType) (rest : List (String × AttributeType)) :
    writtenRest (entry :: rest) = .comma :: writtenFields (entry :: rest) := rfl

theorem insert_next {done rest : Dict AttributeType} {n : String} {t : AttributeType}
    (hs : Dict.Sorted (done ++ (n, t) :: rest)) : done.insert n t = done ++ [(n, t)] :=
  Dict.insert_of_lt fun e he =>
    (List.pairwise_append.1 hs).2.2 e he (n, t) (List.mem_cons_self ..)

mutual

theorem scanType_written : ∀ (t : AttributeType), t.WellFormed → ∀ (fuel depth : Nat)
    (ts : List Token), depth ≤ nestingLimit → 2 * (written t).length ≤ fuel →
    scanType fuel depth (written t ++ ts) = within (depth + t.levels) (.ok (t, ts))
  | .primitive kind, _, fuel, depth, ts, hd, hf => by
    obtain ⟨fuel, rfl⟩ : ∃ n, fuel = n + 1 := ⟨fuel - 1, by simp [written] at hf; omega⟩
    simp only [written, List.singleton_append, scanType, Json.text?_rawText, ofName_name, levels,
      Nat.add_zero]
    rw [within_of_le _ hd]
    rfl
  | .collection kind element, hw, fuel, depth, ts, hd, hf => by
    simp only [written, List.length_cons, List.length_append] at hf
    obtain ⟨fuel, rfl⟩ : ∃ n, fuel = n + 2 := ⟨fuel - 2, by omega⟩
    simp only [written, List.cons_append, List.append_assoc, List.nil_append, scanType]
    refine opened_eq fun hopen => ?_
    rw [scanDescription_collection (Json.text?_rawText _) (ofName?_name kind), another_written,
      scanType_written element hw fuel (depth + 1) _ hopen (by omega), within_bind]
    rfl
  | .object fields, hw, fuel, depth, ts, hd, hf => by
    simp only [written, List.length_cons, List.length_append] at hf
    obtain ⟨fuel, rfl⟩ : ∃ n, fuel = n + 3 := ⟨fuel - 3, by omega⟩
    simp only [written, List.cons_append, List.append_assoc, List.nil_append, scanType]
    refine opened_eq fun hopen => ?_
    rw [scanDescription_object (Json.text?_rawText _), another_object,
      scanObject_written fields hw fuel (depth + 1) _ (by omega), within_bind]
    rfl

theorem scanObject_written : ∀ (fields : List (String × AttributeType)),
    (AttributeType.object fields).WellFormed → ∀ (fuel depth : Nat) (ts : List Token),
    2 * (writtenFields fields).length ≤ fuel →
    scanObject (fuel + 1) depth (.openObject :: (writtenFields fields ++ ts)) =
      within (depth + (levelsOf fields + 1)) (.ok (fields, ts))
  | [], _, fuel, depth, ts, _ => by
    simp only [writtenFields, List.singleton_append, scanObject, levelsOf]
    exact opened_eq fun hopen => (within_of_le _ hopen).symm
  | (n, t) :: rest, hw, fuel, depth, ts, hf => by
    have hfields (hopen : depth + 1 ≤ nestingLimit) := scanFields_written ((n, t) :: rest)
      (List.cons_ne_nil _ _) hw.2 [] hw.1 fuel (depth + 1) ts hopen hf
    simp only [writtenFields, List.cons_append, scanObject]
    exact opened_eq hfields

theorem scanFields_written : ∀ (fields : List (String × AttributeType)), fields ≠ [] →
    WellFormedFields fields → ∀ (done : Dict AttributeType), Dict.Sorted (done ++ fields) →
    ∀ (fuel depth : Nat) (ts : List Token), depth ≤ nestingLimit →
    2 * (writtenFields fields).length ≤ fuel →
    scanFields fuel depth done (writtenFields fields ++ ts) =
      within (depth + levelsOf fields) (.ok (done ++ fields, ts))
  | [], hne, _, _, _, _, _, _, _, _ => absurd rfl hne
  | [(n, t)], _, hw, done, hs, fuel, depth, ts, hd, hf => by
    simp only [writtenFields, List.length_cons, List.length_append] at hf
    obtain ⟨fuel, rfl⟩ : ∃ n, fuel = n + 1 := ⟨fuel - 1, by omega⟩
    simp only [writtenFields, List.cons_append, List.append_assoc, scanFields, Json.text?_rawText]
    rw [scanType_written t hw.1 fuel depth _ hd (by omega), within_bind, ← insert_next hs, levelsOf,
      levelsOf, Nat.max_zero]
    rfl
  | (n, t) :: next :: rest, _, hw, done, hs, fuel, depth, ts, hd, hf => by
    rw [writtenFields, writtenRest_cons] at hf ⊢
    simp only [List.length_cons, List.length_append] at hf
    obtain ⟨fuel, rfl⟩ : ∃ n, fuel = n + 1 := ⟨fuel - 1, by omega⟩
    have hrest := scanFields_written (next :: rest) (List.cons_ne_nil _ _) hw.2 (done ++ [(n, t)])
      (by simpa using hs) fuel depth ts hd (by omega)
    simp only [List.cons_append, List.append_assoc, scanFields, Json.text?_rawText]
    rw [scanType_written t hw.1 fuel depth _ hd (by omega), within_bind]
    change within _ (scanFields fuel depth (done.insert n t) (writtenFields (next :: rest) ++ ts)) = _
    rw [insert_next hs, hrest, within_within, List.append_assoc, Nat.add_max_add_left]
    rfl

end

mutual

theorem nesting_encode : ∀ t : AttributeType, t.encode.nesting = t.levels
  | .primitive _ => rfl
  | .collection _ element => by
    simp [encode, Json.nesting, Json.nestingItems, levels, nesting_encode element]
  | .object fields => by
    simp [encode, Json.nesting, Json.nestingItems, levels, nestingMembers_encodeFields fields]

theorem nestingMembers_encodeFields : ∀ fields : List (String × AttributeType),
    Json.nestingMembers (encodeFields fields) = levelsOf fields
  | [] => rfl
  | (_, t) :: rest => by
    simp [encodeFields, Json.nestingMembers, levelsOf, nesting_encode t,
      nestingMembers_encodeFields rest]

end

theorem wireNesting_eq_levels (t : AttributeType) : t.wireNesting = t.levels := nesting_encode t

/-- Exactly the types of up to 127 levels can be read back from their bytes;
the bytes of any other type are no JSON to the reader. -/
theorem ofBytes_toBytes (t : AttributeType) (hw : t.WellFormed) :
    (t.levels ≤ 127 → ofBytes t.toBytes = .ok t) ∧
      (127 < t.levels → ofBytes t.toBytes = .error .malformedInput) := by
  have hscan := scanType_written t hw (2 * (written t).length) 0 [] (Nat.zero_le _) (Nat.le_refl _)
  rw [List.append_nil, Nat.zero_add] at hscan
  refine ⟨fun h => ?_, fun h => ?_⟩
  · rw [within_of_le _ h] at hscan
    simp only [ofBytes, tokens_toBytes, hscan]
    rfl
  · rw [within_of_lt _ h] at hscan
    simp only [ofBytes, tokens_toBytes, hscan]
    rfl

def lists : Nat → AttributeType
  | 0 => .primitive .bool
  | n + 1 => .collection .list (lists n)

theorem wellFormed_lists (n : Nat) : (lists n).WellFormed := by
  induction n with
  | zero => trivial
  | succ n ih => exact ih

theorem levels_lists (n : Nat) : (lists n).levels = n := by
  induction n with
  | zero => rfl
  | succ n ih => simp [lists, levels, ih]

theorem ofBytes_toBytes_at_limit :
    ofBytes (toBytes (.object [("\n\"\x01", lists 125), ("\\é", lists 1)])) =
      .ok (.object [("\n\"\x01", lists 125), ("\\é", lists 1)]) ∧
    ofBytes (toBytes (.object [("\n\"\x01", lists 126), ("\\é", lists 1)])) =
      .error .malformedInput := by
  have hw (n : Nat) :
      (AttributeType.object [("\n\"\x01", lists n), ("\\é", lists 1)]).WellFormed := by
    refine ⟨?_, wellFormed_lists n, wellFormed_lists 1, trivial⟩
    simp only [Dict.Sorted, List.pairwise_cons, List.mem_singleton, forall_eq]
    exact ⟨by decide, by simp⟩
  have hl (n : Nat) :
      (AttributeType.object [("\n\"\x01", lists n), ("\\é", lists 1)]).levels = max n 1 + 2 := by
    simp [levels, levelsOf, levels_lists]
  exact ⟨(ofBytes_toBytes _ (hw 125)).1 (by rw [hl]; decide),
    (ofBytes_toBytes _ (hw 126)).2 (by rw [hl]; decide)⟩

end PlanWire.AttributeType
