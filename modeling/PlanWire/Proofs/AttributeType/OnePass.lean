import PlanWire.Proofs.AttributeType.Sorted

/-!
# Types read in one pass and types read from a tree

The one-pass reader meets the fields of an object in the order of the text and
judges each of them before the next one, while the tree has its members sorted
and of the members with one key only the last. Both judge what the tokens of
the text spell: where no key is repeated they reach the same judgement, and a
type that is read in one pass is read from the tree in any case.
-/

set_option autoImplicit false

namespace PlanWire.AttributeType

open Json (Token Spells SpellsItems SpellsMembers nestingLimit)

theorem decode_noName {j : Json} (h : ∀ name, j ≠ .str name) (rest : List Json) :
    decode (.arr (j :: rest)) = .error .descriptionKind := by
  cases j with
  | str name => exact absurd rfl (h name)
  | _ => rw [decode.eq_def]

def readFields : Json → Except Fault (List (String × AttributeType))
  | .obj members => decodeFields members
  | j => Codec.mismatch j "a map"

theorem decode_collection {kind : String} {k : CollectionKind}
    (hk : CollectionKind.ofName? kind = some k) (j : Json) (rest : List Json) :
    decode (.arr (.str kind :: j :: rest)) =
      decode j >>= fun element => ending (.collection k element) rest := by
  rw [decode.eq_def]
  simp only [hk]

theorem decode_object (j : Json) (rest : List Json) :
    decode (.arr (.str objectName :: j :: rest)) =
      readFields j >>= fun fields => ending (.object fields) rest := by
  rw [decode.eq_def]
  simp only [objectName_not_collection, if_true]
  cases j <;> rfl

section Scanning

def judged {α β : Type} (found : Except Fault α) (settle : α → β) (ts : List Token) :
    Except Error (β × List Token) :=
  (ofShape found).map fun a => (settle a, ts)

theorem refuse_spells {α : Type} {t : Token} {us : List Token} {j : Json}
    (h : Spells (t :: us) j) (expected : String) :
    (refuse expected t : Except Error α) = ofShape (Codec.mismatch j expected) := by
  cases h with
  | num value => simp only [refuse, value]; rfl
  | str text => simp only [refuse, text]; rfl
  | _ => rfl

theorem scanType_object {us : List Token} {j : Json} (h : Spells (.openObject :: us) j)
    {depth : Nat} (hd : depth + j.nesting ≤ nestingLimit) (fuel : Nat) (ts : List Token) :
    scanType (fuel + 1) depth (.openObject :: ts) = judged (decode j) sorted ts := by
  have hroom : depth < nestingLimit := by cases h <;> (rw [Json.nesting] at hd; omega)
  cases h <;> (simp only [scanType, if_pos hroom, decode]; rfl)

theorem another_of_ne {α : Type} {t : Token} (ht : t ≠ .closeArray) (ts : List Token)
    (next : List Token → Except Error α) : another (.comma :: t :: ts) next = next (t :: ts) := by
  cases t with
  | closeArray => exact absurd rfl ht
  | _ => rfl

theorem close_of_ne {t : Token} (ht : t ≠ .closeArray) (u : AttributeType) (ts : List Token) :
    close u (.comma :: t :: ts) =
      if Json.skips (t :: ts) then .error (.shape .descriptionExcess) else malformed := by
  cases t with
  | closeArray => exact absurd rfl ht
  | _ => rfl

theorem another_spells {α : Type} {us : List Token} {j : Json} (h : Spells us j)
    (ts : List Token) (next : List Token → Except Error α) :
    another (.comma :: (us ++ ts)) next = next (us ++ ts) := by
  obtain ⟨t, us, rfl, ht⟩ := h.head
  exact another_of_ne ht (us ++ ts) next

theorem close_spells {us : List Token} {rest : List Json} (h : SpellsItems us rest)
    (t : AttributeType) (ts : List Token) : close t (us ++ ts) = judged (ending t rest) id ts := by
  cases h with
  | nil => rfl
  | @cons us vs j rest first behind =>
    have hskips := Json.skips_of_spells first (vs ++ ts)
    obtain ⟨u, us, rfl, hu⟩ := first.head
    simp only [List.cons_append, List.append_assoc] at hskips ⊢
    rw [close_of_ne hu, if_pos hskips]
    rfl

theorem scanDescription_unknown {raw : List UInt8} {name : String}
    (h : Json.text? raw = some name) (hk : CollectionKind.ofName? name = none)
    (ho : name ≠ objectName) (fuel depth : Nat) (ts : List Token) :
    scanDescription (fuel + 1) depth (.text raw :: ts) = .error (.shape .descriptionKind) := by
  simp only [scanDescription, readFront_text h, hk, if_neg ho]

/-- The first item of a description is read as a whole before it is judged. -/
theorem scanDescription_noName {us : List Token} {j : Json} (h : Spells us j)
    (hj : ∀ s, j ≠ .str s) {depth : Nat} (hd : depth + j.nesting ≤ nestingLimit) (fuel : Nat)
    (ts : List Token) :
    scanDescription (fuel + 1) depth (us ++ ts) = .error (.shape .descriptionKind) := by
  have hfront : Json.readFront (nestingLimit - depth) (us ++ ts) = some (j.sorted, ts) :=
    Json.readFront_eq_some.2 ⟨us, j, h, rfl, by omega, rfl⟩
  obtain ⟨t, us, rfl, ht⟩ := h.head
  rw [scanDescription, hfront]
  · cases hs : j.sorted with
    | str name => exact absurd (Json.sorted_eq_str hs) (hj name)
    | _ => rfl
  · intro vs heq
    exact ht (List.cons.inj heq).1

def fieldsBehind (fuel depth : Nat) (done : Dict AttributeType) :
    List Token → Except Error (Dict AttributeType × List Token)
  | .closeObject :: ts => .ok (done, ts)
  | .comma :: ts => scanFields fuel depth done ts
  | _ => malformed

theorem scanFields_succ {raw : List UInt8} {name : String} (key : Json.text? raw = some name)
    (fuel depth : Nat) (done : Dict AttributeType) (ts : List Token) :
    scanFields (fuel + 1) depth done (.text raw :: .colon :: ts) =
      scanType fuel depth ts >>= fun (t, ts) => fieldsBehind fuel depth (done.insert name t) ts := by
  simp only [scanFields, key]
  rfl

def insertFields (done : Dict AttributeType) (fields : List (String × AttributeType)) :
    Dict AttributeType :=
  (sortedFields fields).foldl (fun d (n, t) => d.insert n t) done

theorem judged_bind {α β γ δ : Type} (found : Except Fault α) (settle : α → β) (ts : List Token)
    (next : α → Except Fault γ) (after : γ → δ) (us : List Token)
    (scan : β × List Token → Except Error (δ × List Token))
    (h : ∀ a, scan (settle a, ts) = judged (next a) after us) :
    judged found settle ts >>= scan = judged (found >>= next) after us := by
  cases found with
  | error f => rfl
  | ok a => exact h a

theorem scanFields_of_parts {raw : List UInt8} {name : String} (key : Json.text? raw = some name)
    {fuel depth : Nat} {done : Dict AttributeType} {j : Json} {rest : List (String × Json)}
    {us vs ts : List Token} (first : scanType fuel depth (us ++ vs) = judged (decode j) sorted vs)
    (behind : ∀ done, fieldsBehind fuel depth done vs =
      judged (decodeFields rest) (insertFields done) ts) :
    scanFields (fuel + 1) depth done (.text raw :: .colon :: (us ++ vs)) =
      judged (decodeFields ((name, j) :: rest)) (insertFields done) ts := by
  rw [scanFields_succ key, first, decodeFields]
  apply judged_bind
  intro t
  change fieldsBehind fuel depth (done.insert name t.sorted) vs = _
  rw [behind]
  cases decodeFields rest <;> rfl

theorem scanObject_other {us : List Token} {j : Json} (h : Spells us j)
    (hj : ∀ members, j ≠ .obj members) (fuel depth : Nat) (ts : List Token) :
    scanObject (fuel + 1) depth (us ++ ts) = judged (readFields j) (insertFields []) ts := by
  have hread : readFields j = Codec.mismatch j "a map" := by
    cases j with
    | obj members => exact absurd rfl (hj members)
    | _ => rfl
  obtain ⟨t, us, rfl, -⟩ := h.head
  have hopen : t ≠ .openObject := by
    rintro rfl
    cases h <;> exact hj _ rfl
  rw [List.cons_append, scanObject, refuse_spells h, hread]
  · rfl
  · exact hopen

-- The induction is on what the tokens spell. A value has room below the limit for all of its
-- levels, and its fuel covers two calls for each of its tokens.
mutual

/-- The reader judges the tokens of a value as the value itself is judged. -/
theorem scanType_spells : ∀ {us : List Token} {j : Json}, Spells us j → ∀ (fuel depth : Nat)
    (ts : List Token), depth + j.nesting ≤ nestingLimit → 2 * us.length ≤ fuel + 1 →
    scanType (fuel + 1) depth (us ++ ts) = judged (decode j) sorted ts
  | _, _, .null, fuel, depth, ts, _, _ => by
    simp only [scanType, List.singleton_append, refuse, decode]
    rfl
  | _, _, .bool b, fuel, depth, ts, _, _ => by
    simp only [scanType, List.singleton_append, refuse, decode]
    rfl
  | _, _, .num value, fuel, depth, ts, _, _ => by
    simp only [scanType, List.singleton_append, refuse, value, decode]
    rfl
  | _, _, @Spells.str _ name text, fuel, depth, ts, _, _ => by
    simp only [scanType, List.singleton_append, text, decode, ofName]
    cases PrimitiveKind.ofName? name <;> rfl
  | _, _, .noMembers, fuel, depth, ts, hd, _ => scanType_object .noMembers hd fuel _
  | _, _, .members key first behind, fuel, depth, ts, hd, _ =>
    scanType_object (.members key first behind) hd fuel _
  | _, _, .noItems, fuel, depth, ts, hd, hf => by
    obtain ⟨fuel, rfl⟩ : ∃ n, fuel = n + 1 := ⟨fuel - 1, by simp at hf; omega⟩
    rw [Json.nesting] at hd
    simp only [scanType, List.cons_append, if_pos (show depth < nestingLimit by omega),
      scanDescription, decode]
    rfl
  | _, _, @Spells.items _ _ j _ first behind, fuel, depth, ts, hd, hf => by
    simp only [List.length_cons, List.length_append] at hf
    obtain ⟨fuel, rfl⟩ : ∃ n, fuel = n + 1 := ⟨fuel - 1, by omega⟩
    rw [Json.nesting, Json.nestingItems] at hd
    simp only [scanType, List.cons_append, List.append_assoc,
      if_pos (show depth < nestingLimit by omega)]
    by_cases hname : ∃ name, j = .str name
    · obtain ⟨name, rfl⟩ := hname
      cases first with
      | str text => exact scanDescription_spells text behind fuel _ ts (by omega) (by omega)
    · rw [scanDescription_noName first (not_exists.1 hname) (by omega),
        decode_noName (not_exists.1 hname)]
      rfl

theorem scanDescription_spells : ∀ {raw : List UInt8} {name : String} {us : List Token}
    {rest : List Json}, Json.text? raw = some name → SpellsItems us rest →
    ∀ (fuel depth : Nat) (ts : List Token), depth + Json.nestingItems rest ≤ nestingLimit →
    2 * us.length ≤ fuel + 1 →
    scanDescription (fuel + 1) depth (.text raw :: (us ++ ts)) =
      judged (decode (.arr (.str name :: rest))) sorted ts
  | _, name, _, _, text, .nil, fuel, depth, ts, _, _ => by
    cases hk : CollectionKind.ofName? name with
    | some kind =>
      simp only [List.singleton_append, scanDescription_collection text hk, another, decode, hk]
      rfl
    | none =>
      by_cases ho : name = objectName
      · subst ho
        simp only [List.singleton_append, scanDescription_object text, another, decode, hk, if_true]
        rfl
      · simp only [scanDescription_unknown text hk ho, decode, hk, if_neg ho]
        rfl
  | _, name, _, _, text, @SpellsItems.cons us vs j rest second behind, fuel, depth, ts, hd, hf => by
    simp only [List.length_cons, List.length_append, Json.nestingItems] at hf hd
    obtain ⟨fuel, rfl⟩ : ∃ n, fuel = n + 1 := ⟨fuel - 1, by omega⟩
    rw [List.cons_append, List.append_assoc]
    cases hk : CollectionKind.ofName? name with
    | some kind =>
      rw [scanDescription_collection text hk, another_spells second,
        scanType_spells second fuel depth _ (by omega) (by omega), decode_collection hk]
      apply judged_bind
      intro element
      exact (close_spells behind _ ts).trans (by cases rest <;> rfl)
    | none =>
      by_cases ho : name = objectName
      · subst ho
        rw [scanDescription_object text, another_spells second,
          scanObject_spells second fuel depth _ (by omega) (by omega), decode_object]
        apply judged_bind
        intro fields
        exact (close_spells behind _ ts).trans (by cases rest <;> rfl)
      · rw [scanDescription_unknown text hk ho, decode.eq_def]
        simp only [hk, if_neg ho]
        rfl

theorem scanObject_spells : ∀ {us : List Token} {j : Json}, Spells us j → ∀ (fuel depth : Nat)
    (ts : List Token), depth + j.nesting ≤ nestingLimit → 2 * us.length ≤ fuel + 1 →
    scanObject (fuel + 1) depth (us ++ ts) = judged (readFields j) (insertFields []) ts
  | _, _, .members key first behind, fuel, depth, ts, hd, hf => by
    simp only [List.length_cons, List.length_append] at hf
    obtain ⟨fuel, rfl⟩ : ∃ n, fuel = n + 2 := ⟨fuel - 2, by omega⟩
    rw [Json.nesting, Json.nestingMembers] at hd
    simp only [scanObject, List.cons_append, List.append_assoc,
      if_pos (show depth < nestingLimit by omega)]
    exact scanFields_of_parts key (scanType_spells first _ _ _ (by omega) (by omega)) fun done =>
      fieldsBehind_spells behind _ _ done ts (by omega) (by omega)
  | _, _, .noMembers, fuel, depth, ts, hd, _ => by
    rw [Json.nesting] at hd
    simp only [scanObject, List.cons_append, if_pos (show depth < nestingLimit by omega),
      readFields, decodeFields]
    rfl
  | _, _, .null, fuel, depth, ts, _, _ => scanObject_other .null nofun fuel depth ts
  | _, _, .bool b, fuel, depth, ts, _, _ => scanObject_other (.bool b) nofun fuel depth ts
  | _, _, .num value, fuel, depth, ts, _, _ => scanObject_other (.num value) nofun fuel depth ts
  | _, _, .str text, fuel, depth, ts, _, _ => scanObject_other (.str text) nofun fuel depth ts
  | _, _, .noItems, fuel, depth, ts, _, _ => scanObject_other .noItems nofun fuel depth ts
  | _, _, .items first behind, fuel, depth, ts, _, _ =>
    scanObject_other (.items first behind) nofun fuel depth ts

theorem fieldsBehind_spells : ∀ {us : List Token} {members : List (String × Json)},
    SpellsMembers us members → ∀ (fuel depth : Nat) (done : Dict AttributeType) (ts : List Token),
    depth + Json.nestingMembers members ≤ nestingLimit → 2 * us.length ≤ fuel + 1 →
    fieldsBehind (fuel + 1) depth done (us ++ ts) =
      judged (decodeFields members) (insertFields done) ts
  | _, _, .nil, fuel, depth, done, ts, _, _ => by
    rw [decodeFields]
    rfl
  | _, _, SpellsMembers.cons key first behind, fuel, depth, done, ts, hd, hf => by
    simp only [List.length_cons, List.length_append] at hf
    rw [Json.nestingMembers] at hd
    obtain ⟨fuel, rfl⟩ : ∃ n, fuel = n + 1 := ⟨fuel - 1, by omega⟩
    simp only [List.cons_append, List.append_assoc, fieldsBehind]
    exact scanFields_of_parts key (scanType_spells first _ _ _ (by omega) (by omega)) fun done =>
      fieldsBehind_spells behind _ _ done ts (by omega) (by omega)

end

theorem refuse_ne_ok {α : Type} (expected : String) (t : Token) (a : α) :
    refuse expected t ≠ .ok a := by
  cases t with
  | number literal => cases h : literal.value? <;> simp [refuse, h, unfit, malformed]
  | text raw => cases h : Json.text? raw <;> simp [refuse, h, unfit, malformed]
  | _ => simp [refuse, unfit, malformed]

theorem another_eq_ok {α : Type} {ts : List Token} {next : List Token → Except Error α} {a : α}
    (h : another ts next = .ok a) : ∃ us, ts = .comma :: us ∧ next us = .ok a := by
  unfold another malformed at h
  split at h
  · cases h
  · cases h
  · exact ⟨_, rfl, h⟩
  · cases h

theorem close_eq_ok {t u : AttributeType} {ts rest : List Token} (h : close t ts = .ok (u, rest)) :
    ts = .closeArray :: rest := by
  unfold close malformed at h
  split at h
  · cases h
    rfl
  · cases h
  · split at h <;> cases h
  · cases h

theorem fieldsBehind_eq_ok {fuel depth : Nat} {done fields : Dict AttributeType}
    {ts rest : List Token} (h : fieldsBehind fuel depth done ts = .ok (fields, rest)) :
    ts = .closeObject :: rest ∨
      ∃ us, ts = .comma :: us ∧ scanFields fuel depth done us = .ok (fields, rest) := by
  unfold fieldsBehind malformed at h
  split at h
  · cases h
    exact .inl rfl
  · exact .inr ⟨_, rfl, h⟩
  · cases h

theorem scanDescription_eq_ok {fuel depth : Nat} {ts rest : List Token} {t : AttributeType}
    (h : scanDescription (fuel + 1) depth ts = .ok (t, rest)) :
    ∃ raw name us, Json.text? raw = some name ∧ ts = .text raw :: .comma :: us ∧
      ((∃ element, scanType fuel depth us = .ok (element, .closeArray :: rest)) ∨
        ∃ fields, scanObject fuel depth us = .ok (fields, .closeArray :: rest)) := by
  by_cases hempty : ∃ us, ts = .closeArray :: us
  · obtain ⟨us, rfl⟩ := hempty
    simp only [scanDescription] at h
    cases h
  · rw [scanDescription] at h
    · split at h
      · cases h
      · next name us hfront =>
        obtain ⟨vs, j, hj, rfl, -, hname⟩ := Json.readFront_eq_some.1 hfront
        obtain rfl := Json.sorted_eq_str hname.symm
        cases hj with
        | str text =>
          split at h
          · obtain ⟨us, rfl, hnext⟩ := another_eq_ok h
            obtain ⟨⟨element, behind⟩, helement, hclose⟩ := bind_eq_ok.1 hnext
            obtain rfl := close_eq_ok hclose
            exact ⟨_, name, us, text, rfl, .inl ⟨element, helement⟩⟩
          · split at h
            · obtain ⟨us, rfl, hnext⟩ := another_eq_ok h
              obtain ⟨⟨fields, behind⟩, hfields, hclose⟩ := bind_eq_ok.1 hnext
              obtain rfl := close_eq_ok hclose
              exact ⟨_, name, us, text, rfl, .inr ⟨fields, hfields⟩⟩
            · cases h
      · cases h
    · exact not_exists.1 hempty

theorem scanFields_eq_ok {fuel depth : Nat} {done fields : Dict AttributeType}
    {ts rest : List Token} (h : scanFields (fuel + 1) depth done ts = .ok (fields, rest)) :
    ∃ raw name us t behind, Json.text? raw = some name ∧ ts = .text raw :: .colon :: us ∧
      scanType fuel depth us = .ok (t, behind) ∧
      fieldsBehind fuel depth (done.insert name t) behind = .ok (fields, rest) := by
  rw [scanFields.eq_def] at h
  split at h
  · next heq =>
    cases heq
    split at h
    · cases h
    · next name text =>
      obtain ⟨⟨t, behind⟩, ht, h⟩ := bind_eq_ok.1 h
      exact ⟨_, name, _, t, behind, text, rfl, ht, h⟩
  · cases h

theorem spells_obj_of_members {us : List Token} {members : List (String × Json)}
    (h : SpellsMembers (.comma :: us) members) : Spells (.openObject :: us) (.obj members) := by
  cases h with
  | cons key first behind => exact .members key first behind

mutual

/-- What is read as a type is spelled there, and no deeper than allowed. -/
theorem exists_spells_of_scanType : ∀ {fuel depth : Nat} {ts rest : List Token}
    {t : AttributeType}, depth ≤ nestingLimit → scanType fuel depth ts = .ok (t, rest) →
    ∃ us j, Spells us j ∧ ts = us ++ rest ∧ depth + j.nesting ≤ nestingLimit
  | 0, _, _, _, _, _, h | _ + 1, _, [], _, _, _, h => by
    simp [scanType, malformed] at h
  | fuel + 1, depth, .text raw :: ts, rest, t, hd, h => by
    simp only [scanType] at h
    split at h
    · next name text =>
      obtain ⟨u, -, hrest⟩ := map_eq_ok.1 h
      cases hrest
      exact ⟨[.text raw], .str name, .str text, rfl, hd⟩
    · cases h
  | fuel + 1, depth, .openArray :: ts, rest, t, _, h => by
    simp only [scanType] at h
    split at h
    · next hroom =>
      obtain ⟨us, items, hitems, rfl, hdeep⟩ := exists_spells_of_scanDescription hroom h
      refine ⟨_, _, hitems, rfl, ?_⟩
      rw [Json.nesting]
      omega
    · cases h
  | _ + 1, _, .openObject :: _, _, _, _, h => by
    simp only [scanType] at h
    split at h <;> cases h
  | _ + 1, _, .null :: _, _, _, _, h | _ + 1, _, .bool _ :: _, _, _, _, h
  | _ + 1, _, .number _ :: _, _, _, _, h | _ + 1, _, .closeArray :: _, _, _, _, h
  | _ + 1, _, .closeObject :: _, _, _, _, h | _ + 1, _, .comma :: _, _, _, _, h
  | _ + 1, _, .colon :: _, _, _, _, h | _ + 1, _, .bad :: _, _, _, _, h => by
    simp only [scanType] at h
    exact absurd h (refuse_ne_ok _ _ _)

theorem exists_spells_of_scanDescription : ∀ {fuel depth : Nat} {ts rest : List Token}
    {t : AttributeType}, depth + 1 ≤ nestingLimit →
    scanDescription fuel (depth + 1) ts = .ok (t, rest) →
    ∃ us items, Spells (.openArray :: us) (.arr items) ∧ ts = us ++ rest ∧
      depth + 1 + Json.nestingItems items ≤ nestingLimit
  | 0, _, _, _, _, _, h => by
    simp [scanDescription, malformed] at h
  | fuel + 1, depth, ts, rest, t, hroom, h => by
    obtain ⟨raw, name, us, text, rfl, hinside⟩ := scanDescription_eq_ok h
    have hsecond : ∃ vs j, Spells vs j ∧ us = vs ++ (.closeArray :: rest) ∧
        depth + 1 + j.nesting ≤ nestingLimit := by
      rcases hinside with ⟨element, helement⟩ | ⟨fields, hfields⟩
      · exact exists_spells_of_scanType hroom helement
      · exact exists_spells_of_scanObject hfields
    obtain ⟨vs, j, hj, rfl, hdeep⟩ := hsecond
    refine ⟨_, [.str name, j], .items (.str text) (.cons hj .nil), by simp, ?_⟩
    simpa [Json.nestingItems, Json.nesting] using hdeep

theorem exists_spells_of_scanObject : ∀ {fuel depth : Nat} {ts rest : List Token}
    {fields : Dict AttributeType}, scanObject fuel depth ts = .ok (fields, rest) →
    ∃ us j, Spells us j ∧ ts = us ++ rest ∧ depth + j.nesting ≤ nestingLimit
  | 0, _, _, _, _, h | _ + 1, _, [], _, _, h => by
    simp [scanObject, malformed] at h
  | fuel + 1, depth, .openObject :: ts, rest, fields, h => by
    rw [scanObject.eq_def] at h
    dsimp only at h
    split at h
    · next hroom =>
      split at h
      · cases h
        exact ⟨_, _, .noMembers, rfl, hroom⟩
      · obtain ⟨us, members, hmembers, rfl, hdeep⟩ := exists_spells_of_scanFields hroom h
        refine ⟨_, _, spells_obj_of_members hmembers, rfl, ?_⟩
        rw [Json.nesting]
        omega
    · cases h
  | _ + 1, _, .null :: _, _, _, h | _ + 1, _, .bool _ :: _, _, _, h
  | _ + 1, _, .number _ :: _, _, _, h | _ + 1, _, .text _ :: _, _, _, h
  | _ + 1, _, .openArray :: _, _, _, h | _ + 1, _, .closeArray :: _, _, _, h
  | _ + 1, _, .closeObject :: _, _, _, h | _ + 1, _, .comma :: _, _, _, h
  | _ + 1, _, .colon :: _, _, _, h | _ + 1, _, .bad :: _, _, _, h => by
    simp only [scanObject] at h
    exact absurd h (refuse_ne_ok _ _ _)

theorem exists_spells_of_scanFields : ∀ {fuel depth : Nat} {done fields : Dict AttributeType}
    {ts rest : List Token}, depth ≤ nestingLimit →
    scanFields fuel depth done ts = .ok (fields, rest) →
    ∃ us members, SpellsMembers (.comma :: us) members ∧ ts = us ++ rest ∧
      depth + Json.nestingMembers members ≤ nestingLimit
  | 0, _, _, _, _, _, _, h => by
    simp [scanFields, malformed] at h
  | fuel + 1, depth, done, fields, ts, rest, hd, h => by
    obtain ⟨raw, name, _, t, behind, key, rfl, ht, hbehind⟩ := scanFields_eq_ok h
    obtain ⟨us, j, hj, rfl, hdeep⟩ := exists_spells_of_scanType hd ht
    have hrest : ∃ vs members, SpellsMembers vs members ∧ behind = vs ++ rest ∧
        depth + Json.nestingMembers members ≤ nestingLimit := by
      rcases fieldsBehind_eq_ok hbehind with rfl | ⟨_, rfl, hnext⟩
      · exact ⟨_, [], .nil, rfl, hd⟩
      · obtain ⟨vs, members, hmembers, rfl, hmore⟩ := exists_spells_of_scanFields hd hnext
        exact ⟨_, members, hmembers, rfl, hmore⟩
    obtain ⟨vs, members, hmembers, rfl, hmore⟩ := hrest
    refine ⟨_, (name, j) :: members, .cons key hj hmembers, by simp, ?_⟩
    rw [Json.nestingMembers]
    omega

end

end Scanning

theorem ofBytes_of_spells {bytes : List UInt8} {j : Json} (h : Spells (Json.tokens bytes) j)
    (hd : j.nesting ≤ nestingLimit) : ofBytes bytes = (ofShape (decode j)).map sorted := by
  obtain ⟨t, ts, htokens, -⟩ := h.head
  have hscan := scanType_spells h (2 * (Json.tokens bytes).length - 1) 0 [] (by omega) (by omega)
  have hfuel : 2 * (Json.tokens bytes).length - 1 + 1 = 2 * (Json.tokens bytes).length := by
    rw [htokens, List.length_cons]
    omega
  rw [hfuel, List.append_nil] at hscan
  simp only [ofBytes, hscan, judged]
  cases decode j <;> rfl

theorem read_of_ofBytes {bytes : List UInt8} {t : AttributeType} (h : ofBytes bytes = .ok t) :
    Json.read bytes = some t.encode := by
  have hscan : ∃ u, scanType (2 * (Json.tokens bytes).length) 0 (Json.tokens bytes) = .ok (u, []) := by
    unfold ofBytes at h
    obtain ⟨⟨u, rest⟩, hu, hrest⟩ := bind_eq_ok.1 h
    cases rest with
    | nil => exact ⟨u, hu⟩
    | cons => cases hrest
  obtain ⟨u, hu⟩ := hscan
  obtain ⟨us, j, hj, htokens, hd⟩ := exists_spells_of_scanType (Nat.zero_le _) hu
  rw [List.append_nil] at htokens
  rw [Nat.zero_add] at hd
  rw [← htokens] at hj
  have hbytes := ofBytes_of_spells hj hd
  cases hdecode : decode j with
  | error f =>
    rw [hbytes, hdecode] at h
    cases h
  | ok w =>
    obtain rfl : w.sorted = t := by
      rw [hbytes, hdecode] at h
      exact Except.ok.inj h
    exact Json.read_eq_some.2 ⟨j, hj, hd, by rw [encode_sorted, encode_of_decode hdecode]⟩

/-- Bytes that are read as a tree give the type that the tree gives, unless a key
is repeated in them, and a fault of shape where the tree gives one. Bytes that
are read as a type, repeated keys or not, have the tree of this type. -/
theorem ofBytes_agrees (bytes : List UInt8) :
    (∀ v, Json.read bytes = some v → Json.RepeatsNoKey bytes →
      (∀ t, ofBytes bytes = .ok t ↔ decode v = .ok t) ∧
        ∀ e, decode v = .error e →
          ∃ fault, ofBytes bytes = .error (.schemaViolation (.shape fault))) ∧
      ∀ t, ofBytes bytes = .ok t → Json.read bytes = some t.encode := by
  refine ⟨?_, fun t => read_of_ofBytes⟩
  intro v hv hkeys
  obtain ⟨j, hj, hd, rfl⟩ := Json.read_eq_some.1 hv
  have hbytes := ofBytes_of_spells hj hd
  cases hdecode : decode j with
  | ok t =>
    have hok : ofBytes bytes = .ok t.sorted := by
      rw [hbytes, hdecode]
      rfl
    rw [hok, decode_sorted hdecode]
    exact ⟨fun u => by rw [Except.ok.injEq, Except.ok.injEq], nofun⟩
  | error f =>
    have hrefused : ofBytes bytes = .error (.schemaViolation (.shape f)) := by
      rw [hbytes, hdecode]
      rfl
    have htree : ∀ t, decode j.sorted ≠ .ok t := by
      intro t ht
      have hgrammar : InGrammar j.sorted := by
        rw [← encode_of_decode ht]
        exact inGrammar_encode t
      obtain ⟨u, rfl⟩ := exists_encode_of_inGrammar (inGrammar_of_sorted hgrammar j (hkeys j hj) rfl)
      rw [decode_encode] at hdecode
      cases hdecode
    rw [hrefused]
    exact ⟨fun t => ⟨nofun, fun ht => absurd ht (htree t)⟩, fun _ _ => ⟨f, rfl⟩⟩

/-- An object type with blanks between its tokens, an escaped name and its
fields out of order. -/
def spacedText : List UInt8 :=
  Text.Utf8.encode " [\"object\" ,\n\x7b\"b\":\"bool\",\"\\u0061\":[\"list\",\"string\"]\x7d ] ".toList

def spacedTree : Json :=
  .arr [.str "object", .obj [("b", .str "bool"), ("a", .arr [.str "list", .str "string"])]]

def spacedType : AttributeType :=
  .object [("a", .collection .list (.primitive .string)), ("b", .primitive .bool)]

theorem spells_spacedText : Spells (Json.tokens spacedText) spacedTree := by
  have htokens : Json.tokens spacedText =
      [.openArray, .text (Json.rawText "object"), .comma, .openObject, .text (Json.rawText "b"),
        .colon, .text (Json.rawText "bool"), .comma, .text [0x5c, 0x75, 0x30, 0x30, 0x36, 0x31],
        .colon, .openArray, .text (Json.rawText "list"), .comma, .text (Json.rawText "string"),
        .closeArray, .closeObject, .closeArray] := by
    decide
  have hlist : Spells [.openArray, .text (Json.rawText "list"), .comma,
      .text (Json.rawText "string"), .closeArray] (.arr [.str "list", .str "string"]) :=
    .items (.str (Json.text?_rawText _)) (.cons (.str (Json.text?_rawText _)) .nil)
  have hfields : Spells [.openObject, .text (Json.rawText "b"), .colon, .text (Json.rawText "bool"),
      .comma, .text [0x5c, 0x75, 0x30, 0x30, 0x36, 0x31], .colon, .openArray,
      .text (Json.rawText "list"), .comma, .text (Json.rawText "string"), .closeArray, .closeObject]
      (.obj [("b", .str "bool"), ("a", .arr [.str "list", .str "string"])]) :=
    .members (Json.text?_rawText _) (.str (Json.text?_rawText _)) (.cons (by decide) hlist .nil)
  rw [htokens]
  exact .items (.str (Json.text?_rawText _)) (.cons hfields .nil)

theorem keysDiffer_spacedTree : spacedTree.KeysDiffer := by
  have hstr (s : String) : (Json.str s).KeysDiffer :=
    Json.keysDiffer_of_children (by simp) (by simp [Json.children])
  have hlist : (Json.arr [.str "list", .str "string"]).KeysDiffer :=
    Json.keysDiffer_of_children (by simp) (by simp [Json.children, hstr])
  have hfields : (Json.obj [("b", .str "bool"),
      ("a", .arr [.str "list", .str "string"])]).KeysDiffer := by
    apply Json.keysDiffer_of_children
    · rintro members ⟨⟩
      decide
    · simp [Json.children, hstr, hlist]
  exact Json.keysDiffer_of_children (by simp [spacedTree])
    (by simp [spacedTree, Json.children, hstr, hfields])

theorem ofBytes_agrees_spacedText :
    Json.read spacedText = some spacedType.encode ∧ Json.RepeatsNoKey spacedText ∧
      decode spacedType.encode = .ok spacedType ∧ ofBytes spacedText = .ok spacedType := by
  have hread : Json.read spacedText = some spacedType.encode :=
    Json.read_eq_some.2 ⟨spacedTree, spells_spacedText, by decide, rfl⟩
  have hkeys : Json.RepeatsNoKey spacedText := by
    intro j hj
    obtain rfl := spells_spacedText.tree_eq hj
    exact keysDiffer_spacedTree
  have hdecode : decode spacedType.encode = .ok spacedType := decode_encode spacedType
  have hagree := (ofBytes_agrees spacedText).1 spacedType.encode hread hkeys
  exact ⟨hread, hkeys, hdecode, (hagree.1 spacedType).2 hdecode⟩

end PlanWire.AttributeType
