import PlanWire.Json.Read

/-!
# What the tokens of a text spell

Tokens spell a tree whose members stand in the order of the text, and a key
that is repeated there is repeated in the tree. No tokens spell two trees, not
even when more tokens follow them. The machine reads exactly what is spelled
and not too deep, and the tree that it builds is the tree spelled, sorted.
-/

set_option autoImplicit false

namespace PlanWire.Json

mutual

inductive Spells : List Token → Json → Prop
  | null : Spells [.null] .null
  | bool (b : Bool) : Spells [.bool b] (.bool b)
  | num {literal : Number.Literal} {n : Number} (value : literal.value? = some n) :
      Spells [.number literal] (.num n)
  | str {raw : List UInt8} {s : String} (text : text? raw = some s) : Spells [.text raw] (.str s)
  | noItems : Spells [.openArray, .closeArray] (.arr [])
  | items {ts us : List Token} {j : Json} {rest : List Json} (first : Spells ts j)
      (behind : SpellsItems us rest) : Spells (.openArray :: (ts ++ us)) (.arr (j :: rest))
  | noMembers : Spells [.openObject, .closeObject] (.obj [])
  | members {raw : List UInt8} {k : String} {ts us : List Token} {j : Json}
      {rest : List (String × Json)} (key : text? raw = some k) (first : Spells ts j)
      (behind : SpellsMembers us rest) :
      Spells (.openObject :: .text raw :: .colon :: (ts ++ us)) (.obj ((k, j) :: rest))

inductive SpellsItems : List Token → List Json → Prop
  | nil : SpellsItems [.closeArray] []
  | cons {ts us : List Token} {j : Json} {rest : List Json} (first : Spells ts j)
      (behind : SpellsItems us rest) : SpellsItems (.comma :: (ts ++ us)) (j :: rest)

inductive SpellsMembers : List Token → List (String × Json) → Prop
  | nil : SpellsMembers [.closeObject] []
  | cons {raw : List UInt8} {k : String} {ts us : List Token} {j : Json}
      {rest : List (String × Json)} (key : text? raw = some k) (first : Spells ts j)
      (behind : SpellsMembers us rest) :
      SpellsMembers (.comma :: .text raw :: .colon :: (ts ++ us)) ((k, j) :: rest)

end

theorem Spells.head {ts : List Token} {j : Json} (h : Spells ts j) :
    ∃ t us, ts = t :: us ∧ t ≠ .closeArray := by
  cases h <;> exact ⟨_, _, rfl, nofun⟩

mutual

theorem Spells.unique : ∀ {ts us : List Token} {v w : Json} {behind after : List Token},
    Spells ts v → Spells us w → ts ++ behind = us ++ after → v = w ∧ behind = after
  | _, _, _, _, _, _, .null, g, he => by
    cases g <;> simp_all
  | _, _, _, _, _, _, .bool b, g, he => by
    cases g <;> simp_all
  | _, _, _, _, _, _, .num value, g, he => by
    cases g <;> simp_all
  | _, _, _, _, _, _, .str text, g, he => by
    cases g <;> simp_all
  | _, _, _, _, _, _, .noItems, g, he => by
    cases g with
    | noItems => simpa using he
    | items first behind =>
      obtain ⟨t, us, rfl, ht⟩ := first.head
      simp at he
      exact absurd he.1.symm ht
    | _ => simp at he
  | _, _, _, _, _, _, .items first rest, g, he => by
    cases g with
    | noItems =>
      obtain ⟨t, us, rfl, ht⟩ := first.head
      simp at he
      exact absurd he.1 ht
    | items second others =>
      simp only [List.cons_append, List.append_assoc, List.cons.injEq, true_and] at he
      obtain ⟨rfl, he⟩ := first.unique second he
      obtain ⟨rfl, he⟩ := rest.unique others he
      exact ⟨rfl, he⟩
    | _ => simp at he
  | _, _, _, _, _, _, .noMembers, g, he => by
    cases g <;> simp_all
  | _, _, _, _, _, _, .members key first rest, g, he => by
    cases g with
    | members name second others =>
      simp only [List.cons_append, List.append_assoc, List.cons.injEq, Token.text.injEq,
        true_and] at he
      obtain ⟨rfl, he⟩ := he
      obtain rfl := Option.some.inj (key.symm.trans name)
      obtain ⟨rfl, he⟩ := first.unique second he
      obtain ⟨rfl, he⟩ := rest.unique others he
      exact ⟨rfl, he⟩
    | _ => simp at he

theorem SpellsItems.unique : ∀ {ts us : List Token} {v w : List Json} {behind after : List Token},
    SpellsItems ts v → SpellsItems us w → ts ++ behind = us ++ after → v = w ∧ behind = after
  | _, _, _, _, _, _, .nil, g, he => by
    cases g <;> simp_all
  | _, _, _, _, _, _, .cons first rest, g, he => by
    cases g with
    | nil => simp at he
    | cons second others =>
      simp only [List.cons_append, List.append_assoc, List.cons.injEq, true_and] at he
      obtain ⟨rfl, he⟩ := first.unique second he
      obtain ⟨rfl, he⟩ := rest.unique others he
      exact ⟨rfl, he⟩

theorem SpellsMembers.unique : ∀ {ts us : List Token} {v w : List (String × Json)}
    {behind after : List Token}, SpellsMembers ts v → SpellsMembers us w →
    ts ++ behind = us ++ after → v = w ∧ behind = after
  | _, _, _, _, _, _, .nil, g, he => by
    cases g <;> simp_all
  | _, _, _, _, _, _, .cons key first rest, g, he => by
    cases g with
    | nil => simp at he
    | cons name second others =>
      simp only [List.cons_append, List.append_assoc, List.cons.injEq, Token.text.injEq,
        true_and] at he
      obtain ⟨rfl, he⟩ := he
      obtain rfl := Option.some.inj (key.symm.trans name)
      obtain ⟨rfl, he⟩ := first.unique second he
      obtain ⟨rfl, he⟩ := rest.unique others he
      exact ⟨rfl, he⟩

end

theorem Spells.tree_eq {ts : List Token} {v w : Json} (h : Spells ts v) (g : Spells ts w) : v = w :=
  (h.unique g (Eq.refl (ts ++ []))).1

section Machine

def resume (limit : Nat) (ts : List Token) : Step → Option (Json × List Token)
  | .stuck => none
  | .next phase stack => run limit phase stack ts
  | .done v => some (v, ts)

theorem run_cons (limit : Nat) (phase : Phase) (stack : List Frame) (t : Token) (ts : List Token) :
    run limit phase stack (t :: ts) = resume limit ts (step limit phase stack t) := by
  rw [run]
  cases step limit phase stack t <;> rfl

def within {α : Type} (limit opened : Nat) (outcome : Option α) : Option α :=
  if opened ≤ limit then outcome else none

theorem within_of_le {α : Type} {limit opened : Nat} (outcome : Option α) (h : opened ≤ limit) :
    within limit opened outcome = outcome := if_pos h

theorem within_of_lt {α : Type} {limit opened : Nat} (outcome : Option α) (h : limit < opened) :
    within limit opened outcome = none := if_neg (Nat.not_le.2 h)

theorem within_within {α : Type} (limit opened more : Nat) (outcome : Option α) :
    within limit opened (within limit more outcome) = within limit (max opened more) outcome := by
  by_cases ho : opened ≤ limit
  · by_cases hm : more ≤ limit
    · rw [within_of_le _ ho, within_of_le _ hm, within_of_le _ (by omega)]
    · rw [within_of_le _ ho, within_of_lt _ (by omega), within_of_lt _ (by omega)]
  · rw [within_of_lt _ (by omega), within_of_lt _ (by omega)]

variable {limit : Nat}

theorem run_firstItem {us : List Token} {j : Json} (h : Spells us j) (stack : List Frame)
    (ts : List Token) :
    run limit .firstItem stack (us ++ ts) = run limit .value (.items [] :: stack) (us ++ ts) := by
  cases h <;> rfl

theorem run_scalar {v : Json} {t : Token} {stack : List Frame} {ts : List Token}
    (h : stepValue limit stack t = deliver v stack) (hv : v.nesting = 0)
    (hl : stack.length ≤ limit) :
    run limit .value stack (t :: ts) =
      within limit (stack.length + v.nesting) (resume limit ts (deliver v stack)) := by
  rw [hv, Nat.add_zero, within_of_le _ hl, run_cons, step, h]

theorem run_opened {phase : Phase} {stack : List Frame} {t : Token} {inside : Nat}
    {ts : List Token} {outcome : Option (Json × List Token)}
    (ht : stepValue limit stack t = open? limit phase stack)
    (h : stack.length + 1 ≤ limit → run limit phase stack ts =
      within limit (stack.length + 1 + inside) outcome) :
    run limit .value stack (t :: ts) = within limit (stack.length + (inside + 1)) outcome := by
  rw [run_cons, step, ht, open?]
  by_cases hroom : stack.length < limit
  · rw [if_pos hroom, resume, h hroom, Nat.add_assoc, Nat.add_comm 1]
  · rw [if_neg hroom, within_of_lt _ (by omega), resume]

theorem run_key {phase : Phase} {stack : List Frame} {done : List (String × Json)}
    {raw : List UInt8} {k : String} {ts : List Token} (key : text? raw = some k)
    (h : step limit phase stack (.text raw) = stepKey done stack (.text raw)) :
    run limit phase stack (.text raw :: .colon :: ts) =
      run limit .value (.members done k :: stack) ts := by
  have hkey : stepKey done stack (.text raw) = .next (.afterKey done k) stack := by
    simp only [stepKey, key]
  rw [run_cons, h, hkey, resume, run_cons]
  rfl

mutual

/-- The machine takes the tokens that spell a value and hands the value on. -/
theorem run_spells : ∀ {us : List Token} {j : Json} (_ : Spells us j) (stack : List Frame)
    (ts : List Token), stack.length ≤ limit → run limit .value stack (us ++ ts) =
      within limit (stack.length + j.nesting) (resume limit ts (deliver j.sorted stack))
  | _, _, .null, _, _, hl => run_scalar rfl rfl hl
  | _, _, .bool _, _, _, hl => run_scalar rfl rfl hl
  | _, _, @Spells.num literal n value, stack, _, hl => by
    have hstep : stepValue limit stack (.number literal) = deliver (.num n) stack := by
      simp only [stepValue, value]
    exact run_scalar hstep rfl hl
  | _, _, @Spells.str raw s text, stack, _, hl => by
    have hstep : stepValue limit stack (.text raw) = deliver (.str s) stack := by
      simp only [stepValue, text]
    exact run_scalar hstep rfl hl
  | _, _, .noItems, stack, ts, _ => by
    apply run_opened rfl
    intro hroom
    rw [nestingItems, Nat.add_zero, within_of_le _ hroom]
    exact run_cons ..
  | _, _, @Spells.items _ vs j _ first behind, stack, ts, _ => by
    rw [List.cons_append, List.append_assoc]
    apply run_opened rfl
    intro hroom
    rw [run_firstItem first, run_spells first (.items [] :: stack) _ hroom]
    change within limit _ (run limit (.afterItem [j.sorted]) stack (vs ++ ts)) = _
    rw [run_spellsItems behind stack ts [j.sorted] hroom, within_within, nestingItems,
      List.length_cons, Nat.add_max_add_left]
    rfl
  | _, _, .noMembers, stack, ts, _ => by
    apply run_opened rfl
    intro hroom
    rw [nestingMembers, Nat.add_zero, within_of_le _ hroom]
    exact run_cons ..
  | _, _, @Spells.members _ k _ vs j _ key first behind, stack, ts, _ => by
    rw [List.cons_append, List.cons_append, List.cons_append, List.append_assoc]
    apply run_opened rfl
    intro hroom
    rw [run_key key rfl, run_spells first (.members [] k :: stack) _ hroom]
    change within limit _ (run limit (.afterMember [(k, j.sorted)]) stack (vs ++ ts)) = _
    rw [run_spellsMembers behind stack ts [(k, j.sorted)] hroom, within_within, nestingMembers,
      List.length_cons, Nat.add_max_add_left]
    rfl

theorem run_spellsItems : ∀ {us : List Token} {items : List Json} (_ : SpellsItems us items)
    (stack : List Frame) (ts : List Token) (done : List Json), stack.length + 1 ≤ limit →
    run limit (.afterItem done) stack (us ++ ts) =
      within limit (stack.length + 1 + nestingItems items)
        (resume limit ts (deliver (.arr (done.reverse ++ sortedItems items)) stack))
  | _, _, .nil, stack, ts, done, hroom => by
    rw [nestingItems, Nat.add_zero, within_of_le _ hroom, sortedItems, List.append_nil]
    exact run_cons ..
  | _, _, @SpellsItems.cons _ vs j _ first behind, stack, ts, done, hroom => by
    rw [List.cons_append, List.append_assoc, run_cons]
    change run limit .value (.items done :: stack) _ = _
    rw [run_spells first (.items done :: stack) _ hroom]
    change within limit _ (run limit (.afterItem (j.sorted :: done)) stack (vs ++ ts)) = _
    rw [run_spellsItems behind stack ts (j.sorted :: done) hroom, within_within, nestingItems,
      List.length_cons, Nat.add_max_add_left, List.reverse_cons, List.append_assoc]
    rfl

theorem run_spellsMembers : ∀ {us : List Token} {members : List (String × Json)}
    (_ : SpellsMembers us members) (stack : List Frame) (ts : List Token)
    (done : List (String × Json)), stack.length + 1 ≤ limit →
    run limit (.afterMember done) stack (us ++ ts) =
      within limit (stack.length + 1 + nestingMembers members)
        (resume limit ts
          (deliver (.obj (Dict.ofList (done.reverse ++ sortedMembers members))) stack))
  | _, _, .nil, stack, ts, done, hroom => by
    rw [nestingMembers, Nat.add_zero, within_of_le _ hroom, sortedMembers, List.append_nil]
    exact run_cons ..
  | _, _, @SpellsMembers.cons _ k _ vs j _ key first behind, stack, ts, done, hroom => by
    rw [List.cons_append, List.cons_append, List.cons_append, List.append_assoc, run_cons]
    change run limit (.nextKey done) stack _ = _
    rw [run_key key rfl, run_spells first (.members done k :: stack) _ hroom]
    change within limit _ (run limit (.afterMember ((k, j.sorted) :: done)) stack (vs ++ ts)) = _
    rw [run_spellsMembers behind stack ts ((k, j.sorted) :: done) hroom, within_within,
      nestingMembers, List.length_cons, Nat.add_max_add_left, List.reverse_cons, List.append_assoc]
    rfl

end

/- What must follow in the tokens, for a run to end with this outcome: the tokens
of a value, or those up to the end of a container, and behind them what `next`
asks for. -/
section Completion

def ValueThen (next : Json → List Token → Prop) (ts : List Token) : Prop :=
  ∃ us j behind, Spells us j ∧ ts = us ++ behind ∧ next j.sorted behind

def ItemsThen (done : List Json) (next : Json → List Token → Prop) (ts : List Token) : Prop :=
  ∃ us items behind, SpellsItems us items ∧ ts = us ++ behind ∧
    next (.arr (done.reverse ++ sortedItems items)) behind

def MembersThen (done : List (String × Json)) (next : Json → List Token → Prop)
    (ts : List Token) : Prop :=
  ∃ us members behind, SpellsMembers us members ∧ ts = us ++ behind ∧
    next (.obj (Dict.ofList (done.reverse ++ sortedMembers members))) behind

variable (outcome : Json × List Token)

/-- Behind a finished value the containers on the stack are closed. -/
def Finishes : List Frame → Json → List Token → Prop
  | [], v, ts => (v, ts) = outcome
  | .items done :: stack, v, ts => ItemsThen (v :: done) (Finishes stack) ts
  | .members done key :: stack, v, ts => MembersThen ((key, v) :: done) (Finishes stack) ts

/-- A container that was just opened is taken up again at its bracket. -/
def Phase.Completes (stack : List Frame) : Phase → List Token → Prop
  | .value, ts => ValueThen (Finishes outcome stack) ts
  | .firstItem, ts => ValueThen (Finishes outcome stack) (.openArray :: ts)
  | .afterItem done, ts => ItemsThen done (Finishes outcome stack) ts
  | .firstKey, ts => ValueThen (Finishes outcome stack) (.openObject :: ts)
  | .nextKey done, ts => MembersThen done (Finishes outcome stack) (.comma :: ts)
  | .afterKey done key, ts =>
    ∃ us, ts = .colon :: us ∧ ValueThen (Finishes outcome (.members done key :: stack)) us
  | .afterMember done, ts => MembersThen done (Finishes outcome stack) ts

def Step.Completes : Step → List Token → Prop
  | .stuck, _ => False
  | .next phase stack, ts => phase.Completes outcome stack ts
  | .done v, ts => (v, ts) = outcome

variable {outcome}

theorem finishes_of_deliver {v : Json} {stack : List Frame} {ts : List Token}
    (h : (deliver v stack).Completes outcome ts) : Finishes outcome stack v ts := by
  cases stack with
  | nil => exact h
  | cons frame stack => cases frame <;> exact h

theorem valueThen_of_stepValue {stack : List Frame} {t : Token} {ts : List Token}
    (h : (stepValue limit stack t).Completes outcome ts) :
    ValueThen (Finishes outcome stack) (t :: ts) := by
  have hscalar (v : Json) (hv : Spells [t] v) (hs : v.sorted = v)
      (h : (deliver v stack).Completes outcome ts) : ValueThen (Finishes outcome stack) (t :: ts) := by
    refine ⟨[t], v, ts, hv, rfl, ?_⟩
    rw [hs]
    exact finishes_of_deliver h
  cases t with
  | openArray =>
    simp only [stepValue, open?] at h
    split at h
    · exact h
    · exact h.elim
  | openObject =>
    simp only [stepValue, open?] at h
    split at h
    · exact h
    · exact h.elim
  | null => exact hscalar _ .null rfl h
  | bool b => exact hscalar _ (.bool b) rfl h
  | number literal =>
    simp only [stepValue] at h
    split at h
    · next n hvalue => exact hscalar _ (.num hvalue) rfl h
    · exact h.elim
  | text raw =>
    simp only [stepValue] at h
    split at h
    · next s htext => exact hscalar _ (.str htext) rfl h
    · exact h.elim
  | _ => exact h.elim

theorem key_of_stepKey {stack : List Frame} {done : List (String × Json)} {t : Token}
    {ts : List Token} (h : (stepKey done stack t).Completes outcome ts) :
    ∃ raw key us, t = .text raw ∧ text? raw = some key ∧ ts = .colon :: us ∧
      ValueThen (Finishes outcome (.members done key :: stack)) us := by
  unfold stepKey at h
  split at h
  · next raw =>
    split at h
    · next key hkey =>
      obtain ⟨us, hts, hvalue⟩ := h
      exact ⟨raw, key, us, rfl, hkey, hts, hvalue⟩
    · exact h.elim
  · exact h.elim

/-- What completes the state behind a step completes the state before it, with
the token of the step in front. -/
theorem completes_of_step {phase : Phase} {stack : List Frame} {t : Token} {ts : List Token}
    (h : (step limit phase stack t).Completes outcome ts) :
    phase.Completes outcome stack (t :: ts) := by
  unfold step at h
  split at h
  · exact valueThen_of_stepValue h
  · exact ⟨_, _, ts, .noItems, rfl, finishes_of_deliver h⟩
  · obtain ⟨us, j, _, hj, hts, vs, items, behind, hitems, rfl, hnext⟩ := valueThen_of_stepValue h
    exact ⟨_, _, behind, .items hj hitems, by simp [hts], hnext⟩
  · next done =>
    obtain ⟨us, j, _, hj, rfl, vs, items, behind, hitems, rfl, hnext⟩ := h
    refine ⟨_, _, behind, .cons hj hitems, by simp, ?_⟩
    simpa [sortedItems] using hnext
  · next done =>
    refine ⟨_, _, ts, .nil, rfl, ?_⟩
    rw [sortedItems, List.append_nil]
    exact finishes_of_deliver h
  · exact ⟨_, _, ts, .noMembers, rfl, finishes_of_deliver h⟩
  · obtain ⟨raw, key, _, rfl, hkey, rfl, us, j, _, hj, rfl, vs, members, behind, hmembers, rfl,
      hnext⟩ := key_of_stepKey h
    exact ⟨_, _, behind, .members hkey hj hmembers, by simp, hnext⟩
  · next done _ =>
    obtain ⟨raw, key, _, rfl, hkey, rfl, us, j, _, hj, rfl, vs, members, behind, hmembers, rfl,
      hnext⟩ := key_of_stepKey h
    refine ⟨_, _, behind, .cons hkey hj hmembers, by simp, ?_⟩
    simpa [sortedMembers] using hnext
  · exact ⟨ts, rfl, h⟩
  · exact h
  · next done =>
    refine ⟨_, _, ts, .nil, rfl, ?_⟩
    rw [sortedMembers, List.append_nil]
    exact finishes_of_deliver h
  · exact h.elim

theorem completes_of_run {phase : Phase} {stack : List Frame} {ts : List Token}
    (h : run limit phase stack ts = some outcome) : phase.Completes outcome stack ts := by
  induction ts generalizing phase stack with
  | nil => cases h
  | cons t ts ih =>
    rw [run_cons] at h
    refine completes_of_step (?_ : (step limit phase stack t).Completes outcome ts)
    cases hstep : step limit phase stack t with
    | stuck => simp [hstep, resume] at h
    | next phase stack =>
      rw [hstep] at h
      exact ih h
    | done v =>
      rw [hstep] at h
      exact Option.some.inj h

end Completion

theorem readFront_of_spells {us : List Token} {j : Json} (h : Spells us j) (behind : List Token) :
    readFront limit (us ++ behind) = within limit j.nesting (some (j.sorted, behind)) := by
  have hrun := run_spells h [] behind (Nat.zero_le limit)
  rwa [List.length_nil, Nat.zero_add] at hrun

/-- The machine reads from the front what is spelled there, sorted, and nothing
that is deeper than the limit. -/
theorem readFront_eq_some {ts behind : List Token} {v : Json} :
    readFront limit ts = some (v, behind) ↔
      ∃ us j, Spells us j ∧ ts = us ++ behind ∧ j.nesting ≤ limit ∧ v = j.sorted := by
  constructor
  · intro h
    obtain ⟨us, j, after, hj, rfl, hnext⟩ := completes_of_run h
    cases hnext
    by_cases hdeep : j.nesting ≤ limit
    · exact ⟨us, j, hj, rfl, hdeep, rfl⟩
    · rw [readFront_of_spells hj, within_of_lt _ (Nat.not_le.1 hdeep)] at h
      cases h
  · rintro ⟨us, j, hj, rfl, hdeep, rfl⟩
    rw [readFront_of_spells hj, within_of_le _ hdeep]

end Machine

mutual

theorem Spells.nesting_le : ∀ {ts : List Token} {j : Json}, Spells ts j → j.nesting ≤ ts.length
  | _, _, .null | _, _, .bool _ | _, _, .num _ | _, _, .str _ => Nat.zero_le _
  | _, _, .noItems | _, _, .noMembers => by decide
  | _, _, .items first behind => by
    have hfirst := first.nesting_le
    have hbehind := behind.nesting_le
    simp only [nesting, nestingItems, List.length_cons, List.length_append]
    omega
  | _, _, .members _ first behind => by
    have hfirst := first.nesting_le
    have hbehind := behind.nesting_le
    simp only [nesting, nestingMembers, List.length_cons, List.length_append]
    omega

theorem SpellsItems.nesting_le : ∀ {ts : List Token} {items : List Json},
    SpellsItems ts items → nestingItems items ≤ ts.length
  | _, _, .nil => Nat.zero_le _
  | _, _, .cons first behind => by
    have hfirst := first.nesting_le
    have hbehind := behind.nesting_le
    simp only [nestingItems, List.length_cons, List.length_append]
    omega

theorem SpellsMembers.nesting_le : ∀ {ts : List Token} {members : List (String × Json)},
    SpellsMembers ts members → nestingMembers members ≤ ts.length
  | _, _, .nil => Nat.zero_le _
  | _, _, .cons _ first behind => by
    have hfirst := first.nesting_le
    have hbehind := behind.nesting_le
    simp only [nestingMembers, List.length_cons, List.length_append]
    omega

end

mutual

theorem Spells.blank : ∀ {ts : List Token} {j : Json}, Spells ts j →
    ∃ i, Spells (ts.map Token.blank) i
  | _, _, .null => ⟨_, .null⟩
  | _, _, .bool b => ⟨_, .bool b⟩
  | _, _, .num _ => ⟨_, .null⟩
  | _, _, .str _ => ⟨_, .str rfl⟩
  | _, _, .noItems => ⟨_, .noItems⟩
  | _, _, .items first behind => by
    obtain ⟨i, hi⟩ := first.blank
    obtain ⟨items, hitems⟩ := behind.blank
    refine ⟨.arr (i :: items), ?_⟩
    rw [List.map_cons, List.map_append]
    exact .items hi hitems
  | _, _, .noMembers => ⟨_, .noMembers⟩
  | _, _, .members _ first behind => by
    obtain ⟨i, hi⟩ := first.blank
    obtain ⟨members, hmembers⟩ := behind.blank
    refine ⟨.obj (("", i) :: members), ?_⟩
    rw [List.map_cons, List.map_cons, List.map_cons, List.map_append]
    exact .members rfl hi hmembers

theorem SpellsItems.blank : ∀ {ts : List Token} {items : List Json}, SpellsItems ts items →
    ∃ others, SpellsItems (ts.map Token.blank) others
  | _, _, .nil => ⟨_, .nil⟩
  | _, _, .cons first behind => by
    obtain ⟨i, hi⟩ := first.blank
    obtain ⟨items, hitems⟩ := behind.blank
    refine ⟨i :: items, ?_⟩
    rw [List.map_cons, List.map_append]
    exact .cons hi hitems

theorem SpellsMembers.blank : ∀ {ts : List Token} {members : List (String × Json)},
    SpellsMembers ts members → ∃ others, SpellsMembers (ts.map Token.blank) others
  | _, _, .nil => ⟨_, .nil⟩
  | _, _, .cons _ first behind => by
    obtain ⟨i, hi⟩ := first.blank
    obtain ⟨members, hmembers⟩ := behind.blank
    refine ⟨("", i) :: members, ?_⟩
    rw [List.map_cons, List.map_cons, List.map_cons, List.map_append]
    exact .cons rfl hi hmembers

end

theorem skips_of_spells {us : List Token} {j : Json} (h : Spells us j) (ts : List Token) :
    skips (us ++ ts) = true := by
  obtain ⟨i, hi⟩ := h.blank
  have hdeep : i.nesting ≤ (us ++ ts).length := by
    have hlength := hi.nesting_le
    rw [List.length_map] at hlength
    rw [List.length_append]
    omega
  rw [skips, List.map_append, readFront_eq_some.2 ⟨_, i, hi, rfl, hdeep, rfl⟩]
  rfl

end PlanWire.Json
