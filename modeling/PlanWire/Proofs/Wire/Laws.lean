import PlanWire.Proofs.Json.Sorting
import PlanWire.Wire.Lemmas

/-!
# Lawful codecs

A codec is lawful up to a number of levels when what it reads from a well
formed tree with fewer levels is read again from the tree that is written for
it and sorted, and when null is written only for what was read from null. Every
way of making a codec from others keeps this law, so that a record is lawful
when its fields are. Of a field it asks besides that a value left out is the
one taken for an absent field, and that a default which is written is read
again.
-/

set_option autoImplicit false

namespace PlanWire

open Json (WellFormedItems WellFormedMembers nestingItems nestingMembers sortedItems sortedMembers)

theorem bind_eq_ok {ε α β : Type} {x : Except ε α} {f : α → Except ε β} {b : β} :
    x >>= f = .ok b ↔ ∃ a, x = .ok a ∧ f a = .ok b := by
  cases x with
  | error e => simp [bind, Except.bind]
  | ok a => simp [bind, Except.bind]

theorem map_eq_ok {ε α β : Type} {x : Except ε α} {f : α → β} {b : β} :
    x.map f = .ok b ↔ ∃ a, x = .ok a ∧ f a = b := by
  cases x with
  | error e => simp [Except.map]
  | ok a => simp [Except.map]

theorem exists_map_eq_ok {ε α β : Type} {x : Except ε α} {f : α → β} :
    (∃ b, x.map f = .ok b) ↔ ∃ a, x = .ok a := by
  cases x with
  | error e => simp [Except.map]
  | ok a => simp [Except.map]

namespace Codec

variable {α : Type}

theorem decodeItems_cons {c : Codec α} {j : Json} {rest : List Json} {xs : List α} :
    c.decodeItems (j :: rest) = .ok xs ↔
      ∃ a as, c.decode j = .ok a ∧ c.decodeItems rest = .ok as ∧ a :: as = xs := by
  simp [decodeItems, bind_eq_ok, pure, Except.pure]

theorem decodeMembers_cons {c : Codec α} {k : String} {j : Json} {rest : List (String × Json)}
    {d : Dict α} :
    c.decodeMembers ((k, j) :: rest) = .ok d ↔
      ∃ a as, c.decode j = .ok a ∧ c.decodeMembers rest = .ok as ∧ (k, a) :: as = d := by
  simp [decodeMembers, bind_eq_ok, pure, Except.pure]

theorem exists_decodeItems {c : Codec α} {items : List Json} :
    (∃ xs, c.decodeItems items = .ok xs) ↔ ∀ j ∈ items, ∃ a, c.decode j = .ok a := by
  induction items with
  | nil => simp [decodeItems]
  | cons j rest ih =>
    rw [List.forall_mem_cons, ← ih]
    constructor
    · rintro ⟨xs, h⟩
      obtain ⟨a, as, ha, has, -⟩ := decodeItems_cons.1 h
      exact ⟨⟨a, ha⟩, as, has⟩
    · rintro ⟨⟨a, ha⟩, as, has⟩
      exact ⟨a :: as, decodeItems_cons.2 ⟨a, as, ha, has, rfl⟩⟩

theorem exists_decodeMembers {c : Codec α} {members : List (String × Json)} :
    (∃ d, c.decodeMembers members = .ok d) ↔ ∀ member ∈ members, ∃ a, c.decode member.2 = .ok a := by
  induction members with
  | nil => simp [decodeMembers]
  | cons member rest ih =>
    rw [List.forall_mem_cons, ← ih]
    constructor
    · rintro ⟨d, h⟩
      obtain ⟨a, as, ha, has, -⟩ := decodeMembers_cons.1 h
      exact ⟨⟨a, ha⟩, as, has⟩
    · rintro ⟨⟨a, ha⟩, as, has⟩
      exact ⟨(member.1, a) :: as, decodeMembers_cons.2 ⟨a, as, ha, has, rfl⟩⟩

theorem exists_of_mem_decodeItems {c : Codec α} {items : List Json} {xs : List α}
    (h : c.decodeItems items = .ok xs) {a : α} (ha : a ∈ xs) : ∃ j ∈ items, c.decode j = .ok a := by
  induction items generalizing xs with
  | nil =>
    obtain rfl : [] = xs := by simpa [decodeItems] using h
    cases ha
  | cons j rest ih =>
    obtain ⟨first, others, hfirst, hothers, rfl⟩ := decodeItems_cons.1 h
    rcases List.mem_cons.1 ha with rfl | ha
    · exact ⟨j, List.mem_cons_self .., hfirst⟩
    · obtain ⟨i, hi, hd⟩ := ih hothers ha
      exact ⟨i, List.mem_cons_of_mem _ hi, hd⟩

theorem exists_of_mem_decodeMembers {c : Codec α} {members : List (String × Json)} {d : Dict α}
    (h : c.decodeMembers members = .ok d) {entry : String × α} (he : entry ∈ d) :
    ∃ member ∈ members, c.decode member.2 = .ok entry.2 := by
  induction members generalizing d with
  | nil =>
    obtain rfl : [] = d := by simpa [decodeMembers] using h
    cases he
  | cons member rest ih =>
    obtain ⟨first, others, hfirst, hothers, rfl⟩ := decodeMembers_cons.1 h
    rcases List.mem_cons.1 he with rfl | he
    · exact ⟨member, List.mem_cons_self .., hfirst⟩
    · obtain ⟨m, hm, hd⟩ := ih hothers he
      exact ⟨m, List.mem_cons_of_mem _ hm, hd⟩

theorem getElem?_of_decodeItems {c : Codec α} {items : List Json} {xs : List α}
    (h : c.decodeItems items = .ok xs) (i : Nat) :
    (∃ j a, items[i]? = some j ∧ xs[i]? = some a ∧ c.decode j = .ok a) ∨
      items[i]? = none ∧ xs[i]? = none := by
  induction items generalizing xs i with
  | nil =>
    obtain rfl : [] = xs := by simpa [decodeItems] using h
    exact .inr ⟨rfl, rfl⟩
  | cons j rest ih =>
    obtain ⟨first, others, hfirst, hothers, rfl⟩ := decodeItems_cons.1 h
    cases i with
    | zero => exact .inl ⟨j, first, rfl, rfl, hfirst⟩
    | succ i => exact ih hothers i

theorem get?_of_decodeMembers {c : Codec α} {members : Dict Json} {d : Dict α}
    (h : c.decodeMembers members = .ok d) (name : String) :
    (∃ j a, Dict.get? name members = some j ∧ Dict.get? name d = some a ∧ c.decode j = .ok a) ∨
      Dict.get? name members = none ∧ Dict.get? name d = none := by
  induction members generalizing d with
  | nil =>
    obtain rfl : [] = d := by simpa [decodeMembers] using h
    exact .inr ⟨rfl, rfl⟩
  | cons member rest ih =>
    obtain ⟨k, j⟩ := member
    obtain ⟨first, others, hfirst, hothers, rfl⟩ := decodeMembers_cons.1 h
    by_cases hk : k = name
    · left
      exact ⟨j, first, by simp [Dict.get?, hk], by simp [Dict.get?, hk], hfirst⟩
    · simpa only [Dict.get?, hk, if_false] using ih hothers

theorem exists_item_of_decodeItems {c : Codec α} {items : List Json} {xs : List α}
    (h : c.decodeItems items = .ok xs) {i : Nat} {a : α} (ha : xs[i]? = some a) :
    ∃ j, items[i]? = some j ∧ c.decode j = .ok a := by
  rcases getElem?_of_decodeItems h i with ⟨j, b, hj, hb, hd⟩ | ⟨-, hb⟩
  · rw [ha] at hb
    cases hb
    exact ⟨j, hj, hd⟩
  · rw [ha] at hb
    cases hb

theorem exists_member_of_decodeMembers {c : Codec α} {members : Dict Json} {d : Dict α}
    (h : c.decodeMembers members = .ok d) {name : String} {a : α} (ha : Dict.get? name d = some a) :
    ∃ j, Dict.get? name members = some j ∧ c.decode j = .ok a := by
  rcases get?_of_decodeMembers h name with ⟨j, b, hj, hb, hd⟩ | ⟨-, hb⟩
  · rw [ha] at hb
    cases hb
    exact ⟨j, hj, hd⟩
  · rw [ha] at hb
    cases hb

theorem keys_of_decodeMembers {c : Codec α} {members : Dict Json} {d : Dict α}
    (hd : c.decodeMembers members = .ok d) : d.keys = members.keys := by
  induction members generalizing d with
  | nil =>
    obtain rfl : [] = d := by simpa [decodeMembers] using hd
    rfl
  | cons member rest ih =>
    obtain ⟨a, as, -, has, rfl⟩ := decodeMembers_cons.1 hd
    exact congrArg (member.1 :: ·) (ih has)

theorem decodeItems_map_encode {c : Codec α} {xs : List α}
    (h : ∀ a ∈ xs, c.decode (c.encode a) = .ok a) : c.decodeItems (xs.map c.encode) = .ok xs := by
  induction xs with
  | nil => rfl
  | cons a rest ih =>
    obtain ⟨ha, hr⟩ := List.forall_mem_cons.1 h
    exact decodeItems_cons.2 ⟨a, rest, ha, ih hr, rfl⟩

theorem decodeMembers_mapValues_encode {c : Codec α} {d : Dict α}
    (h : ∀ entry ∈ d, c.decode (c.encode entry.2) = .ok entry.2) :
    c.decodeMembers (d.mapValues c.encode) = .ok d := by
  induction d with
  | nil => rfl
  | cons entry rest ih =>
    obtain ⟨ha, hr⟩ := List.forall_mem_cons.1 h
    exact decodeMembers_cons.2 ⟨entry.2, rest, ha, ih hr, rfl⟩

theorem decode_optional {c : Codec α} {j : Json} (h : j ≠ .null) :
    c.optional.decode j = (c.decode j).map some := by
  cases j with
  | null => exact absurd rfl h
  | _ => rfl

def sorting (c : Codec α) : Codec α where
  decode := c.decode
  encode a := (c.encode a).sorted

structure Lawful (n : Nat) (c : Codec α) : Prop where
  restores : ∀ {j : Json} {a : α}, j.WellFormed → j.nesting < n → c.decode j = .ok a →
    c.decode (c.encode a).sorted = .ok a
  present : ∀ {j : Json} {a : α}, j ≠ .null → j.nesting < n → c.decode j = .ok a →
    c.encode a ≠ .null

namespace Lawful

variable {n : Nat} {c : Codec α}

theorem zero (c : Codec α) : c.Lawful 0 where
  restores _ hn _ := absurd hn (Nat.not_lt_zero _)
  present _ hn _ := absurd hn (Nat.not_lt_zero _)

theorem of_succ (h : c.Lawful (n + 1)) : c.Lawful n where
  restores hw hn hd := h.restores hw (Nat.lt_succ_of_lt hn) hd
  present hj hn hd := h.present hj (Nat.lt_succ_of_lt hn) hd

theorem of_total (restores : ∀ a, c.decode (c.encode a).sorted = .ok a)
    (present : ∀ a, c.encode a ≠ .null) : c.Lawful n where
  restores _ _ _ := restores _
  present _ _ _ := present _

theorem value : Codec.value.Lawful n where
  restores {j a} hw _ hd := by
    obtain rfl : j = a := by simpa [Codec.value] using hd
    rw [Codec.value, Json.sorted_of_wellFormed j hw]
  present {j a} hj _ hd := by
    obtain rfl : j = a := by simpa [Codec.value] using hd
    exact hj

theorem kept : Codec.kept.Lawful n where
  restores {j a} hw _ hd := by
    obtain rfl : some j = a := by simpa [Codec.kept] using hd
    simp only [Codec.kept, Json.sorted_of_wellFormed j hw]
  present {j a} hj _ hd := by
    obtain rfl : some j = a := by simpa [Codec.kept] using hd
    exact hj

theorem text : Codec.text.Lawful n :=
  of_total (fun _ => rfl) fun _ => by simp [Codec.text]

theorem flag : Codec.flag.Lawful n :=
  of_total (fun _ => rfl) fun _ => by simp [Codec.flag]

theorem restores_count (a : UInt64) : Codec.count.decode (Codec.count.encode a).sorted = .ok a := by
  have hlt : a.toNat < 18446744073709551616 := a.toNat_lt
  have hint : (a.toNat : Int) < 18446744073709551616 := by omega
  simp [Codec.count, Json.sorted, hint]

theorem count : Codec.count.Lawful n :=
  of_total restores_count fun _ => by simp [Codec.count]

theorem variant {v : Variants α} (h : ∀ a, v.find (v.name a) = .ok a) :
    (Codec.variant v).Lawful n :=
  of_total (fun a => by simpa [Codec.variant, Json.sorted] using h a) fun _ => by
    simp [Codec.variant]

theorem decodeItems_sorted (h : c.Lawful n) {items : List Json} {xs : List α}
    (hw : WellFormedItems items) (hn : nestingItems items < n) (hd : c.decodeItems items = .ok xs) :
    c.decodeItems (sortedItems (xs.map c.encode)) = .ok xs := by
  induction items generalizing xs with
  | nil =>
    obtain rfl : [] = xs := by simpa [decodeItems] using hd
    rfl
  | cons j rest ih =>
    obtain ⟨a, as, ha, has, rfl⟩ := decodeItems_cons.1 hd
    obtain ⟨hj, hr⟩ := Nat.max_lt.1 hn
    exact decodeItems_cons.2 ⟨a, as, h.restores hw.1 hj ha, ih hw.2 hr has, rfl⟩

theorem list (h : c.Lawful n) : c.list.Lawful n where
  restores {j xs} hw hn hd := by
    cases j with
    | arr items =>
      have hi : nestingItems items < n := Nat.lt_of_succ_lt hn
      exact h.decodeItems_sorted hw hi hd
    | _ => simp [Codec.list, mismatch] at hd
  present _ _ _ := by simp [Codec.list]

theorem decodeMembers_sorted (h : c.Lawful n) {members : Dict Json} {d : Dict α}
    (hw : WellFormedMembers members) (hn : nestingMembers members < n)
    (hd : c.decodeMembers members = .ok d) :
    c.decodeMembers (sortedMembers (d.mapValues c.encode)) = .ok d := by
  induction members generalizing d with
  | nil =>
    obtain rfl : [] = d := by simpa [decodeMembers] using hd
    rfl
  | cons member rest ih =>
    obtain ⟨a, as, ha, has, rfl⟩ := decodeMembers_cons.1 hd
    obtain ⟨hj, hr⟩ := Nat.max_lt.1 hn
    exact decodeMembers_cons.2 ⟨a, as, h.restores hw.1 hj ha, ih hw.2 hr has, rfl⟩

theorem dict (h : c.Lawful n) : c.dict.Lawful n where
  restores {j d} hw hn hd := by
    cases j with
    | obj members =>
      have hm : nestingMembers members < n := Nat.lt_of_succ_lt hn
      -- The names were read from an object in order, so sorting leaves the members in place.
      have hs : Dict.Sorted (d.mapValues c.encode) := by
        rw [Dict.sorted_iff_keys, Dict.keys_mapValues, keys_of_decodeMembers hd,
          ← Dict.sorted_iff_keys]
        exact hw.1
      rw [Codec.dict, Json.sorted_obj hs]
      exact h.decodeMembers_sorted hw.2 hm hd
    | _ => simp [Codec.dict, mismatch] at hd
  present _ _ _ := by simp [Codec.dict]

theorem optional (h : c.Lawful n) : c.optional.Lawful n where
  restores {j o} hw hn hd := by
    by_cases hj : j = .null
    · subst hj
      obtain rfl : none = o := by simpa [Codec.optional] using hd
      rfl
    · rw [decode_optional hj] at hd
      obtain ⟨a, ha, rfl⟩ := map_eq_ok.1 hd
      have hs : (c.encode a).sorted ≠ .null := Json.sorted_ne_null (h.present hj hn ha)
      have hr := h.restores hw hn ha
      change c.optional.decode (c.encode a).sorted = .ok (some a)
      rw [decode_optional hs, hr]
      rfl
  present {j o} hj hn hd := by
    rw [decode_optional hj] at hd
    obtain ⟨a, ha, rfl⟩ := map_eq_ok.1 hd
    exact h.present hj hn ha

end Lawful
end Codec
end PlanWire
