import PlanWire.Proofs.Wire.Laws

/-!
# Lawful records

What a record reads, by name or by position, it reads again from the object
that is written for it. Fields that are left out come back as absent, and
sorting the keys moves no field under another name.
-/

set_option autoImplicit false

namespace PlanWire

open Json (WellFormedItems WellFormedMembers nestingItems nestingMembers sortedMembers)

namespace Field

variable {α : Type} {n : Nat}

theorem read_eq_read {f : Field α} {members : List (String × Json)} {a : α} :
    f.read members = .read a ↔
      (∃ j, Dict.get? f.name members = some j ∧ f.codec.decode j = .ok a) ∨
        Dict.get? f.name members = none ∧ f.absent = some a := by
  cases hj : Dict.get? f.name members with
  | none => cases ha : f.absent <;> simp [Field.read, hj, ha]
  | some j => cases hd : f.codec.decode j <;> simp [Field.read, hj, hd]

def sorting (f : Field α) : Field α := { f with codec := f.codec.sorting }

structure Lawful (n : Nat) (f : Field α) : Prop where
  codec : f.codec.Lawful n
  skipped : ∀ {a : α}, f.skip a = true → f.absent = some a
  written : ∀ {a : α}, f.absent = some a → f.skip a = false →
    f.codec.decode (f.codec.encode a).sorted = .ok a

namespace Lawful

variable {f : Field α} {a : α}

theorem restores_of_decode (h : f.Lawful n) {j : Json} (hw : j.WellFormed) (hn : j.nesting < n)
    (hd : f.codec.decode j = .ok a) : f.sorting.Restores a :=
  ⟨h.skipped, fun _ => h.codec.restores hw hn hd⟩

theorem restores_of_absent (h : f.Lawful n) (ha : f.absent = some a) : f.sorting.Restores a :=
  ⟨h.skipped, h.written ha⟩

theorem restores_of_read (h : f.Lawful n) {members : List (String × Json)}
    (hw : WellFormedMembers members) (hn : nestingMembers members < n)
    (hr : f.read members = .read a) : f.sorting.Restores a := by
  rcases read_eq_read.1 hr with ⟨j, hj, hd⟩ | ⟨-, ha⟩
  · have hjn : j.nesting < n := Nat.lt_of_le_of_lt (Json.nesting_le_of_get? hj) hn
    exact h.restores_of_decode (Json.wellFormed_of_get? hw hj) hjn hd
  · exact h.restores_of_absent ha

end Lawful
end Field

theorem Outcome.both_eq_read {α β : Type} {o : Outcome α} {p : Outcome β} {ab : α × β} :
    o.both p = .read ab ↔ o = .read ab.1 ∧ p = .read ab.2 := by
  obtain ⟨a, b⟩ := ab
  cases o <;> cases p <;> simp [both]
  split <;> simp

theorem Field.exists_read {α : Type} {f : Field α} (hf : f.absent.isSome = true)
    {members : List (String × Json)} :
    (∃ a, f.read members = .read a) ↔
      ∀ j, Dict.get? f.name members = some j → ∃ a, f.codec.decode j = .ok a := by
  obtain ⟨default, hd⟩ := Option.isSome_iff_exists.1 hf
  cases hj : Dict.get? f.name members with
  | none => simp [Field.read, hj, hd]
  | some j => cases ha : f.codec.decode j <;> simp [Field.read, hj, ha]

theorem Outcome.toExcept_eq_ok {α : Type} {o : Outcome α} {a : α} :
    o.toExcept = .ok a ↔ o = .read a := by
  cases o <;> simp [toExcept]

namespace Fields

inductive Lawful (n : Nat) : {τ : Type} → Fields τ → Prop
  | nil : Lawful n .nil
  | cons {α β : Type} {f : Field α} {fs : Fields β} (first : f.Lawful n) (rest : fs.Lawful n) :
      Lawful n (.cons f fs)

def sorting : {τ : Type} → Fields τ → Fields τ
  | _, .nil => .nil
  | _, .cons f fs => .cons f.sorting fs.sorting

theorem names_sorting {τ : Type} (fs : Fields τ) : fs.sorting.names = fs.names := by
  induction fs with
  | nil => rfl
  | cons f fs ih => exact congrArg (f.name :: ·) ih

theorem read_sorting {τ : Type} (fs : Fields τ) (members : List (String × Json)) :
    fs.sorting.read members = fs.read members := by
  induction fs with
  | nil => rfl
  | cons f fs ih => exact congrArg (f.read members).both ih

theorem encode_sorting {τ : Type} (fs : Fields τ) (p : τ) :
    fs.sorting.encode p = sortedMembers (fs.encode p) := by
  induction fs with
  | nil => rfl
  | cons f fs ih =>
    obtain ⟨a, rest⟩ := p
    by_cases hs : f.skip a = true
    · simp [sorting, encode, Field.sorting, hs, ih]
    · simp [sorting, encode, Field.sorting, hs, ih, sortedMembers, Codec.sorting]

theorem exists_read_cons {α β : Type} {f : Field α} {fs : Fields β}
    {members : List (String × Json)} :
    (∃ p, (Fields.cons f fs).read members = .read p) ↔
      (∃ a, f.read members = .read a) ∧ ∃ p, fs.read members = .read p := by
  constructor
  · rintro ⟨p, h⟩
    obtain ⟨ha, hp⟩ := Outcome.both_eq_read.1 h
    exact ⟨⟨p.1, ha⟩, p.2, hp⟩
  · rintro ⟨⟨a, ha⟩, p, hp⟩
    exact ⟨(a, p), Outcome.both_eq_read.2 ⟨ha, hp⟩⟩

/-- Only what is found under the names of the fields counts. -/
theorem read_congr {τ : Type} (fs : Fields τ) {members others : List (String × Json)}
    (h : ∀ name ∈ fs.names, Dict.get? name members = Dict.get? name others) :
    fs.read members = fs.read others := by
  induction fs with
  | nil => rfl
  | cons f fs ih =>
    obtain ⟨hf, hr⟩ := List.forall_mem_cons.1 h
    simp only [read, Field.read, hf, ih hr]

theorem keys_encode {τ : Type} (fs : Fields τ) (p : τ) :
    (Dict.keys (fs.encode p)).Sublist fs.names := by
  induction fs with
  | nil => exact .slnil
  | cons f fs ih =>
    obtain ⟨a, rest⟩ := p
    by_cases hs : f.skip a = true
    · simpa [encode, names, hs] using (ih rest).cons f.name
    · simpa [encode, names, hs, Dict.keys] using (ih rest).cons_cons f.name

theorem mem_encode_cons {α β : Type} {f : Field α} {fs : Fields β} {a : α} {p : β}
    {member : String × Json} (h : member ∈ (Fields.cons f fs).encode (a, p)) :
    (¬ f.skip a = true ∧ member = (f.name, f.codec.encode a)) ∨ member ∈ fs.encode p := by
  by_cases hs : f.skip a = true
  · right
    simpa [encode, hs] using h
  · simpa [encode, hs] using h

theorem get?_encode_cons {α β : Type} {f : Field α} {fs : Fields β} (hm : f.name ∉ fs.names)
    (a : α) (p : β) : Dict.get? f.name ((Fields.cons f fs).encode (a, p)) =
      if f.skip a = true then none else some (f.codec.encode a) := by
  by_cases hs : f.skip a = true
  · simp only [encode, hs, if_true, fs.get?_encode_of_not_mem p hm]
  · simp only [encode, hs, if_false, Bool.false_eq_true, Dict.get?, if_true]

theorem get?_encode_cons_of_ne {α β : Type} {f : Field α} {fs : Fields β} {name : String}
    (hn : f.name ≠ name) (a : α) (p : β) :
    Dict.get? name ((Fields.cons f fs).encode (a, p)) = Dict.get? name (fs.encode p) := by
  by_cases hs : f.skip a = true
  · simp only [encode, hs, if_true]
  · simp only [encode, hs, if_false, Bool.false_eq_true, Dict.get?, hn]

theorem read_sorted_encode {τ : Type} (fs : Fields τ) (p : τ) (hn : fs.names.Nodup)
    (hp : fs.sorting.Restores p) :
    fs.read (Dict.ofList (sortedMembers (fs.encode p))) = .read p := by
  have hk : (Dict.keys (fs.encode p)).Nodup := (fs.keys_encode p).nodup hn
  calc fs.read (Dict.ofList (sortedMembers (fs.encode p)))
      = fs.read (sortedMembers (fs.encode p)) := fs.read_congr fun name _ => Json.get?_sorted hk name
    _ = fs.sorting.read (fs.sorting.encode p) := by rw [read_sorting, encode_sorting]
    _ = .read p := fs.sorting.read_encode p (by rwa [names_sorting]) hp

namespace Lawful

variable {n : Nat} {τ : Type} {fs : Fields τ}

theorem restores_of_read (h : fs.Lawful n) {members : List (String × Json)} {p : τ}
    (hw : WellFormedMembers members) (hn : nestingMembers members < n)
    (hr : fs.read members = .read p) : fs.sorting.Restores p := by
  induction h with
  | nil => trivial
  | cons first _ ih =>
    obtain ⟨hf, hrest⟩ := Outcome.both_eq_read.1 hr
    exact ⟨first.restores_of_read hw hn hf, ih hrest⟩

theorem restores_of_take (h : fs.Lawful n) {expected : String} {index : Nat}
    {items left : List Json} {p : τ} (hw : WellFormedItems items) (hn : nestingItems items < n)
    (ht : fs.take expected index items = .ok (p, left)) : fs.sorting.Restores p := by
  induction h generalizing index items with
  | nil => trivial
  | @cons _ _ f fs first _ ih =>
    cases items with
    | nil =>
      cases ha : f.absent with
      | none => simp [take, ha] at ht
      | some a =>
        simp only [take, ha, bind_eq_ok] at ht
        obtain ⟨⟨rest, items⟩, hrest, ht⟩ := ht
        cases ht
        exact ⟨first.restores_of_absent ha, ih hw hn hrest⟩
    | cons j items =>
      obtain ⟨hj, hi⟩ := Nat.max_lt.1 hn
      simp only [take, bind_eq_ok] at ht
      obtain ⟨a, hd, ⟨rest, items⟩, hrest, ht⟩ := ht
      cases ht
      exact ⟨first.restores_of_decode hw.1 hj hd, ih hw.2 hi hrest⟩

end Lawful
end Fields

namespace Record

variable {α : Type} {n : Nat} {r : Record α}

theorem ofMembers_eq_ok {members : List (String × Json)} {a : α} :
    r.ofMembers members = .ok a ↔ r.fields.read members = .read (r.parts a) := by
  rw [ofMembers, map_eq_ok]
  constructor
  · rintro ⟨p, hp, rfl⟩
    rw [r.parts_make]
    exact Outcome.toExcept_eq_ok.1 hp
  · intro h
    exact ⟨r.parts a, Outcome.toExcept_eq_ok.2 h, r.make_parts a⟩

theorem restores_of_ofItems (h : r.fields.Lawful n) {items : List Json} {a : α}
    (hw : WellFormedItems items) (hn : nestingItems items < n) (hi : r.ofItems items = .ok a) :
    r.fields.sorting.Restores (r.parts a) := by
  rw [ofItems, bind_eq_ok] at hi
  obtain ⟨⟨p, left⟩, ht, hi⟩ := hi
  cases left with
  | nil =>
    cases hi
    rw [r.parts_make]
    exact h.restores_of_take hw hn ht
  | cons j left => cases hi

theorem ofMembers_sorted_encode {a : α} (ha : r.fields.sorting.Restores (r.parts a)) :
    r.ofMembers (Dict.ofList (sortedMembers (r.fields.encode (r.parts a)))) = .ok a :=
  ofMembers_eq_ok.2 (r.fields.read_sorted_encode _ r.distinct ha)

/-- A record has one level more than its fields. -/
theorem lawful_succ (h : r.fields.Lawful n) : r.codec.Lawful (n + 1) where
  restores {j a} hw hn hd := by
    have ha : r.fields.sorting.Restores (r.parts a) := by
      cases j with
      | obj members =>
        exact h.restores_of_read hw.2 (Nat.lt_of_succ_lt_succ hn) (ofMembers_eq_ok.1 hd)
      | arr items => exact restores_of_ofItems h hw (Nat.lt_of_succ_lt_succ hn) hd
      | _ => simp [codec, Codec.mismatch] at hd
    exact ofMembers_sorted_encode ha
  present _ _ _ := by simp [codec]

end Record
end PlanWire
