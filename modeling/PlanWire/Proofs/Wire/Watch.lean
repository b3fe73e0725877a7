import PlanWire.Proofs.Json.Paths
import PlanWire.Proofs.Wire.Recursion

/-!
# Watched positions

A codec keeps what stands at the watched positions of a tree when the tree that
it writes, sorted, has the same values there, and has none where the tree that
was read has none. The combinators watch the positions of their parts, each at
its place, and a record watches those of its fields. A field may be left out
only if nothing would stand at its watched positions anyway.
-/

set_option autoImplicit false

namespace PlanWire

open Json (Path WellFormedMembers nestingMembers)

/-- Positions to watch in a tree, and the trees in which they are watched. -/
structure Watch where
  admits : Json → Prop
  position : Path → Prop

namespace Watch

def items (W : Watch) : Watch where
  admits j := ∀ i u, j.select? (.index i) = some u → W.admits u
  position path := ∃ i rest, path = .index i :: rest ∧ W.position rest

def entries (W : Watch) : Watch where
  admits j := ∀ k u, j.select? (.key k) = some u → W.admits u
  position path := ∃ k rest, path = .key k :: rest ∧ W.position rest

def members (slots : String → Option Watch) : Watch where
  admits j := (∀ items, j ≠ .arr items) ∧
    ∀ name W u, slots name = some W → j.select? (.key name) = some u → W.admits u
  position path :=
    ∃ name W rest, path = .key name :: rest ∧ slots name = some W ∧ W.position rest

def Inside (W : Watch) : Prop := ∀ path, W.position path → path ≠ []

structure Within (U W : Watch) : Prop where
  admits : ∀ j, U.admits j → W.admits j
  position : ∀ path, U.position path → W.position path

end Watch

/-- The values at the watched positions are written as they were read. -/
def Codec.Keeps {α : Type} (W : Watch) (n : Nat) (c : Codec α) : Prop :=
  ∀ j a, j.WellFormed → j.nesting < n → W.admits j → c.decode j = .ok a →
    ∀ path, W.position path → (c.encode a).sorted.at? path = j.at? path

namespace Codec

variable {α : Type} {c : Codec α} {U W : Watch} {n : Nat}

theorem keeps_zero (c : Codec α) : c.Keeps W 0 := by
  intro j a _ hn
  cases hn

theorem keeps_of_succ (h : c.Keeps W (n + 1)) : c.Keeps W n := by
  intro j a hw hn
  exact h j a hw (Nat.lt_succ_of_lt hn)

theorem Keeps.within (h : c.Keeps W n) (hu : U.Within W) : c.Keeps U n := by
  intro j a hw hn hadmits hd path hpath
  exact h j a hw hn (hu.admits j hadmits) hd path (hu.position path hpath)

theorem keeps_list (h : c.Keeps W n) : c.list.Keeps W.items (n + 1) := by
  intro j xs hw hn hadmits hd path hpath
  obtain ⟨i, rest, rfl, hrest⟩ := hpath
  cases j with
  | arr items =>
    have hitem : (c.list.encode xs).sorted.select? (.index i) =
        xs[i]?.map fun a => (c.encode a).sorted := by
      rw [Codec.list, Json.select?_sorted_arr, List.getElem?_map, Option.map_map]
      rfl
    rcases getElem?_of_decodeItems hd i with ⟨j, a, hj, ha, hdj⟩ | ⟨hj, ha⟩
    · have hin : (Json.arr items).select? (.index i) = some j := hj
      have hmem := List.mem_of_getElem? hj
      have hwj := (Json.wellFormedItems_iff items).1 hw j hmem
      have hlt : j.nesting < (Json.arr items).nesting :=
        Json.nesting_lt_of_child (Json.child_of_select? hin)
      have hnj : j.nesting < n := Nat.lt_of_lt_of_le hlt (Nat.le_of_lt_succ hn)
      have hkeeps := h j a hwj hnj (hadmits i j hin) hdj rest hrest
      simpa only [Json.at?, hitem, hin, ha, Option.map_some, Option.bind_some] using hkeeps
    · have hin : (Json.arr items).select? (.index i) = none := hj
      simp only [Json.at?, hitem, hin, ha, Option.map_none, Option.bind_none]
  | _ => simp [Codec.list, mismatch] at hd

theorem keeps_dict (h : c.Keeps W n) : c.dict.Keeps W.entries (n + 1) := by
  intro j d hw hn hadmits hd path hpath
  obtain ⟨k, rest, rfl, hrest⟩ := hpath
  cases j with
  | obj members =>
    have hkeys : (Dict.keys (d.mapValues c.encode)).Nodup := by
      rw [Dict.keys_mapValues, keys_of_decodeMembers hd]
      exact Dict.nodup_keys_of_sorted hw.1
    have hentry : (c.dict.encode d).sorted.select? (.key k) =
        (Dict.get? k d).map fun a => (c.encode a).sorted := by
      rw [Codec.dict, Json.select?_sorted_obj hkeys, Dict.get?_mapValues, Option.map_map]
      rfl
    rcases get?_of_decodeMembers hd k with ⟨j, a, hj, ha, hdj⟩ | ⟨hj, ha⟩
    · have hin : (Json.obj members).select? (.key k) = some j := hj
      have hwj := Json.wellFormed_of_get? hw.2 hj
      have hlt : j.nesting < (Json.obj members).nesting :=
        Json.nesting_lt_of_child (Json.child_of_select? hin)
      have hnj : j.nesting < n := Nat.lt_of_lt_of_le hlt (Nat.le_of_lt_succ hn)
      have hkeeps := h j a hwj hnj (hadmits k j hin) hdj rest hrest
      simpa only [Json.at?, hentry, hin, ha, Option.map_some, Option.bind_some] using hkeeps
    · have hin : (Json.obj members).select? (.key k) = none := hj
      simp only [Json.at?, hentry, hin, ha, Option.map_none, Option.bind_none]
  | _ => simp [Codec.dict, mismatch] at hd

theorem keeps_optional (h : c.Keeps W n) : c.optional.Keeps W n := by
  intro j o hw hn hadmits hd path hpath
  by_cases hj : j = .null
  · subst hj
    obtain rfl : none = o := by simpa [Codec.optional] using hd
    rfl
  · rw [decode_optional hj] at hd
    obtain ⟨a, ha, rfl⟩ := map_eq_ok.1 hd
    exact h j a hw hn hadmits ha path hpath

end Codec

namespace Field

variable {α : Type} {W : Watch} {n : Nat} {name : String} {c : Codec α}

def written (f : Field α) (a : α) : Option Json :=
  if f.skip a = true then none else some (f.codec.encode a)

def Keeps (W : Watch) (n : Nat) (f : Field α) : Prop :=
  ∀ members a, WellFormedMembers members → nestingMembers members < n →
    (∀ j, Dict.get? f.name members = some j → W.admits j) → f.read members = .read a →
    ∀ path, W.position path → ((f.written a).map Json.sorted).bind (fun u => u.at? path) =
      (Dict.get? f.name members).bind fun j => j.at? path

theorem Keeps.within {U : Watch} {f : Field α} (h : f.Keeps W n) (hu : U.Within W) :
    f.Keeps U n := by
  intro members a hw hn hadmits hr path hpath
  exact h members a hw hn (fun j hj => hu.admits j (hadmits j hj)) hr path (hu.position path hpath)

/-- A value that is left out, or that is taken for an absent field, must hold
nothing at the watched positions. -/
theorem keeps_of_codec {f : Field α} (h : f.codec.Keeps W n)
    (hollow : ∀ a, f.skip a = true ∨ f.absent = some a → ∀ path, W.position path →
      (f.codec.encode a).sorted.at? path = none) : f.Keeps W n := by
  intro members a hw hn hadmits hr path hpath
  rcases read_eq_read.1 hr with ⟨j, hj, hd⟩ | ⟨hj, ha⟩
  · have hlt : j.nesting < n := Nat.lt_of_le_of_lt (Json.nesting_le_of_get? hj) hn
    have hkeeps := h j a (Json.wellFormed_of_get? hw hj) hlt (hadmits j hj) hd path hpath
    by_cases hs : f.skip a = true
    · have hnone := hollow a (.inl hs) path hpath
      rw [hkeeps] at hnone
      simp [written, hs, hj, hnone]
    · simp [written, hs, hj, hkeeps]
  · have hnone := hollow a (.inr ha) path hpath
    by_cases hs : f.skip a = true
    · simp [written, hs, hj]
    · simp [written, hs, hj, hnone]

theorem keeps_kept : (Field.kept name).Keeps W n := by
  intro members a hw _ _ hr path _
  rcases read_eq_read.1 hr with ⟨j, hj, hd⟩ | ⟨hj, ha⟩
  · cases hd
    have hsorted : j.sorted = j := Json.sorted_of_wellFormed j (Json.wellFormed_of_get? hw hj)
    change ((some j).map Json.sorted).bind _ = _
    rw [hj, Option.map_some, hsorted]
  · cases ha
    rw [hj]
    rfl

theorem keeps_optional (hi : W.Inside) (h : c.Keeps W n) : (Field.optional name c).Keeps W n := by
  apply keeps_of_codec (Codec.keeps_optional h)
  intro o ho path hpath
  have hnone : o = none := by
    rcases ho with hs | ha
    · cases o with
      | none => rfl
      | some a => cases hs
    · cases ha
      rfl
  rw [hnone]
  exact Json.at?_eq_none (fun _ => rfl) (hi path hpath)

theorem keeps_list (h : c.Keeps W n) : (Field.list name c).Keeps W.items n := by
  apply keeps_of_codec (Codec.keeps_of_succ (Codec.keeps_list h))
  rintro xs hx _ ⟨i, rest, rfl, -⟩
  have hnil : xs = [] := by
    rcases hx with hs | ha
    · exact List.isEmpty_iff.1 hs
    · cases ha
      rfl
  rw [hnil]
  rfl

theorem keeps_dict (h : c.Keeps W n) : (Field.dict name c).Keeps W.entries n := by
  apply keeps_of_codec (Codec.keeps_of_succ (Codec.keeps_dict h))
  rintro d hx _ ⟨k, rest, rfl, -⟩
  have hnil : d = [] := by
    rcases hx with hs | ha
    · exact List.isEmpty_iff.1 hs
    · cases ha
      rfl
  rw [hnil]
  rfl

theorem keeps_filled {default : α} (hd : c.encode default = .obj []) (hi : W.Inside)
    (h : c.Keeps W n) : (Field.filled name c default).Keeps W n := by
  apply keeps_of_codec h
  intro a ha path hpath
  have hdefault : a = default := by
    rcases ha with hs | ha
    · cases hs
    · cases ha
      rfl
  have hempty : (Field.filled name c default).codec.encode a = .obj [] := by
    rw [hdefault]
    exact hd
  rw [hempty]
  apply Json.at?_eq_none _ (hi path hpath)
  intro s
  cases s <;> rfl

end Field

namespace Fields

variable {slots : String → Option Watch} {n : Nat}

inductive Keep (slots : String → Option Watch) (n : Nat) : {τ : Type} → Fields τ → Prop
  | nil : Keep slots n .nil
  | cons {α β : Type} {f : Field α} {fs : Fields β}
      (first : ∀ W, slots f.name = some W → f.Keeps W n) (rest : Keep slots n fs) :
      Keep slots n (.cons f fs)

namespace Keep

variable {α β τ : Type} {f : Field α} {fs : Fields β}

theorem unwatched (h : slots f.name = none) (rest : Keep slots n fs) :
    Keep slots n (.cons f fs) := by
  apply cons _ rest
  intro W hW
  rw [h] at hW
  cases hW

theorem watched {W : Watch} (h : slots f.name = some W) (hf : f.Keeps W n)
    (rest : Keep slots n fs) : Keep slots n (.cons f fs) := by
  apply cons _ rest
  intro V hV
  rw [h] at hV
  cases hV
  exact hf

theorem get?_encode {fs : Fields τ} (h : fs.Keep slots n) (hnames : fs.names.Nodup)
    {members : List (String × Json)} {p : τ} (hw : WellFormedMembers members)
    (hn : nestingMembers members < n)
    (hadmits : ∀ name W j, slots name = some W → Dict.get? name members = some j → W.admits j)
    (hr : fs.read members = .read p) {name : String} {W : Watch} (hm : name ∈ fs.names)
    (hW : slots name = some W) {path : Path} (hpath : W.position path) :
    ((Dict.get? name (fs.encode p)).map Json.sorted).bind (fun u => u.at? path) =
      (Dict.get? name members).bind fun j => j.at? path := by
  induction h with
  | nil => cases hm
  | @cons _ _ f fs first _ ih =>
    obtain ⟨a, p⟩ := p
    obtain ⟨hf, hrest⟩ := Outcome.both_eq_read.1 hr
    obtain ⟨hother, hnames⟩ := List.nodup_cons.1 hnames
    by_cases hname : f.name = name
    · subst hname
      have hkeeps := first W hW members a hw hn (hadmits f.name W · hW) hf path hpath
      rw [get?_encode_cons hother]
      exact hkeeps
    · have hm : name ∈ fs.names := by
        rcases List.mem_cons.1 hm with heq | hm
        · exact absurd heq.symm hname
        · exact hm
      rw [get?_encode_cons_of_ne hname]
      exact ih hnames hrest hm

end Keep
end Fields

theorem Record.keeps {α : Type} {r : Record α} {slots : String → Option Watch} {n : Nat}
    (h : r.fields.Keep slots n)
    (hnames : ∀ name W, slots name = some W → name ∈ r.fields.names) :
    r.codec.Keeps (.members slots) (n + 1) := by
  intro j a hw hn hadmits hd path hpath
  obtain ⟨hobject, hadmits⟩ := hadmits
  obtain ⟨name, W, rest, rfl, hW, hrest⟩ := hpath
  cases j with
  | obj members =>
    have hkeys : (Dict.keys (r.fields.encode (r.parts a))).Nodup :=
      (r.fields.keys_encode _).nodup r.distinct
    have hinner := Json.select?_sorted_obj hkeys name
    have hkeeps := h.get?_encode r.distinct hw.2 (Nat.lt_of_succ_lt_succ hn) hadmits
      (ofMembers_eq_ok.1 hd) (hnames name W hW) hW hrest
    change ((Json.obj (r.fields.encode (r.parts a))).sorted.select? (.key name)).bind _ = _
    rw [hinner]
    exact hkeeps
  | arr items => exact absurd rfl (hobject items)
  | _ => simp [codec, Codec.mismatch] at hd

end PlanWire
