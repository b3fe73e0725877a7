import PlanWire.Proofs.Json.Paths
import PlanWire.Redact.Value

/-!
# Positions in a redacted value

Value and mask are walked along a path together, and a step is possible only
where both have the next node. The shortest prefix of a path that ends at a true
mask decides what stands there after the redaction; a path without such a prefix
leads to a node of the same form as before, and no other paths lead anywhere.
-/

set_option autoImplicit false

namespace PlanWire

namespace Json

inductive SameNode : Json → Json → Prop
  | null : SameNode .null .null
  | bool (b : Bool) : SameNode (.bool b) (.bool b)
  | num (n : Number) : SameNode (.num n) (.num n)
  | str (s : String) : SameNode (.str s) (.str s)
  | arr {items others : List Json} (length : items.length = others.length) :
      SameNode (.arr items) (.arr others)
  | obj {members others : List (String × Json)} (keys : Dict.keys members = Dict.keys others) :
      SameNode (.obj members) (.obj others)

theorem SameNode.refl (j : Json) : SameNode j j := by
  cases j with
  | null => exact .null
  | bool b => exact .bool b
  | num n => exact .num n
  | str s => exact .str s
  | arr items => exact .arr rfl
  | obj members => exact .obj rfl

end Json

namespace Redact

open Json

/-- The mask over a node, where the walk gets that far in both trees. -/
def maskAt? : Json → Json → Path → Option Json
  | _, mask, [] => some mask
  | j, mask, s :: path =>
    match j.select? s, mask.select? s with
    | some child, some inner => maskAt? child inner path
    | _, _ => none

def Marked (j mask : Json) (path : Path) : Prop := maskAt? j mask path = some (.bool true)

def Unmarked (j mask : Json) (path : Path) : Prop := ∀ q, q <+: path → ¬ Marked j mask q

/-- The node is marked and no node above it is. -/
structure FirstMark (j mask : Json) (path : Path) : Prop where
  marked : Marked j mask path
  first : ∀ q, q <+: path → Marked j mask q → q = path

theorem marked_nil {j mask : Json} : Marked j mask [] ↔ mask = .bool true := by
  simp [Marked, maskAt?]

theorem marked_cons {j mask : Json} {s : Selector} {path : Path} :
    Marked j mask (s :: path) ↔
      ∃ child inner, j.select? s = some child ∧ mask.select? s = some inner ∧
        Marked child inner path := by
  simp only [Marked, maskAt?]
  cases j.select? s <;> cases mask.select? s <;> simp

theorem Unmarked.mask_ne {j mask : Json} {path : Path} (h : Unmarked j mask path) :
    mask ≠ .bool true := fun hm => h [] List.nil_prefix (marked_nil.2 hm)

theorem Unmarked.child {j mask child inner : Json} {s : Selector} {path : Path}
    (h : Unmarked j mask (s :: path)) (hj : j.select? s = some child)
    (hm : mask.select? s = some inner) : Unmarked child inner path := fun q hq hmark =>
  h (s :: q) (List.cons_prefix_cons.2 ⟨rfl, hq⟩) (marked_cons.2 ⟨child, inner, hj, hm, hmark⟩)

theorem FirstMark.child {j mask : Json} {s : Selector} {path : Path}
    (h : FirstMark j mask (s :: path)) :
    mask ≠ .bool true ∧ ∃ child inner, j.select? s = some child ∧
      mask.select? s = some inner ∧ FirstMark child inner path := by
  obtain ⟨child, inner, hj, hm, hmark⟩ := marked_cons.1 h.marked
  refine ⟨fun ht => ?_, child, inner, hj, hm, hmark, fun q hq hmark => ?_⟩
  · exact List.cons_ne_nil s path (h.first [] List.nil_prefix (marked_nil.2 ht)).symm
  · have hs := h.first (s :: q) (List.cons_prefix_cons.2 ⟨rfl, hq⟩)
      (marked_cons.2 ⟨child, inner, hj, hm, hmark⟩)
    exact (List.cons.inj hs).2

theorem firstMark_of_marked {j mask : Json} {path : Path} (h : Marked j mask path) :
    ∃ q, q <+: path ∧ FirstMark j mask q := by
  induction path generalizing j mask with
  | nil => exact ⟨[], List.nil_prefix, h, fun q hq _ => List.prefix_nil.1 hq⟩
  | cons s path ih =>
    by_cases ht : mask = .bool true
    · exact ⟨[], List.nil_prefix, marked_nil.2 ht, fun q hq _ => List.prefix_nil.1 hq⟩
    obtain ⟨child, inner, hj, hm, hmark⟩ := marked_cons.1 h
    obtain ⟨q, hq, hfirst⟩ := ih hmark
    refine ⟨s :: q, List.cons_prefix_cons.2 ⟨rfl, hq⟩,
      marked_cons.2 ⟨child, inner, hj, hm, hfirst.marked⟩, fun p hp hpm => ?_⟩
    cases p with
    | nil => exact absurd (marked_nil.1 hpm) ht
    | cons t p =>
      obtain ⟨rfl, hpq⟩ := List.cons_prefix_cons.1 hp
      obtain ⟨c, i, hc, hi, hpm⟩ := marked_cons.1 hpm
      obtain rfl : child = c := Option.some.inj (hj.symm.trans hc)
      obtain rfl : inner = i := Option.some.inj (hm.symm.trans hi)
      rw [hfirst.first p hpq hpm]

/-- What stands in a container after the redaction, when its own mask is not
true: the value that stood there, redacted if the mask has a node for it. -/
def below (f : Sanitizer) (j : Json) : Option Json → Json
  | some mask => value f j mask
  | none => j

theorem getElem?_valueItems (f : Sanitizer) (items masks : List Json) (i : Nat) :
    (valueItems f items masks)[i]? = items[i]?.map fun j => below f j masks[i]? := by
  induction items generalizing masks i with
  | nil => cases masks <;> simp [valueItems]
  | cons j rest ih =>
    cases masks with
    | nil => simp [valueItems, below]
    | cons mask masks => cases i <;> simp [valueItems, below, ih]

theorem get?_valueMembers (f : Sanitizer) (members masks : List (String × Json)) (key : String) :
    Dict.get? key (valueMembers f members masks) =
      (Dict.get? key members).map fun j => below f j (Dict.get? key masks) := by
  induction members with
  | nil => rfl
  | cons entry rest ih =>
    obtain ⟨k, j⟩ := entry
    by_cases hk : k = key
    · subst hk
      cases h : Dict.get? k masks <;> simp [valueMembers, Dict.get?, below, h]
    · simp [valueMembers, Dict.get?, hk, ih]

theorem length_valueItems (f : Sanitizer) (items masks : List Json) :
    (valueItems f items masks).length = items.length := by
  induction items generalizing masks with
  | nil => cases masks <;> rfl
  | cons j rest ih => cases masks <;> simp [valueItems, ih]

theorem keys_valueMembers (f : Sanitizer) (members masks : List (String × Json)) :
    Dict.keys (valueMembers f members masks) = Dict.keys members := by
  induction members with
  | nil => rfl
  | cons entry rest ih => simpa [valueMembers, Dict.keys] using ih

theorem sameNode_value (f : Sanitizer) {j mask : Json} (h : mask ≠ .bool true) :
    SameNode j (value f j mask) := by
  fun_cases value f j mask with
  | case1 => exact absurd rfl h
  | case2 items masks => exact .arr (length_valueItems f items masks).symm
  | case3 members masks => exact .obj (keys_valueMembers f members masks).symm
  | case4 => exact .refl j

theorem select?_value (f : Sanitizer) {j mask : Json} (h : mask ≠ .bool true) (s : Selector) :
    (value f j mask).select? s = (j.select? s).map fun child => below f child (mask.select? s) := by
  fun_cases value f j mask with
  | case1 => exact absurd rfl h
  | case2 items masks =>
    cases s with
    | key name => rfl
    | index i => exact getElem?_valueItems f items masks i
  | case3 members masks =>
    cases s with
    | key name => exact get?_valueMembers f members masks name
    | index i => rfl
  | case4 j mask ht ha ho =>
    have hnone (child : Json) (hc : j.select? s = some child) : mask.select? s = none := by
      cases j <;> cases mask <;> cases s <;> simp_all [select?]
    cases hj : j.select? s with
    | none => rfl
    | some child => simp [hnone child hj, below]

theorem at?_value_of_unmarked (f : Sanitizer) {j mask : Json} {path : Path}
    (h : Unmarked j mask path) :
    Option.Rel SameNode (j.at? path) ((value f j mask).at? path) := by
  induction path generalizing j mask with
  | nil => exact .some (sameNode_value f h.mask_ne)
  | cons s path ih =>
    simp only [at?, select?_value f h.mask_ne]
    cases hj : j.select? s with
    | none => exact .none
    | some child =>
      cases hm : mask.select? s with
      | some inner => exact ih (h.child hj hm)
      | none =>
        show Option.Rel SameNode (child.at? path) (child.at? path)
        cases child.at? path with
        | none => exact .none
        | some u => exact .some (.refl u)

theorem at?_value_of_firstMark (f : Sanitizer) {j mask : Json} {path : Path}
    (h : FirstMark j mask path) :
    ∃ u, j.at? path = some u ∧ (value f j mask).at? path = some (f u) := by
  induction path generalizing j mask with
  | nil =>
    obtain rfl := marked_nil.1 h.marked
    exact ⟨j, rfl, by simp [at?, value]⟩
  | cons s path ih =>
    obtain ⟨hne, child, inner, hj, hm, hfirst⟩ := h.child
    simpa [at?, select?_value f hne, hj, hm, below] using ih hfirst

/-- What a redaction does, position by position. Every path of the value either
meets a mark, and then the value at the first mark is what the sanitizer makes
of the value that stood there, or it leads to the same node as before. The
redacted value has no other paths: each either goes on inside a replacement or
was there before. -/
theorem value_positions (f : Sanitizer) (j mask : Json) :
    (∀ path u, j.at? path = some u →
      (∀ q, q <+: path → Marked j mask q → ∃ p v, p <+: q ∧ FirstMark j mask p ∧
        j.at? p = some v ∧ (value f j mask).at? p = some (f v)) ∧
      (Unmarked j mask path → ∃ w, (value f j mask).at? path = some w ∧ SameNode u w)) ∧
    (∀ path w, (value f j mask).at? path = some w →
      (∃ p rest v, path = p ++ rest ∧ FirstMark j mask p ∧
        j.at? p = some v ∧ (f v).at? rest = some w) ∨
      (Unmarked j mask path ∧ ∃ u, j.at? path = some u ∧ SameNode u w)) := by
  refine ⟨fun path u hu => ⟨fun q _ hq => ?_, fun hun => ?_⟩, fun path w hw => ?_⟩
  · obtain ⟨p, hp, hfirst⟩ := firstMark_of_marked hq
    obtain ⟨v, hv, hr⟩ := at?_value_of_firstMark f hfirst
    exact ⟨p, v, hp, hfirst, hv, hr⟩
  · have hrel := at?_value_of_unmarked f hun
    rw [hu] at hrel
    generalize (value f j mask).at? path = after at hrel
    cases hrel with
    | some hsame => exact ⟨_, rfl, hsame⟩
  · by_cases hmark : ∃ q, q <+: path ∧ Marked j mask q
    · obtain ⟨q, hq, hmark⟩ := hmark
      obtain ⟨p, hp, hfirst⟩ := firstMark_of_marked hmark
      obtain ⟨rest, rfl⟩ := hp.trans hq
      obtain ⟨v, hv, hr⟩ := at?_value_of_firstMark f hfirst
      rw [at?_append, hr] at hw
      exact .inl ⟨p, rest, v, rfl, hfirst, hv, hw⟩
    · have hun : Unmarked j mask path := fun q hq hm => hmark ⟨q, hq, hm⟩
      have hrel := at?_value_of_unmarked f hun
      rw [hw] at hrel
      generalize hu : j.at? path = before at hrel
      cases hrel with
      | some hsame => exact .inr ⟨hun, _, rfl, hsame⟩

end Redact
end PlanWire
