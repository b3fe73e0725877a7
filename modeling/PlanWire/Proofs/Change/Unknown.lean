import Mathlib.Data.List.Forall2
import PlanWire.Change.Unknown
import PlanWire.Proofs.Pointer.Tokens

/-!
# Unknown positions of a change

A pointer finds an unknown position when some of its first tokens lead to a true
in the mask. Which tokens lead to an item of an array depends on the way in which
an index may be written, and more tokens do so than those that a pointer has by
its standard. A change has an unknown position exactly when some pointer finds
one, and behind it every pointer does.
-/

set_option autoImplicit false

namespace PlanWire

open Pointer (Names ReadsAs WrittenAs)

namespace Json

theorem isTrue_iff {mask : Json} : mask.isTrue = true ↔ mask = .bool true := by
  cases mask <;> simp [isTrue]

/-- Some first tokens lead to a true in the mask. -/
def Reaches (Index : String → Nat → Prop) (tokens : List String) (mask : Json) : Prop :=
  ∃ way path, way <+: tokens ∧ List.Forall₂ (Names Index) way path ∧
    mask.at? path = some (.bool true)

section Walking

variable {Index : String → Nat → Prop} {mask : Json}

theorem reaches_nil : Reaches Index [] mask ↔ mask = .bool true := by
  constructor
  · rintro ⟨way, path, hway, hpath, htrue⟩
    obtain rfl := List.prefix_nil.1 hway
    cases hpath
    exact Option.some.inj htrue
  · rintro rfl
    exact ⟨[], [], List.prefix_rfl, .nil, rfl⟩

theorem reaches_cons {token : String} {rest : List String} :
    Reaches Index (token :: rest) mask ↔
      mask = .bool true ∨ ∃ s child,
        Names Index token s ∧ mask.select? s = some child ∧ Reaches Index rest child := by
  constructor
  · rintro ⟨way, path, hway, hpath, htrue⟩
    cases hpath with
    | nil => exact .inl (Option.some.inj htrue)
    | @cons first s way path hfirst hrest =>
      obtain ⟨rfl, hbehind⟩ := List.cons_prefix_cons.1 hway
      obtain ⟨child, hchild, hinside⟩ := Option.bind_eq_some_iff.1 htrue
      exact .inr ⟨s, child, hfirst, hchild, way, path, hbehind, hrest, hinside⟩
  · rintro (rfl | ⟨s, child, hs, hchild, way, path, hway, hpath, htrue⟩)
    · exact ⟨[], [], List.nil_prefix, .nil, rfl⟩
    · refine ⟨token :: way, s :: path, List.cons_prefix_cons.2 ⟨rfl, hway⟩, .cons hs hpath, ?_⟩
      rw [at?, hchild]
      exact htrue

theorem Reaches.mono {tokens more : List String} (h : Reaches Index tokens mask)
    (hmore : tokens <+: more) : Reaches Index more mask := by
  obtain ⟨way, path, hway, hpath, htrue⟩ := h
  exact ⟨way, path, hway.trans hmore, hpath, htrue⟩

end Walking

theorem marks_iff_reaches (tokens : List String) (mask : Json) :
    marks tokens mask = true ↔ Reaches ReadsAs tokens mask := by
  induction tokens generalizing mask with
  | nil => rw [marks, isTrue_iff, reaches_nil]
  | cons token rest ih =>
    have hchild : ((Pointer.child? token mask).map (marks rest)).getD false = true ↔
        ∃ child, Pointer.child? token mask = some child ∧ Reaches ReadsAs rest child := by
      cases Pointer.child? token mask with
      | none => simp
      | some child => simp [ih]
    rw [marks, Bool.or_eq_true, isTrue_iff, hchild, reaches_cons]
    simp only [Pointer.child?_eq_some]
    constructor
    · rintro (htrue | ⟨child, ⟨s, hs, hselect⟩, hrest⟩)
      · exact .inl htrue
      · exact .inr ⟨s, child, hs, hselect, hrest⟩
    · rintro (htrue | ⟨s, child, hs, hselect, hrest⟩)
      · exact .inl htrue
      · exact .inr ⟨child, ⟨s, hs, hselect⟩, hrest⟩

section Search

theorem hasTrueItem_iff (items : List Json) :
    hasTrueItem items = true ↔ ∃ j ∈ items, j.hasTrue = true := by
  induction items with
  | nil => simp [hasTrueItem]
  | cons j rest ih => simp [hasTrueItem, ih]

theorem hasTrueMember_eq (members : List (String × Json)) :
    hasTrueMember members = hasTrueItem (members.map (·.2)) := by
  induction members with
  | nil => rfl
  | cons member rest ih => rw [hasTrueMember, ih, List.map_cons, hasTrueItem]

theorem hasTrue_iff_child {j : Json} :
    j.hasTrue = true ↔ j = .bool true ∨ ∃ child ∈ j.children, child.hasTrue = true := by
  cases j with
  | arr items => simp [hasTrue, hasTrueItem_iff, children]
  | obj members =>
    rw [hasTrue, hasTrueMember_eq, hasTrueItem_iff]
    simp only [children, reduceCtorEq, false_or]
  | _ => simp [hasTrue, children]

theorem hasTrue_iff_holds (j : Json) : j.hasTrue = true ↔ ∃ path, Holds j path (.bool true) := by
  constructor
  · intro h
    induction hn : j.nesting using Nat.strongRecOn generalizing j with
    | _ n ih =>
      rcases hasTrue_iff_child.1 h with rfl | ⟨child, hmem, htrue⟩
      · exact ⟨[], .here _⟩
      · obtain ⟨s, hchild⟩ := mem_children_iff.1 hmem
        have hlt : child.nesting < n := hn ▸ nesting_lt_of_child hchild
        obtain ⟨path, hpath⟩ := ih child.nesting hlt child htrue rfl
        exact ⟨s :: path, .inside hchild hpath⟩
  · rintro ⟨path, h⟩
    generalize hu : Json.bool true = u at h
    induction h with
    | here j =>
      rw [← hu]
      rfl
    | inside first _ ih =>
      exact hasTrue_iff_child.2 (.inr ⟨_, mem_children_iff.2 ⟨_, first⟩, ih hu⟩)

def LengthsFit (j : Json) : Prop :=
  ∀ path items, Holds j path (.arr items) → items.length < UInt64.size

theorem lengthsFit_of_children {j : Json}
    (here : ∀ items, j = .arr items → items.length < UInt64.size)
    (inside : ∀ child ∈ j.children, child.LengthsFit) : j.LengthsFit := by
  intro path items h
  cases h with
  | here => exact here items rfl
  | inside first rest => exact inside _ (mem_children_iff.2 ⟨_, first⟩) _ items rest

theorem LengthsFit.of_child {j child : Json} {s : Selector} (h : j.LengthsFit)
    (hc : Child j s child) : child.LengthsFit := fun path items hi =>
  h (s :: path) items (.inside hc hi)

theorem Reaches.reads {tokens : List String} {mask : Json} (hfit : mask.LengthsFit)
    (h : Reaches WrittenAs tokens mask) : Reaches ReadsAs tokens mask := by
  induction tokens generalizing mask with
  | nil => exact reaches_nil.2 (reaches_nil.1 h)
  | cons token rest ih =>
    rcases reaches_cons.1 h with htrue | ⟨s, child, hs, hselect, hrest⟩
    · exact reaches_cons.2 (.inl htrue)
    · have hchild : Child mask s child := child_of_select? hselect
      refine reaches_cons.2 (.inr ⟨s, child, ?_, hselect, ih (hfit.of_child hchild) hrest⟩)
      cases hs with
      | key => exact .key token
      | @index i hi =>
        cases mask with
        | arr items =>
          obtain ⟨hlt, -⟩ := List.getElem?_eq_some_iff.1 hselect
          exact .index (hi.reads (Nat.lt_trans hlt (hfit [] items (.here _))))
        | _ => cases hselect

theorem reaches_ofSelector {mask : Json} {path : Path} (h : mask.at? path = some (.bool true)) :
    Reaches WrittenAs (path.map Pointer.ofSelector) mask := by
  refine ⟨path.map Pointer.ofSelector, path, List.prefix_rfl, ?_, h⟩
  rw [List.forall₂_map_left_iff]
  exact List.forall₂_same.2 fun s _ => Pointer.names_ofSelector s

end Search

end Json

namespace Change

/-- By the standard of pointers, the text points to an unknown position: it is
a pointer, and some of its first tokens lead to a true. -/
def UnknownByStandard (c : Change) (text : String) : Prop :=
  ∃ mask raw, c.afterUnknown = some mask ∧ Pointer.Spells raw text ∧
    mask.Reaches WrittenAs (Pointer.unescaped raw)

theorem isUnknownAt_iff_reaches {c : Change} {text : String} :
    c.isUnknownAt text = true ↔
      ∃ mask, c.afterUnknown = some mask ∧ mask.Reaches ReadsAs (Pointer.tokens text) := by
  cases h : c.afterUnknown with
  | none => simp [isUnknownAt, h]
  | some mask => simp [isUnknownAt, h, Json.marks_iff_reaches]

theorem hasUnknown_iff_holds {c : Change} :
    c.hasUnknown = true ↔
      ∃ mask, c.afterUnknown = some mask ∧ ∃ path, mask.Holds path (.bool true) := by
  cases h : c.afterUnknown with
  | none => simp [hasUnknown, h]
  | some mask => simp [hasUnknown, h, Json.hasTrue_iff_holds]

theorem unknownByStandard_iff {c : Change} {text : String} :
    c.UnknownByStandard text ↔ Pointer.IsPointer text ∧
      ∃ mask, c.afterUnknown = some mask ∧ mask.Reaches WrittenAs (Pointer.tokens text) := by
  rw [← Pointer.exists_spells_iff]
  constructor
  · rintro ⟨mask, raw, hmask, hraw, hreach⟩
    rw [← Pointer.tokens_of_spells hraw] at hreach
    exact ⟨⟨raw, hraw⟩, mask, hmask, hreach⟩
  · rintro ⟨⟨raw, hraw⟩, mask, hmask, hreach⟩
    rw [Pointer.tokens_of_spells hraw] at hreach
    exact ⟨mask, raw, hmask, hraw, hreach⟩

/-- A pointer is looked up by its tokens, of which an index is read like any other
number. A text that is no pointer is taken for the empty one. -/
theorem isUnknownAt_iff (c : Change) (text : String) :
    c.isUnknownAt text = true ↔ ∃ mask, c.afterUnknown = some mask ∧
      ((∃ raw, Pointer.Spells raw text ∧ mask.Reaches ReadsAs (Pointer.unescaped raw)) ∨
        ¬ Pointer.IsPointer text ∧ mask = .bool true) := by
  rw [isUnknownAt_iff_reaches]
  constructor
  · rintro ⟨mask, hmask, hreach⟩
    refine ⟨mask, hmask, ?_⟩
    by_cases htext : Pointer.IsPointer text
    · obtain ⟨raw, hraw⟩ := Pointer.exists_spells_iff.2 htext
      rw [Pointer.tokens_of_spells hraw] at hreach
      exact .inl ⟨raw, hraw, hreach⟩
    · rw [Pointer.tokens_of_not_isPointer htext, Json.reaches_nil] at hreach
      exact .inr ⟨htext, hreach⟩
  · rintro ⟨mask, hmask, ⟨raw, hraw, hreach⟩ | ⟨htext, htrue⟩⟩
    · rw [← Pointer.tokens_of_spells hraw] at hreach
      exact ⟨mask, hmask, hreach⟩
    · refine ⟨mask, hmask, ?_⟩
      rw [Pointer.tokens_of_not_isPointer htext, Json.reaches_nil]
      exact htrue

def creating (mask : Json) : Change :=
  ⟨[.create], none, none, some mask, none, none, none, none, ""⟩

def portsMask : Json := .obj [("ports", .arr [.bool false, .bool true])]

theorem token_of_reaches_portsMask {token : String}
    (h : portsMask.Reaches WrittenAs ["ports", token]) : token = "1" := by
  rcases Json.reaches_cons.1 h with htrue | ⟨s, child, hs, hports, hrest⟩
  · cases htrue
  · cases hs with
    | index _ => cases hports
    | key =>
      obtain rfl : Json.arr [.bool false, .bool true] = child := Option.some.inj hports
      rcases Json.reaches_cons.1 hrest with htrue | ⟨s, port, hs, hport, hnone⟩
      · cases htrue
      · obtain rfl := Json.reaches_nil.1 hnone
        cases hs with
        | key => cases hport
        | @index i hi =>
          match i, hport with
          | 1, _ => exact hi

/-- An index with a zero or a sign in front leads to an item, and a text that is
no pointer leads to the whole. -/
theorem unknown_beyond_standard :
    (creating portsMask).isUnknownAt "/ports/01" = true ∧
      ¬ (creating portsMask).UnknownByStandard "/ports/01" ∧
      (creating portsMask).isUnknownAt "/ports/+1" = true ∧
      ¬ (creating portsMask).UnknownByStandard "/ports/+1" ∧
      (creating (.bool true)).isUnknownAt "ports" = true ∧
      ¬ (creating (.bool true)).UnknownByStandard "ports" := by
  have hport (text token : String) (htokens : Pointer.tokens text = ["ports", token])
      (htoken : token ≠ "1") : ¬ (creating portsMask).UnknownByStandard text := by
    intro h
    obtain ⟨-, mask, hmask, hreach⟩ := unknownByStandard_iff.1 h
    obtain rfl : portsMask = mask := Option.some.inj hmask
    rw [htokens] at hreach
    exact htoken (token_of_reaches_portsMask hreach)
  refine ⟨by decide, hport _ "01" (by decide) (by decide), by decide,
    hport _ "+1" (by decide) (by decide), by decide, ?_⟩
  intro h
  obtain hempty | ⟨rest, hrest⟩ := (unknownByStandard_iff.1 h).1
  · exact absurd hempty (by decide)
  · cases hrest

theorem isUnknownAt_of_unknownByStandard {c : Change} {text : String}
    (hfit : ∀ mask, c.afterUnknown = some mask → mask.LengthsFit) (h : c.UnknownByStandard text) :
    c.isUnknownAt text = true := by
  obtain ⟨-, mask, hmask, hreach⟩ := unknownByStandard_iff.1 h
  exact isUnknownAt_iff_reaches.2 ⟨mask, hmask, hreach.reads (hfit mask hmask)⟩

theorem exists_unknownByStandard {c : Change}
    (hkeys : ∀ mask, c.afterUnknown = some mask → mask.KeysDiffer) (h : c.hasUnknown = true) :
    ∃ pointer, c.UnknownByStandard pointer := by
  obtain ⟨mask, hmask, path, hpath⟩ := hasUnknown_iff_holds.1 h
  have hreach := Json.reaches_ofSelector (Json.at?_of_holds (hkeys mask hmask) hpath)
  refine ⟨Pointer.write (path.map Pointer.ofSelector), ?_⟩
  rw [unknownByStandard_iff, Pointer.tokens_write]
  exact ⟨Pointer.exists_spells_iff.1 ⟨_, Pointer.spells_write _⟩, mask, hmask, hreach⟩

/-- A change has an unknown position exactly when some pointer finds one, and then
every longer pointer does. -/
theorem unknown_queries_agree (c : Change)
    (h : ∀ mask, c.afterUnknown = some mask → mask.KeysDiffer ∧ mask.LengthsFit) :
    (c.hasUnknown = true ↔ ∃ pointer, c.isUnknownAt pointer = true) ∧
      ∀ pointer more, c.isUnknownAt pointer = true →
        c.isUnknownAt (pointer ++ "/" ++ more) = true := by
  refine ⟨⟨?_, ?_⟩, ?_⟩
  · intro hunknown
    obtain ⟨pointer, hpointer⟩ := exists_unknownByStandard (fun m hm => (h m hm).1) hunknown
    exact ⟨pointer, isUnknownAt_of_unknownByStandard (fun m hm => (h m hm).2) hpointer⟩
  · rintro ⟨pointer, hpointer⟩
    obtain ⟨mask, hmask, way, path, -, -, htrue⟩ := isUnknownAt_iff_reaches.1 hpointer
    exact hasUnknown_iff_holds.2 ⟨mask, hmask, path, Json.holds_of_at? htrue⟩
  · intro pointer more hpointer
    obtain ⟨mask, hmask, hreach⟩ := isUnknownAt_iff_reaches.1 hpointer
    exact isUnknownAt_iff_reaches.2
      ⟨mask, hmask, hreach.mono (Pointer.tokens_prefix_append pointer more)⟩

def escapedMask : Json := .obj [("a/b", .arr [.bool false, .obj [("~1", .bool true)]])]

theorem keysDiffer_escapedMask : escapedMask.KeysDiffer := by
  have hbool (b : Bool) : (Json.bool b).KeysDiffer :=
    Json.keysDiffer_of_children (by simp) (by simp [Json.children])
  have hobj : (Json.obj [("~1", .bool true)]).KeysDiffer := by
    apply Json.keysDiffer_of_children
    · rintro members ⟨⟩
      decide
    · simp [Json.children, hbool]
  have harr : (Json.arr [.bool false, .obj [("~1", .bool true)]]).KeysDiffer :=
    Json.keysDiffer_of_children (by simp) (by simp [Json.children, hbool, hobj])
  apply Json.keysDiffer_of_children
  · rintro members ⟨⟩
    decide
  · simp [escapedMask, Json.children, harr]

theorem lengthsFit_escapedMask : escapedMask.LengthsFit := by
  have hbool (b : Bool) : (Json.bool b).LengthsFit :=
    Json.lengthsFit_of_children (by simp) (by simp [Json.children])
  have hobj : (Json.obj [("~1", .bool true)]).LengthsFit :=
    Json.lengthsFit_of_children (by simp) (by simp [Json.children, hbool])
  have harr : (Json.arr [.bool false, .obj [("~1", .bool true)]]).LengthsFit := by
    apply Json.lengthsFit_of_children
    · rintro items ⟨⟩
      decide
    · simp [Json.children, hbool, hobj]
  exact Json.lengthsFit_of_children (by simp [escapedMask])
    (by simp [escapedMask, Json.children, harr])

theorem unknown_queries_agree_escaped :
    (∀ mask, (creating escapedMask).afterUnknown = some mask →
        mask.KeysDiffer ∧ mask.LengthsFit) ∧
      ((creating escapedMask).hasUnknown = true ↔
        ∃ pointer, (creating escapedMask).isUnknownAt pointer = true) ∧
      (creating escapedMask).isUnknownAt "/a~1b/1/~01" = true ∧
      (creating escapedMask).isUnknownAt ("/a~1b/1/~01" ++ "/" ++ "x/y") = true := by
  have hmask : ∀ mask, (creating escapedMask).afterUnknown = some mask →
      mask.KeysDiffer ∧ mask.LengthsFit := by
    rintro mask ⟨⟩
    exact ⟨keysDiffer_escapedMask, lengthsFit_escapedMask⟩
  obtain ⟨hagree, hbelow⟩ := unknown_queries_agree (creating escapedMask) hmask
  have hpointer : (creating escapedMask).isUnknownAt "/a~1b/1/~01" = true := by decide
  exact ⟨hmask, hagree, hpointer, hbelow _ "x/y" hpointer⟩

end Change
end PlanWire
