import PlanWire.Expression
import PlanWire.Proofs.Wire.Watch

/-!
# The parts of a plan

Under each of its keys a part has a value that is kept as it is, or one part, or
a list or dictionary of parts. A path through the parts may go down any number of
modules and of nested blocks before it ends at a kept value.
-/

set_option autoImplicit false

namespace PlanWire

open Json (Path)

namespace Plan

/-- The parts of a plan that hold kept values or lead to them. -/
inductive Part where
  | plan
  | input
  | values
  | output
  | resourceChange
  | change
  | state
  | config
  | provider
  | module
  | moduleOutput
  | declaration
  | resource
  | provisioner
  | call
  | expression
  deriving DecidableEq

inductive Slot where
  | kept
  | one (part : Part)
  | list (part : Part)
  | dict (part : Part)

namespace Part

/-- The fields of a part that are kept or hold parts. All others are left out. -/
def slots : Part → Dict Slot
  | plan => [
      ("variables", .dict input),
      ("planned_values", .one values),
      ("resource_drift", .list resourceChange),
      ("resource_changes", .list resourceChange),
      ("output_changes", .dict change),
      ("prior_state", .one state),
      ("configuration", .one config)]
  | input => [("value", .kept)]
  | values => [("outputs", .dict output)]
  | output => [("value", .kept)]
  | resourceChange => [("change", .one change)]
  | change => [
      ("before", .kept),
      ("after", .kept),
      ("after_unknown", .kept),
      ("before_sensitive", .kept),
      ("after_sensitive", .kept)]
  | state => [("values", .one values)]
  | config => [("provider_config", .dict provider), ("root_module", .one module)]
  | provider => [("expressions", .dict expression)]
  | module => [
      ("outputs", .dict moduleOutput),
      ("resources", .list resource),
      ("module_calls", .dict call),
      ("variables", .dict declaration)]
  | moduleOutput => [("expression", .one expression)]
  | declaration => [("default", .kept)]
  | resource => [
      ("provisioners", .list provisioner),
      ("expressions", .dict expression),
      ("count_expression", .one expression),
      ("for_each_expression", .one expression)]
  | provisioner => [("expressions", .dict expression)]
  | call => [
      ("expressions", .dict expression),
      ("count_expression", .one expression),
      ("for_each_expression", .one expression),
      ("module", .one module)]
  | expression => [("constant_value", .kept)]

def slot? (q : Part) (name : String) : Option Slot := Dict.get? name q.slots

/-- The tree of a part tells its fields by name. An array does not, except that
an expression may be an array of blocks. -/
def Named : Part → Json → Prop
  | expression, .arr items => items.all Json.isObject = true
  | _, .arr _ => False
  | _, _ => True

end Part

namespace Slot

inductive Leads : Slot → Path → Slot → Prop
  | here (s : Slot) : Leads s [] s
  | field {q : Part} {name : String} {s t : Slot} {path : Path} (first : q.slot? name = some s)
      (rest : Leads s path t) : Leads (.one q) (.key name :: path) t
  | item {q : Part} {t : Slot} {path : Path} (i : Nat) (rest : Leads (.one q) path t) :
      Leads (.list q) (.index i :: path) t
  | entry {q : Part} {t : Slot} {path : Path} (k : String) (rest : Leads (.one q) path t) :
      Leads (.dict q) (.key k :: path) t
  | block {t : Slot} {path : Path} (i : Nat) (k : String)
      (rest : Leads (.one .expression) path t) :
      Leads (.one .expression) (.index i :: .key k :: path) t

def Named (s : Slot) (j : Json) : Prop :=
  ∀ path q u, s.Leads path (.one q) → j.at? path = some u → q.Named u

def watch (s : Slot) : Watch where
  admits := s.Named
  position path := s.Leads path .kept

theorem named_of_leads (path : Path) {s t : Slot} {j u : Json} (h : s.Named j)
    (hu : j.at? path = some u)
    (hpath : ∀ rest q, t.Leads rest (.one q) → s.Leads (path ++ rest) (.one q)) : t.Named u := by
  intro rest q w hrest hw
  apply h (path ++ rest) q w (hpath rest q hrest)
  rw [Json.at?_append, hu]
  exact hw

theorem within_items (q : Part) : (Slot.list q).watch.Within (Slot.one q).watch.items where
  admits j h i u hu := by
    apply named_of_leads [.index i] h
    · simp [Json.at?, hu]
    · intro rest r hrest
      exact .item i hrest
  position path h := by
    cases h with
    | item i hrest => exact ⟨i, _, rfl, hrest⟩

theorem within_entries (q : Part) : (Slot.dict q).watch.Within (Slot.one q).watch.entries where
  admits j h k u hu := by
    apply named_of_leads [.key k] h
    · simp [Json.at?, hu]
    · intro rest r hrest
      exact .entry k hrest
  position path h := by
    cases h with
    | entry k hrest => exact ⟨k, _, rfl, hrest⟩

/-! A tree is named if its parts are, level by level. -/

theorem named_kept (j : Json) : Slot.kept.Named j := by
  intro path q u hpath
  cases hpath

theorem named_obj {q : Part} {members : List (String × Json)}
    (h : ∀ slot ∈ q.slots, ∀ u, Dict.get? slot.1 members = some u → slot.2.Named u) :
    (Slot.one q).Named (.obj members) := by
  intro path r u hpath hu
  cases hpath with
  | here =>
    cases hu
    cases q <;> trivial
  | @field _ name s _ rest hs hrest =>
    obtain ⟨child, hchild, hu⟩ := Option.bind_eq_some_iff.1 hu
    exact h (name, s) (Dict.mem_of_get? hs) child hchild rest r u hrest hu
  | block => cases hu

theorem named_dict {q : Part} {members : List (String × Json)}
    (h : ∀ member ∈ members, (Slot.one q).Named member.2) : (Slot.dict q).Named (.obj members) := by
  intro path r u hpath hu
  cases hpath with
  | @entry _ _ rest k hrest =>
    obtain ⟨child, hchild, hu⟩ := Option.bind_eq_some_iff.1 hu
    exact h (k, child) (Dict.mem_of_get? hchild) rest r u hrest hu

theorem named_blocks {items : List Json} (hi : items.all Json.isObject = true)
    (h : ∀ item ∈ items, (Slot.dict .expression).Named item) :
    (Slot.one .expression).Named (.arr items) := by
  intro path r u hpath hu
  cases hpath with
  | here =>
    cases hu
    exact hi
  | field => cases hu
  | @block _ rest i k hrest =>
    obtain ⟨item, hitem, hu⟩ := Option.bind_eq_some_iff.1 hu
    exact h item (List.mem_of_getElem? hitem) (.key k :: rest) r u (.entry k hrest) hu

end Slot

namespace Part

def watch? (q : Part) (name : String) : Option Watch := (q.slot? name).map Slot.watch

variable {q : Part}

theorem not_arr_of_named (hq : q ≠ .expression) {j : Json} (h : q.Named j) (items : List Json) :
    j ≠ .arr items := by
  rintro rfl
  cases q with
  | expression => exact hq rfl
  | _ => exact h

theorem admits_members {j : Json} (h : (Slot.one q).Named j) (hj : ∀ items, j ≠ .arr items) :
    (Watch.members q.watch?).admits j := by
  apply And.intro hj
  intro name W u hW hu
  obtain ⟨s, hs, rfl⟩ := Option.map_eq_some_iff.1 hW
  apply Slot.named_of_leads [.key name] h
  · simp [Json.at?, hu]
  · intro rest r hrest
    exact .field hs hrest

theorem position_members {name : String} {s : Slot} {rest : Path} (hs : q.slot? name = some s)
    (hrest : s.Leads rest .kept) : (Watch.members q.watch?).position (.key name :: rest) :=
  ⟨name, s.watch, rest, rfl, by simp [watch?, hs], hrest⟩

theorem within_members (hq : q ≠ .expression) :
    (Slot.one q).watch.Within (.members q.watch?) where
  admits j h := admits_members h (not_arr_of_named hq (h [] q j (.here _) rfl))
  position path h := by
    cases h with
    | field hs hrest => exact position_members hs hrest
    | block => exact absurd rfl hq

section Record

variable {α : Type} {r : Record α} {n : Nat} (hnames : q.slots.keys ⊆ r.fields.names)
  (h : r.fields.Keep q.watch? n)

include hnames h

theorem keeps_members : r.codec.Keeps (.members q.watch?) (n + 1) := by
  apply Record.keeps h
  intro name W hW
  obtain ⟨s, hs, rfl⟩ := Option.map_eq_some_iff.1 hW
  exact hnames (List.mem_map.2 ⟨(name, s), Dict.mem_of_get? hs, rfl⟩)

theorem keeps_record_succ (hq : q ≠ .expression) : r.codec.Keeps (Slot.one q).watch (n + 1) :=
  (keeps_members hnames h).within (within_members hq)

theorem keeps_record (hq : q ≠ .expression) : r.codec.Keeps (Slot.one q).watch n :=
  Codec.keeps_of_succ (keeps_record_succ hnames h hq)

end Record

theorem watch_inside (q : Part) : (Slot.one q).watch.Inside := by
  rintro path h rfl
  cases h

section Field

variable {α : Type} {c : Codec α} {n : Nat} {name : String} (h : c.Keeps (Slot.one q).watch n)

include h

theorem keeps_one : (Field.optional name c).Keeps (Slot.one q).watch n :=
  Field.keeps_optional q.watch_inside h

theorem keeps_list : (Field.list name c).Keeps (Slot.list q).watch n :=
  (Field.keeps_list h).within (Slot.within_items q)

theorem keeps_dict : (Field.dict name c).Keeps (Slot.dict q).watch n :=
  (Field.keeps_dict h).within (Slot.within_entries q)

end Field

end Part
end Plan
end PlanWire
