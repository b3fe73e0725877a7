import PlanWire.Proofs.AttributeType.Grammar
import PlanWire.Proofs.Json.Reading

/-!
# Types with their fields in order

A type that stands in a text has its fields in the order of the text. The type
that is returned has them in the order of their names, and so has its tree.
-/

set_option autoImplicit false

namespace PlanWire.AttributeType

mutual

def sorted : AttributeType → AttributeType
  | .primitive kind => .primitive kind
  | .collection kind element => .collection kind (sorted element)
  | .object fields => .object (Dict.ofList (sortedFields fields))

def sortedFields : List (String × AttributeType) → List (String × AttributeType)
  | [] => []
  | (n, t) :: rest => (n, sorted t) :: sortedFields rest

end

theorem encodeFields_eq_mapValues (fields : Dict AttributeType) :
    encodeFields fields = fields.mapValues encode := by
  induction fields with
  | nil => rfl
  | cons field rest ih =>
    obtain ⟨n, t⟩ := field
    rw [encodeFields, ih]
    rfl

mutual

theorem encode_sorted : ∀ t : AttributeType, t.sorted.encode = t.encode.sorted
  | .primitive _ => rfl
  | .collection kind element => by
    rw [sorted, encode, encode_sorted element]
    rfl
  | .object fields => by
    have hfields : encodeFields (Dict.ofList (sortedFields fields)) =
        Dict.ofList (Json.sortedMembers (encodeFields fields)) := by
      rw [encodeFields_eq_mapValues, ← Dict.ofList_mapValues, ← encodeFields_eq_mapValues,
        encodeFields_sorted fields]
    rw [sorted, encode, hfields]
    rfl

theorem encodeFields_sorted : ∀ fields : List (String × AttributeType),
    encodeFields (sortedFields fields) = Json.sortedMembers (encodeFields fields)
  | [] => rfl
  | (n, t) :: rest => by
    rw [sortedFields, encodeFields, encode_sorted t, encodeFields_sorted rest]
    rfl

end

theorem decode_sorted {j : Json} {t : AttributeType} (h : decode j = .ok t) :
    decode j.sorted = .ok t.sorted := by
  rw [← encode_of_decode h, ← encode_sorted]
  exact decode_encode t.sorted

/-- Sorting makes no tree of the grammar of another one, unless it drops a member. -/
theorem inGrammar_of_sorted {v : Json} (h : InGrammar v) :
    ∀ j : Json, j.KeysDiffer → j.sorted = v → InGrammar j := by
  induction h with
  | primitive known =>
    intro j _ hj
    rw [Json.sorted_eq_str hj]
    exact .primitive known
  | collection known _ ih =>
    intro j hkeys hj
    obtain ⟨items, rfl, hitems⟩ := Json.sorted_eq_arr hj
    obtain ⟨first, _, rfl, hfirst, hrest⟩ := List.map_eq_cons_iff.1 hitems
    obtain ⟨element, rfl, helement⟩ := List.map_eq_singleton_iff.1 hrest
    rw [Json.sorted_eq_str hfirst]
    have hchild : Json.Child (.arr [first, element]) (.index 1) element := rfl
    exact .collection known (ih element (hkeys.of_child hchild) helement)
  | object _ ih =>
    intro j hkeys hj
    obtain ⟨items, rfl, hitems⟩ := Json.sorted_eq_arr hj
    obtain ⟨first, _, rfl, hfirst, hrest⟩ := List.map_eq_cons_iff.1 hitems
    obtain ⟨last, rfl, hlast⟩ := List.map_eq_singleton_iff.1 hrest
    obtain ⟨members, rfl, hmembers⟩ := Json.sorted_eq_obj hlast
    rw [Json.sorted_eq_str hfirst]
    have hchild : Json.Child (.arr [first, .obj members]) (.index 1) (.obj members) := rfl
    have hobj := hkeys.of_child hchild
    refine .object ?_
    rintro ⟨name, field⟩ hfield
    have hget : Dict.get? name members = some field := Dict.get?_of_mem hobj.nodup hfield
    have hkept : (name, field.sorted) ∈ Dict.ofList (Dict.mapValues Json.sorted members) := by
      apply Dict.mem_of_get?
      rw [Dict.get?_ofList (by rw [Dict.keys_mapValues]; exact hobj.nodup), Dict.get?_mapValues, hget]
      rfl
    have hinside : Json.Child (.obj members) (.key name) field := hfield
    exact ih (name, field.sorted) (hmembers ▸ hkept) field (hobj.of_child hinside) rfl

end PlanWire.AttributeType
