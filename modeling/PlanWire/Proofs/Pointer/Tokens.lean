import PlanWire.Pointer
import PlanWire.Proofs.Json.Paths
import PlanWire.Proofs.Text.Decimal
import PlanWire.Proofs.Text.Pieces

/-!
# The tokens of a pointer

A pointer is empty or starts with a slash, and it has a token behind every
slash. Names of any kind can be written as tokens and are read back. A token
names the member of an object whose key it is, and the item of an array whose
index it is read as.
-/

set_option autoImplicit false

namespace PlanWire.Pointer

open Json (Selector)
open Text (IsWord pieces)

/-- Empty, or with a slash in front. -/
def IsPointer (text : String) : Prop := text = "" ∨ ∃ rest, text.toList = '/' :: rest

def Spells (raw : List (List Char)) (pointer : String) : Prop :=
  (∀ token ∈ raw, '/' ∉ token) ∧ pointer.toList = raw.flatMap ('/' :: ·)

def unescaped (raw : List (List Char)) : List String :=
  raw.map fun token => String.ofList (unescape token)

theorem cons_intercalate (c : Char) {ps : List (List Char)} (h : ps ≠ []) :
    c :: [c].intercalate ps = ps.flatMap (c :: ·) := by
  induction ps with
  | nil => exact absurd rfl h
  | cons p rest ih =>
    cases rest with
    | nil => simp
    | cons q qs =>
      have hrest := ih (List.cons_ne_nil _ _)
      rw [List.intercalate_cons_cons, List.flatMap_cons, ← hrest]
      simp

theorem tokens_of_slash {pointer : String} {rest : List Char} (h : pointer.toList = '/' :: rest) :
    tokens pointer = unescaped (pieces '/' rest) := by
  simp [tokens, h, unescaped]

theorem tokens_of_not_isPointer {text : String} (h : ¬ IsPointer text) : tokens text = [] := by
  unfold tokens
  split
  · next rest hrest => exact absurd (.inr ⟨rest, hrest⟩) h
  · rfl

theorem tokens_of_spells {raw : List (List Char)} {pointer : String} (h : Spells raw pointer) :
    tokens pointer = unescaped raw := by
  obtain ⟨hslash, htext⟩ := h
  cases raw with
  | nil =>
    obtain rfl : pointer = "" := String.toList_eq_nil_iff.1 htext
    rfl
  | cons token rest =>
    rw [← cons_intercalate '/' (List.cons_ne_nil token rest)] at htext
    rw [tokens_of_slash htext]
    congr 1
    exact Text.pieces_eq_iff.2 ⟨List.cons_ne_nil _ _, hslash, rfl⟩

theorem exists_spells_iff {text : String} : (∃ raw, Spells raw text) ↔ IsPointer text := by
  constructor
  · rintro ⟨raw, -, htext⟩
    cases raw with
    | nil => exact .inl (String.toList_eq_nil_iff.1 htext)
    | cons token rest => exact .inr ⟨_, htext⟩
  · rintro (rfl | ⟨rest, hrest⟩)
    · exact ⟨[], by simp, rfl⟩
    · obtain ⟨hne, hslash, hjoin⟩ := Text.pieces_eq_iff.1 (rfl : pieces '/' rest = pieces '/' rest)
      refine ⟨pieces '/' rest, hslash, ?_⟩
      rw [hrest, ← cons_intercalate '/' hne, hjoin]

theorem tokens_prefix_append (pointer more : String) :
    tokens pointer <+: tokens (pointer ++ "/" ++ more) := by
  by_cases h : IsPointer pointer
  · rcases h with rfl | ⟨rest, hrest⟩
    · exact List.nil_prefix
    · have hlonger : (pointer ++ "/" ++ more).toList = '/' :: (rest ++ '/' :: more.toList) := by
        simp [hrest]
      rw [tokens_of_slash hrest, tokens_of_slash hlonger, Text.pieces_append_cons, unescaped,
        unescaped, List.map_append]
      exact List.prefix_append _ _
  · rw [tokens_of_not_isPointer h]
    exact List.nil_prefix

section Escaping

def escapeChar (c : Char) : List Char :=
  if c = '~' then ['~', '0'] else if c = '/' then ['~', '1'] else [c]

def escape (name : List Char) : List Char := name.flatMap escapeChar

theorem replaceTilde_cons (digit letter : Char) {c : Char} (h : c ≠ '~') (rest : List Char) :
    replaceTilde digit letter (c :: rest) = c :: replaceTilde digit letter rest := by
  rw [replaceTilde.eq_def]
  split
  · next heq => exact absurd (List.cons.inj heq).1 h
  · next heq =>
    obtain ⟨rfl, rfl⟩ := List.cons.inj heq
    rfl
  · next heq => cases heq

theorem unescape_cons {c : Char} (h : c ≠ '~') (rest : List Char) :
    unescape (c :: rest) = c :: unescape rest := by
  rw [unescape, replaceTilde_cons _ _ h, replaceTilde_cons _ _ h, ← unescape]

theorem unescape_slash (rest : List Char) :
    unescape ('~' :: '1' :: rest) = '/' :: unescape rest := by
  have hslash : replaceTilde '1' '/' ('~' :: '1' :: rest) = '/' :: replaceTilde '1' '/' rest := by
    simp [replaceTilde]
  rw [unescape, hslash, replaceTilde_cons _ _ (by decide), ← unescape]

theorem unescape_tilde (rest : List Char) :
    unescape ('~' :: '0' :: rest) = '~' :: unescape rest := by
  have hkept : replaceTilde '1' '/' ('~' :: '0' :: rest) =
      '~' :: '0' :: replaceTilde '1' '/' rest := by
    simp [replaceTilde, replaceTilde_cons]
  rw [unescape, hkept, unescape]
  simp [replaceTilde]

theorem unescape_escapeChar (c : Char) (rest : List Char) :
    unescape (escapeChar c ++ rest) = c :: unescape rest := by
  unfold escapeChar
  split
  · next h =>
    rw [h]
    exact unescape_tilde rest
  · next htilde =>
    split
    · next h =>
      rw [h]
      exact unescape_slash rest
    · exact unescape_cons htilde rest

theorem unescape_escape (name : List Char) : unescape (escape name) = name := by
  induction name with
  | nil => rfl
  | cons c rest ih => rw [escape, List.flatMap_cons, unescape_escapeChar, ← escape, ih]

theorem slash_not_mem_escape (name : List Char) : '/' ∉ escape name := by
  intro h
  obtain ⟨c, -, hc⟩ := List.mem_flatMap.1 h
  unfold escapeChar at hc
  split at hc
  · simp at hc
  · split at hc
    · simp at hc
    · next hslash => exact hslash (List.mem_singleton.1 hc).symm

def write (names : List String) : String :=
  String.ofList (names.flatMap fun name => '/' :: escape name.toList)

theorem spells_write (names : List String) :
    Spells (names.map fun name => escape name.toList) (write names) := by
  constructor
  · intro token htoken
    obtain ⟨name, -, rfl⟩ := List.mem_map.1 htoken
    exact slash_not_mem_escape name.toList
  · rw [write, String.toList_ofList, List.flatMap_map]

/-- Every list of names is the list of tokens of some pointer. -/
theorem tokens_write (names : List String) : tokens (write names) = names := by
  rw [tokens_of_spells (spells_write names), unescaped, List.map_map]
  simp [Function.comp_def, unescape_escape]

end Escaping

section Selecting

/-- The token is read as the index: it has it in decimal, maybe with zeros or a
plus sign in front. -/
def ReadsAs (token : String) (i : Nat) : Prop :=
  ∃ ds, (token.toList = ds ∨ token.toList = '+' :: ds) ∧ IsWord ds i

/-- The token is the index in decimal, with no zero and no sign in front. -/
def WrittenAs (token : String) (i : Nat) : Prop := token = toString i

inductive Names (Index : String → Nat → Prop) : String → Selector → Prop
  | key (name : String) : Names Index name (.key name)
  | index {token : String} {i : Nat} (h : Index token i) : Names Index token (.index i)

theorem index?_eq_some {token : String} {i : Nat} : index? token = some i ↔ ReadsAs token i :=
  Text.unsigned?_eq_some

theorem WrittenAs.reads {token : String} {i : Nat} (h : WrittenAs token i) (hi : i < UInt64.size) :
    ReadsAs token i := by
  refine ⟨Nat.toDigits 10 i, .inl ?_, Text.isWord_toDigits hi⟩
  rw [h, Nat.toString_eq_ofList_toDigits, String.toList_ofList]

theorem child?_eq_some {token : String} {j child : Json} :
    child? token j = some child ↔ ∃ s, Names ReadsAs token s ∧ j.select? s = some child := by
  cases j with
  | obj members =>
    constructor
    · intro h
      exact ⟨.key token, .key token, h⟩
    · rintro ⟨s, hs, hchild⟩
      cases hs with
      | key => exact hchild
      | index _ => cases hchild
  | arr items =>
    constructor
    · intro h
      obtain ⟨i, hi, hchild⟩ := Option.bind_eq_some_iff.1 h
      exact ⟨.index i, .index (index?_eq_some.1 hi), hchild⟩
    · rintro ⟨s, hs, hchild⟩
      cases hs with
      | key => cases hchild
      | index hi => exact Option.bind_eq_some_iff.2 ⟨_, index?_eq_some.2 hi, hchild⟩
  | _ =>
    constructor
    · intro h
      cases h
    · rintro ⟨s, -, hchild⟩
      cases hchild

def ofSelector : Selector → String
  | .key name => name
  | .index i => toString i

theorem names_ofSelector (s : Selector) : Names WrittenAs (ofSelector s) s := by
  cases s with
  | key name => exact .key name
  | index i => exact .index rfl

end Selecting

end PlanWire.Pointer
