import Mathlib.Algebra.Group.Int.Defs
import Mathlib.Algebra.Group.Nat.Defs
import Mathlib.Tactic.Ring
import PlanWire.Proofs.Json.Cutting

/-!
# Literals are cut from their own text

Digits without a needless zero in front, maybe more behind a point and an
exponent with its sign: this is how numbers are written, and it is cut again
into the digits that it was written for. The digits of a whole number are
gathered as long as it stays below the limit, so every whole number that 64
bits hold is read from its text.
-/

set_option autoImplicit false

namespace PlanWire.Number

open Json (cutDigits cutWhole cutSome cutFraction cutExponent cutMagnitude cutLiteral)
open Literal (gather)
open Text.Utf8

def extended (n : Nat) (ds : List Nat) : Nat := ds.foldl (fun n d => n * 10 + d) n

theorem extended_append (n : Nat) (ds es : List Nat) :
    extended n (ds ++ es) = extended (extended n ds) es := List.foldl_append ..

theorem extended_eq (n : Nat) (ds : List Nat) :
    extended n ds = n * 10 ^ ds.length + extended 0 ds := by
  induction ds generalizing n with
  | nil => simp [extended]
  | cons d ds ih =>
    change extended (n * 10 + d) ds = _ + extended (0 * 10 + d) ds
    rw [ih (n * 10 + d), ih (0 * 10 + d), List.length_cons, Nat.pow_succ]
    ring

theorem extended_zeros (n k : Nat) : extended n (List.replicate k 0) = n * 10 ^ k := by
  induction k generalizing n with
  | zero => simp [extended]
  | succ k ih =>
    change extended (n * 10 + 0) (List.replicate k 0) = _
    rw [ih, Nat.pow_succ]
    ring

theorem gather_of_lt {limit n : Nat} {ds : List Nat} (h : extended n ds < limit) :
    gather limit n ds = (extended n ds, []) := by
  induction ds generalizing n with
  | nil => rfl
  | cons d ds ih =>
    have hstep : n * 10 + d < limit := by
      have hlow := extended_eq (n * 10 + d) ds
      have hone := Nat.one_le_pow ds.length 10 (by decide)
      change extended (n * 10 + d) ds < limit at h
      calc n * 10 + d ≤ (n * 10 + d) * 10 ^ ds.length := Nat.le_mul_of_pos_right _ hone
        _ ≤ extended (n * 10 + d) ds := by omega
        _ < limit := h
    rw [gather, if_pos hstep]
    exact ih h

theorem gather_le {limit n k : Nat} {ds rest : List Nat} (hn : n < limit)
    (h : gather limit n ds = (k, rest)) :
    k < limit ∧ k * 10 ^ rest.length ≤ extended n ds ∧ rest.length ≤ ds.length := by
  induction ds generalizing n with
  | nil =>
    cases h
    exact ⟨hn, by simp [extended], le_rfl⟩
  | cons d ds ih =>
    rw [gather] at h
    split at h
    · next hd =>
      obtain ⟨hk, hle, hlength⟩ := ih hd h
      exact ⟨hk, hle, Nat.le_succ_of_le hlength⟩
    · obtain ⟨rfl, rfl⟩ := Prod.mk.inj h
      refine ⟨hn, ?_, le_rfl⟩
      rw [extended_eq]
      exact Nat.le_add_right _ _

structure Plain (ds : List Nat) : Prop where
  small : ∀ d ∈ ds, d < 10
  nonempty : ds ≠ []
  first : ∀ rest, ds = 0 :: rest → rest = []

structure Spells (ds : List Nat) (n : Nat) : Prop where
  chars : digitChars n = ds.map Nat.digitChar
  plain : Plain ds
  value : extended 0 ds = n

/-- Every digit but the last belongs to a tenth of the number. -/
theorem exists_spells (n : Nat) : ∃ ds, Spells ds n := by
  induction n using Nat.strongRecOn with
  | _ n ih =>
    by_cases hn : n < 10
    · refine ⟨[n], Nat.toDigits_of_lt_base hn, ⟨by simpa using hn, List.cons_ne_nil _ _, ?_⟩, ?_⟩
      · intro rest hrest
        exact (List.cons.inj hrest).2.symm
      · simp [extended]
    · obtain ⟨ds, hds⟩ := ih (n / 10) (by omega)
      refine ⟨ds ++ [n % 10], ?_, ⟨?_, by simp, ?_⟩, ?_⟩
      · have hchars : digitChars n = digitChars (n / 10) ++ [Nat.digitChar (n % 10)] :=
          Nat.toDigits_of_base_le (by omega) (by omega)
        rw [hchars, hds.chars, List.map_append]
        rfl
      · intro d hd
        rcases List.mem_append.1 hd with hd | hd
        · exact hds.plain.small d hd
        · rw [List.mem_singleton.1 hd]
          omega
      · intro rest hrest
        -- A leading zero would be all of a tenth of the number, which is ten or more.
        cases ds with
        | nil => exact absurd rfl hds.plain.nonempty
        | cons d ds =>
          obtain ⟨rfl, -⟩ := List.cons.inj hrest
          obtain rfl := hds.plain.first ds rfl
          have hzero : 0 = n / 10 := hds.value
          omega
      · rw [extended_append, hds.value]
        change n / 10 * 10 + n % 10 = n
        omega

theorem Spells.pow_le {ds : List Nat} {n : Nat} (h : Spells ds n) (hn : 0 < n) :
    10 ^ (ds.length - 1) ≤ n := by
  cases ds with
  | nil => exact absurd rfl h.plain.nonempty
  | cons d ds =>
    have hvalue : extended (0 * 10 + d) ds = n := h.value
    have hd : d ≠ 0 := by
      rintro rfl
      obtain rfl := h.plain.first ds rfl
      have hzero : 0 = n := hvalue
      omega
    rw [extended_eq] at hvalue
    have hmul : 1 * 10 ^ ds.length ≤ (0 * 10 + d) * 10 ^ ds.length :=
      Nat.mul_le_mul_right _ (by omega)
    simp only [List.length_cons, Nat.add_sub_cancel]
    omega

theorem cutDigits_digitChar : ∀ n < 10, cutDigits (encode [Nat.digitChar n]) = ([n], []) := by
  decide

theorem cutDigits_append_of_all {bytes : List UInt8} {ds : List Nat}
    (h : cutDigits bytes = (ds, [])) (more : List UInt8) :
    cutDigits (bytes ++ more) = (ds ++ (cutDigits more).1, (cutDigits more).2) := by
  induction bytes generalizing ds with
  | nil =>
    obtain rfl : [] = ds := congrArg Prod.fst h
    rfl
  | cons b bytes ih =>
    cases hb : Json.digit? b with
    | none => simp [cutDigits, hb] at h
    | some d =>
      simp only [cutDigits, hb, Prod.mk.injEq] at h
      obtain ⟨rfl, hleft⟩ := h
      simp only [List.cons_append, cutDigits, hb, ih (Prod.ext rfl hleft)]

theorem cutDigits_map {ds : List Nat} (h : ∀ d ∈ ds, d < 10) {more : List UInt8}
    (hmore : cutDigits more = ([], more)) :
    cutDigits (encode (ds.map Nat.digitChar) ++ more) = (ds, more) := by
  induction ds with
  | nil => exact hmore
  | cons d ds ih =>
    obtain ⟨hd, hds⟩ := List.forall_mem_cons.1 h
    have hchars : (d :: ds).map Nat.digitChar = [Nat.digitChar d] ++ ds.map Nat.digitChar := rfl
    rw [hchars, encode_append, List.append_assoc,
      cutDigits_append_of_all (cutDigits_digitChar d hd), ih hds]
    rfl

theorem cutSome_map {ds : List Nat} (hne : ds ≠ []) (h : ∀ d ∈ ds, d < 10) {more : List UInt8}
    (hmore : cutDigits more = ([], more)) :
    cutSome (encode (ds.map Nat.digitChar) ++ more) = some (ds, more) := by
  rw [cutSome, cutDigits_map h hmore]
  cases ds with
  | nil => exact absurd rfl hne
  | cons d ds => rfl

theorem Plain.cutWhole {ds : List Nat} (h : Plain ds) {more : List UInt8}
    (hmore : cutDigits more = ([], more)) :
    cutWhole (encode (ds.map Nat.digitChar) ++ more) = some (ds, more) := by
  rw [Json.cutWhole, cutDigits_map h.small hmore]
  cases ds with
  | nil => exact absurd rfl h.nonempty
  | cons d rest =>
    cases d with
    | zero =>
      obtain rfl := h.first rest rfl
      rfl
    | succ d => rfl

namespace Literal

structure Formed (l : Literal) : Prop where
  whole : Plain l.whole
  fraction : ∀ d ∈ l.fraction, d < 10
  exponent : ∀ down ds, l.exponent = some (down, ds) → ds ≠ [] ∧ ∀ d ∈ ds, d < 10

def fractionText (ds : List Nat) : List Char :=
  if ds = [] then [] else '.' :: ds.map Nat.digitChar

def exponentText : Option (Bool × List Nat) → List Char
  | none => []
  | some (down, ds) => 'e' :: (if down then '-' else '+') :: ds.map Nat.digitChar

def unsignedText (l : Literal) : List Char :=
  l.whole.map Nat.digitChar ++ (fractionText l.fraction ++ exponentText l.exponent)

def text (l : Literal) : List Char :=
  if l.negative then '-' :: l.unsignedText else l.unsignedText

namespace Formed

variable {l : Literal} (h : l.Formed)

include h

theorem cutExponent : cutExponent (encode (exponentText l.exponent)) = some (l.exponent, []) := by
  cases hl : l.exponent with
  | none => rfl
  | some e =>
    obtain ⟨down, ds⟩ := e
    obtain ⟨hne, hds⟩ := h.exponent down ds hl
    have hdigits : cutSome (encode (ds.map Nat.digitChar)) = some (ds, []) := by
      simpa using cutSome_map hne hds (@rfl _ (cutDigits []))
    cases down with
    | true =>
      change (cutSome (encode (ds.map Nat.digitChar))).map _ = _
      rw [hdigits]
      rfl
    | false =>
      change (cutSome (encode (ds.map Nat.digitChar))).map _ = _
      rw [hdigits]
      rfl

theorem cutFraction : cutFraction (encode (fractionText l.fraction ++ exponentText l.exponent)) =
    some (l.fraction, encode (exponentText l.exponent)) := by
  by_cases hl : l.fraction = []
  · rw [hl]
    cases l.exponent <;> rfl
  · have hmore : cutDigits (encode (exponentText l.exponent)) =
        ([], encode (exponentText l.exponent)) := by
      cases l.exponent <;> rfl
    have htext : encode (fractionText l.fraction ++ exponentText l.exponent) =
        0x2e :: (encode (l.fraction.map Nat.digitChar) ++ encode (exponentText l.exponent)) := by
      rw [fractionText, if_neg hl, encode_append]
      rfl
    rw [htext]
    exact cutSome_map hl h.fraction hmore

theorem cutMagnitude (negative : Bool) :
    cutMagnitude negative (encode l.unsignedText) =
      some (⟨negative, l.whole, l.fraction, l.exponent⟩, []) := by
  have hmore : cutDigits (encode (fractionText l.fraction ++ exponentText l.exponent)) =
      ([], encode (fractionText l.fraction ++ exponentText l.exponent)) := by
    by_cases hl : l.fraction = []
    · rw [hl]
      cases l.exponent <;> rfl
    · rw [fractionText, if_neg hl]
      rfl
  rw [unsignedText, encode_append]
  simp only [Json.cutMagnitude, h.whole.cutWhole hmore, h.cutFraction, h.cutExponent,
    Option.bind_eq_bind, Option.bind_some]
  rfl

theorem cutLiteral : cutLiteral (encode l.text) = some (l, []) := by
  obtain ⟨negative, whole, fraction, exponent⟩ := l
  cases negative with
  | true => exact h.cutMagnitude true
  | false =>
    have hcut := h.cutMagnitude false
    change Json.cutLiteral (encode (unsignedText _)) = _
    cases hbytes : encode (unsignedText ⟨false, whole, fraction, exponent⟩) with
    | nil =>
      rw [hbytes] at hcut
      cases hcut
    | cons b bytes =>
      have hb : b ≠ 0x2d := by
        rintro rfl
        rw [hbytes] at hcut
        cases hcut
      rw [hbytes] at hcut
      simpa [Json.cutLiteral, hb] using hcut

end Formed
end Literal

theorem Spells.formed {ds : List Nat} {n : Nat} (h : Spells ds n) (negative : Bool) :
    Literal.Formed ⟨negative, ds, [], none⟩ :=
  ⟨h.plain, nofun, nofun⟩

theorem value?_unsigned {ds : List Nat} {n : Nat} (hg : gather UInt64.size 0 ds = (n, [])) :
    Literal.value? ⟨false, ds, [], none⟩ = some (.int n) := by
  simp only [Literal.value?, hg]
  rfl

theorem value?_signed {ds : List Nat} {n : Nat} (hg : gather UInt64.size 0 ds = (n, []))
    (hzero : n ≠ 0) (hbound : n ≤ 2 ^ 63) :
    Literal.value? ⟨true, ds, [], none⟩ = some (.int (-n)) := by
  have hpow : ¬ Nat.pow 2 63 < n := Nat.not_lt_of_le hbound
  simp only [Literal.value?, hg]
  simp [hzero, hpow]

theorem text_int {i : Int} {ds : List Nat} (h : Spells ds i.natAbs) :
    text (int i) = Literal.text ⟨decide (i < 0), ds, [], none⟩ := by
  have htext : digitChars i.natAbs = Literal.unsignedText ⟨decide (i < 0), ds, [], none⟩ := by
    rw [h.chars]
    exact (List.append_nil _).symm
  simp only [text, intText, Literal.text, htext, decide_eq_true_eq]

/-- A whole number of 64 bits, with or without a sign, is read from its text. -/
theorem rereads_int {i : Int} (hlow : -2 ^ 63 ≤ i) (hhigh : i < 2 ^ 64) : (int i).Rereads := by
  obtain ⟨ds, hds⟩ := exists_spells i.natAbs
  have hsize : UInt64.size = 2 ^ 64 := rfl
  have hgather : gather UInt64.size 0 ds = (i.natAbs, []) := by
    rw [gather_of_lt (by rw [hds.value]; omega), hds.value]
  refine ⟨⟨decide (i < 0), ds, [], none⟩, ?_, ?_⟩
  · rw [text_int hds]
    exact (hds.formed _).cutLiteral
  · by_cases hi : i < 0
    · have habs : -(i.natAbs : Int) = i := by omega
      rw [decide_eq_true hi, value?_signed hgather (by omega) (by omega), habs]
    · have habs : (i.natAbs : Int) = i := by omega
      rw [decide_eq_false hi, value?_unsigned hgather, habs]

end PlanWire.Number
