import PlanWire.Dict
import PlanWire.Proofs.Text.Utf8

/-!
# The order of texts is the order of their bytes

Of two forms of a character the longer one starts with the greater byte, and
two forms of one length are compared like the digits of their numbers to the
base 64. So of two texts the one that is less by its characters is less by its
bytes, and the first of the faulty entries of a dictionary is the one whose name
has the least bytes.
-/

set_option autoImplicit false

namespace PlanWire.Text.Utf8

theorem cons_lt_of_le {a b : Nat} {s t : List UInt8} (hb : b < 256) (hab : a ≤ b)
    (h : a = b → s < t) : a.toUInt8 :: s < b.toUInt8 :: t := by
  apply List.cons_lt_cons_iff.2
  rcases Nat.lt_or_eq_of_le hab with hlt | rfl
  · left
    rw [UInt8.lt_iff_toNat_lt, toNat_toUInt8 (Nat.lt_trans hlt hb), toNat_toUInt8 hb]
    exact hlt
  · exact .inr ⟨rfl, h rfl⟩

theorem cons_lt_of_lt {a b : Nat} (hb : b < 256) (h : a < b) (s t : List UInt8) :
    a.toUInt8 :: s < b.toUInt8 :: t :=
  cons_lt_of_le hb (Nat.le_of_lt h) fun heq => absurd heq (Nat.ne_of_lt h)

theorem encodeChar_lt {c d : Char} (h : c.toNat < d.toNat) (s t : List UInt8) :
    encodeChar c ++ s < encodeChar d ++ t := by
  have hd := toNat_lt d
  simp only [encodeChar]
  generalize c.toNat = m, d.toNat = n at h hd
  -- a shorter form of the first character is decided by its first byte
  by_cases h1 : n < 0x80
  · rw [if_pos h1, if_pos (by omega)]
    exact cons_lt_of_lt (by omega) h s t
  rw [if_neg h1]
  by_cases h2 : n < 0x800
  · rw [if_pos h2]
    split
    · exact cons_lt_of_lt (by omega) (by omega) _ _
    · rw [if_pos (by omega)]
      refine cons_lt_of_le (by omega) (by omega) fun _ => ?_
      exact cons_lt_of_lt (by omega) (by omega) s t
  rw [if_neg h2]
  by_cases h3 : n < 0x10000
  · rw [if_pos h3]
    split
    · exact cons_lt_of_lt (by omega) (by omega) _ _
    split
    · exact cons_lt_of_lt (by omega) (by omega) _ _
    · rw [if_pos (by omega)]
      refine cons_lt_of_le (by omega) (by omega) fun _ => ?_
      refine cons_lt_of_le (by omega) (by omega) fun _ => ?_
      exact cons_lt_of_lt (by omega) (by omega) s t
  · rw [if_neg h3]
    split
    · exact cons_lt_of_lt (by omega) (by omega) _ _
    split
    · exact cons_lt_of_lt (by omega) (by omega) _ _
    split
    · exact cons_lt_of_lt (by omega) (by omega) _ _
    · refine cons_lt_of_le (by omega) (by omega) fun _ => ?_
      refine cons_lt_of_le (by omega) (by omega) fun _ => ?_
      refine cons_lt_of_le (by omega) (by omega) fun _ => ?_
      exact cons_lt_of_lt (by omega) (by omega) s t

theorem encodeChar_ne_nil (c : Char) : encodeChar c ≠ [] := by
  intro h
  have hone := decode_encodeChar c []
  rw [h] at hone
  cases hone

theorem encode_lt {cs ds : List Char} (h : cs < ds) : encode cs < encode ds := by
  induction h with
  | @nil d ds =>
    obtain ⟨b, bytes, hb⟩ := List.exists_cons_of_ne_nil (encodeChar_ne_nil d)
    rw [encode, encode, List.flatMap_cons, hb]
    exact List.nil_lt_cons b _
  | @cons c cs ds _ ih => exact List.append_left_lt ih
  | @rel c cs d ds hcd => exact encodeChar_lt hcd _ _

end PlanWire.Text.Utf8

namespace PlanWire.Text

/-- The text whose bytes come first in the order of bytes. -/
def Precedes (s t : String) : Prop := Utf8.encode s.toList < Utf8.encode t.toList

theorem precedes_of_lt {s t : String} (h : s < t) : Precedes s t :=
  Utf8.encode_lt (String.lt_iff.1 h)

end PlanWire.Text

namespace PlanWire.Dict

/-- A loop that stops at the first faulty entry of a dictionary stops at the least. -/
theorem loop_cases {α ε : Type} (loop : Dict α → Except ε Unit) (Faulty : String × α → Prop)
    (fault : String → ε) {d : Dict α} (hsorted : d.Sorted) (hnil : loop [] = .ok ())
    (hstop : ∀ entry rest, Faulty entry → loop (entry :: rest) = .error (fault entry.1))
    (hpass : ∀ entry rest, ¬ Faulty entry → loop (entry :: rest) = loop rest) :
    (loop d = .ok () ∧ ∀ entry ∈ d, ¬ Faulty entry) ∨
      ∃ entry ∈ d, Faulty entry ∧ loop d = .error (fault entry.1) ∧
        ∀ other ∈ d, Faulty other → other.1 ≠ entry.1 → Text.Precedes entry.1 other.1 := by
  induction d with
  | nil => exact .inl ⟨hnil, List.forall_mem_nil _⟩
  | cons first rest ih =>
    obtain ⟨hleast, hrest⟩ := List.pairwise_cons.1 hsorted
    by_cases hfirst : Faulty first
    · refine .inr ⟨first, List.mem_cons_self .., hfirst, hstop first rest hfirst, ?_⟩
      intro other hother _ hne
      rcases List.mem_cons.1 hother with rfl | hother
      · exact absurd rfl hne
      · exact Text.precedes_of_lt (hleast other hother)
    · rw [hpass first rest hfirst]
      rcases ih hrest with ⟨hok, hnone⟩ | ⟨entry, hentry, hfaulty, herror, hbefore⟩
      · exact .inl ⟨hok, List.forall_mem_cons.2 ⟨hfirst, hnone⟩⟩
      · refine .inr ⟨entry, List.mem_cons_of_mem _ hentry, hfaulty, herror, ?_⟩
        intro other hother hother'
        rcases List.mem_cons.1 hother with rfl | hother
        · exact absurd hother' hfirst
        · exact hbefore other hother hother'

end PlanWire.Dict
