import PlanWire.Text.Utf8

/-!
# UTF-8 is read as it is written

The bytes of a character are either one ASCII byte or several bytes that are
none, and decoding takes exactly these bytes from the front of a text.
-/

set_option autoImplicit false

namespace PlanWire.Text.Utf8

theorem toNat_lt (c : Char) : c.toNat < 0x110000 := by
  rcases c.valid with h | ⟨_, h⟩
  · exact Nat.lt_trans h (by decide)
  · exact h

theorem character_toNat {least : Nat} (c : Char) (h : least ≤ c.toNat) :
    character least c.toNat = some c := by
  have hv : c.toNat.isValidChar := c.valid
  rw [character, dif_pos hv, if_pos h]
  rfl

theorem toNat_toUInt8 {n : Nat} (h : n < 256) : n.toUInt8.toNat = n := by
  simp [Nat.mod_eq_of_lt h]

theorem continuation_low (n : Nat) : continuation (0x80 + n % 64).toUInt8 = some (n % 64) := by
  have hn : n % 64 < 64 := Nat.mod_lt _ (by decide)
  have hb : (0x80 + n % 64).toUInt8.toNat = 0x80 + n % 64 := toNat_toUInt8 (by omega)
  rw [continuation, hb, if_pos (by omega), Nat.add_sub_cancel_left]

theorem encodeChar_of_lt {c : Char} (h : c.toNat < 0x80) : encodeChar c = [c.toNat.toUInt8] := by
  simp [encodeChar, h]

theorem le_of_mem_encodeChar {c : Char} (h : 0x80 ≤ c.toNat) {b : UInt8} (hb : b ∈ encodeChar c) :
    0x80 ≤ b.toNat := by
  have hc := toNat_lt c
  simp only [encodeChar, if_neg (Nat.not_lt.2 h)] at hb
  split at hb
  · simp only [List.mem_cons, List.not_mem_nil, or_false] at hb
    rcases hb with rfl | rfl <;> rw [toNat_toUInt8] <;> omega
  · split at hb
    · simp only [List.mem_cons, List.not_mem_nil, or_false] at hb
      rcases hb with rfl | rfl | rfl <;> rw [toNat_toUInt8] <;> omega
    · simp only [List.mem_cons, List.not_mem_nil, or_false] at hb
      rcases hb with rfl | rfl | rfl | rfl <;> rw [toNat_toUInt8] <;> omega

theorem decode_one {a : UInt8} (h : a.toNat < 0x80) (rest : List UInt8) :
    decode (a :: rest) = join (character 0 a.toNat) (decode rest) := by
  rw [decode.eq_def]
  simp only [if_pos h]

theorem decode_two {a : UInt8} (least : 0xc0 ≤ a.toNat) (h : a.toNat < 0xe0) (b : UInt8)
    (rest : List UInt8) : decode (a :: b :: rest) = join (two a b) (decode rest) := by
  rw [decode.eq_def]
  simp only [if_neg (show ¬ a.toNat < 0x80 by omega), if_neg (Nat.not_lt.2 least), if_pos h]

theorem decode_three {a : UInt8} (least : 0xe0 ≤ a.toNat) (h : a.toNat < 0xf0) (b c : UInt8)
    (rest : List UInt8) : decode (a :: b :: c :: rest) = join (three a b c) (decode rest) := by
  rw [decode.eq_def]
  simp only [if_neg (show ¬ a.toNat < 0x80 by omega), if_neg (show ¬ a.toNat < 0xc0 by omega),
    if_neg (Nat.not_lt.2 least), if_pos h]

theorem decode_four {a : UInt8} (least : 0xf0 ≤ a.toNat) (h : a.toNat < 0xf8) (b c d : UInt8)
    (rest : List UInt8) : decode (a :: b :: c :: d :: rest) = join (four a b c d) (decode rest) := by
  rw [decode.eq_def]
  simp only [if_neg (show ¬ a.toNat < 0x80 by omega), if_neg (show ¬ a.toNat < 0xc0 by omega),
    if_neg (show ¬ a.toNat < 0xe0 by omega), if_neg (Nat.not_lt.2 least), if_pos h]

theorem decode_encodeChar (c : Char) (rest : List UInt8) :
    decode (encodeChar c ++ rest) = join (some c) (decode rest) := by
  have hc := toNat_lt c
  by_cases h1 : c.toNat < 0x80
  · have ha : c.toNat.toUInt8.toNat = c.toNat := toNat_toUInt8 (by omega)
    rw [encodeChar_of_lt h1, List.singleton_append, decode_one (by omega), ha,
      character_toNat c (Nat.zero_le _)]
  by_cases h2 : c.toNat < 0x800
  · have ha : (0xc0 + c.toNat / 64).toUInt8.toNat = 0xc0 + c.toNat / 64 := toNat_toUInt8 (by omega)
    have hn : (0xc0 + c.toNat / 64 - 0xc0) * 64 + c.toNat % 64 = c.toNat := by omega
    simp only [encodeChar, if_neg h1, if_pos h2, List.cons_append, List.nil_append]
    rw [decode_two (by omega) (by omega)]
    simp only [two, continuation_low, ha, hn, Option.bind_eq_bind, Option.bind_some,
      character_toNat c (Nat.not_lt.1 h1)]
  by_cases h3 : c.toNat < 0x10000
  · have ha : (0xe0 + c.toNat / 4096).toUInt8.toNat = 0xe0 + c.toNat / 4096 :=
      toNat_toUInt8 (by omega)
    have hn : ((0xe0 + c.toNat / 4096 - 0xe0) * 64 + c.toNat / 64 % 64) * 64 + c.toNat % 64 =
        c.toNat := by omega
    simp only [encodeChar, if_neg h1, if_neg h2, if_pos h3, List.cons_append, List.nil_append]
    rw [decode_three (by omega) (by omega)]
    simp only [three, continuation_low, ha, hn, Option.bind_eq_bind, Option.bind_some,
      character_toNat c (Nat.not_lt.1 h2)]
  · have ha : (0xf0 + c.toNat / 262144).toUInt8.toNat = 0xf0 + c.toNat / 262144 :=
      toNat_toUInt8 (by omega)
    have hn : (((0xf0 + c.toNat / 262144 - 0xf0) * 64 + c.toNat / 4096 % 64) * 64 +
        c.toNat / 64 % 64) * 64 + c.toNat % 64 = c.toNat := by omega
    simp only [encodeChar, if_neg h1, if_neg h2, if_neg h3, List.cons_append, List.nil_append]
    rw [decode_four (by omega) (by omega)]
    simp only [four, continuation_low, ha, hn, Option.bind_eq_bind, Option.bind_some,
      character_toNat c (Nat.not_lt.1 h3)]

theorem encode_append (cs ds : List Char) : encode (cs ++ ds) = encode cs ++ encode ds :=
  List.flatMap_append

theorem decode_encode (cs : List Char) : decode (encode cs) = some cs := by
  induction cs with
  | nil => rfl
  | cons c cs ih =>
    rw [encode, List.flatMap_cons, decode_encodeChar, ← encode, ih]
    rfl

end PlanWire.Text.Utf8
