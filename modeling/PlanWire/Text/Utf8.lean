/-!
# UTF-8

`encode` writes the shortest form of a character in one to four bytes.
`decode` reads a whole byte list and refuses overlong forms, surrogates,
numbers above U+10FFFF and sequences cut short.
-/

set_option autoImplicit false

namespace PlanWire.Text.Utf8

def encodeChar (c : Char) : List UInt8 :=
  let n := c.toNat
  if n < 0x80 then [n.toUInt8]
  else if n < 0x800 then [(0xc0 + n / 64).toUInt8, (0x80 + n % 64).toUInt8]
  else if n < 0x10000 then
    [(0xe0 + n / 4096).toUInt8, (0x80 + n / 64 % 64).toUInt8, (0x80 + n % 64).toUInt8]
  else
    [(0xf0 + n / 262144).toUInt8, (0x80 + n / 4096 % 64).toUInt8,
      (0x80 + n / 64 % 64).toUInt8, (0x80 + n % 64).toUInt8]

def encode (cs : List Char) : List UInt8 := cs.flatMap encodeChar

def continuation (b : UInt8) : Option Nat :=
  if 0x80 ≤ b.toNat ∧ b.toNat < 0xc0 then some (b.toNat - 0x80) else none

/-- The character numbered `n`, unless it is a surrogate or has a form shorter
than one that starts at `least`. -/
def character (least n : Nat) : Option Char :=
  if h : n.isValidChar then if least ≤ n then some (Char.ofNatAux n h) else none else none

def two (a b : UInt8) : Option Char := do
  character 0x80 ((a.toNat - 0xc0) * 64 + (← continuation b))

def three (a b c : UInt8) : Option Char := do
  let high := (a.toNat - 0xe0) * 64 + (← continuation b)
  character 0x800 (high * 64 + (← continuation c))

def four (a b c d : UInt8) : Option Char := do
  let high := (a.toNat - 0xf0) * 64 + (← continuation b)
  let middle := high * 64 + (← continuation c)
  character 0x10000 (middle * 64 + (← continuation d))

def join (c : Option Char) (cs : Option (List Char)) : Option (List Char) := do
  return (← c) :: (← cs)

def decode : List UInt8 → Option (List Char)
  | [] => some []
  | a :: rest =>
    if a.toNat < 0x80 then join (character 0 a.toNat) (decode rest)
    else if a.toNat < 0xc0 then none
    else match rest with
      | [] => none
      | b :: rest =>
        if a.toNat < 0xe0 then join (two a b) (decode rest)
        else match rest with
          | [] => none
          | c :: rest =>
            if a.toNat < 0xf0 then join (three a b c) (decode rest)
            else match rest with
              | [] => none
              | d :: rest =>
                if a.toNat < 0xf8 then join (four a b c d) (decode rest) else none

end PlanWire.Text.Utf8
