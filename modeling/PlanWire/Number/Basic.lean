/-!
# Numbers

A number is a whole number or a finite binary fraction of 64 bits. The second
kind keeps its bits, so that negative zero is a value of its own.
-/

set_option autoImplicit false

namespace PlanWire

inductive Number where
  | int (value : Int)
  | float (bits : UInt64)
  deriving DecidableEq

namespace Number

/-- Two numbers are the same when they are of one kind and compare equal;
the two zeros do. -/
def same : Number → Number → Bool
  | .int a, .int b => a == b
  | .float a, .float b => Float.ofBits a == Float.ofBits b
  | _, _ => false

def isNegative (bits : UInt64) : Bool := bits.toNat / Nat.pow 2 63 = 1

/-- A finite magnitude is `mantissa * 2 ^ exponent`. At the foot of a binade
the neighbour below is half as far as the one above. -/
structure Magnitude where
  mantissa : Nat
  exponent : Int
  foot : Bool

def magnitude (bits : UInt64) : Magnitude :=
  let field : Nat := bits.toNat / Nat.pow 2 52 % Nat.pow 2 11
  let fraction : Nat := bits.toNat % Nat.pow 2 52
  if field = 0 then ⟨fraction, -1074, false⟩
  else ⟨Nat.pow 2 52 + fraction, (field : Int) - 1075, fraction = 0 && 1 < field⟩

end Number
end PlanWire
