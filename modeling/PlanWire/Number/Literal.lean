import PlanWire.Number.Basic

/-!
# Numbers in decimal notation

A literal keeps the digits as they stand. `value?` turns it into a number: a
literal without point and exponent is whole as long as 64 bits hold it, and
every other one is a fraction. The digits are gathered in 64 bits first; those
that do not fit only move the point, and the power of ten is applied in one
multiplication or division. A literal too large for a fraction has no value.
-/

set_option autoImplicit false

namespace PlanWire.Number

structure Literal where
  negative : Bool
  whole : List Nat
  fraction : List Nat
  /-- The sign of the exponent, true when negative, and its digits. -/
  exponent : Option (Bool × List Nat)
  deriving DecidableEq

namespace Literal

/-- Appends digits to a number as long as it stays below the limit, and
returns the digits left over. -/
def gather (limit : Nat) : Nat → List Nat → Nat × List Nat
  | n, [] => (n, [])
  | n, d :: ds => if n * 10 + d < limit then gather limit (n * 10 + d) ds else (n, d :: ds)

def tenTo (n : Nat) : Float := Float.ofScientific 1 false n

/-- Repeated division for exponents below the least power of ten; the third
division always finds a zero. -/
def shrink : Nat → Float → Nat → Float
  | 0, f, n => f / tenTo n
  | fuel + 1, f, n => if n ≤ 308 || f == 0 then f / tenTo (min n 308)
      else shrink fuel (f / tenTo 308) (n - 308)

/-- `significand * 10 ^ exponent`, unless it is infinite. -/
def scale (significand : Nat) (exponent : Int) : Option Float :=
  let f := significand.toUInt64.toFloat
  if exponent < 0 then some (shrink 4 f exponent.natAbs)
  else if significand = 0 then some f
  else if 308 < exponent then none
  else
    let product := f * tenTo exponent.natAbs
    if product.isInf then none else some product

def signed (negative : Bool) (f : Float) : Number :=
  .float (if negative then -f else f).toBits

def fractional (l : Literal) (significand : Nat) (dropped : Nat) : Option Number := do
  let (significand, rest) := gather UInt64.size significand l.fraction
  let start : Int := (dropped : Int) - (l.fraction.length - rest.length : Nat)
  match l.exponent with
  | none => return signed l.negative (← scale significand start)
  | some (down, digits) =>
    match gather (Nat.pow 2 31) 0 digits with
    | (e, []) =>
      return signed l.negative (← scale significand (if down then start - e else start + e))
    | _ => if significand = 0 || down then some (signed l.negative 0) else none

def value? (l : Literal) : Option Number :=
  match gather UInt64.size 0 l.whole, l.fraction, l.exponent with
  | (n, []), [], none =>
    if !l.negative then some (.int n)
    else if n = 0 || Nat.pow 2 63 < n then some (signed true n.toUInt64.toFloat)
    else some (.int (-n))
  | (n, rest), _, _ => l.fractional n rest.length

end Literal
end PlanWire.Number
