import PlanWire.Number.Basic

/-!
# Shortest decimal digits

Among the decimals that round to a binary fraction, `shortest` takes one with
the fewest digits, and of these the one nearest to it. All comparisons are
made on natural numbers: a decimal grid is laid over four times the mantissa,
so the bounds of the rounding interval are whole.
-/

set_option autoImplicit false

namespace PlanWire.Number

structure Decimal where
  digits : Nat
  scale : Int
  deriving DecidableEq

/-- The step of `2 ^ (exponent - 2)` measured in units of `10 ^ scale`, as a
fraction. -/
def gridStep (exponent scale : Int) : Nat × Nat :=
  let binary := exponent - 2
  (Nat.pow 2 binary.toNat * Nat.pow 10 (-scale).toNat,
    Nat.pow 2 (-binary).toNat * Nat.pow 10 scale.toNat)

/-- The decimal exponent of a positive fraction: the largest `e` with
`10 ^ e ≤ num / den`, sought from the ends of the range inwards. -/
def leadingExponent (num den : Nat) : Int :=
  if den ≤ num then ((Nat.toDigits 10 (num / den)).length : Int) - 1
  else climb 400 num 0
where
  climb : Nat → Nat → Int → Int
    | 0, _, e => e
    | fuel + 1, n, e => if den ≤ n then e else climb fuel (n * 10) (e - 1)

/-- Whether `d` units of the grid round to the magnitude. The ends of the
interval do when the mantissa is even. -/
def roundsTo (m : Magnitude) (step : Nat × Nat) (d : Nat) : Bool :=
  let below := (4 * m.mantissa - if m.foot then 1 else 2) * step.1
  let above := (4 * m.mantissa + 2) * step.1
  let point := d * step.2
  if m.mantissa % 2 = 0 then below ≤ point && point ≤ above
  else below < point && point < above

/-- The better of the two grid neighbours of the magnitude that round to it:
the nearer, and the even one of a tie. -/
def onGrid (m : Magnitude) (scale : Int) : Option Decimal :=
  let step := gridStep m.exponent scale
  let value := 4 * m.mantissa * step.1
  let low := value / step.2
  let twice := 2 * (value % step.2)
  let high := low + 1
  match 0 < low && roundsTo m step low, roundsTo m step high with
  | true, true =>
    if twice < step.2 || (twice = step.2 && low % 2 = 0) then some ⟨low, scale⟩
    else some ⟨high, scale⟩
  | true, false => some ⟨low, scale⟩
  | false, true => some ⟨high, scale⟩
  | false, false => none

def refine (m : Magnitude) : Nat → Int → Decimal
  | 0, scale => ⟨4 * m.mantissa * (gridStep m.exponent scale).1 / (gridStep m.exponent scale).2, scale⟩
  | fuel + 1, scale => (onGrid m scale).getD (refine m fuel (scale - 1))

def stripZeros : Nat → Decimal → Decimal
  | 0, d => d
  | fuel + 1, d => if d.digits % 10 = 0 then stripZeros fuel ⟨d.digits / 10, d.scale + 1⟩ else d

/-- The shortest decimal of a positive magnitude; seventeen digits always
suffice. -/
def shortest (m : Magnitude) : Decimal :=
  let unit := gridStep m.exponent 0
  stripZeros 20 (refine m 17 (leadingExponent (4 * m.mantissa * unit.1) unit.2))

end PlanWire.Number
