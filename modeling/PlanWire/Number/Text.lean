import PlanWire.Number.Shortest

/-!
# The text of a number

A whole number is written in decimal. A fraction is written with its shortest
digits: plainly, with at least one place, from 1e-5 up to 1e16, and otherwise
with an exponent that carries its sign.
-/

set_option autoImplicit false

namespace PlanWire.Number

def digitChars (n : Nat) : List Char := Nat.toDigits 10 n

def intText (i : Int) : List Char :=
  if i < 0 then '-' :: digitChars i.natAbs else digitChars i.natAbs

def pointed (digits : List Char) (places : Nat) : List Char :=
  let whole := digits.take places ++ List.replicate (places - digits.length) '0'
  let rest := digits.drop places
  whole ++ '.' :: if rest.isEmpty then ['0'] else rest

def scaled (digits : List Char) (exponent : Int) : List Char :=
  if 0 ≤ exponent ∧ exponent < 16 then pointed digits (exponent.toNat + 1)
  else if -5 ≤ exponent ∧ exponent < 0 then
    '0' :: '.' :: List.replicate ((-exponent).toNat - 1) '0' ++ digits
  else
    let sign := if exponent < 0 then '-' else '+'
    let mark := 'e' :: sign :: digitChars exponent.natAbs
    match digits with
    | [d] => d :: mark
    | d :: rest => d :: '.' :: rest ++ mark
    | [] => mark

def magnitudeText (m : Magnitude) : List Char :=
  if m.mantissa = 0 then ['0', '.', '0']
  else
    let d := shortest m
    let digits := digitChars d.digits
    scaled digits (d.scale + digits.length - 1)

def text : Number → List Char
  | .int i => intText i
  | .float bits =>
    if isNegative bits then '-' :: magnitudeText (magnitude bits) else magnitudeText (magnitude bits)

end PlanWire.Number
