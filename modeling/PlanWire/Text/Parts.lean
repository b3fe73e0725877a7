/-!
# Parts of a text

Text is cut at a character, and numbers are read that are written in ASCII
digits.
-/

set_option autoImplicit false

namespace PlanWire.Text

def cut (c : Char) : List Char → List Char × Option (List Char)
  | [] => ([], none)
  | x :: rest =>
    if x = c then ([], some rest)
    else let (before, behind) := cut c rest; (x :: before, behind)

/-- The pieces between all the `c`; there is one more of them. -/
def pieces (c : Char) : List Char → List (List Char)
  | [] => [[]]
  | x :: rest =>
    if x = c then [] :: pieces c rest
    else match pieces c rest with
      | [] => [[x]]
      | p :: ps => (x :: p) :: ps

def digits? : Nat → List Char → Option Nat
  | n, [] => some n
  | n, c :: rest => if c.isDigit then digits? (n * 10 + (c.toNat - 48)) rest else none

/-- A number of at least one digit that 64 bits hold. -/
def word? (cs : List Char) : Option Nat := do
  let n ← if cs.isEmpty then none else digits? 0 cs
  if n < UInt64.size then some n else none

def unsigned? : List Char → Option Nat
  | '+' :: digits => word? digits
  | digits => word? digits

end PlanWire.Text
