import PlanWire.Time.Basic

/-!
# Reading the parts of a time

A scan takes a part from the front of a text. The text may end too early or
hold a wrong character; numbers are taken as they are and judged by the scans
that know their range.
-/

set_option autoImplicit false

namespace PlanWire.Time

abbrev Scan := StateT (List Char) (Except TimeFault)

def fail {α : Type} (fault : TimeFault) : Scan α := fun _ => .error fault

def asciiDigit? (c : Char) : Option Nat := if c.isDigit then some (c.toNat - 48) else none

def cutDigits : Nat → List Char → List Nat × List Char
  | 0, cs => ([], cs)
  | _ + 1, [] => ([], [])
  | room + 1, c :: rest =>
    match asciiDigit? c with
    | some d => let (ds, rest) := cutDigits room rest; (d :: ds, rest)
    | none => ([], c :: rest)

def value (digits : List Nat) : Nat := digits.foldl (fun n d => n * 10 + d) 0

def digits (room : Nat) : Scan (List Nat) := fun cs =>
  match cs, cutDigits room cs with
  | [], _ => .error .short
  | _, ([], _) => .error .invalid
  | _, cut => .ok cut

def exactly (c : Char) : Scan Unit
  | [] => .error .short
  | x :: rest => if x = c then .ok ((), rest) else .error .invalid

def daySeparator : Scan Unit
  | [] => .error .short
  | c :: rest => if c = 'T' ∨ c = 't' ∨ c = ' ' then .ok ((), rest) else .error .invalid

/-- The nanoseconds of a fraction; digits behind the ninth do not count. -/
def fraction : Scan Nat
  | '.' :: rest => do
    let (ds, rest) ← digits 9 rest
    return (value ds * Nat.pow 10 (9 - ds.length), rest.dropWhile Char.isDigit)
  | cs => .ok (0, cs)

def spaces : List (Nat × Nat) :=
  [(0x09, 0x0d), (0x20, 0x20), (0x85, 0x85), (0xa0, 0xa0), (0x1680, 0x1680), (0x2000, 0x200a),
    (0x2028, 0x2029), (0x202f, 0x202f), (0x205f, 0x205f), (0x3000, 0x3000)]

def isSpace (c : Char) : Bool := spaces.any fun (first, last) => first ≤ c.toNat && c.toNat ≤ last

def skipSpaces : Scan Unit := fun cs => .ok ((), cs.dropWhile isSpace)

/-- Two digits. A text with less than two bytes left is too short. -/
def pair : Scan (Nat × Nat)
  | [] => .error .short
  | [c] => if c.toNat < 0x80 then .error .short else .error .invalid
  | c :: d :: rest =>
    match asciiDigit? c, asciiDigit? d with
    | some c, some d => .ok ((c, d), rest)
    | _, _ => .error .invalid

def offsetSign : Scan Bool
  | [] => .error .short
  | c :: rest =>
    if c = '+' then .ok (false, rest)
    else if c = '-' ∨ c = '\u2212' then .ok (true, rest)
    else .error .invalid

/-- An offset in seconds: `Z`, or hours and minutes, with `separator` between
them. -/
def offset (separator : Scan Unit) : Scan Int := fun cs =>
  match cs with
  | 'Z' :: rest => .ok (0, rest)
  | 'z' :: rest => .ok (0, rest)
  | cs => (do
    let negative ← offsetSign
    let (h, k) ← pair
    separator
    let (m, n) ← pair
    if 6 ≤ m then fail .outOfRange
    let seconds : Int := ((h * 10 + k) * 3600 + (m * 10 + n) * 60 : Nat)
    return if negative then -seconds else seconds : Scan Int) cs

end PlanWire.Time
