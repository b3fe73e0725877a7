import PlanWire.Number.Literal
import PlanWire.Text.Utf8

/-!
# JSON tokens

The lexer cuts bytes into tokens. A string token keeps the bytes between its
quotes; its escapes have the right shape, but what they and the other bytes
stand for is read by `text?` only when it is needed. Where no token can be cut
the list ends with `bad`.
-/

set_option autoImplicit false

namespace PlanWire.Json

inductive Token where
  | openArray
  | closeArray
  | openObject
  | closeObject
  | comma
  | colon
  | null
  | bool (b : Bool)
  | number (literal : Number.Literal)
  | text (raw : List UInt8)
  | bad
  deriving DecidableEq

def hexDigit? (b : UInt8) : Option Nat :=
  let n := b.toNat
  if 0x30 ≤ n ∧ n ≤ 0x39 then some (n - 0x30)
  else if 0x41 ≤ n ∧ n ≤ 0x46 then some (n - 0x37)
  else if 0x61 ≤ n ∧ n ≤ 0x66 then some (n - 0x57)
  else none

def unit? (a b c d : UInt8) : Option Nat := do
  return (((← hexDigit? a) * 16 + (← hexDigit? b)) * 16 + (← hexDigit? c)) * 16 + (← hexDigit? d)

def shortEscape? (b : UInt8) : Option UInt8 :=
  match Char.ofNat b.toNat with
  | '"' => some 0x22
  | '\\' => some 0x5c
  | '/' => some 0x2f
  | 'b' => some 0x08
  | 'f' => some 0x0c
  | 'n' => some 0x0a
  | 'r' => some 0x0d
  | 't' => some 0x09
  | _ => none

def grow (head : List UInt8) :
    Option (List UInt8 × List UInt8) → Option (List UInt8 × List UInt8) :=
  Option.map fun (raw, rest) => (head ++ raw, rest)

def cutText : List UInt8 → Option (List UInt8 × List UInt8)
  | 0x22 :: rest => some ([], rest)
  | 0x5c :: 0x75 :: a :: b :: c :: d :: rest =>
    if (unit? a b c d).isSome then grow [0x5c, 0x75, a, b, c, d] (cutText rest) else none
  | 0x5c :: e :: rest =>
    if (shortEscape? e).isSome then grow [0x5c, e] (cutText rest) else none
  | b :: rest => if b.toNat < 0x20 || b == 0x5c then none else grow [b] (cutText rest)
  | [] => none

/-- The bytes of a character given by its number, and none of a surrogate. -/
def unitBytes? (n : Nat) : Option (List UInt8) :=
  (Text.Utf8.character 0 n).map Text.Utf8.encodeChar

def isHighHalf (n : Nat) : Bool := 0xd800 ≤ n && n < 0xdc00

def pair? (high low : Nat) : Option (List UInt8) :=
  if 0xdc00 ≤ low && low < 0xe000 then
    unitBytes? (0x10000 + (high - 0xd800) * 1024 + (low - 0xdc00))
  else none

/-- Replaces the escapes by the bytes that they stand for. A surrogate must be
the first half of a pair. -/
def unescape : List UInt8 → Option (List UInt8)
  | [] => some []
  | 0x5c :: 0x75 :: a :: b :: c :: d :: rest => do
    let n ← unit? a b c d
    if isHighHalf n then
      match rest with
      | 0x5c :: 0x75 :: a :: b :: c :: d :: rest =>
        return (← pair? n (← unit? a b c d)) ++ (← unescape rest)
      | _ => none
    else return (← unitBytes? n) ++ (← unescape rest)
  | 0x5c :: e :: rest => do return (← shortEscape? e) :: (← unescape rest)
  | b :: rest => do return b :: (← unescape rest)

def text? (raw : List UInt8) : Option String := do
  return String.ofList (← Text.Utf8.decode (← unescape raw))

def digit? (b : UInt8) : Option Nat :=
  if 0x30 ≤ b.toNat ∧ b.toNat ≤ 0x39 then some (b.toNat - 0x30) else none

def cutDigits : List UInt8 → List Nat × List UInt8
  | [] => ([], [])
  | b :: rest =>
    match digit? b with
    | some d => let (ds, rest) := cutDigits rest; (d :: ds, rest)
    | none => ([], b :: rest)

def cutWhole (bytes : List UInt8) : Option (List Nat × List UInt8) :=
  match cutDigits bytes with
  | ([], _) => none
  | (0 :: _ :: _, _) => none
  | cut => some cut

def cutSome (bytes : List UInt8) : Option (List Nat × List UInt8) :=
  match cutDigits bytes with
  | ([], _) => none
  | cut => some cut

/-- The digits behind a point; none are there without one. -/
def cutFraction : List UInt8 → Option (List Nat × List UInt8)
  | 0x2e :: rest => cutSome rest
  | rest => some ([], rest)

def cutExponent : List UInt8 → Option (Option (Bool × List Nat) × List UInt8)
  | e :: rest =>
    if e == 0x65 || e == 0x45 then
      match rest with
      | 0x2d :: rest => (cutSome rest).map fun (ds, rest) => (some (true, ds), rest)
      | 0x2b :: rest => (cutSome rest).map fun (ds, rest) => (some (false, ds), rest)
      | rest => (cutSome rest).map fun (ds, rest) => (some (false, ds), rest)
    else some (none, e :: rest)
  | [] => some (none, [])

def cutMagnitude (negative : Bool) (bytes : List UInt8) :
    Option (Number.Literal × List UInt8) := do
  let (whole, rest) ← cutWhole bytes
  let (fraction, rest) ← cutFraction rest
  let (exponent, rest) ← cutExponent rest
  return (⟨negative, whole, fraction, exponent⟩, rest)

def cutLiteral : List UInt8 → Option (Number.Literal × List UInt8)
  | 0x2d :: rest => cutMagnitude true rest
  | bytes => cutMagnitude false bytes

def cutToken : List UInt8 → Token × List UInt8
  | 0x5b :: rest => (.openArray, rest)
  | 0x5d :: rest => (.closeArray, rest)
  | 0x7b :: rest => (.openObject, rest)
  | 0x7d :: rest => (.closeObject, rest)
  | 0x2c :: rest => (.comma, rest)
  | 0x3a :: rest => (.colon, rest)
  | 0x6e :: 0x75 :: 0x6c :: 0x6c :: rest => (.null, rest)
  | 0x74 :: 0x72 :: 0x75 :: 0x65 :: rest => (.bool true, rest)
  | 0x66 :: 0x61 :: 0x6c :: 0x73 :: 0x65 :: rest => (.bool false, rest)
  | 0x22 :: rest =>
    match cutText rest with
    | some (raw, rest) => (.text raw, rest)
    | none => (.bad, [])
  | bytes =>
    match cutLiteral bytes with
    | some (literal, rest) => (.number literal, rest)
    | none => (.bad, [])

def isBlank (b : UInt8) : Bool := b == 0x20 || b == 0x09 || b == 0x0a || b == 0x0d

/-- Every token takes a byte, so the length of the input is fuel enough. -/
def scan : Nat → List UInt8 → List Token
  | 0, _ => []
  | fuel + 1, bytes =>
    match bytes.dropWhile isBlank with
    | [] => []
    | b :: rest =>
      match cutToken (b :: rest) with
      | (.bad, _) => [.bad]
      | (token, rest) => token :: scan fuel rest

def tokens (bytes : List UInt8) : List Token := scan bytes.length bytes

end PlanWire.Json
