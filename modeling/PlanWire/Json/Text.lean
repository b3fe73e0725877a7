import PlanWire.Json.Basic
import PlanWire.Number.Text
import PlanWire.Text.Utf8

/-!
# Writing JSON trees

`compact` writes no blanks. `pretty` gives every item and member a line of its
own, indented by two blanks for each container around it, and leaves empty
containers on one line. A string escapes its quotes, its backslashes and the
control characters below the blank, and nothing else.
-/

set_option autoImplicit false

namespace PlanWire.Json

def hexQuad (n : Nat) : List Char :=
  let digits := Nat.toDigits 16 n
  List.replicate (4 - digits.length) '0' ++ digits

def escapeChar (c : Char) : List Char :=
  if c = '"' then ['\\', '"']
  else if c = '\\' then ['\\', '\\']
  else if c = '\x08' then ['\\', 'b']
  else if c = '\x0c' then ['\\', 'f']
  else if c = '\n' then ['\\', 'n']
  else if c = '\r' then ['\\', 'r']
  else if c = '\t' then ['\\', 't']
  else if c.toNat < 0x20 then '\\' :: 'u' :: hexQuad c.toNat
  else [c]

def stringText (s : String) : List Char := '"' :: s.toList.flatMap escapeChar ++ ['"']

def boolText (b : Bool) : List Char :=
  if b then ['t', 'r', 'u', 'e'] else ['f', 'a', 'l', 's', 'e']

def nullText : List Char := ['n', 'u', 'l', 'l']

mutual

def compactText : Json → List Char
  | .null => nullText
  | .bool b => boolText b
  | .num n => n.text
  | .str s => stringText s
  | .arr [] => ['[', ']']
  | .arr (j :: rest) => '[' :: compactText j ++ compactItems rest
  | .obj [] => ['\x7b', '\x7d']
  | .obj ((k, j) :: rest) =>
    '\x7b' :: stringText k ++ ':' :: compactText j ++ compactMembers rest

def compactItems : List Json → List Char
  | [] => [']']
  | j :: rest => ',' :: compactText j ++ compactItems rest

def compactMembers : List (String × Json) → List Char
  | [] => ['\x7d']
  | (k, j) :: rest => ',' :: stringText k ++ ':' :: compactText j ++ compactMembers rest

end

def newLine (depth : Nat) : List Char := '\n' :: List.replicate (2 * depth) ' '

mutual

def prettyText (depth : Nat) : Json → List Char
  | .null => nullText
  | .bool b => boolText b
  | .num n => n.text
  | .str s => stringText s
  | .arr [] => ['[', ']']
  | .arr (j :: rest) =>
    '[' :: newLine (depth + 1) ++ prettyText (depth + 1) j ++ prettyItems depth rest
  | .obj [] => ['\x7b', '\x7d']
  | .obj ((k, j) :: rest) =>
    '\x7b' :: newLine (depth + 1) ++ stringText k ++ ':' :: ' ' :: prettyText (depth + 1) j ++
      prettyMembers depth rest

def prettyItems (depth : Nat) : List Json → List Char
  | [] => newLine depth ++ [']']
  | j :: rest =>
    ',' :: newLine (depth + 1) ++ prettyText (depth + 1) j ++ prettyItems depth rest

def prettyMembers (depth : Nat) : List (String × Json) → List Char
  | [] => newLine depth ++ ['\x7d']
  | (k, j) :: rest =>
    ',' :: newLine (depth + 1) ++ stringText k ++ ':' :: ' ' :: prettyText (depth + 1) j ++
      prettyMembers depth rest

end

def compact (j : Json) : String := String.ofList (compactText j)

def pretty (j : Json) : String := String.ofList (prettyText 0 j)

def bytes (j : Json) : List UInt8 := Text.Utf8.encode (compactText j)

def prettyBytes (j : Json) : List UInt8 := Text.Utf8.encode (prettyText 0 j)

end PlanWire.Json
