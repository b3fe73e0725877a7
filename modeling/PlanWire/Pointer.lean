import PlanWire.Json.Basic
import PlanWire.Text.Parts

/-!
# Pointers

A pointer names a position in a tree. Behind its leading slash it lists tokens
between slashes; in a token `~1` stands for a slash and `~0` for a tilde. A
text without a leading slash is taken for the empty pointer. A token is the
name of a member of an object, or the index of an item of an array in decimal,
with or without a plus sign.
-/

set_option autoImplicit false

namespace PlanWire.Pointer

def replaceTilde (digit letter : Char) : List Char → List Char
  | '~' :: d :: rest =>
    if d = digit then letter :: replaceTilde digit letter rest
    else '~' :: replaceTilde digit letter (d :: rest)
  | c :: rest => c :: replaceTilde digit letter rest
  | [] => []

def unescape (token : List Char) : List Char := replaceTilde '0' '~' (replaceTilde '1' '/' token)

def tokens (pointer : String) : List String :=
  match pointer.toList with
  | '/' :: rest => (Text.pieces '/' rest).map fun token => String.ofList (unescape token)
  | _ => []

/-- The index written by a token, unless 64 bits cannot hold it. -/
def index? (token : String) : Option Nat := Text.unsigned? token.toList

def child? (token : String) : Json → Option Json
  | .obj members => Dict.get? token members
  | .arr items => do items[← index? token]?
  | _ => none

end PlanWire.Pointer
