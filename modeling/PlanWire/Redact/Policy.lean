import PlanWire.Json.Basic

/-!
# Replacement policies

What a sensitive value is replaced by: a constant, or, for a string, a string
of the same length in which some characters are masked. A span policy names
characters at both ends, which it either keeps or masks. A value that is no
string has nothing to keep, so these policies replace it by a placeholder.
-/

set_option autoImplicit false

namespace PlanWire.Redact

abbrev Sanitizer := Json → Json

/-- So many characters at the start and at the end of a string. -/
structure Span where
  first : Nat
  last : Nat
  maskChar : Char

inductive Policy where
  | constant (value : Json)
  | keep (span : Span)
  | mask (span : Span)

def placeholder : Json := .str "REDACTED_SENSITIVE"

def Policy.standard : Policy := .constant placeholder

def maskWhere (hidden : Nat → Bool) (maskChar : Char) : Nat → List Char → List Char
  | _, [] => []
  | i, c :: rest => (if hidden i then maskChar else c) :: maskWhere hidden maskChar (i + 1) rest

namespace Span

/-- Shows both ends and masks what lies between them. -/
def keep (s : Span) (cs : List Char) : List Char :=
  if cs.length ≤ s.first + s.last then cs
  else maskWhere (fun i => s.first ≤ i && i < cs.length - s.last) s.maskChar 0 cs

/-- Masks both ends and shows what lies between them. -/
def mask (s : Span) (cs : List Char) : List Char :=
  maskWhere (fun i => !(min s.first cs.length ≤ i && i < cs.length - s.last)) s.maskChar 0 cs

end Span

def Policy.apply : Policy → Sanitizer
  | .constant value, _ => value
  | .keep span, .str s => .str (String.ofList (span.keep s.toList))
  | .mask span, .str s => .str (String.ofList (span.mask s.toList))
  | _, _ => placeholder

end PlanWire.Redact
