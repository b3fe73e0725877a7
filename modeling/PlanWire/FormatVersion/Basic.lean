import PlanWire.Text.Parts

/-!
# Format versions

A version has a major and a minor number and may be a prerelease, which stands
right below its release in the order. Its text may start with `v`, and may
carry a patch number, a prerelease name behind a hyphen and a build name behind
a plus sign; only whether there is a prerelease name matters.
-/

set_option autoImplicit false

namespace PlanWire

structure FormatVersion where
  major : Nat
  minor : Nat
  prerelease : Bool
  deriving DecidableEq

namespace FormatVersion

open Text (cut pieces unsigned?)

def release (major minor : Nat) : FormatVersion := ⟨major, minor, false⟩

instance : Ord FormatVersion where
  compare a b :=
    (compare a.major b.major).then
      ((compare a.minor b.minor).then (compare (!a.prerelease) (!b.prerelease)))

instance : LT FormatVersion := ltOfOrd
instance : LE FormatVersion := leOfOrd

def text (v : FormatVersion) : String := toString v.major ++ "." ++ toString v.minor

/-- Versions from `least` on and below `bound`. -/
structure Range where
  least : FormatVersion
  bound : FormatVersion

def Range.contains (r : Range) (v : FormatVersion) : Bool :=
  decide (r.least ≤ v) && decide (v < r.bound)

def numbers? (cs : List Char) : Option (Nat × Nat) :=
  match pieces '.' cs with
  | [major] => do return (← unsigned? major, 0)
  | [major, minor] => do return (← unsigned? major, ← unsigned? minor)
  | [major, minor, patch] => do
    let numbers := (← unsigned? major, ← unsigned? minor)
    let _ ← unsigned? patch
    return numbers
  | _ => none

def unmarked : List Char → List Char
  | 'v' :: rest => rest
  | cs => cs

def ofChars? (cs : List Char) : Option FormatVersion :=
  match cut '-' (cut '+' (unmarked cs)).1 with
  | (_, some []) => none
  | (core, some _) => (numbers? core).map fun (major, minor) => ⟨major, minor, true⟩
  | (core, none) => (numbers? core).map fun (major, minor) => ⟨major, minor, false⟩

def ofString? (s : String) : Option FormatVersion := ofChars? s.toList

end FormatVersion
end PlanWire
