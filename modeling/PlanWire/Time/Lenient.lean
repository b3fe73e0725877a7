import PlanWire.Time.Scan
import PlanWire.Wire.Codec

/-!
# Times in the lenient format

White space may stand before a number, a hyphen and a colon, and around the
offset; numbers need not have their full width; a year may have a sign, and the
colon of an offset may be missing. Each number is judged as it is read, the
date as a whole only at the end.
-/

set_option autoImplicit false

namespace PlanWire.Time.Lenient

def number (least greatest : Nat) : Scan Nat := do
  skipSpaces
  let n := value (← digits 2)
  if least ≤ n ∧ n ≤ greatest then return n else fail .outOfRange

def long (limit : Nat) : Scan Nat := fun cs => do
  let (ds, rest) ← digits cs.length cs
  if value ds < limit then return (value ds, rest) else throw .outOfRange

/-- Four digits at most, or any number with a sign. -/
def year : Scan Int := do
  skipSpaces
  match ← get with
  | '-' :: rest => set rest; return -(← long (Nat.pow 2 31 + 1) : Nat)
  | '+' :: rest => set rest; return (← long (Nat.pow 2 31) : Nat)
  | _ => return (value (← digits 4) : Nat)

def mark (c : Char) : Scan Unit := do skipSpaces; exactly c

def date : Scan Date := do
  let year ← year
  mark '-'
  let month ← number 1 12
  mark '-'
  let day ← number 1 31
  return ⟨year, month, day⟩

def clock : Scan Clock := do
  let hour ← number 0 23
  mark ':'
  let minute ← number 0 59
  mark ':'
  let second ← number 0 60
  return Clock.ofSeconds hour minute second (← fraction)

/-- What may stand between the hours and the minutes of an offset. -/
def separator : Scan Unit := fun cs => .ok ((), cs.dropWhile fun c => c = ':' || isSpace c)

def zone : Scan Int := do
  skipSpaces
  match ← get with
  | u :: t :: c :: rest =>
    if u.toUpper = 'U' ∧ t.toUpper = 'T' ∧ c.toUpper = 'C' then set rest; return 0
    else offset separator
  | _ => offset separator

def timestamp (text : String) : Except TimeFault Timestamp := do
  let read : Scan (Date × Clock × Int) := do
    let d ← date
    daySeparator
    let c ← clock
    return (d, c, ← zone)
  let ((d, c, seconds), rest) ← read text.toList
  if (rest.dropWhile isSpace).isEmpty then Timestamp.make d c seconds else throw .long

def expected : String := "an RFC 3339 formatted date and time string"

def decode : Json → Except Fault Timestamp
  | .str s => (timestamp s).mapError .time
  | j => Codec.mismatch j expected

end PlanWire.Time.Lenient
