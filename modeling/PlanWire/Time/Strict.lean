import PlanWire.Time.Scan

/-!
# Times in the strict format

Every part has a fixed width and nothing stands around it. The date and the
clock are judged as soon as they are read. The shortest form that lacks only
its offset has nineteen bytes.
-/

set_option autoImplicit false

namespace PlanWire.Time.Strict

def number (width : Nat) : Scan Nat := fun cs =>
  let (ds, rest) := cutDigits width cs
  if ds.length = width then .ok (value ds, rest) else .error .invalid

/-- A character, of which one is always left. -/
def mark (c : Char) : Scan Unit
  | [] => .error .invalid
  | x :: rest => if x = c then .ok ((), rest) else .error .invalid

def date : Scan Date := do
  let year ← number 4
  mark '-'
  let month ← number 2
  mark '-'
  let day ← number 2
  let d : Date := ⟨year, month, day⟩
  if d.exists? then return d else fail .outOfRange

def clock : Scan Clock := do
  let hour ← number 2
  mark ':'
  let minute ← number 2
  mark ':'
  let second ← number 2
  let nanosecond ← fraction
  if hour < 24 ∧ minute < 60 ∧ second ≤ 60 then
    return Clock.ofSeconds hour minute second nanosecond
  else fail .outOfRange

def timestamp (text : String) : Except TimeFault Timestamp := do
  if text.utf8ByteSize < 19 then throw .short
  let (d, rest) ← date text.toList
  let (_, rest) ← match rest with
    | [] => throw .invalid
    | rest => daySeparator rest
  let (c, rest) ← clock rest
  let (seconds, rest) ← offset (exactly ':') rest
  if rest.isEmpty then Timestamp.make d c seconds else throw .long

end PlanWire.Time.Strict
