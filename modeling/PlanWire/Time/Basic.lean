import PlanWire.Number.Text

/-!
# Times

A time is a date of the Gregorian calendar, a time of day and the distance of
the local clock from universal time. A leap second is second 59 with a
fraction of a full second and more.
-/

set_option autoImplicit false

namespace PlanWire

inductive TimeFault where
  | invalid
  | short
  | outOfRange
  | long
  /-- The moment lies outside the calendar, though its local time does not. -/
  | impossible
  deriving DecidableEq

def TimeFault.message : TimeFault → String
  | .invalid => "input contains invalid characters"
  | .short => "premature end of input"
  | .outOfRange => "input is out of range"
  | .long => "trailing input"
  | .impossible => "no possible date and time matching input"

structure Date where
  year : Int
  month : Nat
  day : Nat
  deriving DecidableEq

namespace Date

def isLeap (year : Int) : Bool := year % 4 = 0 && (year % 100 ≠ 0 || year % 400 = 0)

def daysInMonth (year : Int) (month : Nat) : Nat :=
  match month with
  | 2 => if isLeap year then 29 else 28
  | 4 | 6 | 9 | 11 => 30
  | _ => 31

def leastYear : Int := -262143

def greatestYear : Int := 262142

def exists? (d : Date) : Bool :=
  leastYear ≤ d.year && d.year ≤ greatestYear && 1 ≤ d.month && d.month ≤ 12 && 1 ≤ d.day &&
    d.day ≤ daysInMonth d.year d.month

def daysBeforeYear (year : Int) : Int :=
  let y := year - 1
  365 * y + y / 4 - y / 100 + y / 400

def daysBeforeMonth (year : Int) (month : Nat) : Nat :=
  (List.range (month - 1)).foldl (fun days m => days + daysInMonth year (m + 1)) 0

/-- Days since the first of January of the year 1. -/
def dayNumber (d : Date) : Int :=
  daysBeforeYear d.year + daysBeforeMonth d.year d.month + d.day - 1

end Date

structure Clock where
  hour : Nat
  minute : Nat
  second : Nat
  nanosecond : Nat
  deriving DecidableEq

namespace Clock

/-- A clock that may show a second numbered 60. -/
def ofSeconds (hour minute second nanosecond : Nat) : Clock :=
  if second = 60 then ⟨hour, minute, 59, 1000000000 + nanosecond⟩
  else ⟨hour, minute, second, nanosecond⟩

def secondOfDay (c : Clock) : Nat := c.hour * 3600 + c.minute * 60 + c.second

end Clock

structure Timestamp where
  date : Date
  clock : Clock
  /-- Seconds that the local clock is ahead of universal time. -/
  offset : Int
  deriving DecidableEq

namespace Timestamp

/-- Seconds since the first of January 1970, universal time. -/
def seconds (t : Timestamp) : Int :=
  (t.date.dayNumber - Date.dayNumber ⟨1970, 1, 1⟩) * 86400 + t.clock.secondOfDay - t.offset

def nanoseconds (t : Timestamp) : Nat := t.clock.nanosecond

def isPossible (t : Timestamp) : Bool :=
  let first : Timestamp := ⟨⟨Date.leastYear, 1, 1⟩, ⟨0, 0, 0, 0⟩, 0⟩
  let last : Timestamp := ⟨⟨Date.greatestYear, 12, 31⟩, ⟨23, 59, 59, 0⟩, 0⟩
  first.seconds ≤ t.seconds && t.seconds ≤ last.seconds

def make (date : Date) (clock : Clock) (offset : Int) : Except TimeFault Timestamp :=
  if date.exists? && offset.natAbs < 86400 then
    let t : Timestamp := ⟨date, clock, offset⟩
    if t.isPossible then .ok t else .error .impossible
  else .error .outOfRange

def padded (width n : Nat) : List Char :=
  let digits := Number.digitChars n
  List.replicate (width - digits.length) '0' ++ digits

def yearText (year : Int) : List Char :=
  if 0 ≤ year ∧ year ≤ 9999 then padded 4 year.natAbs
  else (if year < 0 then '-' else '+') :: padded 4 year.natAbs

/-- As few groups of three digits as hold the fraction. -/
def fractionText (nanosecond : Nat) : List Char :=
  if nanosecond = 0 then []
  else if nanosecond % 1000000 = 0 then '.' :: padded 3 (nanosecond / 1000000)
  else if nanosecond % 1000 = 0 then '.' :: padded 6 (nanosecond / 1000)
  else '.' :: padded 9 nanosecond

def clockText (c : Clock) : List Char :=
  let second := c.second + c.nanosecond / 1000000000
  padded 2 c.hour ++ ':' :: padded 2 c.minute ++ ':' :: padded 2 second ++
    fractionText (c.nanosecond % 1000000000)

def offsetText (offset : Int) : List Char :=
  let minutes := offset.natAbs / 60
  (if offset < 0 then '-' else '+') :: padded 2 (minutes / 60) ++ ':' :: padded 2 (minutes % 60)

def text (t : Timestamp) : String :=
  String.ofList (yearText t.date.year ++ '-' :: padded 2 t.date.month ++
    '-' :: padded 2 t.date.day ++ 'T' :: clockText t.clock ++ offsetText t.offset)

end Timestamp
end PlanWire
