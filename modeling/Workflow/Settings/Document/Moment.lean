import Workflow.Value.Reader

/-!
Moments in a settings document: a date, a time of day, or both with a letter `T` or a blank between
them and perhaps an offset behind. A date must be one of the calendar. No setting is a moment, so
one is checked and not kept.
-/

set_option autoImplicit false

namespace Workflow.Settings.Document

/-- A number of exactly `width` digits within bounds. -/
def readField (width low high : Nat) (cs : List Char) : Option (Nat × List Char) :=
  let digits := cs.take width
  let n := Value.digitsNat digits
  if digits.length = width ∧ digits.all Char.isDigit ∧ low ≤ n ∧ n ≤ high then
    some (n, cs.drop width)
  else none

/-- What follows a given character. -/
def readMark (mark : Char) : List Char → Option (List Char)
  | c :: rest => if c = mark then some rest else none
  | [] => none

/-- Whether a year has a leap day. -/
def isLeap (year : Nat) : Bool :=
  year % 4 = 0 ∧ (year % 100 ≠ 0 ∨ year % 400 = 0)

/-- The number of days of a month. -/
def daysOf (year month : Nat) : Nat :=
  if month = 2 then if isLeap year then 29 else 28
  else if month ∈ [4, 6, 9, 11] then 30
  else 31

/-- What follows a date. -/
def readDate (cs : List Char) : Option (List Char) := do
  let (year, cs) ← readField 4 0 9999 cs
  let (month, cs) ← readField 2 1 12 (← readMark '-' cs)
  let (_, cs) ← readField 2 1 (daysOf year month) (← readMark '-' cs)
  return cs

/-- What follows a part of a second, where there is one. -/
def skipFraction : List Char → List Char
  | '.' :: rest =>
    if rest.head?.any Char.isDigit then rest.dropWhile Char.isDigit else '.' :: rest
  | cs => cs

/-- What follows a time of day. The sixtieth second of a minute may be a leap second. -/
def readTime (cs : List Char) : Option (List Char) := do
  let (_, cs) ← readField 2 0 23 cs
  let (_, cs) ← readField 2 0 59 (← readMark ':' cs)
  let (_, cs) ← readField 2 0 60 (← readMark ':' cs)
  return skipFraction cs

/-- What follows an offset from universal time. -/
def readOffset : List Char → Option (List Char)
  | c :: rest =>
    if c = 'Z' ∨ c = 'z' then some rest
    else if c = '+' ∨ c = '-' then do
      let (_, cs) ← readField 2 0 23 rest
      let (_, cs) ← readField 2 0 59 (← readMark ':' cs)
      return cs
    else none
  | [] => none

/-- What follows a time of day that stands behind a date. -/
def readTimeOfDate : List Char → Option (List Char)
  | c :: rest =>
    if c = 'T' ∨ c = 't' ∨ c = ' ' then
      (readTime rest).map fun cs => (readOffset cs).getD cs
    else none
  | [] => none

/-- What follows a moment. -/
def readMoment (cs : List Char) : Option (List Char) :=
  match readDate cs with
  | some rest => some ((readTimeOfDate rest).getD rest)
  | none => readTime cs

end Workflow.Settings.Document
