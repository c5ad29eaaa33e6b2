import Criteria.Text.Numeral

/-!
# Dates and points in time

A date is written as year, month and day with hyphens between them. A time may follow, with an
offset from universal time.

* `Moment.read?` reads what has the form of a date or of a point in time;
* `Moment.isValid` says whether the calendar has it.
-/

namespace Criteria.Yaml

/-- A point in time, or the beginning of a day. -/
structure Moment where
  year : Nat
  month : Nat
  day : Nat
  hour : Nat
  minute : Nat
  second : Nat
  /-- How far the clock is from universal time, in minutes and in either direction. -/
  offset : Nat
  deriving DecidableEq

namespace Moment

/-- Whether a year has a leap day. -/
def isLeap (year : Nat) : Bool := year % 4 == 0 && (year % 100 != 0 || year % 400 == 0)

/-- The number of days of a month. -/
def daysOf (year month : Nat) : Nat :=
  if month = 2 then (if isLeap year then 29 else 28)
  else if [4, 6, 9, 11].contains month then 30
  else 31

/-- Whether the calendar and the clock have a moment. -/
def isValid (m : Moment) : Bool :=
  1 ≤ m.year && 1 ≤ m.month && m.month ≤ 12 && 1 ≤ m.day && m.day ≤ daysOf m.year m.month &&
    m.hour < 24 && m.minute < 60 && m.second < 60 && m.offset < 24 * 60

/-- Read a number of digits between two bounds. -/
def readNumber? (least most : Nat) (text : List Char) : Option (Nat × List Char) :=
  let digits := (text.take most).takeWhile Char.isDigit
  if digits.length < least then none
  else some (Numeral.valueOf digits, text.drop digits.length)

/-- Read a mark. -/
def readMark? (mark : Char) (text : List Char) : Option (List Char) :=
  if text.head? = some mark then some (text.drop 1) else none

/-- What follows spaces and tabs. -/
def skipBlanks (text : List Char) : List Char := text.dropWhile fun c => c == ' ' || c == '\t'

/-- Read what stands between a day and its time. -/
def readSeparator? : List Char → Option (List Char)
  | 'T' :: rest | 't' :: rest => some rest
  | ' ' :: rest | '\t' :: rest => some (skipBlanks rest)
  | _ => none

/-- What follows the fraction of a second. -/
def skipFraction : List Char → List Char
  | '.' :: rest => rest.dropWhile Char.isDigit
  | rest => rest

/-- Read the offset at the end of a point in time. -/
def readOffset? (text : List Char) : Option Nat :=
  match text, skipBlanks text with
  | [], _ => some 0
  | _, ['Z'] => some 0
  | _, sign :: rest => do
    if sign ≠ '+' ∧ sign ≠ '-' then none
    let (hours, rest) ← readNumber? 1 2 rest
    if rest.isEmpty then return 60 * hours
    let (minutes, rest) ← readNumber? 2 2 (← readMark? ':' rest)
    if rest.isEmpty then return 60 * hours + minutes else none
  | _, [] => none

/-- Read a date or a point in time. -/
def read? (text : List Char) : Option Moment := do
  let (year, rest) ← readNumber? 4 4 text
  let (month, rest) ← readNumber? 1 2 (← readMark? '-' rest)
  let (day, rest) ← readNumber? 1 2 (← readMark? '-' rest)
  if rest.isEmpty then
    if text.length = 10 then return ⟨year, month, day, 0, 0, 0, 0⟩ else none
  else
    let (hour, rest) ← readNumber? 1 2 (← readSeparator? rest)
    let (minute, rest) ← readNumber? 2 2 (← readMark? ':' rest)
    let (second, rest) ← readNumber? 2 2 (← readMark? ':' rest)
    return ⟨year, month, day, hour, minute, second, ← readOffset? (skipFraction rest)⟩

example : (read? "2024-02-29".toList).map isValid = some true := by decide +kernel

example : (read? "2023-02-29 1:02:03.5 +01:00".toList).map isValid = some false := by decide +kernel

end Moment

end Criteria.Yaml
