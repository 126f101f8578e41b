import PoseFilter.Decimal.Read
import PoseFilter.Document.Value

/-!
# Dates and times in a document

A document may hold a date (`1979-05-27`), a time of day (`07:32:00.5`), or both with a `T` or a
blank between them and perhaps an offset from Greenwich (`1979-05-27T07:32:00-07:00`).  No setting
is one of these, so a moment is only recognized and kept as a table with one entry: such a table is
no number and no text, has none of the keys of a record, and is ignored where unknown keys are.

Months have their days, leap years included, and a minute may have a sixty-first second.
-/

namespace PoseFilter

namespace Document

namespace Moment

/-- A number of exactly `count` digits between two bounds, and what follows it. -/
def number? (count low high : Nat) (cs : List Char) : Option (Nat × List Char) :=
  let ds := cs.take count
  let n := Decimal.natOf ds
  if ds.length = count ∧ ds.all Char.isDigit ∧ low ≤ n ∧ n ≤ high then some (n, cs.drop count)
  else none

/-- What follows a sign that must come next. -/
def after? (sign : Char) : List Char → Option (List Char)
  | c :: rest => if c = sign then some rest else none
  | [] => none

/-- A year with a 29th of February. -/
def isLeap (year : Nat) : Bool := year % 4 = 0 ∧ (year % 100 ≠ 0 ∨ year % 400 = 0)

/-- The number of days of a month. -/
def daysIn (year month : Nat) : Nat :=
  if month = 2 then (if isLeap year then 29 else 28)
  else if month = 4 ∨ month = 6 ∨ month = 9 ∨ month = 11 then 30
  else 31

/-- What follows a date. -/
def date? (cs : List Char) : Option (List Char) := do
  let (year, cs) ← number? 4 0 9999 cs
  let cs ← after? '-' cs
  let (month, cs) ← number? 2 1 12 cs
  let cs ← after? '-' cs
  let (_, cs) ← number? 2 1 (daysIn year month) cs
  return cs

/-- What follows a fraction of a second, if there is one. -/
def skipFraction (cs : List Char) : List Char :=
  match cs with
  | '.' :: d :: rest => if d.isDigit then rest.dropWhile Char.isDigit else cs
  | _ => cs

/-- What follows a time of day. -/
def time? (cs : List Char) : Option (List Char) := do
  let (_, cs) ← number? 2 0 23 cs
  let cs ← after? ':' cs
  let (_, cs) ← number? 2 0 59 cs
  let cs ← after? ':' cs
  let (_, cs) ← number? 2 0 60 cs
  return skipFraction cs

/-- What follows hours and minutes. -/
def shift? (cs : List Char) : Option (List Char) := do
  let (_, cs) ← number? 2 0 23 cs
  let cs ← after? ':' cs
  let (_, cs) ← number? 2 0 59 cs
  return cs

/-- What follows an offset from Greenwich, if there is one. -/
def skipOffset (cs : List Char) : List Char :=
  match cs with
  | c :: rest =>
    if c = 'Z' ∨ c = 'z' then rest
    else if c = '+' ∨ c = '-' then (shift? rest).getD cs
    else cs
  | [] => []

/-- What follows the time of day that belongs to a date, if there is one. -/
def skipTime (cs : List Char) : List Char :=
  match cs with
  | c :: rest =>
    if c = 'T' ∨ c = 't' ∨ c = ' ' then ((time? rest).map skipOffset).getD cs else cs
  | [] => []

/-- What follows a moment. -/
def moment? (cs : List Char) : Option (List Char) :=
  match date? cs with
  | some rest => some (skipTime rest)
  | none => time? cs

/-- The key under which the text of a moment stands; no setting has it. -/
def key : String := "$moment"

/-- The value of a moment. -/
def toValue (text : String) : Value Float := .table [(key, .text text)]

end Moment

end Document

end PoseFilter
