import Toolpath.Decimal.Numeral

/-!
# Moments of time

Dates and times are recognised and checked against the calendar. Their value is not kept, for no
setting is a moment of time.
-/

namespace Toolpath.Toml

open Decimal

def fixedDigits? (count : Nat) (cs : List Char) : Option (Nat × List Char) :=
  let ds := cs.take count
  if ds.length = count && ds.all Char.isDigit then some (ofDigits ds, cs.drop count) else none

def twoDigits? (low high : Nat) (cs : List Char) : Option (Nat × List Char) := do
  let (n, rest) ← fixedDigits? 2 cs
  if low ≤ n && n ≤ high then some (n, rest) else none

def expect? (c : Char) : List Char → Option (List Char)
  | [] => none
  | d :: rest => if d = c then some rest else none

def isLeap (year : Nat) : Bool := year % 4 = 0 && (year % 100 ≠ 0 || year % 400 = 0)

def daysOf (year month : Nat) : Nat :=
  if month = 2 then (if isLeap year then 29 else 28)
  else if month = 4 || month = 6 || month = 9 || month = 11 then 30
  else 31

def afterDate? (cs : List Char) : Option (List Char) := do
  let (year, cs) ← fixedDigits? 4 cs
  let cs ← expect? '-' cs
  let (month, cs) ← twoDigits? 1 12 cs
  let cs ← expect? '-' cs
  let (_, cs) ← twoDigits? 1 (daysOf year month) cs
  some cs

def afterFraction : List Char → List Char
  | '.' :: cs =>
    match cs.span Char.isDigit with
    | ([], _) => '.' :: cs
    | (_, rest) => rest
  | cs => cs

/-- The rest after a time of day. A minute may have a leap second. -/
def afterTime? (cs : List Char) : Option (List Char) := do
  let (_, cs) ← twoDigits? 0 23 cs
  let cs ← expect? ':' cs
  let (_, cs) ← twoDigits? 0 59 cs
  let cs ← expect? ':' cs
  let (_, cs) ← twoDigits? 0 60 cs
  some (afterFraction cs)

/-- The rest after an offset from universal time. One may be left out, but not be cut short. -/
def afterOffset? : List Char → Option (List Char)
  | [] => some []
  | c :: cs =>
    if c = 'Z' || c = 'z' then some cs
    else if c = '+' || c = '-' then do
      let (_, cs) ← twoDigits? 0 23 cs
      let cs ← expect? ':' cs
      let (_, cs) ← twoDigits? 0 59 cs
      some cs
    else some (c :: cs)

def isTimeMark (c : Char) : Bool := c = 'T' || c = 't' || c = ' '

def afterTimeOfDate? : List Char → Option (List Char)
  | [] => some []
  | c :: cs =>
    if isTimeMark c then
      match afterTime? cs with
      | some rest => afterOffset? rest
      | none => some (c :: cs)
    else some (c :: cs)

/-- The rest after a moment of time: a date with a time or without one, or a time alone. -/
def afterMoment? (cs : List Char) : Option (List Char) :=
  match afterDate? cs with
  | some rest => afterTimeOfDate? rest
  | none => afterTime? cs

end Toolpath.Toml
