import Pagesmith.Text.Basic

/-!
# Moments

A date with a time of day and the distance of its zone from the universal one.

* `readMoment?`: a moment from its text, `2001-12-14`, `2001-12-14 21:59:43.10` or
  `2001-12-14T21:59:43.10-05:00`.
* `Moment.text`: a moment in full.
* `Moment.ofSeconds`: the moment some seconds after the start of 1970.
* `Moment.stamp`, `Moment.minuteText`: a moment to the second for tools, and to the minute for
  readers.
-/

namespace Pagesmith.Time

open Pagesmith.Text

/-- A date, a time of day, and the minutes by which the zone is ahead of the universal one. -/
structure Moment where
  year : Nat
  month : Nat
  day : Nat
  hour : Nat := 0
  minute : Nat := 0
  second : Nat := 0
  nanos : Nat := 0
  offset : Int := 0
  deriving DecidableEq, Repr

def isLeap (year : Nat) : Bool := year % 4 = 0 && (year % 100 ≠ 0 || year % 400 = 0)

def daysIn (year month : Nat) : Nat :=
  if month = 2 then (if isLeap year then 29 else 28)
  else if month = 4 || month = 6 || month = 9 || month = 11 then 30
  else 31

def Moment.isValid (m : Moment) : Bool :=
  1 ≤ m.month && m.month ≤ 12 && 1 ≤ m.day && m.day ≤ daysIn m.year m.month
    && m.hour < 24 && m.minute < 60 && m.second < 60

/-! ### Reading -/

/-- A number of one or two digits. -/
def readShort? : List Char → Option (Nat × List Char)
  | a :: b :: rest =>
    if !isDigit a then none
    else if isDigit b then some (hexValue a * 10 + hexValue b, rest)
    else some (hexValue a, b :: rest)
  | [a] => if isDigit a then some (hexValue a, []) else none
  | [] => none

/-- A number of one or two digits after a character. -/
def readShortAfter? (c : Char) : List Char → Option (Nat × List Char)
  | x :: rest => if x = c then readShort? rest else none
  | [] => none

def readDate? (s : List Char) : Option (Moment × List Char) := do
  let year := s.takeWhile isDigit
  if year.length ≠ 4 then none
  let (month, rest) ← readShortAfter? '-' (s.drop 4)
  let (day, rest) ← readShortAfter? '-' rest
  return ({ year := year.foldl (fun n c => n * 10 + hexValue c) 0, month, day }, rest)

/-- The nanoseconds of a fraction of a second, from its first nine digits. -/
def readNanos (s : List Char) : Nat × List Char :=
  match s with
  | p :: d :: rest =>
    if (p = '.' || p = ',') && isDigit d then
      let digits := (d :: rest).takeWhile isDigit
      let nine := (digits ++ rep 9 '0').take 9
      (nine.foldl (fun n c => n * 10 + hexValue c) 0, (d :: rest).drop digits.length)
    else (0, s)
  | _ => (0, s)

def readClock? (c : Char) (m : Moment) (s : List Char) : Option (Moment × List Char) := do
  let (hour, rest) ← readShortAfter? c s
  let (minute, rest) ← readShortAfter? ':' rest
  let (second, rest) ← readShortAfter? ':' rest
  let (nanos, rest) := readNanos rest
  return ({ m with hour, minute, second, nanos }, rest)

def readZone? : List Char → Option Int
  | ['Z'] => some 0
  | [sign, a, b, ':', c, d] =>
    if [a, b, c, d].all isDigit then
      let hours := hexValue a * 10 + hexValue b
      let minutes := hexValue c * 10 + hexValue d
      if 24 < hours || 60 < minutes then none
      else if sign = '+' then some (hours * 60 + minutes : Nat)
      else if sign = '-' then some (-(hours * 60 + minutes : Nat))
      else none
    else none
  | _ => none

def readMoment? (s : List Char) : Option Moment := do
  let (date, rest) ← readDate? s
  let moment ← match rest with
    | [] => some date
    | ' ' :: _ => do
      let (m, rest) ← readClock? ' ' date rest
      if rest.isEmpty then some m else none
    | c :: _ => do
      if c ≠ 'T' && c ≠ 't' then none
      let (m, rest) ← readClock? c date rest
      let offset ← readZone? rest
      pure { m with offset }
  if moment.isValid then some moment else none

/-! ### Writing -/

/-- A number with zeros before it. -/
def padded (width n : Nat) : String :=
  let ds := (toString n).toList
  String.ofList (rep (width - ds.length) '0' ++ ds)

/-- The fraction of a second with a point before it, if there is any. -/
def fractionText (nanos : Nat) : String :=
  let ds := ((padded 9 nanos).toList.reverse.dropWhile (· == '0')).reverse
  if ds.isEmpty then "" else "." ++ String.ofList ds

def zoneText (offset : Int) : String :=
  (if offset < 0 then "-" else "+") ++ padded 2 (offset.natAbs / 60)
    ++ padded 2 (offset.natAbs % 60)

def Moment.dateText (m : Moment) : String :=
  padded 4 m.year ++ "-" ++ padded 2 m.month ++ "-" ++ padded 2 m.day

def Moment.clockText (m : Moment) : String :=
  padded 2 m.hour ++ ":" ++ padded 2 m.minute ++ ":" ++ padded 2 m.second

/-- A moment in full.  A zone has no name but the universal one. -/
def Moment.text (m : Moment) : String :=
  m.dateText ++ " " ++ m.clockText ++ fractionText m.nanos ++ " " ++ zoneText m.offset ++ " "
    ++ if m.offset = 0 then "UTC" else zoneText m.offset

/-- A moment of the universal zone to the second. -/
def Moment.stamp (m : Moment) : String := m.dateText ++ "T" ++ m.clockText ++ "Z"

def Moment.minuteText (m : Moment) : String :=
  m.dateText ++ " " ++ padded 2 m.hour ++ ":" ++ padded 2 m.minute

/-- The year and the day in it, some days after the start of a year. -/
def yearAfter : Nat → Nat → Nat → Nat × Nat
  | 0, year, days => (year, days)
  | fuel + 1, year, days =>
    let length := if isLeap year then 366 else 365
    if days < length then (year, days) else yearAfter fuel (year + 1) (days - length)

/-- The month and the day in it, some days after the start of a month. -/
def monthAfter (year : Nat) : Nat → Nat → Nat → Nat × Nat
  | 0, month, days => (month, days)
  | fuel + 1, month, days =>
    if days < daysIn year month then (month, days)
    else monthAfter year fuel (month + 1) (days - daysIn year month)

def Moment.ofSeconds (seconds : Nat) : Moment :=
  let days := seconds / 86400
  let (year, days) := yearAfter (days / 365 + 1) 1970 days
  let (month, days) := monthAfter year 12 1 days
  { year, month, day := days + 1
    hour := seconds / 3600 % 24, minute := seconds / 60 % 60, second := seconds % 60 }

end Pagesmith.Time
