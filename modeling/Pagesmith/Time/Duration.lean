import Pagesmith.Decimal.Word
import Pagesmith.Text.Quoted
import Pagesmith.Text.Utf8

/-!
# Durations

A duration is a signed number of nanoseconds.  It is written as numbers with units, such as `1h15m`
or `1.5s`.

* `DurationError`: why a text is no duration.
* `readDuration`: the nanoseconds of a text.
-/

namespace Pagesmith.Time

open Pagesmith.Text

inductive DurationError where
  | malformed (text : String)
  | missingUnit (text : String)
  | unknownUnit (unit text : String)
  deriving DecidableEq, Repr

/-- A text between double quotes, where every byte outside of the visible ASCII characters is
written by its number. -/
def quotedBytes (s : String) : String :=
  String.ofList ('"' :: s.toList.flatMap (fun c =>
    if c = '"' || c = '\\' then ['\\', c]
    else if c.toNat < 0x20 || 0x80 ≤ c.toNat then
      (encodeChar c).flatMap fun b => '\\' :: 'x' :: hexDigits 2 b
    else [c]) ++ ['"'])

def DurationError.message : DurationError → String
  | .malformed s => "time: invalid duration " ++ quotedBytes s
  | .missingUnit s => "time: missing unit in duration " ++ quotedBytes s
  | .unknownUnit u s => "time: unknown unit " ++ quotedBytes u ++ " in duration " ++ quotedBytes s

def unitOf? (name : String) : Option Nat :=
  match name with
  | "ns" => some 1
  | "us" | "µs" | "μs" => some 1000
  | "ms" => some 1000000
  | "s" => some 1000000000
  | "m" => some 60000000000
  | "h" => some 3600000000000
  | _ => none

/-- The largest number of nanoseconds on the way to a duration. -/
def durationBound : Nat := intBound

/-- The digits after a point as a number and the power of ten that divides it.  Digits that would
not fit are dropped. -/
def readFraction (digits : List Char) : Nat × Nat :=
  let (x, scale, _) := digits.foldl (fun (x, scale, full) c =>
    let y := x * 10 + hexValue c
    if full || (durationBound - 1) / 10 < x || durationBound < y then (x, scale, true)
    else (y, scale * 10, false)) (0, 1, false)
  (x, scale)

def fractionOf (digits : List Char) (unit : Nat) : Nat :=
  let (x, scale) := readFraction digits
  (x.toFloat * (unit.toFloat / scale.toFloat)).toUInt64.toNat

/-- The nanoseconds of the numbers with units that a text consists of, on top of others. -/
def readParts (whole : String) : Nat → Nat → List Char → Except DurationError Nat
  | _, total, [] => .ok total
  | 0, _, _ => .error (.malformed whole)
  | fuel + 1, total, s =>
    let digits := s.takeWhile isDigit
    let (fraction, rest) := match s.dropWhile isDigit with
      | '.' :: r => (r.takeWhile isDigit, r.dropWhile isDigit)
      | r => ([], r)
    let n := digits.foldl (fun n c => n * 10 + hexValue c) 0
    if digits.isEmpty && fraction.isEmpty || durationBound < n then .error (.malformed whole)
    else
      let name := rest.takeWhile fun c => c != '.' && !isDigit c
      if name.isEmpty then .error (.missingUnit whole)
      else
        match unitOf? (String.ofList name) with
        | none => .error (.unknownUnit (String.ofList name) whole)
        | some unit =>
          if durationBound / unit < n then .error (.malformed whole)
          else
            let total := total + n * unit + fractionOf fraction unit
            if durationBound < total then .error (.malformed whole)
            else readParts whole fuel total (rest.drop name.length)

def readDuration (s : String) : Except DurationError Int :=
  let (negative, body) := match s.toList with
    | '-' :: r => (true, r)
    | '+' :: r => (false, r)
    | r => (false, r)
  if body = ['0'] then .ok 0
  else if body.isEmpty then .error (.malformed s)
  else
    match readParts s body.length 0 body with
    | .error e => .error e
    | .ok n =>
      if negative then .ok (-(n : Int))
      else if n < durationBound then .ok n
      else .error (.malformed s)

end Pagesmith.Time
