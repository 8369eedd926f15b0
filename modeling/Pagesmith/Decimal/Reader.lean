import Pagesmith.Decimal.Word
import Pagesmith.Text.Basic

/-!
# Numbers from text

* `readNat?`: the digits of a base.
* `readInt`: a signed 64-bit integer in base ten.
* `readLiteral`: a signed 64-bit integer in the base that its first characters name.
* `readFloat`: a number with an optional point and exponent, in base ten or sixteen, rounded to the
  nearest float, or one of the words for infinities and for no number.

Literals and floats may have underscores between digits.
-/

namespace Pagesmith

open Pagesmith.Text

inductive NumberError where
  | malformed
  | range
  deriving DecidableEq, Repr

def NumberError.message : NumberError → String
  | .malformed => "invalid syntax"
  | .range => "value out of range"

/-- The value of a non-empty text of digits of a base. -/
def readNat? (base : Nat) (s : List Char) : Option Nat :=
  if !s.isEmpty && s.all (fun c => isHexDigit c && hexValue c < base) then
    some (s.foldl (fun n c => n * base + hexValue c) 0)
  else none

/-- Splits a sign off a text: whether it is a minus, and the rest. -/
def splitSign : List Char → Bool × List Char
  | '-' :: s => (true, s)
  | '+' :: s => (false, s)
  | s => (false, s)

def fitInt (negative : Bool) (n : Nat) : Except NumberError Int :=
  if negative then (if n ≤ intBound then .ok (-(n : Int)) else .error .range)
  else if n < intBound then .ok n
  else .error .range

def readInt (base : Nat) (s : List Char) : Except NumberError Int :=
  let (negative, digits) := splitSign s
  match readNat? base digits with
  | some n => fitInt negative n
  | none => .error .malformed

/-! ### Literals -/

inductive NumeralPart where
  | start
  | digit
  | underscore
  | other
  deriving DecidableEq, Repr

/-- Whether every underscore stands after a digit and before one. -/
def underscoresFitFrom (hex : Bool) : NumeralPart → List Char → Bool
  | last, [] => last != .underscore
  | last, c :: cs =>
    if isDigit c || (hex && isHexDigit c) then underscoresFitFrom hex .digit cs
    else if c = '_' then last == .digit && underscoresFitFrom hex .underscore cs
    else last != .underscore && underscoresFitFrom hex .other cs

/-- The base that a letter after a zero names. -/
def baseOfMark? (c : Char) : Option Nat :=
  match lowerAscii c with
  | 'b' => some 2
  | 'o' => some 8
  | 'x' => some 16
  | _ => none

/-- Whether the underscores of a numeral stand between digits, or after the mark of a base. -/
def underscoresFit (s : List Char) : Bool :=
  match (splitSign s).2 with
  | '0' :: m :: rest =>
    match baseOfMark? m with
    | some base => underscoresFitFrom (base = 16) .digit rest
    | none => underscoresFitFrom false .start ('0' :: m :: rest)
  | rest => underscoresFitFrom false .start rest

/-- Reads digits of a base on top of a number, with underscores among them.  A number that leaves 64
bits is out of range whatever follows. -/
def readDigits (base : Nat) : Nat → List Char → Except NumberError Nat
  | n, [] => .ok n
  | n, c :: cs =>
    if c = '_' then readDigits base n cs
    else if isHexDigit c && hexValue c < base then
      let m := n * base + hexValue c
      if m < wordCount then readDigits base m cs else .error .range
    else .error .malformed

/-- An integer without sign, of up to 64 bits: in base two, eight or sixteen after the mark of the
base, in base eight after a zero, else in base ten. -/
def readLiteralNat (s : List Char) : Except NumberError Nat :=
  let n := match s with
    | [] => .error .malformed
    | '0' :: m :: d :: rest =>
      match baseOfMark? m with
      | some base => readDigits base 0 (d :: rest)
      | none => readDigits 8 0 (m :: d :: rest)
    | '0' :: rest => readDigits 8 0 rest
    | _ => readDigits 10 0 s
  if s.contains '_' && !underscoresFit s && n.toBool then .error .malformed else n

def readLiteral (s : List Char) : Except NumberError Int :=
  let (negative, body) := splitSign s
  (readLiteralNat body).bind (fitInt negative)

/-! ### Floats -/

/-- The float nearest to `digits * 10 ^ exponent`. -/
def scaleFloat (digits : Nat) (exponent : Int) : Float :=
  let size := ((Nat.toDigits 10 digits).length : Int) + exponent
  if digits = 0 || size < -400 then 0
  else if 400 < size then 1 / 0
  else if exponent < 0 then Float.ofScientific digits true exponent.natAbs
  else Float.ofScientific digits false exponent.natAbs

/-- The float nearest to `digits * 2 ^ exponent`. -/
def scaleBinary (digits : Nat) (exponent : Int) : Float :=
  let size := (digits.log2 : Int) + exponent
  if digits = 0 || size < -1200 then 0
  else if 1200 < size then 1 / 0
  else if exponent < 0 then
    Float.ofScientific (digits * Nat.pow 5 exponent.natAbs) true exponent.natAbs
  else Float.ofScientific (digits * Nat.pow 2 exponent.natAbs) false 0

/-- The exponent that a text consists of: nothing, or a mark, a sign and digits. -/
def readExponent? (mark : Char) : List Char → Option Int
  | [] => some 0
  | c :: s =>
    if lowerAscii c == mark then
      let (negative, digits) := splitSign s
      (readNat? 10 digits).map fun n => if negative then -(n : Int) else n
    else none

/-- The digits of a class before and after a point, and the rest of a text. -/
def splitPoint (p : Char → Bool) (s : List Char) : List Char × List Char × List Char :=
  match s.dropWhile p with
  | '.' :: r => (s.takeWhile p, r.takeWhile p, r.dropWhile p)
  | r => (s.takeWhile p, [], r)

/-- A number in base sixteen, which has an exponent of two. -/
def readHexFloat? (s : List Char) : Option Float :=
  let (whole, fraction, rest) := splitPoint isHexDigit s
  if rest.isEmpty then none
  else
    match readNat? 16 (whole ++ fraction), readExponent? 'p' rest with
    | some n, some e => some (scaleBinary n (e - 4 * fraction.length))
    | _, _ => none

def readDecimal? (s : List Char) : Option Float :=
  match s with
  | '0' :: x :: d :: rest =>
    if lowerAscii x = 'x' then readHexFloat? (d :: rest) else decimal
  | _ => decimal
where
  decimal : Option Float :=
    let (whole, fraction, rest) := splitPoint isDigit s
    match readNat? 10 (whole ++ fraction), readExponent? 'e' rest with
    | some n, some e => some (scaleFloat n (e - fraction.length))
    | _, _ => none

def readFloat (s : List Char) : Except NumberError Float :=
  let (negative, body) := splitSign s
  let signed (x : Float) : Float := if negative then -x else x
  let digits := body.filter (· != '_')
  match if body.contains '_' && !underscoresFit s then none else readDecimal? digits with
  | some x => if x == 1 / 0 then .error .range else .ok (signed x)
  | none =>
    let word := body.map lowerAscii
    if word = "inf".toList || word = "infinity".toList then .ok (signed (1 / 0))
    else if s.map lowerAscii = "nan".toList then .ok (0 / 0)
    else .error .malformed

end Pagesmith
