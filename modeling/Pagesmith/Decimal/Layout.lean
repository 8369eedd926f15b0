import Pagesmith.Decimal.Shortest
import Pagesmith.Decimal.Word

/-!
# Layouts of decimals

Where a decimal is written with a plain point and where with an exponent.

* `Layout`: the range of plain numbers and the width of an exponent.
* `Layout.general`: the layout of texts and messages.
* `Layout.json`: the layout of JSON numbers.
* `fixedPlaces`: a given number of places after the point.
-/

namespace Pagesmith

/-- A number whose decimal point stands at `point` is written plainly if `least ≤ point` and
`point ≤ most`; any other has an exponent of at least `width` digits. -/
structure Layout where
  least : Int
  most : Int
  width : Nat

namespace Layout

/-- Plain from `0.0001` to below a million, two digits of exponent. -/
def general : Layout := ⟨-3, 6, 2⟩

/-- Plain from `0.000001` to below `1e21`, no zeros before the exponent. -/
def json : Layout := ⟨-5, 21, 1⟩

end Layout

def digitChar (d : Nat) : Char := Char.ofNat (48 + d)

namespace Decimal

def plain (d : Decimal) : List Char :=
  let cs := d.digits.map digitChar
  if d.point ≤ 0 then '0' :: '.' :: List.replicate (-d.point).toNat '0' ++ cs
  else
    let n := d.point.toNat
    if cs.length ≤ n then cs ++ List.replicate (n - cs.length) '0'
    else cs.take n ++ '.' :: cs.drop n

/-- The decimal with an exponent of at least `width` digits. -/
def scientific (width : Nat) (d : Decimal) : List Char :=
  let cs := d.digits.map digitChar
  let e := d.point - 1
  let ds := Nat.toDigits 10 e.natAbs
  let lead := cs.take 1 ++ if 1 < cs.length then '.' :: cs.drop 1 else []
  lead ++ 'e' :: (if e < 0 then '-' else '+')
    :: (List.replicate (width - ds.length) '0' ++ ds)

def write (l : Layout) (d : Decimal) : List Char :=
  if l.least ≤ d.point && d.point ≤ l.most then d.plain else d.scientific l.width

end Decimal

def isNegative (x : Float) : Bool := x.toBits.toNat / intBound == 1

def isFinite (x : Float) : Bool :=
  x.toBits.toNat / Binary.fractionCount % Binary.scaleCount + 1 != Binary.scaleCount

/-- A finite float in a layout; zero keeps its sign. -/
def finiteText (l : Layout) (x : Float) : List Char :=
  let sign := if isNegative x then ['-'] else []
  if x == 0 then sign ++ ['0'] else sign ++ (Binary.ofFloat x).shortest.write l

def floatText (x : Float) : String :=
  if isFinite x then String.ofList (finiteText .general x)
  else if x == x then (if isNegative x then "-Inf" else "+Inf")
  else "NaN"

/-- A finite float with a given number of places after the point. -/
def fixedPlaces (places : Nat) (x : Float) : String :=
  let n := if x == 0 then 0 else (Binary.ofFloat x).rounded places
  let ds := Nat.toDigits 10 n
  let ds := List.replicate (places + 1 - ds.length) '0' ++ ds
  let whole := ds.take (ds.length - places)
  let sign := if isNegative x then ['-'] else []
  String.ofList (sign ++ whole ++ if places = 0 then [] else '.' :: ds.drop (ds.length - places))

end Pagesmith
