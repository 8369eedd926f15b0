/-!
# Shortest decimals

A binary floating-point number is written with the fewest decimal digits that read back as the same
number; of several such decimals, with the nearest.

* `Binary`: a positive number `mantissa * 2 ^ exponent` with the neighbours it has to be told from.
* `Decimal`: digits and the position of the decimal point.
* `Binary.shortest`: the fewest digits that lie between the halfway points to the neighbours.
* `Binary.rounded`: a given number of places after the point, a half going to the even neighbour.
-/

namespace Pagesmith

/-- A positive number `mantissa * 2 ^ exponent`.  The number below it is nearer than the one above
if the mantissa is the least of its binade. -/
structure Binary where
  mantissa : Nat
  exponent : Int
  lowest : Bool
  deriving DecidableEq, Repr

/-- The number `0.d₁d₂… * 10 ^ point`. -/
structure Decimal where
  digits : List Nat
  point : Int
  deriving DecidableEq, Repr

namespace Binary

def num (b : Binary) : Nat := b.mantissa * Nat.pow 2 b.exponent.toNat

def den (b : Binary) : Nat := Nat.pow 2 (-b.exponent).toNat

def fractionCount : Nat := 0x10000000000000

/-- The number of scales that a float can have, that of infinity among them. -/
def scaleCount : Nat := 2048

/-- The magnitude of a float that is finite and not zero. -/
def ofFloat (x : Float) : Binary :=
  let bits := x.toBits.toNat
  let fraction := bits % fractionCount
  let scale : Nat := bits / fractionCount % scaleCount
  if scale = 0 then ⟨fraction, -1074, false⟩
  else ⟨fraction + fractionCount, Int.ofNat scale - 1075, fraction == 0 && 1 < scale⟩

end Binary

/-- The decimal digits of a number, the first one first. -/
def digitsOf (n : Nat) : List Nat := (Nat.toDigits 10 n).map fun c => c.toNat - 48

/-- The digits without the zeros they end in. -/
def dropTrailingZeros (ds : List Nat) : List Nat := (ds.reverse.dropWhile (· == 0)).reverse

namespace Binary

/-- The number of digits before the point, or minus the number of zeros right after it. -/
def magnitude (b : Binary) : Int :=
  let n := b.num
  let d := b.den
  if d ≤ n then (digitsOf (n / d)).length
  else
    let k := (digitsOf (d / n)).length
    if d ≤ n * Nat.pow 10 (k - 1) then 2 - (k : Int) else 1 - (k : Int)

/-- Whether `c * 10 ^ k` reads back as the number: it lies between the halfway points to the
neighbours, which belong to the even one. -/
def readsBack (b : Binary) (c : Nat) (k : Int) : Bool :=
  let value := c * Nat.pow 10 k.toNat * (4 * b.den)
  let unit := Nat.pow 2 b.exponent.toNat * Nat.pow 10 (-k).toNat
  let low := (4 * b.mantissa - if b.lowest then 1 else 2) * unit
  let high := (4 * b.mantissa + 2) * unit
  if b.mantissa % 2 = 0 then low ≤ value && value ≤ high else low < value && value < high

/-- The decimal of `n` digits that is nearest to the number among those that read back. -/
def shortestOf? (b : Binary) (n : Nat) : Option Decimal :=
  let point := b.magnitude
  let k := point - n
  let scaled := b.num * Nat.pow 10 (-k).toNat
  let unit := b.den * Nat.pow 10 k.toNat
  let below := scaled / unit
  let above := below + 1
  let make (c : Nat) : Decimal :=
    let ds := digitsOf c
    ⟨dropTrailingZeros ds, point + ((ds.length : Int) - n)⟩
  let nearerAbove := unit < 2 * (scaled % unit) || (unit == 2 * (scaled % unit) && below % 2 == 1)
  match b.readsBack below k, b.readsBack above k with
  | true, true => some (make (if nearerAbove then above else below))
  | true, false => some (make below)
  | false, true => some (make above)
  | false, false => none

/-- The shortest decimal that reads back as the number.  Seventeen digits always do. -/
def shortest (b : Binary) : Decimal :=
  ((List.range 17).findSome? fun i => b.shortestOf? (i + 1)).getD ⟨[], 0⟩

/-- The number times `10 ^ places`, rounded to an integer, a half to the even one. -/
def rounded (b : Binary) (places : Nat) : Nat :=
  let scaled := b.num * Nat.pow 10 places
  let q := scaled / b.den
  let r := scaled % b.den
  if b.den < 2 * r || (b.den == 2 * r && q % 2 == 1) then q + 1 else q

end Binary

end Pagesmith
