import Pagesmith.Decimal.Layout

/-!
# Arithmetic of numbers

A power is computed by squaring the mantissa, so that powers with whole exponents are as exact as
the multiplications they consist of.

* `truncate`: the integer part of a float.
* `power`: a float to the power of another.
-/

namespace Pagesmith

/-- The integer part of a float; one without an integer part of 64 bits gives the least integer. -/
def truncate (x : Float) : Int :=
  if !isFinite x then leastInt
  else if x == 0 then 0
  else
    let b := Binary.ofFloat x
    let n : Int := (b.num / b.den : Nat)
    let n := if isNegative x then -n else n
    if leastInt ≤ n && n < intBound then n else leastInt

def isOddWhole (x : Float) : Bool :=
  if !isFinite x || x == 0 then false
  else
    let b := Binary.ofFloat x
    b.num % b.den == 0 && b.num / b.den % 2 == 1

/-- `product * factor ^ n`, where the numbers are mantissas with binary exponents; each squaring
halves `n`.  An exponent out of all bounds ends the loop. -/
def powerLoop (product : Float) (productExp : Int) (factor : Float) (factorExp : Int) :
    Nat → Nat → Float × Int
  | 0, _ => (product, productExp)
  | _ + 1, 0 => (product, productExp)
  | fuel + 1, n =>
    if factorExp < -4096 || 4096 < factorExp then (product, productExp + factorExp)
    else
      let (product, productExp) :=
        if n % 2 = 1 then (product * factor, productExp + factorExp) else (product, productExp)
      let factor := factor * factor
      let factorExp := factorExp * 2
      let (factor, factorExp) :=
        if factor < 0.5 then (factor + factor, factorExp - 1) else (factor, factorExp)
      powerLoop product productExp factor factorExp fuel (n / 2)

/-- A finite, non-zero float to the power of a finite one. -/
def finitePower (x y : Float) : Float :=
  let size := y.abs
  let whole := size.floor
  let part := size - whole
  if part != 0 && x < 0 then 0 / 0
  else if 9.223372036854775808e18 ≤ whole then
    if x == -1 then 1 else if (x.abs < 1) == (0 < y) then 0 else 1 / 0
  else
    let (part, whole) := if 0.5 < part then (part - 1, whole + 1) else (part, whole)
    let start := if part != 0 then Float.exp (part * Float.log x) else 1
    let (m, e) := x.frExp
    let (product, exponent) := powerLoop start 0 m e 64 (truncate whole).toNat
    if y < 0 then (1 / product).scaleB (-exponent) else product.scaleB exponent

def power (x y : Float) : Float :=
  let infinite (z : Float) : Bool := !isFinite z && z == z
  if y == 0 || x == 1 then 1
  else if y == 1 then x
  else if x != x || y != y then 0 / 0
  else if x == 0 then
    if y < 0 then (if isNegative x && isOddWhole y then -(1 / 0) else 1 / 0)
    else if isNegative x && isOddWhole y then x
    else 0
  else if infinite y then
    if x == -1 then 1 else if (x.abs < 1) == (0 < y) then 0 else 1 / 0
  else if infinite x then
    let odd := isNegative x && isOddWhole y
    if y < 0 then (if odd then -0.0 else 0) else if odd then -(1 / 0) else 1 / 0
  else if y == 0.5 then x.sqrt
  else if y == -0.5 then 1 / x.sqrt
  else finitePower x y

end Pagesmith
