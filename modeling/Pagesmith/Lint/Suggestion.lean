import Pagesmith.Text.Utf8

/-!
# Suggestions for unknown names

A name that is not defined may be a misspelling of one that is: of the nearest by edit distance, if
it is near enough.

* `editDistance`: the least number of single-byte insertions, deletions and substitutions.
* `closest?`: the nearest defined name, the smaller one of two at the same distance.
-/

namespace Pagesmith.Lint

open Pagesmith.Text

/-- The entries of a row of distances after its first, which is `left`, from those of the row
above. -/
def rowFrom (x left : Nat) : List Nat → List Nat → List Nat
  | y :: ys, diagonal :: up :: above =>
    let d := min (min (up + 1) (left + 1)) (diagonal + if x = y then 0 else 1)
    d :: rowFrom x d ys (up :: above)
  | _, _ => []

def nextRow (x : Nat) (b : List Nat) : List Nat → List Nat
  | [] => []
  | first :: above => (first + 1) :: rowFrom x (first + 1) b (first :: above)

/-- The distances of a list from the beginnings of another, the shortest first. -/
def distanceRow (a b : List Nat) : List Nat :=
  a.foldl (fun row x => nextRow x b row) (List.range (b.length + 1))

def editDistance (a b : List Nat) : Nat := (distanceRow a b).getLast?.getD 0

def nameDistance (a b : String) : Nat := editDistance (encode a.toList) (encode b.toList)

def reach (name : String) : Nat := max 1 (name.utf8ByteSize / 3)

/-- The nearer one of two suggestions, the smaller one at the same distance. -/
def nearer (a b : Nat × String) : Nat × String :=
  if b.1 < a.1 || (b.1 == a.1 && decide (b.2 < a.2)) then b else a

/-- The defined names within reach of a name, with their distances. -/
def withinReach (name : String) (defined : List String) : List (Nat × String) :=
  (defined.map fun c => (nameDistance name c, c)).filter fun c => c.1 ≤ reach name

/-- The nearest defined name within reach. -/
def closest? (name : String) (defined : List String) : Option String :=
  match withinReach name defined with
  | [] => none
  | c :: cs => some (cs.foldl nearer c).2

end Pagesmith.Lint
