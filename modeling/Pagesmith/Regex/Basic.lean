import Pagesmith.Text.Unicode.Case

/-!
# Patterns

Regular expressions, and whether one of them matches somewhere in a text.  A pattern is a function
on sets of positions: from the positions where it may start to those where it may end.  A set is a
list with a truth value for every position, from the start of the text to its end.

* `CharClass`: ranges of characters, possibly negated.
* `Regex`: patterns.
* `Regex.ends`: the positions where a match ends.
* `Regex.found`: whether a pattern matches a part of a text.
-/

namespace Pagesmith

structure CharClass where
  negated : Bool
  ranges : List (Char × Char)
  deriving DecidableEq, Repr

def CharClass.holds (k : CharClass) (c : Char) : Bool :=
  (k.ranges.any fun (lo, hi) => lo ≤ c && c ≤ hi) != k.negated

/-- Whether a class holds a character up to case. -/
def CharClass.holdsFolded (k : CharClass) (c : Char) : Bool :=
  let listed := { k with negated := false }
  (listed.holds c || listed.holds (Text.lowerChar c) || listed.holds (Text.upperChar c))
    != k.negated

inductive Regex where
  | empty
  | chars (k : CharClass)
  /-- A character up to its case. -/
  | folded (k : CharClass)
  | textStart
  | textEnd
  | lineStart
  | lineEnd
  | wordEdge (inside : Bool)
  | seq (a b : Regex)
  | alt (a b : Regex)
  | star (r : Regex)
  deriving Repr, Inhabited

namespace Regex

def opt (r : Regex) : Regex := .alt r .empty

def times (r : Regex) : Nat → Regex
  | 0 => .empty
  | n + 1 => .seq r (times r n)

def atMost (r : Regex) : Nat → Regex
  | 0 => .empty
  | n + 1 => opt (.seq r (atMost r n))

def isWord (c : Char) : Bool := c.isAlphanum || c == '_'

/-- The characters before and after every position of a text. -/
def gaps (before : Option Char) : List Char → List (Option Char × Option Char)
  | [] => [(before, none)]
  | c :: cs => (before, some c) :: gaps (some c) cs

/-- Repeats a growing step on a set until nothing is added, at most a number of times. -/
def saturate (f : List Bool → List Bool) : Nat → List Bool → List Bool
  | 0, m => m
  | n + 1, m =>
    let m' := m.zipWith (· || ·) (f m)
    if m' == m then m else saturate f n m'

/-- The positions where a match can end that starts in a set of positions. -/
def ends (s : List Char) : Regex → List Bool → List Bool
  | .empty, m => m
  | .chars k, m => false :: List.zipWith (fun c b => b && k.holds c) s m
  | .folded k, m => false :: List.zipWith (fun c b => b && k.holdsFolded c) s m
  | .textStart, m => edge m fun (a, _) => a.isNone
  | .textEnd, m => edge m fun (_, b) => b.isNone
  | .lineStart, m => edge m fun (a, _) => a.isNone || a == some '\n'
  | .lineEnd, m => edge m fun (_, b) => b.isNone || b == some '\n'
  | .wordEdge inside, m =>
    edge m fun (a, b) => ((a.map isWord).getD false != (b.map isWord).getD false) != inside
  | .seq a b, m => ends s b (ends s a m)
  | .alt a b, m => (ends s a m).zipWith (· || ·) (ends s b m)
  | .star r, m => saturate (ends s r) (s.length + 1) m
where
  /-- The positions of a set whose surroundings satisfy a condition. -/
  edge (m : List Bool) (p : Option Char × Option Char → Bool) : List Bool :=
    m.zipWith (fun b g => b && p g) (gaps none s)

def found (r : Regex) (s : List Char) : Bool :=
  (ends s r (List.replicate (s.length + 1) true)).any id

end Regex

end Pagesmith
