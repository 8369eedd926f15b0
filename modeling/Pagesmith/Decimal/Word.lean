/-!
# Words

The integers that fit into 64 bits.

* `wordCount`: how many there are.
* `intBound`: the number that all of them lie below.
* `leastInt`: the least of them.
* `wrapInt`: an integer brought back to 64 bits.
-/

namespace Pagesmith

/-- The number of values that 64 bits have. -/
def wordCount : Nat := 0x10000000000000000

/-- The least number above all integers of 64 bits. -/
def intBound : Nat := 0x8000000000000000

def leastInt : Int := -(intBound : Int)

def wrapInt (n : Int) : Int := n.bmod wordCount

end Pagesmith
