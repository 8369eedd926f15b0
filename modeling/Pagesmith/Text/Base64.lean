import Pagesmith.Text.Basic

/-!
# Bytes as text

Bytes in groups of three, each written as four letters.  The last group may be shorter; it is filled
up with equals signs.  Ends of lines count for nothing.

* `decodeBase64?`: the bytes of a text.
-/

namespace Pagesmith.Text

/-- The six bits of a letter. -/
def sextet? (c : Char) : Option Nat :=
  if 'A' ≤ c && c ≤ 'Z' then some (c.toNat - 65)
  else if 'a' ≤ c && c ≤ 'z' then some (c.toNat - 71)
  else if isDigit c then some (c.toNat + 4)
  else if c = '+' then some 62
  else if c = '/' then some 63
  else none

def decodeGroups? : List Char → Option (List Nat)
  | [] => some []
  | [a, b, '=', '='] => do
    let a ← sextet? a
    let b ← sextet? b
    return [a * 4 + b / 16]
  | [a, b, c, '='] => do
    let a ← sextet? a
    let b ← sextet? b
    let c ← sextet? c
    return [a * 4 + b / 16, b % 16 * 16 + c / 4]
  | a :: b :: c :: d :: rest => do
    let a ← sextet? a
    let b ← sextet? b
    let c ← sextet? c
    let d ← sextet? d
    let bytes ← decodeGroups? rest
    return [a * 4 + b / 16, b % 16 * 16 + c / 4, c % 4 * 64 + d] ++ bytes
  | _ => none

def decodeBase64? (s : List Char) : Option (List Nat) :=
  decodeGroups? (s.filter fun c => c != '\n' && c != '\r')

end Pagesmith.Text
