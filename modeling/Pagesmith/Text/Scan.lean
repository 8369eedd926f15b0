import Pagesmith.Text.Basic

/-!
# Lengths of quoted texts

Scanners measure what they pass over: the functions here give the number of characters up to and
with a closing mark, if there is one.
-/

namespace Pagesmith.Text

/-- The number of characters of a one-line string after its opening quote, its closing quote
included.  A backslash takes the next character with it. -/
def quotedLength? (quote : Char) : List Char → Option Nat
  | [] => none
  | '\\' :: c :: cs => if c == '\n' then none else (quotedLength? quote cs).map (· + 2)
  | c :: cs =>
    if c == quote then some 1
    else if c == '\n' || c == '\\' then none
    else (quotedLength? quote cs).map (· + 1)

/-- The number of characters up to and with the first occurrence of `stop`. -/
def throughLength? (stop : List Char) (s : List Char) : Option Nat :=
  (cut stop s).map fun (before, _) => before.length + stop.length

end Pagesmith.Text
