/-!
# White space

The characters that count as white space when a text is trimmed or cut into fields: the ASCII
ones, the two of Latin-1, and the space separators of Unicode.
-/

namespace Pagesmith.Text

/-- White space in the sense of Unicode. -/
def isBlank (c : Char) : Bool :=
  let n := c.toNat
  n == 0x20 || (0x09 ≤ n && n ≤ 0x0d) || n == 0x85 || n == 0xa0 || n == 0x1680
    || (0x2000 ≤ n && n ≤ 0x200a) || n == 0x2028 || n == 0x2029 || n == 0x202f || n == 0x205f
    || n == 0x3000

def trimStart (s : List Char) : List Char := s.dropWhile isBlank

/-- The text without the white space it ends with: a blank goes only if nothing but blanks
follows it. -/
def trimEnd : List Char → List Char
  | [] => []
  | c :: cs =>
    match trimEnd cs with
    | [] => if isBlank c then [] else [c]
    | r => c :: r

def trim (s : List Char) : List Char := trimEnd (trimStart s)

/-- The text up to the first character of a class, and the pieces between the later ones. -/
def splitWhere (p : Char → Bool) : List Char → List Char × List (List Char)
  | [] => ([], [])
  | c :: cs =>
    let (piece, pieces) := splitWhere p cs
    if p c then ([], piece :: pieces) else (c :: piece, pieces)

/-- The words of a text: its maximal runs of characters that are not white space. -/
def fields (s : List Char) : List (List Char) :=
  let (word, words) := splitWhere isBlank s
  (word :: words).filter (!·.isEmpty)

def trimmed (s : String) : String := String.ofList (trim s.toList)

end Pagesmith.Text
