import Pagesmith.Text.Blank

/-!
# Texts as lists of characters

Searching, cutting and replacing.  Everything here looks at a text from the left and takes the
first occurrence of what it searches for.

* `cut`: the text before and after the first occurrence of a separator.
* `split`, `join`: `join sep (split sep s) = s` for a non-empty separator.
* `replaceAll`: every occurrence, from the left, without overlap.
* `byteSize`, `indexOfBytes?`: measures in UTF-8 bytes, the unit of columns and offsets.
-/

namespace Pagesmith.Text

/-- `s` without a leading `p`. -/
def dropLeading (p s : List Char) : List Char :=
  if p.isPrefixOf s then s.drop p.length else s

/-- `s` without a trailing `p`. -/
def dropTrailing (p s : List Char) : List Char :=
  if p.isSuffixOf s then s.take (s.length - p.length) else s

/-- `s` without the characters of a class at both ends. -/
def trimWhere (p : Char → Bool) (s : List Char) : List Char :=
  ((s.dropWhile p).reverse.dropWhile p).reverse

/-- What stands before and after the first occurrence of `sep`. -/
def cut (sep : List Char) : List Char → Option (List Char × List Char)
  | [] => if sep.isEmpty then some ([], []) else none
  | c :: cs =>
    if sep.isPrefixOf (c :: cs) then some ([], (c :: cs).drop sep.length)
    else (cut sep cs).map fun (before, after) => (c :: before, after)

/-- Whether `p` occurs in the text. -/
def contains (p s : List Char) : Bool := (cut p s).isSome

/-- The text up to the first separator, and the pieces after it, where `skip` characters of a
separator remain to be passed over. -/
def splitFrom (sep : List Char) (skip : Nat) : List Char → List Char × List (List Char)
  | [] => ([], [])
  | c :: cs =>
    match skip with
    | k + 1 => splitFrom sep k cs
    | 0 =>
      if sep.isPrefixOf (c :: cs) then
        let (piece, pieces) := splitFrom sep (sep.length - 1) cs
        ([], piece :: pieces)
      else
        let (piece, pieces) := splitFrom sep 0 cs
        (c :: piece, pieces)

/-- The pieces of a text between the occurrences of a non-empty separator. -/
def split (sep s : List Char) : List (List Char) :=
  let (piece, pieces) := splitFrom sep 0 s
  piece :: pieces

/-- The pieces with `sep` between them. -/
def join (sep : List Char) : List (List Char) → List Char
  | [] => []
  | [p] => p
  | p :: ps => p ++ sep ++ join sep ps

/-- Every occurrence of a non-empty `old` replaced, where `skip` characters of an occurrence
remain to be passed over. -/
def replaceFrom (old new : List Char) (skip : Nat) : List Char → List Char
  | [] => []
  | c :: cs =>
    match skip with
    | k + 1 => replaceFrom old new k cs
    | 0 =>
      if old.isPrefixOf (c :: cs) then new ++ replaceFrom old new (old.length - 1) cs
      else c :: replaceFrom old new 0 cs

/-- Every occurrence of `old`, from the left and without overlap, replaced.  The empty text occurs
before every character and at the end. -/
def replaceAll (old new s : List Char) : List Char :=
  if old.isEmpty then s.flatMap (fun c => new ++ [c]) ++ new else replaceFrom old new 0 s

def byteSize (s : List Char) : Nat := s.foldl (fun n c => n + c.utf8Size) 0

/-- The byte offset of the first occurrence of `p`. -/
def indexOfBytes? (p s : List Char) : Option Nat := (cut p s).map fun (before, _) => byteSize before

def countChar (c : Char) (s : List Char) : Nat := s.foldl (fun n d => if d == c then n + 1 else n) 0

/-- `n` copies of a character. -/
def rep (n : Nat) (c : Char) : List Char := List.replicate n c

def isLetter (c : Char) : Bool := ('a' ≤ c && c ≤ 'z') || ('A' ≤ c && c ≤ 'Z')

def isDigit (c : Char) : Bool := '0' ≤ c && c ≤ '9'

/-- A letter, a digit, a hyphen or an underscore. -/
def isNameChar (c : Char) : Bool := isLetter c || isDigit c || c == '-' || c == '_'

def isHexDigit (c : Char) : Bool := isDigit c || ('a' ≤ c && c ≤ 'f') || ('A' ≤ c && c ≤ 'F')

/-- The value of a hexadecimal digit, zero for any other character. -/
def hexValue (c : Char) : Nat :=
  if isDigit c then c.toNat - 48
  else if 'a' ≤ c && c ≤ 'f' then c.toNat - 87
  else if 'A' ≤ c && c ≤ 'F' then c.toNat - 55
  else 0

/-- The lower case of an ASCII letter, any other character as it is. -/
def lowerAscii (c : Char) : Char := if 'A' ≤ c && c ≤ 'Z' then Char.ofNat (c.toNat + 32) else c

/-- Equality of texts up to the case of ASCII letters. -/
def eqFold (a b : List Char) : Bool := a.map lowerAscii == b.map lowerAscii

/-- The lower-case ASCII letter that a character agrees with up to case, if there is one, else the
character itself.  The long s and the Kelvin sign agree with letters of ASCII. -/
def foldChar (c : Char) : Char :=
  if c == '\u017f' then 's' else if c == '\u212a' then 'k' else lowerAscii c

/-- Whether a text is one of some lower-case ASCII words up to case. -/
def isWordOf (words : List String) (s : List Char) : Bool :=
  words.any fun w => w.toList == s.map foldChar

end Pagesmith.Text
