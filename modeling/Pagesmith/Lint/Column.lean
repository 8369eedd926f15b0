import Pagesmith.Text.Basic

/-!
# Columns of class names

Where a class name stands on a line of a page: in a class attribute as a word of its own, else as a
marker, else anywhere.

* `tokenOffset?`: the first whole word that a text has of a name.
* `classColumn`: the column of a class name, zero if the line does not have it.
-/

namespace Pagesmith.Lint

open Pagesmith.Text

def isWordSpace (c : Char) : Bool := c == ' ' || c == '\t' || c == '\n' || c == '\r'

/-- Whether a word may end where a character stands, or where there is none. -/
def isWordEnd : Option Char → Bool
  | none => true
  | some c => isWordSpace c

/-- The byte offset of the first whole word in a text that follows a character. -/
def tokenFrom (name : List Char) (before : Option Char) (offset : Nat) : List Char → Option Nat
  | [] => if name.isEmpty && isWordEnd before then some offset else none
  | c :: cs =>
    if name.isPrefixOf (c :: cs) && isWordEnd before
        && isWordEnd ((c :: cs).drop name.length).head? then some offset
    else tokenFrom name (some c) (offset + c.utf8Size) cs

/-- The byte offset of the first whole word of a name in a text. -/
def tokenOffset? (s name : List Char) : Option Nat := tokenFrom name none 0 s

def isQuote (c : Char) : Bool := c == '"' || c == '\''

/-- The byte offset and the text of the first quoted class attribute of a line. -/
def classAttribute? (line : List Char) : Option (Nat × List Char) :=
  match cut "class=".toList line with
  | none => none
  | some (before, after) =>
    let lead := after.takeWhile fun c => !isQuote c
    match after.drop lead.length with
    | [] => none
    | _ :: rest =>
      some (byteSize before + "class=".length + byteSize lead + 1,
        rest.takeWhile fun c => !isQuote c)

/-- The byte offset of a name in the first class attribute of a line. -/
def attributeOffset? (line name : List Char) : Option Nat :=
  match classAttribute? line with
  | none => none
  | some (start, names) => (tokenOffset? names name).map (start + ·)

def classColumn (line name : List Char) : Nat :=
  match attributeOffset? line name with
  | some i => i + 1
  | none =>
    match indexOfBytes? ('@' :: name) line with
    | some i => i + 2
    | none =>
      match indexOfBytes? name line with
      | some i => i + 1
      | none => 0

end Pagesmith.Lint
