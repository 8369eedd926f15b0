import Pagesmith.Html.Entity.Table
import Pagesmith.Text.Basic

/-!
# Character references

In text and in attribute values, `&amp;`, `&#38;` and `&#x26;` stand for a character.

* `numbered`: the character of a code point, with the replacements for the codes that no character
  has.
* `reference`: what an ampersand and the text after it stand for.
* `unescape`: a text with its references replaced.
-/

namespace Pagesmith.Html

open Pagesmith.Text

/-- The characters that the code points from 0x80 to 0x9f stand for. -/
def c1Replacements : List Nat := [
  0x20ac, 0x81, 0x201a, 0x192, 0x201e, 0x2026, 0x2020, 0x2021, 0x2c6, 0x2030, 0x160, 0x2039, 0x152,
  0x8d, 0x17d, 0x8f, 0x90, 0x2018, 0x2019, 0x201c, 0x201d, 0x2022, 0x2013, 0x2014, 0x2dc, 0x2122,
  0x161, 0x203a, 0x153, 0x9d, 0x17e, 0x178]

def replacementChar : Char := '�'

def numbered (n : Int) : Char :=
  if 0x80 ≤ n && n ≤ 0x9f then Char.ofNat (c1Replacements.getD (n.toNat - 0x80) 0)
  else if n ≤ 0 || 0x10ffff < n || (0xd800 ≤ n && n ≤ 0xdfff) then replacementChar
  else Char.ofNat n.toNat

/-- The value of digits in a base, as a signed number of 32 bits. -/
def codeOf (base : Nat) (digits : List Char) : Int :=
  digits.foldl (fun n d => (n * base + hexValue d).bmod 0x100000000) 0

/-- A numbered reference after its number sign: the character and the length of the text.  One
decimal digit needs a semicolon after it, and a semicolon alone counts as a hexadecimal number. -/
def numberedReference? (s : List Char) : Option (Char × Nat) :=
  let read (base lead least : Nat) (isDigit : Char → Bool) : Option (Char × Nat) :=
    let digits := (s.drop lead).takeWhile isDigit
    let rest := s.drop (lead + digits.length)
    let n := if rest.head? = some ';' then digits.length + 1 else digits.length
    if n < least then none else some (numbered (codeOf base digits), lead + n)
  match s with
  | 'x' :: _ | 'X' :: _ => read 16 1 1 isHexDigit
  | _ => read 10 0 2 isDigit

def named? (name : List Char) : Option (List Char) := named.lookup (String.ofList name)

def looseNamed? (name : List Char) : Option (List Char) :=
  if looseNames.contains (String.ofList name) then named? name else none

/-- The longest name of at most `n` characters, and at least two, that a text starts with. -/
def looseStart? (s : List Char) : Nat → Option (List Char × Nat)
  | 0 => none
  | n + 1 =>
    if n = 0 then none
    else
      match looseNamed? (s.take (n + 1)) with
      | some cs => some (cs, n + 1)
      | none => looseStart? s n

inductive Place where
  | text
  | attribute
  deriving DecidableEq, Repr

/-- The most characters of a name without a semicolon. -/
def longestLooseName : Nat := 6

/-- What an ampersand and the text after it stand for, and how much of that text it takes.  In text
a name may also be the start of a longer word; in an attribute it may not come before an equals
sign. -/
def reference (place : Place) (s : List Char) : List Char × Nat :=
  match s with
  | '#' :: rest =>
    match numberedReference? rest with
    | some (c, n) => ([c], n + 1)
    | none => (['&'], 0)
  | _ =>
    let name := s.takeWhile fun c => isLetter c || isDigit c
    let rest := s.drop name.length
    let closed := rest.head? = some ';'
    let n := if closed then name.length + 1 else name.length
    let plain := ('&' :: s.take n, n)
    if place = .attribute && !closed && rest.head? = some '=' then plain
    else
      match if closed then named? name else looseNamed? name with
      | some cs => (cs, n)
      | none =>
        if place = .attribute then plain
        else
          match looseStart? name (min (n - 1) longestLooseName) with
          | some found => found
          | none => plain

def unescape (place : Place) : List Char → List Char
  | [] => []
  | c :: cs =>
    if c = '&' then (reference place cs).1 ++ unescape place (cs.drop (reference place cs).2)
    else c :: unescape place cs
termination_by s => s.length
decreasing_by all_goals simp only [List.length_drop, List.length_cons]; omega

def unifyLines : List Char → List Char
  | [] => []
  | '\r' :: '\n' :: cs => '\n' :: unifyLines cs
  | c :: cs => (if c = '\r' then '\n' else c) :: unifyLines cs

end Pagesmith.Html
