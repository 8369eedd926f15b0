import Pagesmith.Text.Basic
import Pagesmith.Text.Utf8

/-!
# Positions in texts

Lines and columns count from one, and a column counts the bytes of its line.

* `Position.after`: the position just after some bytes.
* `Origin.locate`: where a part of a text starts in the whole.
* `Origin.inWhole`: a position in the part as one in the whole.
-/

namespace Pagesmith.Text

structure Position where
  line : Int
  column : Int
  deriving DecidableEq, Repr

namespace Position

def after (before : List Nat) : Position where
  line := (before.count '\n'.toNat : Nat) + 1
  column := (before.reverse.takeWhile (· != '\n'.toNat)).length + 1

def atOffset (s : List Char) (offset : Nat) : Position := after ((encode s).take offset)

/-- The position at an offset.  Behind the end of the text there is none. -/
def at? (s : List Char) (offset : Nat) : Option Position :=
  if offset ≤ (encode s).length then some (atOffset s offset) else none

end Position

/-- Where a part of a text starts: the lines before its line, and the bytes before it on that
line. -/
structure Origin where
  line : Nat := 0
  column : Nat := 0
  deriving DecidableEq, Repr

namespace Origin

def after (before : List Char) : Origin where
  line := countChar '\n' before
  column := byteSize (before.reverse.takeWhile (· != '\n'))

/-- Where a part first occurs in a text. -/
def locate (source part : List Char) : Origin :=
  match cut part source with
  | some (before, _) => after before
  | none => {}

/-- A position in the part as a position in the whole: only the first line of the part has text of
the whole before it. -/
def inWhole (o : Origin) (p : Position) : Position where
  line := p.line + o.line
  column := if p.line = 1 then p.column + o.column else p.column

end Origin

/-- The offset of the first occurrence of a list in another. -/
def offsetOf? (p : List Nat) : List Nat → Option Nat
  | [] => if p.isEmpty then some 0 else none
  | b :: bs => if p.isPrefixOf (b :: bs) then some 0 else (offsetOf? p bs).map (· + 1)

end Pagesmith.Text
