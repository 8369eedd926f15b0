import Pagesmith.Yaml.Fault

/-!
# Reading a document

A cursor is what is left of a text, and the place where it starts.

* `isBlank`, `isBreak`: blanks within lines, and the ends of lines.
* `Cursor.skip`, `Cursor.skipLine`: one character or one end of a line further.
* `Cursor.skipComments`: past comments that follow each other.
-/

namespace Pagesmith.Yaml

open Pagesmith.Text

def isBlank (c : Char) : Bool := c = ' ' || c = '\t'

def isBreak (c : Char) : Bool :=
  c = '\n' || c = '\r' || c = '\u0085' || c = '\u2028' || c = '\u2029'

structure Cursor where
  rest : List Char
  mark : Mark := {}
  /-- Whether nothing but blanks stands before it in its line, which is not the first one. -/
  fresh : Bool := false
  deriving DecidableEq, Repr

namespace Cursor

def peek? (c : Cursor) (n : Nat) : Option Char := c.rest[n]?

def sees (c : Cursor) (x : Char) : Bool := c.rest.head? = some x

def seesWhere (c : Cursor) (p : Char → Bool) : Bool := (c.rest.head?.map p).getD false

/-- Whether a blank, the end of a line or the end of the text stands at a distance. -/
def isGap (c : Cursor) (n : Nat) : Bool :=
  match c.peek? n with
  | some x => isBlank x || isBreak x
  | none => true

def atLineEnd (c : Cursor) : Bool :=
  match c.rest with
  | x :: _ => isBreak x
  | [] => true

def skip (c : Cursor) : Cursor :=
  match c.rest with
  | [] => c
  | x :: rest =>
    { rest
      mark := { c.mark with index := c.mark.index + 1, column := c.mark.column + 1 }
      fresh := c.fresh && isBlank x }

def skipMany : Nat → Cursor → Cursor
  | 0, c => c
  | n + 1, c => skipMany n c.skip

def skipWhile (p : Char → Bool) (c : Cursor) : Cursor := c.skipMany (c.rest.takeWhile p).length

def skipToLineEnd (c : Cursor) : Cursor := c.skipWhile fun x => !isBreak x

/-- Past the end of a line, if one stands here, with the text that it stands for. -/
def readLine (c : Cursor) : List Char × Cursor :=
  let next (n : Nat) (rest : List Char) : Cursor :=
    { rest, mark := ⟨c.mark.index + n, c.mark.line + 1, 0⟩, fresh := true }
  match c.rest with
  | '\r' :: '\n' :: rest => (['\n'], next 2 rest)
  | x :: rest =>
    if x = '\u2028' || x = '\u2029' then ([x], next 1 rest)
    else if isBreak x then (['\n'], next 1 rest)
    else ([], c)
  | [] => ([], c)

/-- Past the end of a line, if one stands here. -/
def skipLine (c : Cursor) : Cursor := c.readLine.2

def atSeparator (c : Cursor) : Bool :=
  c.mark.column = 0 && c.isGap 3
    && (c.rest.take 3 = ['-', '-', '-'] || c.rest.take 3 = ['.', '.', '.'])

/-- How far ahead the comments of a group may be from each other. -/
def commentReach : Nat := 512

/-- Past the blanks and the ends of lines before a comment, if one follows after them. -/
def toNextComment? (c : Cursor) : Option Cursor :=
  let gap := c.rest.takeWhile fun x => isBlank x || isBreak x
  if gap.length < commentReach && c.peek? gap.length = some '#' then
    some (go gap.length c)
  else none
where
  /-- Past some blanks and ends of lines. -/
  go (fuel : Nat) (c : Cursor) : Cursor :=
    match fuel with
    | 0 => c
    | fuel + 1 =>
      if c.seesWhere isBlank then go fuel c.skip
      else if c.seesWhere isBreak then go fuel c.skipLine
      else c

/-- Past a comment that starts here, and past those that follow it, up to the end of the last line
of them. -/
def skipComments : Nat → Cursor → Cursor
  | 0, c => c
  | fuel + 1, c =>
    let c := c.skipToLineEnd
    match c.toNextComment? with
    | some next => skipComments fuel next
    | none => c

/-- Past a comment that follows in the same line, up to the end of the line. -/
def skipLineComment (c : Cursor) : Cursor :=
  let next := c.skipWhile isBlank
  if !c.fresh && next.sees '#' then next.skipToLineEnd else c

end Cursor

end Pagesmith.Yaml
