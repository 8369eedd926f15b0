import Pagesmith.Yaml.Cursor

/-!
# Scalars

The text of a scalar, in each of the five ways to write one.

* `Gap`: blanks and ends of lines inside a scalar, and the text that they stand for.
* `readQuoted`: a scalar between quotes.
* `readPlain`: a scalar without quotes.
* `readBlock`: a scalar on lines of its own, literal or folded.
-/

namespace Pagesmith.Yaml

open Pagesmith.Text

/-! ### Gaps -/

structure Gap where
  /-- The blanks before the first end of a line, last one first. -/
  blanks : List Char := []
  broken : Bool := false
  /-- The text of the first end of a line. -/
  first : List Char := []
  /-- The text of the others. -/
  others : List Char := []
  deriving DecidableEq, Repr

/-- The text that a gap stands for: a single end of a line is a blank, and of several ones the
first counts for nothing. -/
def Gap.text (g : Gap) : List Char :=
  if !g.broken then g.blanks.reverse
  else if g.first = ['\n'] then (if g.others.isEmpty then [' '] else g.others)
  else g.first ++ g.others

/-- Reads on in a gap.  Before column `indent` of a further line there may be no tab. -/
def readGap (start : Mark) (indent : Nat) : Nat → Cursor → Gap → Except SyntaxError (Gap × Cursor)
  | 0, c, g => .ok (g, c)
  | fuel + 1, c, g =>
    match c.rest with
    | [] => .ok (g, c)
    | x :: _ =>
      if isBlank x then
        if g.broken && c.mark.column < indent && x = '\t' then
          .error (.ofCharacters .plainTab start c.mark)
        else
          readGap start indent fuel c.skip
            (if g.broken then g else { g with blanks := x :: g.blanks })
      else if isBreak x then
        let (line, next) := c.readLine
        readGap start indent fuel next
          (if g.broken then { g with others := g.others ++ line }
          else { g with blanks := [], broken := true, first := line })
      else .ok (g, c)

/-! ### Quoted scalars -/

inductive Escape where
  | char (c : Char)
  /-- A character by its code point, in a number of hexadecimal digits. -/
  | code (digits : Nat)
  deriving DecidableEq, Repr

def escapeOf? (c : Char) : Option Escape :=
  match c with
  | '0' => some (.char '\x00')
  | 'a' => some (.char '\x07')
  | 'b' => some (.char '\x08')
  | 't' | '\t' => some (.char '\t')
  | 'n' => some (.char '\n')
  | 'v' => some (.char '\x0b')
  | 'f' => some (.char '\x0c')
  | 'r' => some (.char '\r')
  | 'e' => some (.char '\x1b')
  | ' ' => some (.char ' ')
  | '"' => some (.char '"')
  | '\'' => some (.char '\'')
  | '\\' => some (.char '\\')
  | 'N' => some (.char '\u0085')
  | '_' => some (.char '\u00a0')
  | 'L' => some (.char '\u2028')
  | 'P' => some (.char '\u2029')
  | 'x' => some (.code 2)
  | 'u' => some (.code 4)
  | 'U' => some (.code 8)
  | _ => none

/-- The character of a code point, unless it is none of a text. -/
def charOfCode? (n : Nat) : Option Char :=
  if (0xd800 ≤ n && n ≤ 0xdfff) || 0x10ffff < n then none else some (Char.ofNat n)

/-- The text of an escape at a backslash, and the cursor after it. -/
def readEscape (start : Mark) (c : Cursor) : Except SyntaxError (Char × Cursor) :=
  match (c.peek? 1).bind escapeOf? with
  | none => .error (.ofCharacters .unknownEscape start c.mark)
  | some (.char x) => .ok (x, c.skipMany 2)
  | some (.code digits) =>
    let c := c.skipMany 2
    let code := c.rest.take digits
    if code.length < digits || !code.all isHexDigit then
      .error (.ofCharacters .hexEscape start c.mark)
    else
      match charOfCode? (code.foldl (fun n x => n * 16 + hexValue x) 0) with
      | none => .error (.ofCharacters .invalidEscape start c.mark)
      | some x => .ok (x, c.skipMany digits)

/-- Reads on in a scalar between quotes, whose text so far is given backwards. -/
def readQuotedFrom (start : Mark) (quote : Char) :
    Nat → Cursor → List Char → Except SyntaxError (List Char × Cursor)
  | 0, c, _ => .error (.ofCharacters .quotedEnd start c.mark)
  | fuel + 1, c, done => do
    if c.atSeparator then throw (.ofCharacters .quotedDocument start c.mark)
    match c.rest with
    | [] => throw (.ofCharacters .quotedEnd start c.mark)
    | x :: rest =>
      if x = quote then
        if quote = '\'' && rest.head? = some '\'' then
          readQuotedFrom start quote fuel (c.skipMany 2) ('\'' :: done)
        else return (done.reverse, c.skip)
      else if isBlank x || isBreak x then
        let (g, next) ← readGap start 0 c.rest.length c {}
        readQuotedFrom start quote fuel next (g.text.reverse ++ done)
      else if quote = '"' && x = '\\' then
        if (rest.head?.map isBreak).getD false then
          let (g, next) ← readGap start 0 rest.length c.skip.skipLine { broken := true }
          readQuotedFrom start quote fuel next (g.text.reverse ++ done)
        else
          let (y, next) ← readEscape start c
          readQuotedFrom start quote fuel next (y :: done)
      else readQuotedFrom start quote fuel c.skip (x :: done)

def readQuoted (quote : Char) (c : Cursor) : Except SyntaxError (List Char × Cursor) :=
  readQuotedFrom c.mark quote (c.rest.length + 1) c.skip []

/-! ### Plain scalars -/

/-- Whether a plain scalar ends before a character that is no gap. -/
def endsPlain (inFlow : Bool) (x : Char) (rest : List Char) : Bool :=
  (x = ':' && (match rest with | y :: _ => isBlank y || isBreak y | [] => true))
    || (inFlow && (x = ',' || x = '?' || x = '[' || x = ']' || x = '\x7b' || x = '\x7d'))

def plainRun (inFlow : Bool) : List Char → List Char
  | [] => []
  | x :: rest =>
    if isBlank x || isBreak x || endsPlain inFlow x rest then [] else x :: plainRun inFlow rest

/-- A plain scalar: its text, whether a line ended behind it, and the cursor after the gap. -/
structure Plain where
  text : List Char
  broken : Bool
  cursor : Cursor

/-- Reads on in a plain scalar after a gap.  Further lines of it start at column `indent` at least,
except inside brackets. -/
def readPlainFrom (start : Mark) (inFlow : Bool) (indent : Nat) :
    Nat → Cursor → Gap → List Char → Except SyntaxError Plain
  | 0, c, g, done => .ok ⟨done, g.broken, c⟩
  | fuel + 1, c, g, done => do
    let run := plainRun inFlow c.rest
    if c.atSeparator || c.sees '#' || run.isEmpty then return ⟨done, g.broken, c⟩
    let done := done ++ g.text ++ run
    let (g, next) ← readGap start indent c.rest.length (c.skipMany run.length) {}
    if (g.blanks.isEmpty && !g.broken) || (!inFlow && next.mark.column < indent) then
      return ⟨done, g.broken, next⟩
    readPlainFrom start inFlow indent fuel next g done

def readPlain (inFlow : Bool) (indent : Nat) (c : Cursor) : Except SyntaxError Plain :=
  readPlainFrom c.mark inFlow indent (c.rest.length + 1) c {} []

/-! ### Block scalars -/

/-- What becomes of the ends of lines after the last text of a block. -/
inductive Chomping where
  | strip
  | clip
  | keep
  deriving DecidableEq, Repr

def chompingOf? (x : Option Char) : Option Chomping :=
  match x with
  | some '+' => some .keep
  | some '-' => some .strip
  | _ => none

/-- The head of a block scalar: its chomping, its indentation if it is given, and the cursor after
the line. -/
def readBlockHead (start : Mark) (c : Cursor) :
    Except SyntaxError (Chomping × Option Nat × Cursor) := do
  let indentAt (c : Cursor) : Except SyntaxError (Option Nat × Cursor) :=
    match c.rest.head? with
    | some '0' => .error (.ofCharacters .zeroIndent start c.mark)
    | some x => if isDigit x then .ok (some (hexValue x), c.skip) else .ok (none, c)
    | none => .ok (none, c)
  let (chomping, indent, c) ← match chompingOf? c.rest.head? with
    | some chomping => do
      let (indent, c) ← indentAt c.skip
      pure (chomping, indent, c)
    | none => do
      let (indent, c) ← indentAt c
      match indent, chompingOf? c.rest.head? with
      | some _, some chomping => pure (chomping, indent, c.skip)
      | _, _ => pure (Chomping.clip, indent, c)
  let c := c.skipWhile isBlank
  let c := if c.sees '#' then c.skipToLineEnd else c
  if !c.atLineEnd then throw (.ofCharacters .lineEnd start c.mark)
  return (chomping, indent, c.skipLine)

/-- Past the indentation and the empty lines before a line of a block: the ends of the empty lines,
the widest indentation, and the cursor.  An `indent` of zero is not known yet. -/
def readEmptyLines (start : Mark) (indent : Nat) :
    Nat → Cursor → List Char → Nat → Except SyntaxError (List Char × Nat × Cursor)
  | 0, c, done, widest => .ok (done, widest, c)
  | fuel + 1, c, done, widest =>
    let spaces := (c.rest.takeWhile (· = ' ')).length
    let c := c.skipMany (if indent = 0 then spaces else min spaces (indent - c.mark.column))
    let widest := max widest c.mark.column
    if (indent = 0 || c.mark.column < indent) && c.sees '\t' then
      .error (.ofCharacters .tabIndent start c.mark)
    else if c.seesWhere isBreak then
      let (line, next) := c.readLine
      readEmptyLines start indent fuel next (done ++ line) widest
    else .ok (done, widest, c)

structure BlockText where
  done : List Char := []
  /-- The end of the last line. -/
  last : List Char := []
  /-- The ends of the empty lines after it. -/
  empty : List Char := []
  /-- Whether the last line started with a blank. -/
  blank : Bool := false

/-- The text with one more line.  A line that starts with a blank is never folded, nor is the line
after it. -/
def BlockText.push (b : BlockText) (literal : Bool) (line : List Char) : BlockText :=
  let blank := (line.head?.map isBlank).getD false
  let join :=
    if !literal && !b.blank && !blank && b.last = ['\n'] then
      (if b.empty.isEmpty then [' '] else [])
    else b.last
  { done := b.done ++ join ++ b.empty ++ line, blank }

def readBlockLines (start : Mark) (literal : Bool) (indent : Nat) :
    Nat → Cursor → BlockText → Except SyntaxError (BlockText × Cursor)
  | 0, c, b => .ok (b, c)
  | fuel + 1, c, b => do
    if c.mark.column ≠ indent || c.rest.isEmpty then return (b, c)
    let line := c.rest.takeWhile fun x => !isBreak x
    let b := b.push literal line
    let (last, next) := (c.skipMany line.length).readLine
    let (empty, _, next) ← readEmptyLines start indent (next.rest.length + 1) next [] 0
    readBlockLines start literal indent fuel next { b with last, empty }

/-- The text of the block that an indicator starts here, below an indentation. -/
def readBlock (literal : Bool) (parent : Int) (c : Cursor) :
    Except SyntaxError (List Char × Cursor) := do
  let start := c.mark
  let (chomping, given, c) ← readBlockHead start c.skip
  let indent := (given.map fun n => if 0 ≤ parent then parent.toNat + n else n).getD 0
  let (empty, widest, c) ← readEmptyLines start indent (c.rest.length + 1) c [] 0
  let indent := if indent = 0 then max widest (max (parent + 1).toNat 1) else indent
  let (b, c) ← readBlockLines start literal indent (c.rest.length + 1) c { empty }
  return (b.done ++ (if chomping = .strip then [] else b.last)
    ++ (if chomping = .keep then b.empty else []), c)

end Pagesmith.Yaml
