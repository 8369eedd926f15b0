import Pagesmith.Css.Token

/-!
# Logical lines

A rule body is read as logical lines: a line ends at a line break or a semicolon outside
parentheses and right after an opening brace, and a closing brace is a line of its own.  So a body
on one line reads like the same body spread over many.  Comments are dropped.
-/

namespace Pagesmith.Style

open Pagesmith.Css (Token Kind)

/-- A logical line: trimmed and not empty. -/
abbrev Line := List Char

def closeLine : Line := ['\x7d']

/-- The line for the text read so far, if there is any. -/
def flush (current : List Char) : List Line :=
  match Text.trim current with
  | [] => []
  | line => [line]

/-- The lines of a token list, where `current` is the text of the line being read and `parens` the
number of parentheses open in it. -/
def linesFrom (current : List Char) (parens : Nat) : List Token → List Line
  | [] => flush current
  | t :: ts =>
    match t.kind with
    | .comment => linesFrom current parens ts
    | .whitespace =>
      if t.text.any (fun c => c == '\r' || c == '\n') then
        if parens = 0 then flush current ++ linesFrom [] 0 ts
        else linesFrom (current ++ [' ']) parens ts
      else linesFrom (current ++ t.text) parens ts
    | .function | .leftParen => linesFrom (current ++ t.text) (parens + 1) ts
    | .rightParen => linesFrom (current ++ t.text) (parens - 1) ts
    | .semicolon =>
      if parens = 0 then flush (current ++ t.text) ++ linesFrom [] 0 ts
      else linesFrom (current ++ t.text) parens ts
    | .leftBrace => flush (current ++ t.text) ++ linesFrom [] 0 ts
    | .rightBrace => flush current ++ closeLine :: linesFrom [] 0 ts
    | _ => linesFrom (current ++ t.text) parens ts

def logicalLines (body : List Char) : List Line := linesFrom [] 0 (Css.tokens body)

end Pagesmith.Style
