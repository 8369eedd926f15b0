import Pagesmith.Text.Scan

/-!
# Tokens of page logic

Logic is cut into tokens that tell where its statements end: brackets, semicolons, line breaks, and
the strings and comments that hide them.

* `Token`: a kind, a text and a line.
* `tokens`: the tokens of a logic block.  Their texts make up the block.
-/

namespace Pagesmith.Logic

open Pagesmith.Text

inductive Kind where
  | comment
  | string
  | number
  | ident
  | op
  | openBracket
  | closeBracket
  | semicolon
  | newline
  | space
  | char
  deriving DecidableEq, Repr

structure Token where
  kind : Kind
  text : List Char
  line : Nat
  deriving DecidableEq, Repr

def isIdentStart (c : Char) : Bool := isLetter c || c == '_' || c == '$'

def isIdentChar (c : Char) : Bool := isIdentStart c || isDigit c

/-- The operators of more than one character; of two that fit, the first counts. -/
def operators : List (List Char) :=
  [['=', '=', '='], ['!', '=', '='], ['=', '='], ['!', '='], ['<', '='], ['>', '='], ['&', '&'],
    ['|', '|'], ['?', '?'], ['?', '.'], ['=', '>']]

/-- The number of further characters of a comment that starts with a slash. -/
def commentLength? : List Char → Option Nat
  | '/' :: rest => some (1 + (rest.takeWhile (· != '\n')).length)
  | '*' :: rest => (throughLength? ['*', '/'] rest).map (· + 1)
  | _ => none

/-- The number of further characters of a string that starts with a quote. -/
def stringLength? (c : Char) (cs : List Char) : Option Nat :=
  if c == '"' || c == '\'' then quotedLength? c cs
  else if c == '\x60' then throughLength? ['\x60'] cs
  else none

def numberLength (cs : List Char) : Nat :=
  let whole := (cs.takeWhile isDigit).length
  match cs.drop whole with
  | '.' :: d :: rest =>
    if isDigit d then whole + 2 + (rest.takeWhile isDigit).length else whole
  | _ => whole

/-- The kind of the token that starts with a character, and the number of its further characters. -/
def measure (c : Char) (cs : List Char) : Kind × Nat :=
  match if c == '/' then commentLength? cs else none with
  | some n => (.comment, n)
  | none =>
    match stringLength? c cs with
    | some n => (.string, n)
    | none =>
      if isDigit c then (.number, numberLength cs)
      else if isIdentStart c then (.ident, (cs.takeWhile isIdentChar).length)
      else
        match operators.find? (·.isPrefixOf (c :: cs)) with
        | some op => (.op, op.length - 1)
        | none =>
          if c ∈ ['[', '(', '\x7b'] then (.openBracket, 0)
          else if c ∈ [']', ')', '\x7d'] then (.closeBracket, 0)
          else if c == ';' then (.semicolon, 0)
          else if c == '\n' then (.newline, 0)
          else if c == ' ' || c == '\t' || c == '\r' then
            (.space, (cs.takeWhile fun d => d == ' ' || d == '\t' || d == '\r').length)
          else (.char, 0)

def tokensFrom (line : Nat) : List Char → List Token
  | [] => []
  | c :: cs =>
    let n := (measure c cs).2
    let text := c :: cs.take n
    ⟨(measure c cs).1, text, line⟩ :: tokensFrom (line + countChar '\n' text) (cs.drop n)
termination_by s => s.length
decreasing_by simp only [List.length_drop, List.length_cons]; omega

def tokens (logic : List Char) : List Token := tokensFrom 1 logic

end Pagesmith.Logic
