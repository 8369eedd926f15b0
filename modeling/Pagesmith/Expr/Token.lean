import Pagesmith.Expr.Place
import Pagesmith.Text.Quoted
import Pagesmith.Text.Unicode.Word

/-!
# Tokens of expressions

* `Token`: a kind, a text, and the position where it starts.
* `SyntaxError`: what can be wrong with the text of an expression.
* `tokens`: the tokens of an expression, ended by an end mark.
-/

namespace Pagesmith.Expr

open Pagesmith.Text

inductive TokenKind where
  | identifier
  | number
  | string
  | operator
  | bracket
  | eof
  deriving DecidableEq, Repr

def TokenKind.name : TokenKind → String
  | .identifier => "Identifier"
  | .number => "Number"
  | .string => "String"
  | .operator => "Operator"
  | .bracket => "Bracket"
  | .eof => "EOF"

structure Token where
  kind : TokenKind
  text : String
  pos : Nat
  deriving DecidableEq, Repr

def Token.display (t : Token) : String :=
  if t.text.isEmpty then t.kind.name else t.kind.name ++ "(" ++ quoted t.text ++ ")"

inductive SyntaxError where
  | unterminated
  | badEscape
  | badString
  | badNumber (text : String)
  | unclosedComment
  | strange (c : Char)
  | unexpected (t : Token)
  | unexpectedEnd
  | mixedCoalesce (op : String)
  | badLiteral (kind reason : String)
  | fewArguments (n : Nat)
  | bareSequence
  | badKey (t : Token)
  | expectedName
  deriving Repr

def SyntaxError.message : SyntaxError → String
  | .unterminated => "literal not terminated"
  | .badEscape => "invalid char escape"
  | .badString => "unable to unescape string"
  | .badNumber t => "bad number syntax: " ++ quoted t
  | .unclosedComment => "unclosed comment"
  | .strange c =>
    let digits := (hexDigits 6 c.toNat).map Char.toUpper
    let digits := if c.toNat < 0x10000 then digits.drop 2
      else if c.toNat < 0x100000 then digits.drop 1 else digits
    "unrecognized character: U+" ++ String.ofList digits
      ++ if isPrintable c then " '" ++ String.singleton c ++ "'" else ""
  | .unexpected t => "unexpected token " ++ t.display
  | .unexpectedEnd => "unexpected end of expression"
  | .mixedCoalesce op =>
    "Operator (" ++ op
      ++ ") and coalesce expressions (??) cannot be mixed. Wrap either by parentheses."
  | .badLiteral kind reason => "invalid " ++ kind ++ " literal: " ++ reason
  | .fewArguments n => "expected at least " ++ toString n ++ " arguments"
  | .bareSequence => "wrap predicate with brackets \x7b and \x7d"
  | .badKey t =>
    "a map key must be a quoted string, a number, a identifier, or an expression enclosed in "
      ++ "parentheses (unexpected token " ++ t.display ++ ")"
  | .expectedName => "expected name"

/-! ### Characters and words -/

def isNameStart (c : Char) : Bool := c == '_' || c == '$' || isUnicodeLetter c

def isNameChar (c : Char) : Bool := isNameStart c || isUnicodeDigit c

def isName (s : String) : Bool :=
  match s.toList with
  | [] => false
  | c :: cs => isNameStart c && cs.all isNameChar

def operatorWords : List String :=
  ["not", "in", "or", "and", "matches", "contains", "startsWith", "endsWith", "let", "if", "else"]

/-! ### Steps of the scan

A step looks at the text from a character on.  It counts the characters it takes; where it fails it
says how many of them stand before the one that is wrong. -/

inductive Step where
  | skip (n : Nat)
  | emit (kind : TokenKind) (text : List Char) (n : Nat)
  | fail (cause : SyntaxError) (offset : Nat)
  deriving Repr

def simpleEscape? (c : Char) : Option Char :=
  match c with
  | 'a' => some '\x07'
  | 'b' => some '\x08'
  | 'f' => some '\x0c'
  | 'n' => some '\n'
  | 'r' => some '\r'
  | 't' => some '\t'
  | 'v' => some '\x0b'
  | '\\' => some '\\'
  | _ => none

/-- The character with a code, where a code beyond Unicode is an error and a surrogate becomes the
replacement character. -/
def charOfCode? (n : Nat) : Option Char :=
  if n < 0x110000 || 0x80000000 ≤ n then
    some (if n < 0xd800 || (0xe000 ≤ n && n < 0x110000) then Char.ofNat n else '�')
  else none

/-- The digits of an escape: their value, the number of them read, and what follows. -/
def escapeDigits (base : Nat) : Nat → Nat → List Char → Nat × Nat × List Char
  | 0, value, s => (value, 0, s)
  | n + 1, value, c :: cs =>
    if isHexDigit c && hexValue c < base then
      let (v, k, rest) := escapeDigits base n (value * base + hexValue c) cs
      (v, k + 1, rest)
    else (value, 0, c :: cs)
  | _ + 1, value, [] => (value, 0, [])

/-- The text of a quoted string and the number of characters up to its closing quote, that
included, where `bad` tells that an escape before has no meaning.  A carriage return is read as a
line feed. -/
def stringStep (quote : Char) (bad : Bool) (text : List Char) (offset : Nat) :
    Nat → List Char → Step
  | 0, _ => .fail .unterminated offset
  | _ + 1, [] => .fail .unterminated offset
  | fuel + 1, c :: cs =>
    if c == quote then
      if bad then .fail .badString offset else .emit .string text.reverse (offset + 1)
    else if c == '\n' then .fail .unterminated offset
    else if c == '\\' then
      match cs with
      | [] => .fail .badEscape (offset + 1)
      | e :: es =>
        let digits (base n lead : Nat) (s : List Char) : Step :=
          let (value, k, rest) := escapeDigits base n 0 s
          if k < n then .fail .badEscape (offset + lead + k)
          else if base = 8 && 0o400 ≤ value then
            stringStep quote true text (offset + lead + n) fuel rest
          else
            match charOfCode? value with
            | some ch => stringStep quote bad (ch :: text) (offset + lead + n) fuel rest
            | none => stringStep quote true text (offset + lead + n) fuel rest
        if e == quote then stringStep quote bad (e :: text) (offset + 2) fuel es
        else
          match simpleEscape? e with
          | some ch => stringStep quote bad (ch :: text) (offset + 2) fuel es
          | none =>
            if '0' ≤ e && e ≤ '7' then digits 8 3 1 (e :: es)
            else if e == 'x' then digits 16 2 2 es
            else if e == 'u' then digits 16 4 2 es
            else if e == 'U' then digits 16 8 2 es
            else .fail .badEscape (offset + 1)
    else stringStep quote bad ((if c == '\r' then '\n' else c) :: text) (offset + 1) fuel cs

/-- The number of characters of a class that a text starts with. -/
def runLength (p : Char → Bool) (s : List Char) : Nat := (s.takeWhile p).length

/-- The digits of a number, and the length of the mark that tells its base. -/
def numberBase (s : List Char) : (Char → Bool) × Nat :=
  let decimal (c : Char) : Bool := isDigit c || c == '_'
  match s with
  | '0' :: 'x' :: _ | '0' :: 'X' :: _ => (fun c => isHexDigit c || c == '_', 2)
  | '0' :: 'o' :: _ | '0' :: 'O' :: _ => (fun c => ('0' ≤ c && c ≤ '7') || c == '_', 2)
  | '0' :: 'b' :: _ | '0' :: 'B' :: _ => (fun c => c == '0' || c == '1' || c == '_', 2)
  | '0' :: _ => (decimal, 1)
  | _ => (decimal, 0)

/-- The length of the number that a text starts with, and whether a name follows it directly.  Two
points after the digits are no part of it. -/
def numberLength (s : List Char) : Nat × Bool :=
  let (isDig, lead) := numberBase s
  let whole := lead + runLength isDig (s.drop lead)
  let tail (n : Nat) : Nat × Bool :=
    let n :=
      match s.drop n with
      | 'e' :: rest | 'E' :: rest =>
        let sign := match rest with
          | '+' :: _ | '-' :: _ => 1
          | _ => 0
        n + 1 + sign + runLength isDig (rest.drop sign)
      | _ => n
    (n, ((s.drop n).head?.map isNameChar).getD false)
  match s.drop whole with
  | '.' :: '.' :: _ => (whole, false)
  | '.' :: rest => tail (whole + 1 + runLength isDig rest)
  | _ => tail whole

/-- The step of a number whose digits start after `lead` characters. -/
def numberStep (lead : Nat) (s : List Char) : Step :=
  match numberLength (s.drop lead) with
  | (n, false) => .emit .number (s.take (lead + n)) (lead + n)
  | (n, true) => .fail (.badNumber (String.ofList (s.take (lead + n + 1)))) (lead + n)

/-- The number of characters of a block comment after its opening mark, its closing mark
included. -/
def commentLength? (s : List Char) : Option Nat :=
  (cut ['*', '/'] s).map fun (before, _) => before.length + 2

def step (c : Char) (cs : List Char) : Step :=
  let op (n : Nat) : Step := .emit .operator ((c :: cs).take n) n
  let follows (p : Char → Bool) : Bool := (cs.head?.map p).getD false
  if isBlank c then .skip 1
  else if c == '\'' || c == '"' then
    stringStep c false [] 1 (cs.length + 1) cs
  else if c == '\x60' then
    match cut ['\x60'] cs with
    | some (text, _) => .emit .string text (text.length + 2)
    | none => .fail .unterminated (cs.length + 1)
  else if isDigit c then numberStep 0 (c :: cs)
  else if c == '?' then op (if follows (fun d => d == '.' || d == '?') then 2 else 1)
  else if c == '/' then
    match cs with
    | '/' :: rest => .skip (2 + runLength (· != '\n') rest)
    | '*' :: rest =>
      match commentLength? rest with
      | some n => .skip (n + 2)
      | none => .fail .unclosedComment (cs.length + 1)
    | _ => op 1
  else if c == '#' then op (if follows (· == '#') then 2 else 1)
  else if c == '|' then op (if follows (· == '|') then 2 else 1)
  else if c == ':' then op (if follows (· == ':') then 2 else 1)
  else if c ∈ ['(', '[', '\x7b', ')', ']', '\x7d'] then .emit .bracket [c] 1
  else if c ∈ [',', ';', '%', '+', '-', '^'] then op 1
  else if c ∈ ['&', '!', '=', '*', '<', '>'] then
    op (if follows (fun d => d == '&' || d == '=' || d == '*') then 2 else 1)
  else if c == '.' then
    if follows isDigit then numberStep 1 (c :: cs)
    else op (if follows (· == '.') then 2 else 1)
  else if isNameChar c then
    let word := c :: cs.takeWhile isNameChar
    .emit (if String.ofList word ∈ operatorWords then .operator else .identifier) word word.length
  else .fail (.strange c) 0

/-! ### The token list -/

/-- The position of the end mark of a text: its last character, or one further if the text ends in
a line comment. -/
def endPos (length : Nat) (comment : Bool) : Nat := if comment then length else length - 1

def isLineComment (s : List Char) : Bool := ['/', '/'].isPrefixOf s

/-- The tokens of a text that starts at a position.  `comment` tells that a line comment ended just
before it. -/
def tokensFrom (pos : Nat) (comment : Bool) :
    List Char → Except (Located SyntaxError) (List Token)
  | [] => .ok [⟨.eof, "", endPos pos comment⟩]
  | c :: cs =>
    match step c cs with
    | .fail cause offset => .error ⟨pos + offset, cause⟩
    | .skip n => tokensFrom (pos + 1 + (n - 1)) (isLineComment (c :: cs)) (cs.drop (n - 1))
    | .emit kind text n => do
      let rest ←
        if c == '#' then
          let word := (cs.drop (n - 1)).takeWhile isNameChar
          let more ← tokensFrom (pos + 1 + (n - 1 + word.length)) false
            (cs.drop (n - 1 + word.length))
          pure (if word.isEmpty then more
            else ⟨.identifier, String.ofList word, pos + 1 + (n - 1)⟩ :: more)
        else tokensFrom (pos + 1 + (n - 1)) false (cs.drop (n - 1))
      return ⟨kind, String.ofList text, pos⟩ :: rest
termination_by s => s.length
decreasing_by all_goals simp only [List.length_drop, List.length_cons]; omega

def tokens (source : List Char) : Except (Located SyntaxError) (List Token) :=
  tokensFrom 0 false source

end Pagesmith.Expr
