import Pagesmith.Text.Basic

/-!
# Tokens of style text

Style text is read as the tokens of CSS Syntax Level 3.  A token is determined by the text that
starts at its first character and nothing before it, so reading may stop and start again at any
token boundary.

* Each `…Length` function gives the number of characters that a construct takes at the start of a
  text, zero if it does not stand there.
* `Token.measure`: the kind of the token that starts with a character and the number of further
  characters it has.
* `tokens`: all tokens, up to the end of the text or a NUL character.
-/

namespace Pagesmith.Css

open Pagesmith.Text

inductive Kind where
  | whitespace
  | comment
  | ident
  | function
  | atKeyword
  | hash
  | string
  | badString
  | url
  | badUrl
  | delim
  | number
  | percentage
  | dimension
  | unicodeRange
  | matcher
  | column
  | openMarkup
  | closeMarkup
  | customName
  | colon
  | semicolon
  | comma
  | leftBracket
  | rightBracket
  | leftParen
  | rightParen
  | leftBrace
  | rightBrace
  deriving DecidableEq, Repr

structure Token where
  kind : Kind
  text : List Char
  deriving DecidableEq, Repr

/-! ### Character classes -/

def isSpace (c : Char) : Bool := c == ' ' || c == '\t' || c == '\n' || c == '\r' || c == '\x0c'

def isNewline (c : Char) : Bool := c == '\n' || c == '\r' || c == '\x0c'

def isNameStart (c : Char) : Bool := isLetter c || c == '_' || '\x80' ≤ c

def isName (c : Char) : Bool := isNameStart c || isDigit c || c == '-'

/-! ### Lengths of constructs -/

/-- The length of a line break, where a carriage return and a line feed count as one. -/
def newlineLength : List Char → Nat
  | '\r' :: '\n' :: _ => 2
  | c :: _ => if isNewline c then 1 else 0
  | [] => 0

/-- The number of characters of a class at the start, at most `limit`. -/
def runLength (p : Char → Bool) : Nat → List Char → Nat
  | 0, _ => 0
  | _, [] => 0
  | k + 1, c :: cs => if p c then 1 + runLength p k cs else 0

/-- An escape: a backslash with up to six hexadecimal digits and one white space, or with any
other character but a line break. -/
def escapeLength : List Char → Nat
  | '\\' :: c :: cs =>
    if isNewline c then 0
    else if isHexDigit c then
      let digits := 1 + runLength isHexDigit 5 cs
      match (c :: cs).drop digits with
      | d :: _ => if isSpace d then digits + 2 else digits + 1
      | [] => digits + 1
    else 2
  | _ => 0

/-- The characters and escapes that continue a name; `skip` characters of an escape remain. -/
def nameLengthFrom (skip : Nat) : List Char → Nat
  | [] => 0
  | c :: cs =>
    match skip with
    | k + 1 => 1 + nameLengthFrom k cs
    | 0 =>
      if isName c then 1 + nameLengthFrom 0 cs
      else
        match escapeLength (c :: cs) with
        | 0 => 0
        | e + 1 => 1 + nameLengthFrom e cs

def nameLength (s : List Char) : Nat := nameLengthFrom 0 s

/-- A name without its hyphen: a start character or an escape, then the rest of the name. -/
def bareIdentLength (s : List Char) : Nat :=
  match s with
  | [] => 0
  | c :: cs =>
    if isNameStart c then 1 + nameLength cs
    else
      match escapeLength s with
      | 0 => 0
      | e => e + nameLength (s.drop e)

/-- An identifier, with at most one leading hyphen. -/
def identLength : List Char → Nat
  | '-' :: cs =>
    match bareIdentLength cs with
    | 0 => 0
    | n => n + 1
  | s => bareIdentLength s

def hashLength (s : List Char) : Nat :=
  match s with
  | [] => 0
  | c :: cs =>
    if isName c then 1 + nameLength cs
    else
      match escapeLength s with
      | 0 => 0
      | e => e + nameLength (s.drop e)

def digitsLength (s : List Char) : Nat := (s.takeWhile isDigit).length

/-- The number of signs at the start, at most one. -/
def signLength : List Char → Nat
  | c :: _ => if c == '+' || c == '-' then 1 else 0
  | [] => 0

/-- An exponent, which needs at least one digit. -/
def exponentLength : List Char → Nat
  | c :: cs =>
    if c == 'e' || c == 'E' then
      let sign := signLength cs
      match digitsLength (cs.drop sign) with
      | 0 => 0
      | d => 1 + sign + d
    else 0
  | [] => 0

/-- A number: digits, a fraction or both, and then an exponent.  A point without a digit after it
ends the number before the point. -/
def numberLength (s : List Char) : Nat :=
  let sign := signLength s
  let whole := digitsLength (s.drop sign)
  let lead := sign + whole
  match s.drop lead with
  | '.' :: cs =>
    match digitsLength cs with
    | 0 => if whole = 0 then 0 else lead
    | d => lead + 1 + d + exponentLength (cs.drop d)
  | rest => if whole = 0 then 0 else lead + exponentLength rest

/-- A range of code points after its first letter: a plus sign and hexadecimal digits, then a
second group of digits or question marks up to six places. -/
def rangeLength : List Char → Nat
  | '+' :: cs =>
    let first := runLength isHexDigit 6 cs
    match cs.drop first with
    | '-' :: ds =>
      let second := runLength isHexDigit 7 ds
      if first = 0 || second = 0 || second = 7 then 0 else 2 + first + second
    | '?' :: ds =>
      let marks := 1 + runLength (· == '?') (6 - first) ds
      if 6 < first + marks then 0 else 1 + first + marks
    | _ => if first = 0 then 0 else 1 + first
  | _ => 0

def commentLength : List Char → Nat
  | [] => 0
  | '*' :: '/' :: _ => 2
  | _ :: cs => 1 + commentLength cs

/-- A string after its opening quote, and whether it ended as it should: a line break ends it
badly, a backslash before a line break joins the lines, and the end of the text closes it. -/
def stringLengthFrom (quote : Char) (skip : Nat) : List Char → Nat × Bool
  | [] => (0, true)
  | c :: cs =>
    let more (r : Nat × Bool) : Nat × Bool := (1 + r.1, r.2)
    match skip with
    | k + 1 => more (stringLengthFrom quote k cs)
    | 0 =>
      if isNewline c then (1, false)
      else if c == quote then (1, true)
      else if c == '\\' then
        match escapeLength (c :: cs) with
        | 0 => more (stringLengthFrom quote (newlineLength cs) cs)
        | e + 1 => more (stringLengthFrom quote e cs)
      else more (stringLengthFrom quote 0 cs)

def stringLength (quote : Char) (s : List Char) : Nat × Bool := stringLengthFrom quote 0 s

/-- A character that may not stand unescaped in a bare address. -/
def isAddressStop (c : Char) : Bool :=
  c == '"' || c == '\'' || c == '(' || c == '\\' || c ≤ ' ' || c == '\x7f'

/-- The bare address up to its closing parenthesis or the end of the text, and whether nothing
else stopped it. -/
def addressLengthFrom (skip : Nat) : List Char → Nat × Bool
  | [] => (0, true)
  | c :: cs =>
    let more (r : Nat × Bool) : Nat × Bool := (1 + r.1, r.2)
    match skip with
    | k + 1 => more (addressLengthFrom k cs)
    | 0 =>
      if c == ')' then (0, true)
      else if isAddressStop c then
        match escapeLength (c :: cs) with
        | 0 => (0, false)
        | e + 1 => more (addressLengthFrom e cs)
      else more (addressLengthFrom 0 cs)

/-- What a broken address takes: everything through the next parenthesis that is not escaped. -/
def remnantLengthFrom (skip : Nat) : List Char → Nat
  | [] => 0
  | c :: cs =>
    match skip with
    | k + 1 => 1 + remnantLengthFrom k cs
    | 0 =>
      if c == ')' then 1
      else 1 + remnantLengthFrom (escapeLength (c :: cs) - 1) cs

def spaceLength (s : List Char) : Nat := (s.takeWhile isSpace).length

/-- A broken address that has taken `n` characters of `s`. -/
def badAddress (n : Nat) (s : List Char) : Kind × Nat :=
  (.badUrl, n + remnantLengthFrom 0 (s.drop n))

/-- The end of an address that has taken `n` characters of `s`: white space and a closing
parenthesis, or the end of the text. -/
def closeAddress (n : Nat) (s : List Char) : Kind × Nat :=
  let n := n + spaceLength (s.drop n)
  match s.drop n with
  | [] => (.url, n)
  | ')' :: _ => (.url, n + 1)
  | _ => badAddress n s

def addressMeasure (s : List Char) : Kind × Nat :=
  let lead := spaceLength s
  match s.drop lead with
  | c :: cs =>
    if c == '"' || c == '\'' then
      match stringLength c cs with
      | (n, true) => closeAddress (lead + 1 + n) s
      | (n, false) => badAddress (lead + 1 + n) s
    else
      match addressLengthFrom 0 (c :: cs) with
      | (n, true) => closeAddress (lead + n) s
      | (n, false) =>
        if (((c :: cs).drop n).head?.map isSpace).getD false then closeAddress (lead + n + 1) s
        else badAddress (lead + n) s
  | [] => (.url, lead)

/-! ### Tokens -/

/-- The kind and length of what starts like an identifier: a name alone, a function with its
parenthesis, or an address. -/
def identlikeMeasure (s : List Char) : Option (Kind × Nat) :=
  match identLength s with
  | 0 => none
  | n =>
    match s.drop n with
    | '(' :: rest =>
      if eqFold ((s.take n).filter (· != '\\')) ['u', 'r', 'l'] then
        let (kind, m) := addressMeasure rest
        some (kind, n + 1 + m)
      else some (.function, n + 1)
    | _ => some (.ident, n)

def numericMeasure (s : List Char) : Option (Kind × Nat) :=
  match numberLength s with
  | 0 => none
  | n =>
    match s.drop n with
    | '%' :: _ => some (.percentage, n + 1)
    | rest =>
      match identLength rest with
      | 0 => some (.number, n)
      | m => some (.dimension, n + m)

def hyphenMeasure (s : List Char) : Option (Kind × Nat) :=
  match numericMeasure s with
  | some m => some m
  | none =>
    match identlikeMeasure s with
    | some m => some m
    | none =>
      match s with
      | '-' :: '-' :: '>' :: _ => some (.closeMarkup, 3)
      | '-' :: '-' :: cs =>
        match identLength ('-' :: cs) with
        | 0 => none
        | n => some (.customName, n + 1)
      | _ => none

/-- The kind and length of the token that `c :: cs` starts with, if it is more than a delimiter. -/
def measure? (c : Char) (cs : List Char) : Option (Kind × Nat) :=
  let s := c :: cs
  if isSpace c then some (.whitespace, 1 + spaceLength cs)
  else
    match c with
    | ':' => some (.colon, 1)
    | ';' => some (.semicolon, 1)
    | ',' => some (.comma, 1)
    | '(' => some (.leftParen, 1)
    | ')' => some (.rightParen, 1)
    | '[' => some (.leftBracket, 1)
    | ']' => some (.rightBracket, 1)
    | '\x7b' => some (.leftBrace, 1)
    | '\x7d' => some (.rightBrace, 1)
    | '#' =>
      match hashLength cs with
      | 0 => none
      | n => some (.hash, 1 + n)
    | '"' | '\'' =>
      match stringLength c cs with
      | (n, true) => some (.string, 1 + n)
      | (n, false) => some (.badString, 1 + n)
    | '.' | '+' => numericMeasure s
    | '-' => hyphenMeasure s
    | '@' =>
      match identLength cs with
      | 0 => none
      | n => some (.atKeyword, 1 + n)
    | '$' | '*' | '^' | '~' => if cs.head? = some '=' then some (.matcher, 2) else none
    | '/' => if cs.head? = some '*' then some (.comment, 2 + commentLength (cs.drop 1)) else none
    | '<' => if ['!', '-', '-'].isPrefixOf cs then some (.openMarkup, 4) else none
    | '\\' => identlikeMeasure s
    | 'u' | 'U' =>
      match rangeLength cs with
      | 0 => identlikeMeasure s
      | n => some (.unicodeRange, 1 + n)
    | '|' =>
      match cs with
      | '=' :: _ => some (.matcher, 2)
      | '|' :: _ => some (.column, 2)
      | _ => none
    | _ =>
      match numericMeasure s with
      | some m => some m
      | none => identlikeMeasure s

def Token.measure (c : Char) (cs : List Char) : Kind × Nat :=
  match measure? c cs with
  | some (kind, n) => (kind, n - 1)
  | none => (.delim, 0)

def tokens : List Char → List Token
  | [] => []
  | c :: cs =>
    if c = '\x00' then []
    else
      ⟨(Token.measure c cs).1, c :: cs.take (Token.measure c cs).2⟩
        :: tokens (cs.drop (Token.measure c cs).2)
termination_by s => s.length
decreasing_by
  simp only [List.length_drop, List.length_cons]
  omega

end Pagesmith.Css
