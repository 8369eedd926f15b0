import Pagesmith.Regex.Basic
import Pagesmith.Text.Basic

/-!
# Reading patterns

The notation of patterns: alternatives, groups, repetitions, character classes, anchors, escapes,
and flags for case, lines and the point.

* `RegexError`: what can be wrong with a pattern, with the part of it that is wrong.
* `Regex.parse`: the pattern that a text stands for.
-/

namespace Pagesmith

open Pagesmith.Text

inductive RegexError where
  | badRange (text : List Char)
  | badEscape (text : List Char)
  | badName (text : List Char)
  | badGroup (text : List Char)
  | nestedRepeat (text : List Char)
  | repeatCount (text : List Char)
  | missingBracket (text : List Char)
  | missingParen (text : List Char)
  | missingArgument (text : List Char)
  | trailingBackslash
  | unexpectedParen (text : List Char)
  deriving DecidableEq, Repr

def RegexError.message (e : RegexError) : String :=
  let (what, text) : String × List Char := match e with
    | .badRange t => ("invalid character class range", t)
    | .badEscape t => ("invalid escape sequence", t)
    | .badName t => ("invalid named capture", t)
    | .badGroup t => ("invalid or unsupported Perl syntax", t)
    | .nestedRepeat t => ("invalid nested repetition operator", t)
    | .repeatCount t => ("invalid repeat count", t)
    | .missingBracket t => ("missing closing ]", t)
    | .missingParen t => ("missing closing )", t)
    | .missingArgument t => ("missing argument to repetition operator", t)
    | .trailingBackslash => ("trailing backslash at end of expression", [])
    | .unexpectedParen t => ("unexpected )", t)
  "error parsing regexp: " ++ what ++ ": \x60" ++ String.ofList text ++ "\x60"

namespace Regex

structure Flags where
  fold : Bool := false
  lines : Bool := false
  dotAll : Bool := false
  deriving DecidableEq, Repr

/-! ### Characters and classes -/

def readPart (s rest : List Char) : List Char := s.take (s.length - rest.length)

/-- The character of an escape; the text starts after the backslash, and `whole` with it. -/
def escapedChar (whole : List Char) : List Char → Except RegexError (Char × List Char)
  | [] => .error .trailingBackslash
  | c :: cs =>
    let octal (s : List Char) : Except RegexError (Char × List Char) :=
      let ds := (s.take 3).takeWhile fun d => '0' ≤ d && d ≤ '7'
      .ok (Char.ofNat (ds.foldl (fun n d => n * 8 + (d.toNat - 48)) 0), s.drop ds.length)
    let bad (rest : List Char) : Except RegexError (Char × List Char) :=
      .error (.badEscape (readPart whole rest))
    match c with
    | 'a' => .ok ('\x07', cs)
    | 'f' => .ok ('\x0c', cs)
    | 'n' => .ok ('\n', cs)
    | 'r' => .ok ('\r', cs)
    | 't' => .ok ('\t', cs)
    | 'v' => .ok ('\x0b', cs)
    | 'x' =>
      match cs with
      | '\x7b' :: rest =>
        let ds := rest.takeWhile isHexDigit
        match rest.drop ds.length with
        | '\x7d' :: after =>
          let n := ds.foldl (fun n d => n * 16 + hexValue d) 0
          if ds.isEmpty || 0x10ffff < n then bad after else .ok (Char.ofNat n, after)
        | after => bad (after.drop 1)
      | a :: b :: rest =>
        if isHexDigit a && isHexDigit b then .ok (Char.ofNat (hexValue a * 16 + hexValue b), rest)
        else if isHexDigit a then bad rest
        else bad (b :: rest)
      | rest => bad (rest.drop 1)
    | _ =>
      if c == '0' then octal (c :: cs)
      else if '1' ≤ c && c ≤ '7' && ((cs.head?.map fun d => '0' ≤ d && d ≤ '7').getD false) then
        octal (c :: cs)
      else if c.toNat < 0x80 && !c.isAlphanum then .ok (c, cs)
      else bad cs

def digitClass : List (Char × Char) := [('0', '9')]

def spaceClass : List (Char × Char) := [('\t', '\n'), ('\x0c', '\r'), (' ', ' ')]

def wordClass : List (Char × Char) := [('0', '9'), ('A', 'Z'), ('_', '_'), ('a', 'z')]

def complement (ranges : List (Char × Char)) : List (Char × Char) :=
  let sorted := ranges.mergeSort fun a b => a.1 ≤ b.1
  let (out, next) := sorted.foldl (fun (out, next) (lo, hi) =>
    let out := if next < lo.toNat then (Char.ofNat next, Char.ofNat (lo.toNat - 1)) :: out else out
    (out, max next (hi.toNat + 1))) (([] : List (Char × Char)), 0)
  (if next < 0x110000 then (Char.ofNat next, Char.ofNat 0x10ffff) :: out else out).reverse

def letterClass? (c : Char) : Option (List (Char × Char)) :=
  match c with
  | 'd' => some digitClass
  | 'D' => some (complement digitClass)
  | 's' => some spaceClass
  | 'S' => some (complement spaceClass)
  | 'w' => some wordClass
  | 'W' => some (complement wordClass)
  | _ => none

/-- The class with a name, such as `[:alpha:]`. -/
def namedClass? (name : List Char) : Option (List (Char × Char)) :=
  match String.ofList name with
  | "alnum" => some [('0', '9'), ('A', 'Z'), ('a', 'z')]
  | "alpha" => some [('A', 'Z'), ('a', 'z')]
  | "ascii" => some [('\x00', '\x7f')]
  | "blank" => some [('\t', '\t'), (' ', ' ')]
  | "cntrl" => some [('\x00', '\x1f'), ('\x7f', '\x7f')]
  | "digit" => some digitClass
  | "graph" => some [('!', '~')]
  | "lower" => some [('a', 'z')]
  | "print" => some [(' ', '~')]
  | "punct" => some [('!', '/'), (':', '@'), ('[', '\x60'), ('\x7b', '~')]
  | "space" => some [('\t', '\r'), (' ', ' ')]
  | "upper" => some [('A', 'Z')]
  | "word" => some wordClass
  | "xdigit" => some [('0', '9'), ('A', 'F'), ('a', 'f')]
  | _ => none

def classChar (whole : List Char) : List Char → Except RegexError (Char × List Char)
  | [] => .error (.missingBracket whole)
  | '\\' :: cs => escapedChar ('\\' :: cs) cs
  | c :: cs => .ok (c, cs)

def classRanges (whole : List Char) (first : Bool) (ranges : List (Char × Char)) :
    Nat → List Char → Except RegexError (List (Char × Char) × List Char)
  | 0, _ => .error (.missingBracket whole)
  | fuel + 1, s => do
    match s with
    | ']' :: rest => if !first then return (ranges, rest)
    | _ => pure ()
    match s with
    | '[' :: ':' :: rest =>
      match cut [':', ']'] rest with
      | some (name, after) =>
        let (negated, name') := match name with
          | '^' :: n => (true, n)
          | n => (false, n)
        match namedClass? name' with
        | some k =>
          let added := if negated then complement k else k
          return ← classRanges whole false (ranges ++ added) fuel after
        | none => throw (.badRange ('[' :: ':' :: name ++ [':', ']']))
      | none => pure ()
    | '\\' :: c :: rest =>
      match letterClass? c with
      | some k => return ← classRanges whole false (ranges ++ k) fuel rest
      | none => pure ()
    | _ => pure ()
    let (lo, rest) ← classChar whole s
    match rest with
    | '-' :: next :: after =>
      if next == ']' then classRanges whole false (ranges ++ [(lo, lo)]) fuel rest
      else
        let (hi, rest) ← classChar whole (next :: after)
        if hi < lo then throw (.badRange (readPart s rest))
        else classRanges whole false (ranges ++ [(lo, hi)]) fuel rest
    | _ => classRanges whole false (ranges ++ [(lo, lo)]) fuel rest

def classOf (s : List Char) : Except RegexError (CharClass × List Char) := do
  let (negated, body) := match s with
    | '^' :: b => (true, b)
    | b => (false, b)
  let (ranges, rest) ← classRanges ('[' :: s) true [] (s.length + 1) body
  return (⟨negated, ranges⟩, rest)

/-! ### Repetitions and flags -/

/-- A repeat count without leading zeros. -/
def count? (s : List Char) : Option (Nat × List Char) :=
  let ds := s.takeWhile isDigit
  if ds.isEmpty || (1 < ds.length && ds.head? = some '0') then none
  else some (ds.foldl (fun n d => min (n * 10 + (d.toNat - 48)) 1000000) 0, s.drop ds.length)

/-- The bounds of a repetition in braces, after the opening one. -/
def bounds? (s : List Char) : Option (Nat × Option Nat × List Char) :=
  match count? s with
  | none => none
  | some (low, '\x7d' :: rest) => some (low, some low, rest)
  | some (low, ',' :: '\x7d' :: rest) => some (low, none, rest)
  | some (low, ',' :: rest) =>
    match count? rest with
    | some (high, '\x7d' :: rest) => some (low, some high, rest)
    | _ => none
  | some _ => none

/-- The repetition that a text starts with: its bounds and what follows it. -/
def repetition? (s : List Char) : Option (Nat × Option Nat × List Char) :=
  match s with
  | '*' :: rest => some (0, none, rest)
  | '+' :: rest => some (1, none, rest)
  | '?' :: rest => some (0, some 1, rest)
  | '\x7b' :: rest => bounds? rest
  | _ => none

def repeated (r : Regex) (low : Nat) : Option Nat → Regex
  | none => .seq (times r low) (.star r)
  | some high => .seq (times r low) (atMost r (high - low))

/-- The flags of a group, up to the colon or parenthesis that ends them; the result tells whether it
was a colon. -/
def groupFlags (whole : List Char) (flags : Flags) (clear saw : Bool) :
    List Char → Except RegexError ((Flags × Bool) × List Char)
  | [] => .error (.badGroup whole)
  | c :: cs =>
    match c with
    | 'i' => groupFlags whole { flags with fold := !clear } clear true cs
    | 'm' => groupFlags whole { flags with lines := !clear } clear true cs
    | 's' => groupFlags whole { flags with dotAll := !clear } clear true cs
    | 'U' => groupFlags whole flags clear true cs
    | '-' => if clear then .error (.badGroup (readPart whole cs))
      else groupFlags whole flags true false cs
    | ':' | ')' => if clear && !saw then .error (.badGroup (readPart whole cs))
      else .ok ((flags, c == ':'), cs)
    | _ => .error (.badGroup (readPart whole cs))

/-- The name of a group, and what follows the bracket that closes it. -/
def groupName (whole lead s : List Char) : Except RegexError (Unit × List Char) :=
  match cut ['>'] s with
  | none => .error (.badName whole)
  | some (name, rest) =>
    if !name.isEmpty && name.all isWord then .ok ((), rest)
    else .error (.badName (lead ++ name ++ ['>']))

/-! ### Patterns -/

def classRegex (flags : Flags) (k : CharClass) : Regex := if flags.fold then .folded k else .chars k

def charRegex (flags : Flags) (c : Char) : Regex := classRegex flags ⟨false, [(c, c)]⟩

mutual

/-- Alternatives up to a closing parenthesis or the end, with the flags they leave behind. -/
def alternatives (whole : List Char) (flags : Flags) :
    Nat → List Char → Except RegexError ((Regex × Flags) × List Char)
  | 0, _ => .error (.missingParen whole)
  | fuel + 1, s => do
    let ((r, flags), rest) ← items whole flags none [] fuel s
    match rest with
    | '|' :: rest =>
      let ((r', flags), rest) ← alternatives whole flags fuel rest
      return ((.alt r r', flags), rest)
    | _ => return ((r, flags), rest)
termination_by structural n => n

/-- A sequence of items; `last` is the item just read, and `mark` the text from the repetition that
made it, if one did. -/
def items (whole : List Char) (flags : Flags) (last : Option Regex) (mark : List Char) :
    Nat → List Char → Except RegexError ((Regex × Flags) × List Char)
  | 0, _ => .error (.missingParen whole)
  | fuel + 1, s => do
    let before : Regex := last.getD .empty
    match repetition? s with
    | some (low, high, rest) =>
      let after := match rest with
        | '?' :: r => r
        | r => r
      if 1000 < low || (high.map fun h => 1000 < h || h < low).getD false then
        throw (.repeatCount (readPart s rest))
      if !mark.isEmpty then throw (.nestedRepeat (readPart mark after))
      match last with
      | none => throw (.missingArgument (readPart s after))
      | some r => items whole flags (some (repeated r low high)) s fuel after
    | none =>
      match s with
      | [] | '|' :: _ | ')' :: _ => return ((before, flags), s)
      | _ =>
        let ((r, flags'), rest) ← item whole flags fuel s
        let ((r', flags''), rest) ← items whole flags' r [] fuel rest
        return ((.seq before r', flags''), rest)
termination_by structural n => n

/-- One item: a character, a class, an anchor or a group.  A change of flags is no item. -/
def item (whole : List Char) (flags : Flags) :
    Nat → List Char → Except RegexError ((Option Regex × Flags) × List Char)
  | 0, _ => .error (.missingParen whole)
  | fuel + 1, s => do
    let closed (flags' : Flags) (body : List Char) :
        Except RegexError ((Option Regex × Flags) × List Char) := do
      let ((r, _), rest) ← alternatives whole flags' fuel body
      match rest with
      | ')' :: rest => return ((some r, flags), rest)
      | _ => throw (.missingParen whole)
    let plain (r : Regex) (rest : List Char) :
        Except RegexError ((Option Regex × Flags) × List Char) :=
      .ok ((some r, flags), rest)
    match s with
    | [] => return ((none, flags), [])
    | '(' :: '?' :: 'P' :: '<' :: body =>
      let (_, rest) ← groupName s "(?P<".toList body
      closed flags rest
    | '(' :: '?' :: '<' :: body =>
      let (_, rest) ← groupName s "(?<".toList body
      closed flags rest
    | '(' :: '?' :: body =>
      let ((flags', isGroup), rest) ← groupFlags s flags false false body
      if isGroup then closed flags' rest else return ((none, flags'), rest)
    | '(' :: body => closed flags body
    | '[' :: body =>
      let (k, rest) ← classOf body
      plain (classRegex flags k) rest
    | '.' :: rest =>
      plain (.chars ⟨true, if flags.dotAll then [] else [('\n', '\n')]⟩) rest
    | '^' :: rest => plain (if flags.lines then .lineStart else .textStart) rest
    | '$' :: rest => plain (if flags.lines then .lineEnd else .textEnd) rest
    | '\\' :: 'A' :: rest => plain .textStart rest
    | '\\' :: 'z' :: rest => plain .textEnd rest
    | '\\' :: 'b' :: rest => plain (.wordEdge false) rest
    | '\\' :: 'B' :: rest => plain (.wordEdge true) rest
    | '\\' :: 'Q' :: rest =>
      let (text, after) := (cut ['\\', 'E'] rest).getD (rest, [])
      match text.getLast? with
      | none => return ((none, flags), after)
      | some c =>
        let lead := text.dropLast.map (charRegex flags)
        plain (lead.foldr .seq (charRegex flags c)) after
    | '\\' :: rest =>
      match rest.head?.bind letterClass? with
      | some k => plain (classRegex flags ⟨false, k⟩) (rest.drop 1)
      | none =>
        let (c, rest) ← escapedChar s rest
        plain (charRegex flags c) rest
    | c :: rest => plain (charRegex flags c) rest
termination_by structural n => n

end

def parse (s : List Char) : Except RegexError Regex := do
  let ((r, _), rest) ← alternatives s {} (3 * s.length + 3) s
  if rest.isEmpty then return r else throw (.unexpectedParen s)

end Regex

end Pagesmith
