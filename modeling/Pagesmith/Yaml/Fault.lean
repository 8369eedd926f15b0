import Pagesmith.Text.Basic

/-!
# Faults of documents

What is wrong with the text of a document, and the line that a message names for it.

* `Mark`: a place in a text.
* `Fault`: what is wrong.
* `SyntaxError`: a fault with its line.  A fault among characters counts lines from one, a fault
  among tokens counts those before it, and neither names the first line of a text.
-/

namespace Pagesmith.Yaml

/-- A place in a text: the characters before it, the lines before it, and the characters before it
in its line. -/
structure Mark where
  index : Nat := 0
  line : Nat := 0
  column : Nat := 0
  deriving DecidableEq, Repr, Inhabited

inductive Fault where
  | controlCharacter
  | strayCharacter
  | expectedColon
  | misplacedEntry
  | misplacedKey
  | misplacedValue
  | depth
  | directiveName
  | directiveLetter
  | unknownDirective
  | versionPoint
  | versionDigits
  | versionLength
  | directiveBlank
  | lineEnd
  | anchorName
  | tagMark
  | tagAddress
  | tagBracket
  | tagEnd
  | escapedByte
  | leadingByte
  | trailingByte
  | zeroIndent
  | tabIndent
  | quotedDocument
  | quotedEnd
  | unknownEscape
  | hexEscape
  | invalidEscape
  | plainTab
  | documentStart
  | duplicateVersion
  | otherVersion
  | duplicateTag
  | nodeContent
  | unknownHandle
  | expectedEntry
  | expectedKey
  | sequenceEnd
  | mappingEnd
  deriving DecidableEq, Repr

def Fault.message : Fault → String
  | .controlCharacter => "control characters are not allowed"
  | .strayCharacter => "found character that cannot start any token"
  | .expectedColon => "could not find expected ':'"
  | .misplacedEntry => "block sequence entries are not allowed in this context"
  | .misplacedKey => "mapping keys are not allowed in this context"
  | .misplacedValue => "mapping values are not allowed in this context"
  | .depth => "exceeded max depth of 10000"
  | .directiveName => "could not find expected directive name"
  | .directiveLetter => "found unexpected non-alphabetical character"
  | .unknownDirective => "found unknown directive name"
  | .versionPoint => "did not find expected digit or '.' character"
  | .versionDigits => "did not find expected version number"
  | .versionLength => "found extremely long version number"
  | .directiveBlank => "did not find expected whitespace"
  | .lineEnd => "did not find expected comment or line break"
  | .anchorName => "did not find expected alphabetic or numeric character"
  | .tagMark => "did not find expected '!'"
  | .tagAddress => "did not find expected tag URI"
  | .tagBracket => "did not find the expected '>'"
  | .tagEnd => "did not find expected whitespace or line break"
  | .escapedByte => "did not find URI escaped octet"
  | .leadingByte => "found an incorrect leading UTF-8 octet"
  | .trailingByte => "found an incorrect trailing UTF-8 octet"
  | .zeroIndent => "found an indentation indicator equal to 0"
  | .tabIndent => "found a tab character where an indentation space is expected"
  | .quotedDocument => "found unexpected document indicator"
  | .quotedEnd => "found unexpected end of stream"
  | .unknownEscape => "found unknown escape character"
  | .hexEscape => "did not find expected hexdecimal number"
  | .invalidEscape => "found invalid Unicode character escape code"
  | .plainTab => "found a tab character that violates indentation"
  | .documentStart => "did not find expected <document start>"
  | .duplicateVersion => "found duplicate %YAML directive"
  | .otherVersion => "found incompatible YAML document"
  | .duplicateTag => "found duplicate %TAG directive"
  | .nodeContent => "did not find expected node content"
  | .unknownHandle => "found undefined tag handle"
  | .expectedEntry => "did not find expected '-' indicator"
  | .expectedKey => "did not find expected key"
  | .sequenceEnd => "did not find expected ',' or ']'"
  | .mappingEnd => "did not find expected ',' or '\x7d'"

structure SyntaxError where
  fault : Fault
  line : Option Nat := none
  deriving DecidableEq, Repr

namespace SyntaxError

def message (e : SyntaxError) : String :=
  (match e.line with | some n => "line " ++ toString n ++ ": " | none => "") ++ e.fault.message

/-- The lines before the first of two places that is not in the first line. -/
def linesBefore (start found : Mark) : Nat := if start.line = 0 then found.line else start.line

/-- A fault among the characters of something that started at one place, found at another. -/
def ofCharacters (fault : Fault) (start found : Mark) : SyntaxError :=
  let n := linesBefore start found
  ⟨fault, if n = 0 then none else some (n + 1)⟩

/-- A fault among the tokens of something that started at one place, found at another. -/
def ofTokens (fault : Fault) (start found : Mark) : SyntaxError :=
  let n := linesBefore start found
  ⟨fault, if n = 0 then none else some n⟩

end SyntaxError

end Pagesmith.Yaml
