import Pagesmith.Text.Utf8
import Pagesmith.Yaml.Cursor

/-!
# Directives, anchors and tags

The parts of a document that tell something about it or about one of its nodes.

* `readName`: the name of an anchor.
* `readTag`: a tag as a handle and a suffix.
* `Directive`, `readDirective`: the version of a document, and the handles of its tags.
-/

namespace Pagesmith.Yaml

open Pagesmith.Text

/-! ### Anchors -/

/-- Whether a character may follow the name of an anchor at once. -/
def followsName (x : Char) : Bool :=
  x = '?' || x = ':' || x = ',' || x = ']' || x = '\x7d' || x = '%' || x = '@' || x = '\x60'

/-- The name after the mark of an anchor or of a reference to one. -/
def readName (c : Cursor) : Except SyntaxError (String × Cursor) :=
  let name := c.skip.rest.takeWhile isNameChar
  let next := c.skip.skipMany name.length
  if name.isEmpty || !(next.isGap 0 || next.seesWhere followsName) then
    .error (.ofCharacters .anchorName c.mark next.mark)
  else .ok (String.ofList name, next)

/-! ### Tags -/

def isAddressChar (x : Char) : Bool :=
  isNameChar x || ";/?:@&=+$,.%!~*'()[]".toList.contains x

def escapedByte? (c : Cursor) : Option Nat :=
  match c.rest with
  | '%' :: a :: b :: _ =>
    if isHexDigit a && isHexDigit b then some (hexValue a * 16 + hexValue b) else none
  | _ => none

/-- The number of bytes of a character, by its first one. -/
def byteCount (b : Nat) : Nat :=
  if b < 0x80 then 1
  else if 0xc0 ≤ b && b < 0xe0 then 2
  else if 0xe0 ≤ b && b < 0xf0 then 3
  else if 0xf0 ≤ b && b < 0xf8 then 4
  else 0

def readTrailing (start : Mark) : Nat → Cursor → Except SyntaxError (List Nat × Cursor)
  | 0, c => .ok ([], c)
  | n + 1, c =>
    match escapedByte? c with
    | none => .error (.ofCharacters .escapedByte start c.mark)
    | some b =>
      if !isTail b then .error (.ofCharacters .trailingByte start c.mark)
      else (readTrailing start n (c.skipMany 3)).map fun (bs, c) => (b :: bs, c)

def readEscaped (start : Mark) (c : Cursor) : Except SyntaxError (List Char × Cursor) :=
  match escapedByte? c with
  | none => .error (.ofCharacters .escapedByte start c.mark)
  | some b =>
    if byteCount b = 0 then .error (.ofCharacters .leadingByte start c.mark)
    else
      (readTrailing start (byteCount b - 1) (c.skipMany 3)).map fun (bs, c) =>
        (decode (b :: bs), c)

def readAddressFrom (start : Mark) : Nat → Cursor → Except SyntaxError (List Char × Cursor)
  | 0, c => .ok ([], c)
  | fuel + 1, c =>
    match c.rest.head? with
    | some '%' => do
      let (x, c) ← readEscaped start c
      let (xs, c) ← readAddressFrom start fuel c
      return (x ++ xs, c)
    | some x =>
      if isAddressChar x then
        (readAddressFrom start fuel c.skip).map fun (xs, c) => (x :: xs, c)
      else .ok ([], c)
    | none => .ok ([], c)

/-- The address of a tag.  It may be empty only after something else. -/
def readAddress (start : Mark) (continued : Bool) (c : Cursor) :
    Except SyntaxError (List Char × Cursor) := do
  let (address, next) ← readAddressFrom start c.rest.length c
  if !continued && next.mark.index = c.mark.index then
    throw (.ofCharacters .tagAddress start next.mark)
  return (address, next)

/-- What may be a handle: a mark, a name, and maybe another mark. -/
def handleAt (c : Cursor) : List Char :=
  let name := '!' :: c.skip.rest.takeWhile isNameChar
  if c.peek? name.length = some '!' then name ++ ['!'] else name

/-- A tag as a handle and a suffix.  The handle of a whole address is empty. -/
structure Tag where
  handle : String
  suffix : String
  deriving DecidableEq, Repr

def readTag (c : Cursor) : Except SyntaxError (Tag × Cursor) := do
  let start := c.mark
  let (tag, c) ←
    if c.peek? 1 = some '<' then
      let (address, c) ← readAddress start false (c.skipMany 2)
      if !c.sees '>' then throw (.ofCharacters .tagBracket start c.mark)
      pure (Tag.mk "" (String.ofList address), c.skip)
    else
      let handle := handleAt c
      let c := c.skipMany handle.length
      if 1 < handle.length && handle.getLast? = some '!' then
        let (suffix, c) ← readAddress start false c
        pure (Tag.mk (String.ofList handle) (String.ofList suffix), c)
      else
        let (rest, c) ← readAddress start true c
        let suffix := handle.drop 1 ++ rest
        pure (if suffix.isEmpty then Tag.mk "" "!" else Tag.mk "!" (String.ofList suffix), c)
  if !c.isGap 0 then throw (.ofCharacters .tagEnd start c.mark)
  return (tag, c)

/-! ### Directives -/

inductive Directive where
  | version (major minor : Nat)
  | handle (name address : String)
  deriving DecidableEq, Repr

def versionDigits : Nat := 2

def readVersionNumber (start : Mark) (c : Cursor) : Except SyntaxError (Nat × Cursor) :=
  let digits := c.rest.takeWhile isDigit
  if versionDigits < digits.length then
    .error (.ofCharacters .versionLength start (c.skipMany versionDigits).mark)
  else if digits.isEmpty then .error (.ofCharacters .versionDigits start c.mark)
  else .ok (digits.foldl (fun n x => n * 10 + hexValue x) 0, c.skipMany digits.length)

def readVersion (start : Mark) (c : Cursor) : Except SyntaxError (Directive × Cursor) := do
  let (major, c) ← readVersionNumber start (c.skipWhile isBlank)
  if !c.sees '.' then throw (.ofCharacters .versionPoint start c.mark)
  let (minor, c) ← readVersionNumber start c.skip
  return (.version major minor, c)

def readHandle (start : Mark) (c : Cursor) : Except SyntaxError (Directive × Cursor) := do
  let c := c.skipWhile isBlank
  if !c.sees '!' then throw (.ofCharacters .tagMark start c.mark)
  let handle := handleAt c
  let c := c.skipMany handle.length
  if handle ≠ ['!'] && (handle.length = 1 || handle.getLast? ≠ some '!') then
    throw (.ofCharacters .tagMark start c.mark)
  if !c.seesWhere isBlank then throw (.ofCharacters .directiveBlank start c.mark)
  let (address, c) ← readAddress start false (c.skipWhile isBlank)
  if !c.isGap 0 then throw (.ofCharacters .tagEnd start c.mark)
  return (.handle (String.ofList handle) (String.ofList address), c)

def readDirective (c : Cursor) : Except SyntaxError (Directive × Cursor) := do
  let start := c.mark
  let name := c.skip.rest.takeWhile isNameChar
  let c := c.skip.skipMany name.length
  if name.isEmpty then throw (.ofCharacters .directiveName start c.mark)
  if !c.isGap 0 then throw (.ofCharacters .directiveLetter start c.mark)
  let (directive, c) ←
    if name = "YAML".toList then readVersion start c
    else if name = "TAG".toList then readHandle start c
    else throw (.ofCharacters .unknownDirective start c.mark)
  let c := c.skipWhile isBlank
  let c := if c.sees '#' then c.skipToLineEnd else c
  if !c.atLineEnd then throw (.ofCharacters .lineEnd start c.mark)
  return (directive, c.skipLine)

end Pagesmith.Yaml
