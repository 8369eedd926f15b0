import Pagesmith.Yaml.Scalar
import Pagesmith.Yaml.Tag

/-!
# Tokens of documents

The indicators and scalars of a text, with tokens of their own for the structure that indentation
gives.  A key without a mark is known only when the colon after it is seen; the token that marks the
key then goes before it.

* `Token`: a token with its place.
* `Scanner`: what is known while a text is scanned.
* `Scanner.fetch`: the next tokens.
* `scan`: the tokens of a text up to the first error.  An error hides the tokens right before it,
  and those of a key that is not complete yet.
-/

namespace Pagesmith.Yaml

open Pagesmith.Text

inductive TokenKind where
  | streamStart
  | streamEnd
  | directive (d : Directive)
  | documentStart
  | documentEnd
  | blockSequenceStart
  | blockMappingStart
  | blockEnd
  | flowSequenceStart
  | flowSequenceEnd
  | flowMappingStart
  | flowMappingEnd
  | blockEntry
  | flowEntry
  | key
  | value
  | reference (name : String)
  | anchor (name : String)
  | tag (t : Tag)
  | scalar (text : String) (plain : Bool)
  deriving DecidableEq, Repr

structure Token where
  kind : TokenKind
  start : Mark
  stop : Mark
  deriving DecidableEq, Repr

/-- Something that is a key if a colon follows. -/
structure SimpleKey where
  possible : Bool := false
  /-- Whether nothing else can stand at its place. -/
  required : Bool := false
  /-- The number of tokens before it. -/
  number : Nat := 0
  mark : Mark := {}
  deriving DecidableEq, Repr

def keyReach : Nat := 1024

def SimpleKey.isStale (k : SimpleKey) (here : Mark) : Bool :=
  k.mark.line < here.line || k.mark.index + keyReach < here.index

structure Scanner where
  cursor : Cursor
  /-- The tokens so far, last one first. -/
  tokens : List Token := []
  /-- The column of the innermost block, with those around it. -/
  indent : Int := -1
  indents : List Int := []
  /-- Whether a key may start here. -/
  keyAllowed : Bool := true
  /-- The possible key outside of brackets, and those in the open brackets, innermost first. -/
  outerKey : SimpleKey := {}
  flowKeys : List SimpleKey := []
  deriving Repr

namespace Scanner

def mark (s : Scanner) : Mark := s.cursor.mark

def inFlow (s : Scanner) : Bool := !s.flowKeys.isEmpty

def simpleKey (s : Scanner) : SimpleKey := s.flowKeys.headD s.outerKey

def setKey (s : Scanner) (k : SimpleKey) : Scanner :=
  match s.flowKeys with
  | [] => { s with outerKey := k }
  | _ :: rest => { s with flowKeys := k :: rest }

def push (s : Scanner) (kind : TokenKind) (start : Mark) (stop : Mark) : Scanner :=
  { s with tokens := ⟨kind, start, stop⟩ :: s.tokens }

def insert (s : Scanner) (number : Nat) (kind : TokenKind) (at_ : Mark) : Scanner :=
  let (after, before) := s.tokens.splitAt (s.tokens.length - number)
  { s with tokens := after ++ ⟨kind, at_, at_⟩ :: before }

/-- An error that is found here, in something that started at a place. -/
def fail {α : Type} (s : Scanner) (fault : Fault) (start : Mark) : Except SyntaxError α :=
  .error (.ofCharacters fault start s.mark)

/-! ### Keys and blocks -/

def removeKey (s : Scanner) : Except SyntaxError Scanner :=
  let k := s.simpleKey
  if !k.possible then .ok s
  else if k.required then s.fail .expectedColon k.mark
  else .ok (s.setKey { k with possible := false })

/-- Notes that a key may start here, and that none may right after it. -/
def saveKey (s : Scanner) : Except SyntaxError Scanner :=
  if s.keyAllowed then do
    let s' ← s.removeKey
    return s'.setKey
      { possible := true
        required := !s.inFlow && s.indent = s.mark.column
        number := s.tokens.length
        mark := s.mark }
  else .ok s

def maxDepth : Nat := 10000

/-- Starts a block at a column, unless one is there already.  Its token goes to the end, or before
the token with a number. -/
def openBlock (s : Scanner) (column : Nat) (number : Option Nat) (kind : TokenKind) (at_ : Mark) :
    Except SyntaxError Scanner :=
  if s.inFlow || (column : Int) ≤ s.indent then .ok s
  else if maxDepth ≤ s.indents.length then s.fail .depth s.simpleKey.mark
  else
    let s := { s with indents := s.indent :: s.indents, indent := column }
    .ok (match number with
      | some n => s.insert n kind at_
      | none => s.push kind at_ at_)

/-- Ends blocks until the innermost one does not start after a column. -/
def closeBlocks (column : Int) (at_ : Mark) : List Int → Scanner → Scanner
  | [], s => s
  | outer :: indents, s =>
    if column < s.indent then
      closeBlocks column at_ indents ({ s with indent := outer, indents }.push .blockEnd at_ at_)
    else s

/-- Ends blocks, except in brackets. -/
def unroll (s : Scanner) (column : Int) (at_ : Mark) : Scanner :=
  if s.inFlow then s else closeBlocks column at_ s.indents s

def take (s : Scanner) (n : Nat) (kind : TokenKind) : Scanner :=
  let cursor := s.cursor.skipMany n
  { s with cursor }.push kind s.mark cursor.mark

/-! ### Tokens -/

/-- Past blanks, comments and ends of lines.  A tab counts as a blank where no key may start. -/
def skipGap : Nat → Scanner → Scanner
  | 0, s => s
  | fuel + 1, s =>
    let tabs := s.inFlow || !s.keyAllowed
    let cursor := s.cursor.skipWhile fun x => x = ' ' || (tabs && x = '\t')
    let cursor := if cursor.sees '#' then cursor.skipComments cursor.rest.length else cursor
    if cursor.seesWhere isBreak then
      skipGap fuel { s with cursor := cursor.skipLine, keyAllowed := s.keyAllowed || !s.inFlow }
    else { s with cursor }

def fetchEnd (s : Scanner) : Except SyntaxError Scanner := do
  let mark :=
    if s.mark.column = 0 then s.mark else { s.mark with line := s.mark.line + 1, column := 0 }
  let s := { s with cursor := { s.cursor with mark } }
  let s ← (s.unroll (-1) mark).removeKey
  return { s with keyAllowed := false }.push .streamEnd mark mark

def fetchBetween (s : Scanner) (f : Scanner → Except SyntaxError Scanner) :
    Except SyntaxError Scanner := do
  let s ← (s.unroll (-1) s.mark).removeKey
  f { s with keyAllowed := false }

def fetchDirective (s : Scanner) : Except SyntaxError Scanner :=
  s.fetchBetween fun s => do
    let (d, cursor) ← readDirective s.cursor
    return { s with cursor }.push (.directive d) s.mark cursor.mark

/-- An opening bracket, which may start a key. -/
def fetchOpening (s : Scanner) (kind : TokenKind) : Except SyntaxError Scanner := do
  let s ← s.saveKey
  if maxDepth ≤ s.flowKeys.length then s.fail .depth s.mark
  else return { s with flowKeys := {} :: s.flowKeys, keyAllowed := true }.take 1 kind

def fetchClosing (s : Scanner) (kind : TokenKind) : Except SyntaxError Scanner := do
  let s ← s.removeKey
  return { s with flowKeys := s.flowKeys.tail, keyAllowed := false }.take 1 kind

def fetchComma (s : Scanner) : Except SyntaxError Scanner := do
  let s ← s.removeKey
  return { s with keyAllowed := true }.take 1 .flowEntry

/-- The mark of an entry of a block.  In brackets it is an error that is left for later. -/
def fetchEntry (s : Scanner) : Except SyntaxError Scanner := do
  if !s.inFlow && !s.keyAllowed then s.fail .misplacedEntry s.mark
  else
    let s ← s.openBlock s.mark.column none .blockSequenceStart s.mark
    let s ← s.removeKey
    return { s with keyAllowed := true }.take 1 .blockEntry

def fetchKey (s : Scanner) : Except SyntaxError Scanner := do
  if !s.inFlow && !s.keyAllowed then s.fail .misplacedKey s.mark
  else
    let s ← s.openBlock s.mark.column none .blockMappingStart s.mark
    let s ← s.removeKey
    return { s with keyAllowed := !s.inFlow }.take 1 .key

/-- The mark of a value.  If a possible key stands before it, that is a key. -/
def fetchValue (s : Scanner) : Except SyntaxError Scanner := do
  let k := s.simpleKey
  if k.possible && !k.isStale s.mark then
    let s := s.insert k.number .key k.mark
    let s ← s.openBlock k.mark.column (some k.number) .blockMappingStart k.mark
    return { s.setKey { k with possible := false } with keyAllowed := false }.take 1 .value
  else if k.possible && k.required then s.fail .expectedColon k.mark
  else if !s.inFlow && !s.keyAllowed then s.fail .misplacedValue s.mark
  else
    let s := s.setKey { k with possible := false }
    let s ← s.openBlock s.mark.column none .blockMappingStart s.mark
    return { s with keyAllowed := !s.inFlow }.take 1 .value

def fetchKeyPart {α : Type} (s : Scanner) (read : Cursor → Except SyntaxError (α × Cursor))
    (kind : α → TokenKind) : Except SyntaxError Scanner := do
  let s ← s.saveKey
  let (a, cursor) ← read s.cursor
  return { s with cursor, keyAllowed := false }.push (kind a) s.mark cursor.mark

def fetchBlockScalar (s : Scanner) (literal : Bool) : Except SyntaxError Scanner := do
  let s ← s.removeKey
  let (text, cursor) ← readBlock literal s.indent s.cursor
  return { s with cursor, keyAllowed := true }.push (.scalar (String.ofList text) false) s.mark
    cursor.mark

def fetchQuoted (s : Scanner) (quote : Char) : Except SyntaxError Scanner :=
  s.fetchKeyPart (readQuoted quote) fun text => .scalar (String.ofList text) false

/-- A scalar without quotes.  A key may follow it in another line. -/
def fetchPlain (s : Scanner) : Except SyntaxError Scanner := do
  let s ← s.saveKey
  let p ← readPlain s.inFlow (s.indent + 1).toNat s.cursor
  return { s with cursor := p.cursor, keyAllowed := p.broken }.push
    (.scalar (String.ofList p.text) true) s.mark p.cursor.mark

def startsPlain (s : Scanner) (x : Char) : Bool :=
  !(s.cursor.isGap 0 || "-?:,[]\x7b\x7d#&*!|>'\"%@\x60".toList.contains x)
    || (x = '-' && !((s.cursor.peek? 1).map isBlank).getD false)
    || (!s.inFlow && (x = '?' || x = ':') && !s.cursor.isGap 1)

def fetchAt (s : Scanner) (x : Char) : Except SyntaxError Scanner :=
  match x with
  | '[' => s.fetchOpening .flowSequenceStart
  | '\x7b' => s.fetchOpening .flowMappingStart
  | ']' => s.fetchClosing .flowSequenceEnd
  | '\x7d' => s.fetchClosing .flowMappingEnd
  | ',' => s.fetchComma
  | '*' => s.fetchKeyPart readName .reference
  | '&' => s.fetchKeyPart readName .anchor
  | '!' => s.fetchKeyPart readTag .tag
  | '\'' | '"' => s.fetchQuoted x
  | _ =>
    let apart := s.cursor.isGap 1
    if x = '-' && apart then s.fetchEntry
    else if x = '?' && (s.inFlow || apart) then s.fetchKey
    else if x = ':' && (s.inFlow || apart) then s.fetchValue
    else if x = '|' && !s.inFlow then s.fetchBlockScalar true
    else if x = '>' && !s.inFlow then s.fetchBlockScalar false
    else if s.startsPlain x then s.fetchPlain
    else s.fail .strayCharacter s.mark

def afterEntry (s : Scanner) : Bool :=
  (s.tokens.head?.map fun t => decide (t.kind = .blockEntry)).getD false

def fetch (s : Scanner) : Except SyntaxError Scanner :=
  let before := s.mark
  let s := s.skipGap (s.cursor.rest.length + 1)
  let s := s.unroll s.mark.column before
  match s.cursor.rest with
  | [] => s.fetchEnd
  | x :: _ =>
    if s.mark.column = 0 && x = '%' then s.fetchDirective
    else if s.cursor.atSeparator then
      s.fetchBetween fun s =>
        .ok (s.take 3 (if x = '-' then .documentStart else .documentEnd))
    else
      (s.fetchAt x).map fun s =>
        if s.afterEntry then s else { s with cursor := s.cursor.skipLineComment }

/-! ### All tokens -/

def waits (s : Scanner) (k : SimpleKey) : Bool :=
  k.possible && (k.required || !k.isStale s.mark)

/-- The number of tokens that are known to be complete, if the next ones fail. -/
def complete (s : Scanner) : Nat :=
  (s.outerKey :: s.flowKeys).foldl (fun n k => if s.waits k then min n k.number else n)
    (s.tokens.length - 2)

end Scanner

structure Scan where
  tokens : List Token
  error : Option SyntaxError := none

def scanFrom : Nat → Scanner → Scan
  | 0, s => ⟨s.tokens.reverse, none⟩
  | fuel + 1, s =>
    match s.fetch with
    | .error e => ⟨s.tokens.reverse.take s.complete, some e⟩
    | .ok s =>
      match s.tokens with
      | ⟨.streamEnd, _, _⟩ :: _ => ⟨s.tokens.reverse, none⟩
      | _ => scanFrom fuel s

def isAllowed (c : Char) : Bool :=
  let n := c.toNat
  n = 0x09 || n = 0x0a || n = 0x0d || (0x20 ≤ n && n ≤ 0x7e) || n = 0x85
    || (0xa0 ≤ n && n ≤ 0xfffd) || 0x10000 ≤ n

/-- The tokens of a text.  A byte order mark may stand before it. -/
def scan (text : List Char) : Scan :=
  let text := if text.isEmpty then ['\n'] else dropLeading ['\ufeff'] text
  if text.all isAllowed then
    scanFrom (text.length + 2)
      (({ cursor := { rest := text } } : Scanner).push .streamStart {} {})
  else ⟨[], some ⟨.controlCharacter, none⟩⟩

end Pagesmith.Yaml
