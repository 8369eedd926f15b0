import Pagesmith.Yaml.Error
import Pagesmith.Yaml.Token

/-!
# Nodes of documents

The tree that the tokens of a document describe, with every reference next to what it refers to.

* `Node`: scalars, sequences, mappings and references.
* `Parse`: the tokens that are left, and the anchors so far.
* `parseNode`: the node that starts here.
* `parseDocument`: the first document of a text.
-/

namespace Pagesmith.Yaml

/-- A part of a document.  The tag of a node is the one it has by its looks if none is written. -/
inductive Node where
  | scalar (line : Nat) (tag : String) (text : String)
  | sequence (line : Nat) (tag : String) (items : List Node)
  | mapping (line : Nat) (tag : String) (entries : List (Node × Node))
  /-- A reference to a node before it. -/
  | reference (line : Nat) (name : String) (target : Node)
  /-- A reference to a collection that it is part of, with the line and the tag of that. -/
  | loop (line : Nat) (name : String) (targetLine : Nat) (targetTag : String) (isMapping : Bool)
  deriving Inhabited, Repr

namespace Node

def line : Node → Nat
  | .scalar line .. | .sequence line .. | .mapping line .. | .reference line .. | .loop line .. =>
    line

def tag : Node → String
  | .scalar _ tag _ | .sequence _ tag _ | .mapping _ tag _ | .loop _ _ _ tag _ => tag
  | .reference _ _ target => target.tag

def isMapping : Node → Bool
  | .mapping .. => true
  | .reference _ _ (.mapping ..) => true
  | .loop _ _ _ _ m => m
  | _ => false

/-- The text by which keys of one kind are told apart. -/
def keyText : Node → String
  | .scalar _ _ text => text
  | .reference _ name _ | .loop _ name .. => name
  | .sequence .. | .mapping .. => ""

def kindNumber : Node → Nat
  | .scalar .. => 0
  | .sequence .. => 1
  | .mapping .. => 2
  | .reference .. | .loop .. => 3

def sameKey (a b : Node) : Bool := a.kindNumber = b.kindNumber && a.keyText = b.keyText

def isMerge : Node → Bool
  | .scalar _ tag text => text = "<<" && tag = TagName.merge
  | _ => false

end Node

/-! ### Tokens and anchors -/

/-- An anchor: its number, its name, and the node if that is complete. -/
structure Anchor where
  number : Nat
  name : String
  line : Nat
  tag : String
  isMapping : Bool
  node : Option Node := none

/-- The tokens that are left, the anchors so far, last one first, and the handles of tags. -/
structure ParseState where
  tokens : List Token
  error : Option SyntaxError
  anchors : List Anchor := []
  handles : List (String × String) := []

abbrev Parse := StateT ParseState (Except Error)

namespace Parse

def peek : Parse Token := do
  let s ← get
  match s.tokens, s.error with
  | t :: _, _ => return t
  | [], some e => throw (.malformed e)
  | [], none => return ⟨.streamEnd, {}, {}⟩

def advance : Parse Unit := modify fun s => { s with tokens := s.tokens.tail }

/-- A fault in something that started at a place, found at another. -/
def fail {α : Type} (fault : Fault) (start found : Mark) : Parse α :=
  throw (.malformed (.ofTokens fault start found))

/-- Notes the start of a node with an anchor.  The result is the number of the anchor. -/
def openAnchor (name : Option String) (line : Nat) (tag : String) (isMapping : Bool) :
    Parse (Option Nat) := do
  match name with
  | none => return none
  | some name =>
    let number := (← get).anchors.length
    modify fun s => { s with anchors := ⟨number, name, line, tag, isMapping, none⟩ :: s.anchors }
    return some number

def closeAnchor (number : Option Nat) (node : Node) : Parse Node := do
  match number with
  | none => pure ()
  | some number =>
    modify fun s => { s with anchors := s.anchors.map fun a =>
      if a.number = number then { a with node := some node } else a }
  return node

def referTo (line : Nat) (name : String) : Parse Node := do
  match (← get).anchors.find? fun a => a.name = name with
  | none => throw (.unknownAnchor name)
  | some a =>
    match a.node with
    | some node => return .reference line name node
    | none => return .loop line name a.line a.tag a.isMapping

end Parse

structure Properties where
  anchor : Option String := none
  tag : Option Tag := none
  tagMark : Mark := {}

namespace Parse

def properties : Parse Properties := do
  let t ← peek
  match t.kind with
  | .anchor name =>
    advance
    let u ← peek
    match u.kind with
    | .tag tag =>
      advance
      return { anchor := some name, tag := some tag, tagMark := u.start }
    | _ => return { anchor := some name }
  | .tag tag =>
    advance
    let u ← peek
    match u.kind with
    | .anchor name =>
      advance
      return { anchor := some name, tag := some tag, tagMark := t.start }
    | _ => return { tag := some tag, tagMark := t.start }
  | _ => return {}

/-- The whole tag of some properties; nothing if there is none. -/
def wholeTag (p : Properties) (start : Mark) : Parse String := do
  match p.tag with
  | none => return ""
  | some tag =>
    if tag.handle = "" then return tag.suffix
    else
      match (← get).handles.lookup tag.handle with
      | some address =>
        if address ++ tag.suffix = "" then fail .unknownHandle start p.tagMark
        else return address ++ tag.suffix
      | none => fail .unknownHandle start p.tagMark

/-- The tag of a node: the written one, or else the usual one. -/
def tagOr (written usual : String) : String :=
  if written = "" || written = "!" then usual else shortTag written

def scalarTag (text : String) (plain : Bool) : String :=
  if !plain then TagName.str
  else if text = "<<" then TagName.merge
  else (resolvePlain text).tag

/-- A scalar without text, for which nothing is written. -/
def emptyScalar (at_ : Mark) : Node := .scalar (at_.line + 1) TagName.null ""

end Parse

/-! ### Nodes -/

open Parse

mutual

/-- The node that starts here.  Blocks are nodes only outside of brackets, and a sequence that is
not indented only as the value of a key. -/
def parseNode (block bare : Bool) (fuel : Nat) : Parse Node :=
  match fuel with
  | 0 => throw (.malformed ⟨.nodeContent, none⟩)
  | fuel + 1 => do
    let first ← peek
    let line := first.start.line + 1
    if let .reference name := first.kind then
      advance
      return ← referTo line name
    let p ← properties
    let t ← peek
    let tag ← wholeTag p first.start
    let collection (usual : String) (isMapping : Bool) : Parse (Option Nat) :=
      openAnchor p.anchor line (tagOr tag usual) isMapping
    match t.kind, block, bare with
    | .blockEntry, _, true =>
      let n ← collection TagName.seq false
      let items ← parseBareEntries fuel
      closeAnchor n (.sequence line (tagOr tag TagName.seq) items)
    | .scalar text plain, _, _ =>
      advance
      let n ← openAnchor p.anchor line "" false
      closeAnchor n (.scalar line (tagOr tag (scalarTag text plain)) text)
    | .flowSequenceStart, _, _ =>
      let n ← collection TagName.seq false
      advance
      let items ← parseFlowItems t.start true fuel
      closeAnchor n (.sequence line (tagOr tag TagName.seq) items)
    | .flowMappingStart, _, _ =>
      let n ← collection TagName.map true
      advance
      let entries ← parseFlowEntries t.start true fuel
      closeAnchor n (.mapping line (tagOr tag TagName.map) entries)
    | .blockSequenceStart, true, _ =>
      let n ← collection TagName.seq false
      advance
      let items ← parseBlockItems t.start fuel
      closeAnchor n (.sequence line (tagOr tag TagName.seq) items)
    | .blockMappingStart, true, _ =>
      let n ← collection TagName.map true
      advance
      let entries ← parseBlockEntries t.start fuel
      closeAnchor n (.mapping line (tagOr tag TagName.map) entries)
    | _, _, _ =>
      if p.anchor.isSome || tag ≠ "" then
        let n ← openAnchor p.anchor line "" false
        closeAnchor n (.scalar line (tagOr tag TagName.null) "")
      else fail .nodeContent first.start t.start
termination_by structural fuel

def parseBlockItems (start : Mark) (fuel : Nat) : Parse (List Node) :=
  match fuel with
  | 0 => throw (.malformed ⟨.nodeContent, none⟩)
  | fuel + 1 => do
    let t ← peek
    match t.kind with
    | .blockEntry =>
      advance
      let u ← peek
      let item ← match u.kind with
        | .blockEntry | .blockEnd => pure (emptyScalar t.stop)
        | _ => parseNode true false fuel
      return item :: (← parseBlockItems start fuel)
    | .blockEnd =>
      advance
      return []
    | _ => fail .expectedEntry start t.start
termination_by structural fuel

def parseBareEntries (fuel : Nat) : Parse (List Node) :=
  match fuel with
  | 0 => throw (.malformed ⟨.nodeContent, none⟩)
  | fuel + 1 => do
    let t ← peek
    match t.kind with
    | .blockEntry =>
      advance
      let u ← peek
      let item ← match u.kind with
        | .blockEntry | .key | .value | .blockEnd => pure (emptyScalar t.stop)
        | _ => parseNode true false fuel
      return item :: (← parseBareEntries fuel)
    | _ => return []
termination_by structural fuel

/-- The entries of a block mapping that started at a place. -/
def parseBlockEntries (start : Mark) (fuel : Nat) : Parse (List (Node × Node)) :=
  match fuel with
  | 0 => throw (.malformed ⟨.nodeContent, none⟩)
  | fuel + 1 => do
    let t ← peek
    match t.kind with
    | .key =>
      advance
      let u ← peek
      let key ← match u.kind with
        | .key | .value | .blockEnd => pure (emptyScalar t.stop)
        | _ => parseNode true true fuel
      let v ← peek
      let value ← match v.kind with
        | .value => do
          advance
          let w ← peek
          match w.kind with
          | .key | .value | .blockEnd => pure (emptyScalar v.stop)
          | _ => parseNode true true fuel
        | _ => pure (emptyScalar v.start)
      return (key, value) :: (← parseBlockEntries start fuel)
    | .blockEnd =>
      advance
      return []
    | _ => fail .expectedKey start t.start
termination_by structural fuel

/-- The items of a sequence in brackets that started at a place. -/
def parseFlowItems (start : Mark) (first : Bool) (fuel : Nat) : Parse (List Node) :=
  match fuel with
  | 0 => throw (.malformed ⟨.nodeContent, none⟩)
  | fuel + 1 => do
    let t ← peek
    if t.kind ≠ .flowSequenceEnd && !first then
      if t.kind = .flowEntry then advance else fail .sequenceEnd start t.start
    let t ← peek
    match t.kind with
    | .flowSequenceEnd =>
      advance
      return []
    | .key =>
      advance
      let item ← parsePair t.start fuel
      return item :: (← parseFlowItems start false fuel)
    | _ =>
      let item ← parseNode false false fuel
      return item :: (← parseFlowItems start false fuel)
termination_by structural fuel

/-- A mapping of one entry in a sequence, after the mark of its key. -/
def parsePair (start : Mark) (fuel : Nat) : Parse Node :=
  match fuel with
  | 0 => throw (.malformed ⟨.nodeContent, none⟩)
  | fuel + 1 => do
    let t ← peek
    let key ← match t.kind with
      | .value | .flowEntry | .flowSequenceEnd => do
        advance
        pure (emptyScalar t.stop)
      | _ => parseNode false false fuel
    let v ← peek
    let value ← match v.kind with
      | .value => do
        advance
        let w ← peek
        match w.kind with
        | .flowEntry | .flowSequenceEnd => pure (emptyScalar w.start)
        | _ => parseNode false false fuel
      | _ => pure (emptyScalar v.start)
    return .mapping (start.line + 1) TagName.map [(key, value)]
termination_by structural fuel

/-- The entries of a mapping in braces that started at a place. -/
def parseFlowEntries (start : Mark) (first : Bool) (fuel : Nat) : Parse (List (Node × Node)) :=
  match fuel with
  | 0 => throw (.malformed ⟨.nodeContent, none⟩)
  | fuel + 1 => do
    let t ← peek
    if t.kind ≠ .flowMappingEnd && !first then
      if t.kind = .flowEntry then advance else fail .mappingEnd start t.start
    let t ← peek
    match t.kind with
    | .flowMappingEnd =>
      advance
      return []
    | .key =>
      advance
      let u ← peek
      let key ← match u.kind with
        | .value | .flowEntry | .flowMappingEnd => pure (emptyScalar u.start)
        | _ => parseNode false false fuel
      let v ← peek
      let value ← match v.kind with
        | .value => do
          advance
          let w ← peek
          match w.kind with
          | .flowEntry | .flowMappingEnd => pure (emptyScalar w.start)
          | _ => parseNode false false fuel
        | _ => pure (emptyScalar v.start)
      return (key, value) :: (← parseFlowEntries start false fuel)
    | _ =>
      let key ← parseNode false false fuel
      let v ← peek
      return (key, emptyScalar v.start) :: (← parseFlowEntries start false fuel)
termination_by structural fuel

end

/-! ### Documents -/

def standardHandles : List (String × String) := [("!", "!"), ("!!", standardAddress)]

def parseDirectives (versioned : Bool) : List (String × String) → Nat → Parse Unit
  | _, 0 => return
  | given, fuel + 1 => do
    let t ← peek
    match t.kind with
    | .directive (.version major minor) =>
      if versioned then fail .duplicateVersion {} t.start
      else if major ≠ 1 || minor ≠ 1 then fail .otherVersion {} t.start
      else
        advance
        parseDirectives true given fuel
    | .directive (.handle name address) =>
      if given.any (·.1 = name) then fail .duplicateTag {} t.start
      else
        advance
        parseDirectives versioned (given ++ [(name, address)]) fuel
    | _ => modify fun s => { s with handles := given ++ standardHandles }

def parseDocument (fuel : Nat) : Parse (Option Node) := do
  advance
  let t ← peek
  match t.kind with
  | .streamEnd => return none
  | .directive _ | .documentStart =>
    parseDirectives false [] fuel
    let t ← peek
    if t.kind ≠ .documentStart then fail .documentStart {} t.start
    advance
    let t ← peek
    let root ← match t.kind with
      | .directive _ | .documentStart | .documentEnd | .streamEnd => pure (emptyScalar t.start)
      | _ => parseNode true false fuel
    discard peek
    return some root
  | _ =>
    parseDirectives false [] 1
    let root ← parseNode true false fuel
    discard peek
    return some root

/-- The root of the first document of a text, if there is any document. -/
def parse (text : List Char) : Except Error (Option Node) :=
  let r := scan text
  match r.tokens, r.error with
  | [], some e => .error (.malformed e)
  | tokens, error =>
    (parseDocument (4 * tokens.length + 8)).run' { tokens, error }

end Pagesmith.Yaml
