import Pagesmith.Text.Base64
import Pagesmith.Yaml.Node

/-!
# Values of documents

The value that a document describes.  The root is a mapping with texts as keys, or nothing; any
other node is whatever its kind and its looks say.

* `decodeValue`: the value of a node.
* `mergeNode`: the entries that a merge key brings in.  They give way to what is there already.
* `load`: the fields of the root of a document.
-/

namespace Pagesmith.Yaml

open Pagesmith.Text

/-! ### Bookkeeping -/

/-- What is known while values are read: the nodes that did not fit, last one first, the nodes so
far, and how many of them came through references. -/
structure LoadState where
  mismatches : List Mismatch := []
  nodes : Nat := 0
  referred : Nat := 0

abbrev Load := StateT LoadState (Except Error)

namespace Load

/-- The share of nodes that may come through references: nearly all in a small document, and a
tenth in a large one. -/
def allowedShare (nodes : Nat) : Float :=
  if nodes ≤ 400000 then 0.99
  else if 4000000 ≤ nodes then 0.10
  else 0.99 - 0.89 * ((nodes - 400000).toFloat / 3600000)

/-- Counts a node, which may have come through a reference. -/
def count (referred : Bool) : Load Unit := do
  modify fun s =>
    { s with nodes := s.nodes + 1, referred := s.referred + if referred then 1 else 0 }
  let s ← get
  if 100 < s.referred && 1000 < s.nodes
      && allowedShare s.nodes < s.referred.toFloat / s.nodes.toFloat then
    throw .tooManyReferences

def note (m : Mismatch) : Load Unit := modify fun s => { s with mismatches := m :: s.mismatches }

end Load

open Load

/-! ### Scalars and keys -/

def scalarValue (tag text : String) : Load Value := do
  match resolve tag text with
  | .error e => throw (.unresolved e)
  | .ok r =>
    if r.tag = TagName.binary then
      match decodeBase64? text.toList with
      | some bytes => return .str (String.ofList (decode bytes))
      | none => throw .badBytes
    else return r.value

def repeatedKeys : List Node → List Mismatch
  | [] => []
  | k :: ks =>
    (ks.filter k.sameKey).map (fun j => .repeatedKey j.line j.keyText k.line) ++ repeatedKeys ks

/-- Whether the keys of a mapping are all different; a mismatch for each pair that is not. -/
def keysDiffer (entries : List (Node × Node)) : Load Bool := do
  let repeated := repeatedKeys (entries.map (·.1))
  repeated.forM note
  return repeated.isEmpty

/-- The text of a key.  Nothing is no key. -/
def decodeText (referred : Bool) : Node → Load (Option String)
  | .scalar _ tag text => do
    count referred
    match ← scalarValue tag text with
    | .nil => return none
    | .str s => return some s
    | _ => return some text
  | .sequence line tag _ => do
    count referred
    note (.kind line tag "" .text)
    return none
  | .mapping line tag entries => do
    count referred
    if ← keysDiffer entries then note (.kind line tag "" .text)
    return none
  | .reference _ _ target => do
    count referred
    decodeText true target
  | .loop _ _ line tag _ => do
    count referred
    count true
    note (.kind line tag "" .text)
    return none

structure Key where
  type : String
  text : String
  deriving DecidableEq, Repr

def hasTextKeys (entries : List (Node × Node)) : Bool :=
  entries.all fun (k, _) => k.tag = TagName.str || k.tag = TagName.merge

mutual

def keySource : Value → String
  | .nil => "interface \x7b\x7d(nil)"
  | .str s => quoted s
  | .list _ items => "[]interface \x7b\x7d\x7b" ++ keySources items ++ "\x7d"
  | .map fields => "map[string]interface \x7b\x7d\x7b" ++ fieldSources fields ++ "\x7d"
  | v => v.text

def keySources : List Value → String
  | [] => ""
  | [v] => keySource v
  | v :: vs => keySource v ++ ", " ++ keySources vs

def fieldSources : List (String × Value) → String
  | [] => ""
  | [(k, v)] => quoted k ++ ":" ++ keySource v
  | (k, v) :: fs => quoted k ++ ":" ++ keySource v ++ ", " ++ fieldSources fs

end

def Key.ofValue (v : Value) : Key := ⟨v.typeName, v.text⟩

def scalarKey : Value → Load Key
  | .list k items => throw (.invalidKey (keySource (.list k items)))
  | .map fields => throw (.invalidKey (keySource (.map fields)))
  | v => return .ofValue v

/-- The fields of a mapping so far, and the keys that later ones give way to, if there are any. -/
structure Fields where
  values : List (String × Value) := []
  taken : Option (List Key) := none

def Fields.isTaken (f : Fields) (k : Key) : Bool := (f.taken.map (·.contains k)).getD false

def Fields.take (f : Fields) (k : Key) : Fields := { f with taken := f.taken.map (k :: ·) }

def Fields.set (f : Fields) (k : Key) (v : Value) : Fields :=
  { f with values := Value.setField k.text v f.values }

/-! ### Values -/

mutual

def decodeValue (referred : Bool) (node : Node) : Load (Option Value) := do
  count referred
  match node with
  | .scalar _ tag text => return some (← scalarValue tag text)
  | .sequence _ _ items => return some (.array (← decodeItems referred items))
  | .mapping _ _ entries =>
    if ← keysDiffer entries then
      let textual := hasTextKeys entries
      let f ← decodeEntries referred textual entries {}
      let f ← if entries.any (·.1.isMerge) then do
          let keys ← decodeKeys referred entries
          mergeEntries referred textual entries { f with taken := some keys }
        else pure f
      return some (.map f.values)
    else return none
  | .reference _ _ target => decodeValue true target
  | .loop _ name .. => throw (.selfContained name)
termination_by sizeOf node
decreasing_by
  all_goals simp only [Node.sequence.sizeOf_spec, Node.mapping.sizeOf_spec,
    Node.reference.sizeOf_spec]
  all_goals omega

def decodeItems (referred : Bool) (nodes : List Node) : Load (List Value) := do
  match nodes with
  | [] => return []
  | n :: ns =>
    let v ← decodeValue referred n
    let vs ← decodeItems referred ns
    return v.toList ++ vs
termination_by sizeOf nodes
decreasing_by all_goals simp only [List.cons.sizeOf_spec]; omega

/-- The fields of some entries on top of others.  Merge keys are left out. -/
def decodeEntries (referred textual : Bool) (entries : List (Node × Node)) (f : Fields) :
    Load Fields := do
  match entries with
  | [] => return f
  | (k, v) :: rest =>
    if k.isMerge then decodeEntries referred textual rest f
    else
      let found ← if textual then do
          let s ← decodeText referred k
          pure (s.map fun s => Value.str s)
        else decodeValue referred k
      match found with
      | none => decodeEntries referred textual rest f
      | some key =>
        if f.isTaken (.ofValue key) then decodeEntries referred textual rest f
        else
          let f := f.take (.ofValue key)
          let key ← scalarKey key
          match ← decodeValue referred v with
          | some v => decodeEntries referred textual rest (f.set key v)
          | none => decodeEntries referred textual rest f
termination_by sizeOf entries
decreasing_by all_goals simp only [List.cons.sizeOf_spec, Prod.mk.sizeOf_spec]; omega

def decodeKeys (referred : Bool) (entries : List (Node × Node)) : Load (List Key) := do
  match entries with
  | [] => return []
  | (k, _) :: rest =>
    let v ← decodeValue referred k
    let keys ← decodeKeys referred rest
    return (v.map Key.ofValue).toList ++ keys
termination_by sizeOf entries
decreasing_by all_goals simp only [List.cons.sizeOf_spec, Prod.mk.sizeOf_spec]; omega

/-- The fields with those that the merge key of some entries brings in. -/
def mergeEntries (referred textual : Bool) (entries : List (Node × Node)) (f : Fields) :
    Load Fields := do
  match entries with
  | [] => return f
  | (k, v) :: rest =>
    if k.isMerge then
      match v with
      | .sequence _ _ items => mergeItems referred textual items f
      | v => if v.isMapping then mergeNode referred textual v f else throw .mergedNonMapping
    else mergeEntries referred textual rest f
termination_by sizeOf entries
decreasing_by
  · simp only [List.cons.sizeOf_spec, Prod.mk.sizeOf_spec, Node.sequence.sizeOf_spec]; omega
  all_goals simp only [List.cons.sizeOf_spec, Prod.mk.sizeOf_spec]; omega

def mergeNode (referred textual : Bool) (node : Node) (f : Fields) : Load Fields := do
  count referred
  match node with
  | .mapping _ _ entries =>
    if ← keysDiffer entries then
      let f ← decodeEntries referred textual entries f
      mergeEntries referred textual entries f
    else return f
  | .reference _ _ target => mergeNode true textual target f
  | .loop _ name .. => throw (.selfContained name)
  | .scalar .. | .sequence .. => return f
termination_by sizeOf node
decreasing_by all_goals simp only [Node.mapping.sizeOf_spec, Node.reference.sizeOf_spec]; omega

def mergeItems (referred textual : Bool) (nodes : List Node) (f : Fields) : Load Fields := do
  match nodes with
  | [] => return f
  | n :: ns =>
    if n.isMapping then
      let f ← mergeNode referred textual n f
      mergeItems referred textual ns f
    else throw .mergedNonMapping
termination_by sizeOf nodes
decreasing_by all_goals simp only [List.cons.sizeOf_spec]; omega

end

/-! ### Documents -/

def decodeRoot (root : Node) : Load (List (String × Value)) := do
  count false
  count false
  match root with
  | .mapping _ _ entries =>
    if ← keysDiffer entries then
      let f ← decodeEntries false true entries {}
      let f ← if entries.any (·.1.isMerge) then do
          let keys ← decodeKeys false entries
          mergeEntries false true entries { f with taken := some keys }
        else pure f
      return f.values
    else return []
  | .scalar line tag text =>
    match ← scalarValue tag text with
    | .nil => return []
    | _ =>
      note (.kind line tag text .mapping)
      return []
  | node =>
    note (.kind node.line node.tag "" .mapping)
    return []

/-- The fields of the root of the first document of a text.  Without a document there are none. -/
def load (text : String) : Except Error (List (String × Value)) := do
  match ← parse text.toList with
  | none => return []
  | some root =>
    let (fields, s) ← (decodeRoot root).run {}
    if s.mismatches.isEmpty then return fields
    else throw (.mismatched s.mismatches.reverse)

end Pagesmith.Yaml
