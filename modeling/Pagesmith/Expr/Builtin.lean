import Pagesmith.Expr.Operator
import Pagesmith.Text.Unicode.Case

/-!
# Built-in functions on values

The built-in functions that take values and no predicates.

* `insertSorted`, `sortValues`: sorting by insertion, each new element compared from the right.
* `builtinValue`: the result of a built-in function.
-/

namespace Pagesmith.Expr

open Value (Outcome)

/-! ### Texts -/

/-- The pieces of a text between separators; an empty separator parts all characters. -/
def splitText (sep s : List Char) : List (List Char) :=
  if sep.isEmpty then s.map fun c => [c] else Text.split sep s

/-- At most `n` pieces of a text, the last one with all the rest. -/
def splitAtMost (sep s : List Char) (n : Int) : List (List Char) :=
  let pieces := splitText sep s
  if n < 0 || (pieces.length : Int) ≤ n then pieces
  else if n = 0 then []
  else
    let k := n.toNat - 1
    pieces.take k ++ [Text.join sep (pieces.drop k)]

def withSeparators (sep : List Char) (pieces : List (List Char)) : List (List Char) :=
  match pieces with
  | [] => []
  | [p] => [p]
  | p :: ps => (p ++ sep) :: withSeparators sep ps

/-- A text put before each character of another, as often as allowed. -/
def interleave (new : List Char) : Nat → List Char → List Char
  | 0, s => s
  | _ + 1, [] => new
  | n + 1, c :: cs => new ++ c :: interleave new n cs

/-- The first occurrences of `old`, at most a number of them, replaced. -/
def replaceAtMost (old new s : List Char) (n : Nat) : List Char :=
  if old.isEmpty then interleave new n s
  else
    let pieces := Text.split old s
    let first := pieces.take (n + 1)
    Text.join old (Text.join new first :: pieces.drop (n + 1))

/-- The byte offset of the first occurrence of a text, or minus one. -/
def offsetOf (s t : List Char) : Int :=
  match Text.indexOfBytes? t s with
  | some n => n
  | none => -1

/-- The byte offset of the last occurrence of a text, or minus one. -/
def lastOffsetOf (s t : List Char) : Int :=
  match Text.cut t.reverse s.reverse with
  | some (after, _) => (Text.byteSize s : Int) - Text.byteSize after - Text.byteSize t
  | none => -1

/-! ### Sorting -/

/-- Inserts a value into a list that is sorted from its last element to its first. -/
def insertSorted (less : Value → Value → Outcome Bool) (v : Value) :
    List Value → Outcome (List Value)
  | [] => .ok [v]
  | w :: ws => do
    if ← less v w then return w :: (← insertSorted less v ws) else return v :: w :: ws

def sortValues (less : Value → Value → Outcome Bool) (vs : List Value) : Outcome (List Value) := do
  return (← vs.foldlM (fun acc v => insertSorted less v acc) []).reverse

def sortOrder (v : Value) : Outcome Bool := do
  match ← v.toStr with
  | "asc" => return false
  | "desc" => return true
  | s => throw (.order s)

def listItems (name : String) : Value → Outcome (List Value)
  | .list _ items => .ok items
  | v => .error (.argument name v)

def sorted (v : Value) (order : Option Value) : Outcome Value := do
  let items ← listItems "sort" v
  let descending ← match order with
    | some o => sortOrder o
    | none => pure false
  return .array (← sortValues (fun a b => if descending then b.precedes a else a.precedes b) items)

/-! ### Numbers -/

def intOf : Value → Outcome Value
  | .str s =>
    match readInt 10 s.toList with
    | .ok n => .ok (.int n)
    | .error _ => .error (.notNumeric "int" s)
  | v => do return .int (← v.toInt)

def floatOf : Value → Outcome Value
  | .str s =>
    match readFloat s.toList with
    | .ok x => .ok (.float x)
    | .error _ => .error (.notNumeric "float" s)
  | .int n => .ok (.float (Float.ofInt n))
  | .float x => .ok (.float x)
  | v => .error (.notNumber "float" v)

def roundBy (name : String) (f : Float → Float) : Value → Outcome Value
  | .int n => .ok (.float (Float.ofInt n))
  | .float x => .ok (.float (f x))
  | v => .error (.argument name v)

def absolute : Value → Outcome Value
  | .int n => .ok (.int (if n < 0 then wrapInt (-n) else n))
  | .float x => .ok (.float x.abs)
  | v => .error (.argument "abs" v)

/-! ### The functions -/

def joined (v : Value) (glue : String) : Outcome Value :=
  match v with
  | .list _ items => do
    let texts ← items.mapM Value.toStr
    return .str (glue.intercalate texts)
  | _ => .error (.argument "join" v)

def familyName : Value → String
  | .nil => "nil"
  | .bool _ => "bool"
  | .int _ => "int"
  | .float _ => "float"
  | .str _ | .markup _ => "string"
  | .described _ => "struct"
  | .list .. => "array"
  | .map _ => "map"
  | .func _ => "func"

def textList (texts : List (List Char)) : Value :=
  .list .str (texts.map fun t => .str (String.ofList t))

def onText (v : Value) (f : List Char → List Char) : Outcome Value := do
  return .str (String.ofList (f (← v.toStr).toList))

def onTexts (v w : Value) (f : List Char → List Char → Value) : Outcome Value := do
  let s ← v.toStr
  let t ← w.toStr
  return f s.toList t.toList

def builtinValue (name : String) (args : List Value) : Outcome Value :=
  let text (s : List Char) : Value := .str (String.ofList s)
  match name, args with
  | "len", [v] => do return .int (← v.length)
  | "type", [v] => .ok (.str (familyName v))
  | "abs", [v] => absolute v
  | "ceil", [v] => roundBy name Float.ceil v
  | "floor", [v] => roundBy name Float.floor v
  | "round", [v] => roundBy name Float.round v
  | "int", [v] => intOf v
  | "float", [v] => floatOf v
  | "string", [v] => .ok (.str v.text)
  | "upper", [v] => onText v (·.map Text.upperChar)
  | "lower", [v] => onText v (·.map Text.lowerChar)
  | "trim", [v] => onText v Text.trim
  | "trim", [v, w] => onTexts v w fun s t => text (Text.trimWhere (· ∈ t) s)
  | "trimPrefix", [v] => onText v (Text.dropLeading [' '])
  | "trimPrefix", [v, w] => onTexts v w fun s t => text (Text.dropLeading t s)
  | "trimSuffix", [v] => onText v (Text.dropTrailing [' '])
  | "trimSuffix", [v, w] => onTexts v w fun s t => text (Text.dropTrailing t s)
  | "split", [v, w] => onTexts v w fun s t => textList (splitText t s)
  | "split", [v, w, n] => do
    let n ← n.toInt
    onTexts v w fun s t => textList (splitAtMost t s n)
  | "splitAfter", [v, w] => onTexts v w fun s t =>
    textList (if t.isEmpty then splitText t s else withSeparators t (splitText t s))
  | "splitAfter", [v, w, n] => do
    let n ← n.toInt
    onTexts v w fun s t =>
      textList (if t.isEmpty then splitAtMost t s n else withSeparators t (splitAtMost t s n))
  | "replace", [v, w, x] => do
    let new := (← x.toStr).toList
    onTexts v w fun s t => text (Text.replaceAll t new s)
  | "replace", [v, w, x, n] => do
    let n ← n.toInt
    let new := (← x.toStr).toList
    onTexts v w fun s t => text (replaceAtMost t new s (if n < 0 then s.length + 1 else n.toNat))
  | "repeat", [v, n] => do
    let n ← n.toInt
    if n < 0 then throw .negativeRepeat
    if 1000000 < n then throw .memory
    onText v fun s => (List.replicate n.toNat s).flatten
  | "join", [v] => joined v ""
  | "join", [v, w] => do joined v (← w.toStr)
  | "indexOf", [v, w] => onTexts v w fun s t => .int (offsetOf s t)
  | "lastIndexOf", [v, w] => onTexts v w fun s t => .int (lastOffsetOf s t)
  | "hasPrefix", [v, w] => onTexts v w fun s t => .bool (t.isPrefixOf s)
  | "hasSuffix", [v, w] => onTexts v w fun s t => .bool (t.isSuffixOf s)
  | "first", [v] => .ok ((v.fetch (.int 0)).toOption.getD .nil)
  | "last", [v] => .ok ((v.fetch (.int (-1))).toOption.getD .nil)
  | "sort", [v] => sorted v none
  | "sort", [v, o] => sorted v (some o)
  | _, _ => .error (.unsupported name)

end Pagesmith.Expr
