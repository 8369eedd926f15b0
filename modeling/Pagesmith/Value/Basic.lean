import Pagesmith.Decimal.Layout
import Pagesmith.Text.Basic

/-!
# Values

The values that pages compute with: template data, what logic binds, and what capabilities take
and give.

* `Capability`: the functions of the world outside that logic can call.
* `Value`: a dynamic value; a map has its fields in increasing order of their names.
* `Value.typeName`: the name of a value's type in messages.
* `Value.text`: the plain text of a value.
-/

namespace Pagesmith

inductive Capability where
  | collection
  | find
  | findOne
  | insert
  | update
  | remove
  | httpGet
  | httpPost
  | httpPut
  | httpDelete
  | socketOn
  | socketEmit
  | socketBroadcast
  | login
  | logout
  | register
  deriving DecidableEq, Repr

inductive ElementKind where
  | any
  | int
  | str
  deriving DecidableEq, Repr

inductive Value where
  | nil
  | bool (b : Bool)
  | int (n : Int)
  | float (x : Float)
  | str (s : String)
  /-- Markup that is trusted. -/
  | markup (s : String)
  /-- A value that is known by its text only. -/
  | described (s : String)
  | list (kind : ElementKind) (items : List Value)
  | map (fields : List (String × Value))
  | func (f : Capability)
  deriving Inhabited, Repr

namespace Value

abbrev array (items : List Value) : Value := .list .any items

/-! ### Fields -/

def field? (fields : List (String × Value)) (name : String) : Option Value :=
  (fields.find? (·.1 == name)).map Prod.snd

/-- Gives a field a value, at its place in the order of names. -/
def setField (name : String) (v : Value) : List (String × Value) → List (String × Value)
  | [] => [(name, v)]
  | (k, w) :: rest =>
    if name == k then (name, v) :: rest
    else if name < k then (name, v) :: (k, w) :: rest
    else (k, w) :: setField name v rest

/-- Fields in any order, where the last value of a name counts, in the order of a map. -/
def sortFields (fields : List (String × Value)) : List (String × Value) :=
  fields.foldl (fun acc (k, v) => setField k v acc) []

def object (fields : List (String × Value)) : Value := .map (sortFields fields)

/-! ### Names and texts -/

end Value

def ElementKind.listName : ElementKind → String
  | .any => "[]interface \x7b\x7d"
  | .int => "[]int"
  | .str => "[]string"

namespace Value

def typeName : Value → String
  | .nil => "<nil>"
  | .bool _ => "bool"
  | .int _ => "int"
  | .float _ => "float64"
  | .str _ => "string"
  | .markup _ => "template.HTML"
  | .described _ => "main.stringer"
  | .list kind _ => kind.listName
  | .map _ => "map[string]interface \x7b\x7d"
  | .func _ => "func(...interface \x7b\x7d) (interface \x7b\x7d, error)"

mutual

/-- The plain text of a value: strings as they are, lists in brackets, maps by name. -/
def text : Value → String
  | .nil => "<nil>"
  | .bool b => if b then "true" else "false"
  | .int n => toString n
  | .float x => floatText x
  | .str s | .markup s | .described s => s
  | .list _ items => "[" ++ textItems items ++ "]"
  | .map fields => "map[" ++ textFields fields ++ "]"
  | .func _ => "func"

def textItems : List Value → String
  | [] => ""
  | [v] => text v
  | v :: vs => text v ++ " " ++ textItems vs

def textFields : List (String × Value) → String
  | [] => ""
  | [(k, v)] => k ++ ":" ++ text v
  | (k, v) :: fs => k ++ ":" ++ text v ++ " " ++ textFields fs

end

def isNil : Value → Bool
  | .nil => true
  | _ => false

end Value

end Pagesmith
