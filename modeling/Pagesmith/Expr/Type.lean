import Pagesmith.Value.Basic

/-!
# Types of expressions

What is known about the value of an expression before it runs.

* `Ty`: types.  `unknown` and `any` both admit every value; they differ in their names only.
* `Ty.ofValue`: the type of a value of the environment.
* `Ty.assignable`: whether a value of one type can stand where another is declared.
* `Ty.comparable`: whether values of two types can be tested for equality.
-/

namespace Pagesmith

inductive Ty where
  | unknown
  | any
  | nil
  | bool
  | int
  | float
  | str
  | markup
  | described
  /-- Lists: what the elements are declared to be, and what is known about them. -/
  | list (kind : ElementKind) (elem : Ty)
  | map
  | func
  deriving DecidableEq, Repr

namespace Ty

def ofKind : ElementKind → Ty
  | .any => .any
  | .int => .int
  | .str => .str

def ofValue : Value → Ty
  | .nil => .nil
  | .bool _ => .bool
  | .int _ => .int
  | .float _ => .float
  | .str _ => .str
  | .markup _ => .markup
  | .described _ => .described
  | .list kind _ => .list kind (ofKind kind)
  | .map _ => .map
  | .func _ => .func

def name : Ty → String
  | .unknown | .nil => "unknown"
  | .any => "interface \x7b\x7d"
  | .bool => "bool"
  | .int => "int"
  | .float => "float64"
  | .str => "string"
  | .markup => "template.HTML"
  | .described => "main.stringer"
  | .list kind _ => kind.listName
  | .map => "map[string]interface \x7b\x7d"
  | .func => "func(...interface \x7b\x7d) (interface \x7b\x7d, error)"

def isUnknown : Ty → Bool
  | .unknown | .any => true
  | _ => false

def isNil (t : Ty) : Bool := t == .nil

def isBool (t : Ty) : Bool := t == .bool

def isInt (t : Ty) : Bool := t == .int

def isNumber (t : Ty) : Bool := t == .int || t == .float

def isText (t : Ty) : Bool := t == .str || t == .markup

def isList : Ty → Bool
  | .list .. => true
  | _ => false

/-- The type of the elements of a list; nothing is known about those of other types. -/
def elem : Ty → Ty
  | .list _ t => t
  | .map => .any
  | _ => .unknown

def sameShape : Ty → Ty → Bool
  | .list .., .list .. => true
  | .unknown, t | .nil, t => t == .unknown || t == .nil
  | s, t => s == t || (s.isText && t.isText)

def assignable (s t : Ty) : Bool :=
  match s, t with
  | .nil, .any | .nil, .map | .nil, .func | .nil, .list .. => true
  | .nil, _ | .unknown, _ | _, .unknown => false
  | _, .any => true
  | .list a _, .list b _ => a == b
  | _, _ => s == t

def comparable (s t : Ty) : Bool :=
  s.isUnknown || t.isUnknown || s.isNil || t.isNil || (s.isNumber && t.isNumber) || s.sameShape t

/-- Whether two types may both belong to a family, as far as they are known. -/
def mayBoth (p : Ty → Bool) (s t : Ty) : Bool :=
  (s.isUnknown || p s) && (t.isUnknown || p t) && (s.isUnknown || t.isUnknown)

end Ty

end Pagesmith
