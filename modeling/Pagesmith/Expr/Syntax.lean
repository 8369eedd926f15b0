import Pagesmith.Value.Basic

/-!
# Expressions

The syntax trees of the expression language.  Every node has the position that messages about it
point to.

* `UnaryOp`, `BinaryOp`: the operators with their texts and precedences.
* `Expr`: syntax trees.
-/

namespace Pagesmith

namespace Expr

inductive UnaryOp where
  | not
  | bang
  | neg
  | plus
  deriving DecidableEq, Repr

/-- Operators with two operands.  Some have two spellings, which messages keep apart. -/
inductive BinaryOp where
  | or
  | bars
  | and
  | amps
  | eq
  | ne
  | lt
  | gt
  | ge
  | le
  | mem
  | matches
  | contains
  | startsWith
  | endsWith
  | range
  | add
  | sub
  | mul
  | div
  | mod
  | pow
  | caret
  | coalesce
  deriving DecidableEq, Repr

namespace UnaryOp

def text : UnaryOp → String
  | .not => "not"
  | .bang => "!"
  | .neg => "-"
  | .plus => "+"

def precedence : UnaryOp → Nat
  | .not | .bang => 50
  | .neg | .plus => 90

def all : List UnaryOp := [.not, .bang, .neg, .plus]

def ofText? (s : String) : Option UnaryOp := all.find? (·.text == s)

end UnaryOp

namespace BinaryOp

def text : BinaryOp → String
  | .or => "or"
  | .bars => "||"
  | .and => "and"
  | .amps => "&&"
  | .eq => "=="
  | .ne => "!="
  | .lt => "<"
  | .gt => ">"
  | .ge => ">="
  | .le => "<="
  | .mem => "in"
  | .matches => "matches"
  | .contains => "contains"
  | .startsWith => "startsWith"
  | .endsWith => "endsWith"
  | .range => ".."
  | .add => "+"
  | .sub => "-"
  | .mul => "*"
  | .div => "/"
  | .mod => "%"
  | .pow => "**"
  | .caret => "^"
  | .coalesce => "??"

def precedence : BinaryOp → Nat
  | .or | .bars => 10
  | .and | .amps => 15
  | .eq | .ne | .lt | .gt | .ge | .le | .mem | .matches | .contains | .startsWith | .endsWith => 20
  | .range => 25
  | .add | .sub => 30
  | .mul | .div | .mod => 60
  | .pow | .caret => 100
  | .coalesce => 500

def isRight : BinaryOp → Bool
  | .pow | .caret => true
  | _ => false

/-- Whether the operator compares by order.  Such comparisons can be chained. -/
def isComparison : BinaryOp → Bool
  | .lt | .gt | .ge | .le => true
  | _ => false

def isBoolean : BinaryOp → Bool
  | .or | .bars | .and | .amps => true
  | _ => false

/-- Whether `not` can stand before the operator. -/
def isNegatable : BinaryOp → Bool
  | .mem | .matches | .contains | .startsWith | .endsWith => true
  | _ => false

def all : List BinaryOp :=
  [.or, .bars, .and, .amps, .eq, .ne, .lt, .gt, .ge, .le, .mem, .matches, .contains, .startsWith,
    .endsWith, .range, .add, .sub, .mul, .div, .mod, .pow, .caret, .coalesce]

def ofText? (s : String) : Option BinaryOp := all.find? (·.text == s)

end BinaryOp

end Expr

inductive Expr where
  | nil (pos : Nat)
  | bool (pos : Nat) (b : Bool)
  | int (pos : Nat) (n : Int)
  | float (pos : Nat) (x : Float)
  | str (pos : Nat) (s : String)
  | ident (pos : Nat) (name : String)
  | unary (pos : Nat) (op : Expr.UnaryOp) (e : Expr)
  | binary (pos : Nat) (op : Expr.BinaryOp) (l r : Expr)
  /-- An optional chain: an absent base ends all of it. -/
  | chain (pos : Nat) (e : Expr)
  | member (pos : Nat) (e prop : Expr) (optional method : Bool)
  | slice (pos : Nat) (e : Expr) (low high : Option Expr)
  | call (pos : Nat) (callee : Expr) (args : List Expr)
  | builtin (pos : Nat) (name : String) (args : List Expr)
  /-- An expression that is evaluated once for every element of a list. -/
  | predicate (pos : Nat) (e : Expr)
  /-- The element, or a named value, of the innermost predicate. -/
  | pointer (pos : Nat) (name : String)
  | cond (pos : Nat) (c t e : Expr)
  | array (pos : Nat) (items : List Expr)
  | map (pos : Nat) (pairs : List Expr)
  | pair (pos : Nat) (key value : Expr)
  | binding (pos : Nat) (name : String) (value body : Expr)
  | sequence (pos : Nat) (items : List Expr)
  /-- A value that is known before the expression runs. -/
  | const (pos : Nat) (v : Value)
  /-- Membership of an integer in a set of integers that is known before. -/
  | memInts (pos : Nat) (e : Expr) (set : List Int)
  /-- Membership of a text in a set of texts that is known before. -/
  | memStrs (pos : Nat) (e : Expr) (set : List String)
  deriving Inhabited

namespace Expr

def pos : Expr → Nat
  | .nil p | .bool p _ | .int p _ | .float p _ | .str p _ | .ident p _ | .unary p _ _
  | .binary p _ _ _ | .chain p _ | .member p _ _ _ _ | .slice p _ _ _ | .call p _ _
  | .builtin p _ _ | .predicate p _ | .pointer p _ | .cond p _ _ _ | .array p _ | .map p _
  | .pair p _ _ | .binding p _ _ _ | .sequence p _ | .const p _ | .memInts p _ _
  | .memStrs p _ _ => p

def moveTo (p : Nat) : Expr → Expr
  | .nil _ => .nil p
  | .bool _ b => .bool p b
  | .int _ n => .int p n
  | .float _ x => .float p x
  | .str _ s => .str p s
  | .ident _ n => .ident p n
  | .unary _ o e => .unary p o e
  | .binary _ o l r => .binary p o l r
  | .chain _ e => .chain p e
  | .member _ e q o m => .member p e q o m
  | .slice _ e l h => .slice p e l h
  | .call _ c as => .call p c as
  | .builtin _ n as => .builtin p n as
  | .predicate _ e => .predicate p e
  | .pointer _ n => .pointer p n
  | .cond _ c t e => .cond p c t e
  | .array _ es => .array p es
  | .map _ es => .map p es
  | .pair _ k v => .pair p k v
  | .binding _ n v b => .binding p n v b
  | .sequence _ es => .sequence p es
  | .const _ v => .const p v
  | .memInts _ e s => .memInts p e s
  | .memStrs _ e s => .memStrs p e s

/-! ### Built-in functions -/

/-- The kinds of arguments of a built-in function that takes a predicate. -/
inductive Parameter where
  | plain
  | predicate
  | optionalPlain
  | optionalPredicate
  deriving DecidableEq, Repr

def Parameter.isOptional : Parameter → Bool
  | .optionalPlain | .optionalPredicate => true
  | _ => false

/-- The parameters of the built-in functions that take predicates. -/
def predicateParameters? (name : String) : Option (List Parameter) :=
  if name ∈ ["all", "none", "any", "one", "filter", "map", "find", "findIndex", "findLast",
      "findLastIndex", "groupBy"] then some [.plain, .predicate]
  else if name = "count" || name = "sum" then some [.plain, .optionalPredicate]
  else if name = "sortBy" || name = "reduce" then some [.plain, .predicate, .optionalPlain]
  else none

def builtinNames : List String :=
  ["all", "none", "any", "one", "filter", "map", "find", "findIndex", "findLast", "findLastIndex",
    "count", "sum", "groupBy", "sortBy", "reduce", "len", "type", "abs", "ceil", "floor", "round",
    "int", "float", "string", "trim", "trimPrefix", "trimSuffix", "upper", "lower", "split",
    "splitAfter", "replace", "repeat", "join", "indexOf", "lastIndexOf", "hasPrefix", "hasSuffix",
    "max", "min", "mean", "median", "toJSON", "fromJSON", "toBase64", "fromBase64", "now",
    "duration", "date", "timezone", "first", "last", "get", "take", "keys", "values", "toPairs",
    "fromPairs", "reverse", "uniq", "concat", "flatten", "sort", "bitand", "bitor", "bitxor",
    "bitnand", "bitshl", "bitshr", "bitushr", "bitnot"]

end Expr

end Pagesmith
