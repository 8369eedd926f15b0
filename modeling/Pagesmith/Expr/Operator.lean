import Pagesmith.Decimal.Power
import Pagesmith.Decimal.Reader
import Pagesmith.Expr.Syntax
import Pagesmith.Regex.Parser
import Pagesmith.Text.Blank
import Pagesmith.Text.Quoted
import Pagesmith.Text.Utf8

/-!
# Operations on values

What the operators of expressions do with the values they meet at run time.  Integers and floats
mix: an operation on one of each is one on floats.

* `RunError`: why an operation fails.
* `Value.equal`, `Value.precedes`: equality and order.
* `Value.fetch`, `Value.cut`: members and slices.
* `unaryValue`, `binaryValue`: the operators.
-/

namespace Pagesmith

inductive RunError where
  | conversion (v : Value) (target : String)
  | mismatch (op : String) (a b : Value)
  | unary (op : String) (v : Value)
  | notNumber (target : String) (v : Value)
  | notNumeric (target text : String)
  | zeroDivision
  | fetch (key v : Value)
  | outOfRange (index : Int) (length : Nat)
  | keyType (v : Value)
  | notContainer (v : Value)
  | slice (low : Value)
  | argument (name : String) (v : Value)
  | pattern (e : RegexError)
  | memory
  | reflected (method kind : String)
  | argumentIndex (i : Nat)
  | sliceIndex
  | parameterOf (typeName : String)
  | order (text : String)
  | negativeRepeat
  | unsupported (name : String)
  /-- A failure of the world outside, in its own words. -/
  | outside (message : String)
  deriving Repr

/-- The name of a value's type where an absent value has none. -/
def Value.dynamicName (v : Value) : String := if v.isNil then "nil" else v.typeName

def RunError.message : RunError → String
  | .conversion v target =>
    "interface conversion: interface \x7b\x7d is " ++ v.dynamicName ++ ", not " ++ target
  | .mismatch op a b => "invalid operation: " ++ a.typeName ++ " " ++ op ++ " " ++ b.typeName
  | .unary op v => "invalid operation: " ++ op ++ " " ++ v.typeName
  | .notNumber target v => "invalid operation: " ++ target ++ "(" ++ v.typeName ++ ")"
  | .notNumeric target text => "invalid operation: " ++ target ++ "(" ++ text ++ ")"
  | .zeroDivision => "runtime error: integer divide by zero"
  | .fetch key v => "cannot fetch " ++ key.text ++ " from " ++ v.typeName
  | .outOfRange i n =>
    "index out of range: " ++ toString i ++ " (array length is " ++ toString n ++ ")"
  | .keyType v =>
    "reflect.Value.MapIndex: value of type " ++ v.typeName ++ " is not assignable to type string"
  | .notContainer v => "operator \"in\" not defined on " ++ v.typeName
  | .slice low => "cannot slice " ++ low.text
  | .argument name v => "invalid argument for " ++ name ++ " (type " ++ v.typeName ++ ")"
  | .pattern e => e.message
  | .memory => "memory budget exceeded"
  | .reflected method kind => "reflect: call of reflect.Value." ++ method ++ " on " ++ kind
  | .argumentIndex i =>
    "runtime error: index out of range [" ++ toString i ++ "] with length 1"
  | .sliceIndex => "reflect: slice index out of range"
  | .parameterOf t => "reflect: In of non-func type " ++ t
  | .order t => "invalid order " ++ t ++ ", expected asc or desc"
  | .negativeRepeat => "strings: negative Repeat count"
  | .unsupported name => "builtin " ++ name ++ " is not available"
  | .outside m => m

namespace Value

abbrev Outcome := Except RunError

/-! ### Conversions -/

def toBool : Value → Outcome Bool
  | .bool b => .ok b
  | v => .error (.conversion v "bool")

def toStr : Value → Outcome String
  | .str s => .ok s
  | v => .error (.conversion v "string")

def toInt : Value → Outcome Int
  | .int n => .ok n
  | .float x => .ok (truncate x)
  | v => .error (.notNumber "int" v)

def toFloat : Value → Outcome Float
  | .int n => .ok (Float.ofInt n)
  | .float x => .ok x
  | v => .error (.notNumber "float64" v)

/-! ### Equality and order -/

/-- The floats that two numbers are compared as, if one of them is a float. -/
def floats? : Value → Value → Option (Float × Float)
  | .int a, .float b => some (Float.ofInt a, b)
  | .float a, .int b => some (a, Float.ofInt b)
  | .float a, .float b => some (a, b)
  | _, _ => none

mutual

def same : Value → Value → Bool
  | .nil, .nil => true
  | .bool a, .bool b => a == b
  | .int a, .int b => a == b
  | .float a, .float b => a == b
  | .str a, .str b | .markup a, .markup b | .described a, .described b => a == b
  | .list k a, .list l b => k == l && sameItems a b
  | .map a, .map b => sameFields a b
  | _, _ => false

def sameItems : List Value → List Value → Bool
  | [], [] => true
  | a :: as, b :: bs => same a b && sameItems as bs
  | _, _ => false

def sameFields : List (String × Value) → List (String × Value) → Bool
  | [], [] => true
  | (j, a) :: as, (k, b) :: bs => j == k && same a b && sameFields as bs
  | _, _ => false

end

mutual

/-- Whether two values are equal: numbers by value, lists by their elements, all else in every
part. -/
def equal : Value → Value → Bool
  | .int a, .int b => a == b
  | .int a, .float b => Float.ofInt a == b
  | .float a, .int b => a == Float.ofInt b
  | .float a, .float b => a == b
  | .list _ a, .list _ b => equalItems a b
  | a, b => same a b

def equalItems : List Value → List Value → Bool
  | [], [] => true
  | a :: as, b :: bs => equal a b && equalItems as bs
  | _, _ => false

end

def compare (op : String) (ints : Int → Int → Bool) (reals : Float → Float → Bool)
    (texts : String → String → Bool) (a b : Value) : Outcome Bool :=
  match a, b with
  | .int m, .int n => .ok (ints m n)
  | .str s, .str t => .ok (texts s t)
  | _, _ =>
    match floats? a b with
    | some (x, y) => .ok (reals x y)
    | none => .error (.mismatch op a b)

def precedes (a b : Value) : Outcome Bool :=
  compare "<" (fun m n => m < n) (fun x y => x < y) (fun s t => s < t) a b

/-! ### Members -/

/-- The position of an index, counted from the end if it is negative. -/
def position (i : Int) (n : Nat) : Outcome Nat :=
  let k := if i < 0 then n + i else i
  if k < 0 || (n : Int) ≤ k then .error (.outOfRange k n) else .ok k.toNat

def fetch (v key : Value) : Outcome Value :=
  match v with
  | .list _ items => do
    let k ← position (← key.toInt) items.length
    return items.getD k .nil
  | .str s | .markup s => do
    let bytes := Text.encode s.toList
    let k ← position (← key.toInt) bytes.length
    return .int (bytes.getD k 0)
  | .map fields =>
    match key with
    | .str name => .ok ((field? fields name).getD .nil)
    | .nil => .ok ((field? fields "").getD .nil)
    | _ => .error (.keyType key)
  | _ => .error (.fetch key v)

def size (v : Value) : Outcome Nat :=
  match v with
  | .list _ items => .ok items.length
  | .map fields => .ok fields.length
  | .str s | .markup s => .ok s.utf8ByteSize
  | _ => .error (.argument "len" v)

/-- The number of elements, fields or characters of a value. -/
def length (v : Value) : Outcome Nat :=
  match v with
  | .str s | .markup s => .ok s.toList.length
  | _ => v.size

def clampBounds (low high : Int) (n : Nat) : Nat × Nat :=
  let place (i : Int) : Nat := (if i < 0 then n + i else i).toNat
  let b := min (place high) n
  (min (place low) b, b)

/-- The part of a list or of the bytes of a text between two bounds. -/
def cut (v low high : Value) : Outcome Value :=
  match v with
  | .list kind items => do
    let (a, b) := clampBounds (← low.toInt) (← high.toInt) items.length
    return .list kind ((items.take b).drop a)
  | .str s => do
    let bytes := Text.encode s.toList
    let (a, b) := clampBounds (← low.toInt) (← high.toInt) bytes.length
    return .str (String.ofList (Text.decode ((bytes.take b).drop a)))
  | .markup s => do
    let bytes := Text.encode s.toList
    let (a, b) := clampBounds (← low.toInt) (← high.toInt) bytes.length
    return .markup (String.ofList (Text.decode ((bytes.take b).drop a)))
  | _ => .error (.slice low)

/-- Whether a value is an element of a list or the name of a field. -/
def member (v container : Value) : Outcome Bool :=
  match container with
  | .nil => .ok false
  | .list _ items => .ok (items.any fun x => x.equal v)
  | .map fields =>
    match v with
    | .str name => .ok (field? fields name).isSome
    | .nil => .ok (field? fields "").isSome
    | _ => .error (.keyType v)
  | _ => .error (.notContainer container)

/-! ### Arithmetic -/

def arithmetic (op : String) (ints : Int → Int → Int) (reals : Float → Float → Float)
    (a b : Value) : Outcome Value :=
  match a, b with
  | .int m, .int n => .ok (.int (wrapInt (ints m n)))
  | _, _ =>
    match floats? a b with
    | some (x, y) => .ok (.float (reals x y))
    | none => .error (.mismatch op a b)

/-- The sum of two numbers, or two texts one after the other. -/
def add (a b : Value) : Outcome Value :=
  match a, b with
  | .str s, .str t => .ok (.str (s ++ t))
  | _, _ => arithmetic "+" (· + ·) (· + ·) a b

/-- The quotient of two numbers, always a float. -/
def divide (a b : Value) : Outcome Value :=
  match a, b with
  | .int m, .int n => .ok (.float (Float.ofInt m / Float.ofInt n))
  | _, _ =>
    match floats? a b with
    | some (x, y) => .ok (.float (x / y))
    | none => .error (.mismatch "/" a b)

/-- The remainder of two integers; it has the sign of the first. -/
def modulo (a b : Value) : Outcome Value :=
  match a, b with
  | .int m, .int n => if n = 0 then .error .zeroDivision else .ok (.int (m.tmod n))
  | _, _ => .error (.mismatch "%" a b)

def textTest (test : List Char → List Char → Outcome Bool) (a b : Value) : Outcome Value :=
  if a.isNil || b.isNil then .ok (.bool false)
  else do
    let s ← a.toStr
    let t ← b.toStr
    return .bool (← test s.toList t.toList)

end Value

namespace Expr

open Value (Outcome)

def matchesPattern (s pattern : List Char) : Outcome Bool :=
  match Regex.parse pattern with
  | .ok r => .ok (r.found s)
  | .error e => .error (.pattern e)

def unaryValue (op : UnaryOp) (v : Value) : Outcome Value :=
  match op with
  | .not | .bang => do return .bool !(← v.toBool)
  | .plus => .ok v
  | .neg =>
    match v with
    | .int n => .ok (.int (wrapInt (-n)))
    | .float x => .ok (.float (-x))
    | _ => .error (.unary "-" v)

/-- A binary operation whose operands are both evaluated.  The operators that decide by their left
operand alone, and ranges, are not among them. -/
def binaryValue (op : BinaryOp) (a b : Value) : Outcome Value :=
  let test (r : Outcome Bool) : Outcome Value := r.map .bool
  match op with
  | .eq => .ok (.bool (a.equal b))
  | .ne => .ok (.bool !(a.equal b))
  | .lt => test (a.precedes b)
  | .gt => test (Value.compare ">" (fun m n => n < m) (fun x y => y < x) (fun s t => t < s) a b)
  | .ge =>
    test (Value.compare ">=" (fun m n => n ≤ m) (fun x y => y ≤ x) (fun s t => !(s < t)) a b)
  | .le =>
    test (Value.compare "<=" (fun m n => m ≤ n) (fun x y => x ≤ y) (fun s t => !(t < s)) a b)
  | .mem => test (a.member b)
  | .matches => a.textTest matchesPattern b
  | .contains => a.textTest (fun s t => .ok (Text.contains t s)) b
  | .startsWith => a.textTest (fun s t => .ok (t.isPrefixOf s)) b
  | .endsWith => a.textTest (fun s t => .ok (t.isSuffixOf s)) b
  | .add => a.add b
  | .sub => Value.arithmetic "-" (· - ·) (· - ·) a b
  | .mul => Value.arithmetic "*" (· * ·) (· * ·) a b
  | .div => a.divide b
  | .mod => a.modulo b
  | .pow | .caret => do
    let x ← a.toFloat
    let y ← b.toFloat
    return .float (power x y)
  | .or | .bars | .and | .amps | .coalesce | .range => .ok b

end Expr

end Pagesmith
