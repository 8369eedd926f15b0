import Pagesmith.Expr.Operator
import Pagesmith.Expr.Place

/-!
# Simpler expressions

Rules are applied to an expression from its leaves up, before it runs.  Three sets of rules are
used.

* `lengthRule`: `x.length` means the built-in length of `x`.
* `constantRule`: operations on literals are carried out, and truth values that decide an `and` or
  an `or` settle it without a look at the other side.
* `listRule`: a filter with a choice, a sum of a map and the like become one pass over the list.
-/

namespace Pagesmith.Expr

/-- Results of rules; the only failure is a remainder of a literal by zero. -/
abbrev Simplified := Except (Located RunError)

mutual

/-- Applies a rule to every node, to the parts of a node before the node itself. -/
def applyUp (rule : Expr → Simplified Expr) : Expr → Simplified Expr
  | .unary p op e => do rule (.unary p op (← applyUp rule e))
  | .binary p op l r => do
    let l ← applyUp rule l
    rule (.binary p op l (← applyUp rule r))
  | .chain p e => do rule (.chain p (← applyUp rule e))
  | .member p e prop o m => do
    let e ← applyUp rule e
    rule (.member p e (← applyUp rule prop) o m)
  | .slice p e low high => do
    let e ← applyUp rule e
    let low ← applyUpOption rule low
    rule (.slice p e low (← applyUpOption rule high))
  | .call p callee args => do
    let callee ← applyUp rule callee
    rule (.call p callee (← applyUpAll rule args))
  | .builtin p name args => do rule (.builtin p name (← applyUpAll rule args))
  | .predicate p e => do rule (.predicate p (← applyUp rule e))
  | .cond p c t e => do
    let c ← applyUp rule c
    let t ← applyUp rule t
    rule (.cond p c t (← applyUp rule e))
  | .array p items => do rule (.array p (← applyUpAll rule items))
  | .map p pairs => do rule (.map p (← applyUpAll rule pairs))
  | .pair p key value => do
    let key ← applyUp rule key
    rule (.pair p key (← applyUp rule value))
  | .binding p name value body => do
    let value ← applyUp rule value
    rule (.binding p name value (← applyUp rule body))
  | .sequence p items => do rule (.sequence p (← applyUpAll rule items))
  | .memInts p e set => do rule (.memInts p (← applyUp rule e) set)
  | .memStrs p e set => do rule (.memStrs p (← applyUp rule e) set)
  | e => rule e

def applyUpAll (rule : Expr → Simplified Expr) : List Expr → Simplified (List Expr)
  | [] => .ok []
  | e :: es => do
    let e ← applyUp rule e
    return e :: (← applyUpAll rule es)

def applyUpOption (rule : Expr → Simplified Expr) : Option Expr → Simplified (Option Expr)
  | none => .ok none
  | some e => do return some (← applyUp rule e)

end

/-- A member named `length` is the built-in length. -/
def lengthRule : Expr → Expr
  | .member p e prop o m =>
    match prop with
    | .str _ "length" => .builtin p "len" [e]
    | _ => .member p e prop o m
  | e => e

def literal (p : Nat) : Value → Expr
  | .bool b => .bool p b
  | .int n => .int p n
  | .float x => .float p x
  | .str s => .str p s
  | v => .const p v

def boolLiteral? : Expr → Option Bool
  | .bool _ b => some b
  | _ => none

def numberValue? : Expr → Option Value
  | .int _ n => some (.int n)
  | .float _ x => some (.float x)
  | _ => none

def foldNumbers (p : Nat) (op : BinaryOp) (l r : Expr) : Expr :=
  let keep : Expr := .binary p op l r
  match numberValue? l, numberValue? r with
  | some a, some b =>
    match binaryValue op a b with
    | .ok v => literal p v
    | .error _ => keep
  | _, _ => keep

def foldBinary (p : Nat) (op : BinaryOp) (l r : Expr) : Simplified Expr :=
  let keep : Expr := .binary p op l r
  match op with
  | .add =>
    match l, r with
    | .str _ s, .str _ t => .ok (.str p (s ++ t))
    | _, _ => .ok (foldNumbers p op l r)
  | .sub | .mul | .div | .pow | .caret => .ok (foldNumbers p op l r)
  | .mod =>
    match l, r with
    | .int _ m, .int _ n =>
      if n = 0 then .error ⟨p, .outside "integer divide by zero"⟩ else .ok (.int p (m.tmod n))
    | _, _ => .ok keep
  | .and | .amps =>
    match boolLiteral? l, boolLiteral? r with
    | some true, _ => .ok (r.moveTo p)
    | _, some true => .ok (l.moveTo p)
    | none, none => .ok keep
    | _, _ => .ok (.bool p false)
  | .or | .bars =>
    match boolLiteral? l, boolLiteral? r with
    | some false, _ => .ok (r.moveTo p)
    | _, some false => .ok (l.moveTo p)
    | none, none => .ok keep
    | _, _ => .ok (.bool p true)
  | .eq =>
    match l, r with
    | .int _ m, .int _ n => .ok (.bool p (m == n))
    | .str _ s, .str _ t => .ok (.bool p (s == t))
    | .bool _ a, .bool _ b => .ok (.bool p (a == b))
    | _, _ => .ok keep
  | _ => .ok keep

def numberValues? : List Expr → Option (List Value)
  | [] => some []
  | e :: es => do
    let v ← numberValue? e
    return v :: (← numberValues? es)

def constantRule : Expr → Simplified Expr
  | .unary p op e =>
    match op, e with
    | .neg, .int _ n => .ok (.int p (wrapInt (-n)))
    | .neg, .float _ x => .ok (.float p (-x))
    | .plus, .int _ n => .ok (.int p n)
    | .plus, .float _ x => .ok (.float p x)
    | .not, .bool _ b | .bang, .bool _ b => .ok (.bool p !b)
    | _, _ => .ok (.unary p op e)
  | .binary p op l r => foldBinary p op l r
  | .array p (e :: es) =>
    match numberValues? (e :: es) with
    | some vs => .ok (.const p (Value.array vs))
    | none => .ok (.array p (e :: es))
  | e => .ok e

/-- The sum of at least two expressions, grouped to the right. -/
def sumOf (p : Nat) (first : Expr) : List Expr → Expr
  | [] => first
  | [e] => .binary p .add first e
  | e :: es => .binary p .add first (sumOf 0 e es)

/-- Passes over a list that follow each other become one.  The names with a plus sign are passes of
their own: `filter+map` maps what it keeps, and `find+` and `findLast+` insist on a result. -/
def listRule : Expr → Expr
  | .builtin p "map" [.builtin _ "filter" [xs, keep], f] => .builtin p "filter+map" [xs, keep, f]
  | .builtin p "len" [.builtin _ "filter" [xs, keep]] => .builtin p "count" [xs, keep]
  | .builtin p "last" [.builtin _ "filter" [xs, keep]] => .builtin p "findLast" [xs, keep]
  | .builtin p "first" [.builtin _ "filter" [xs, keep]] => .builtin p "find" [xs, keep]
  | .member p (.builtin _ "filter" [xs, keep]) (.int _ 0) false _ => .builtin p "find+" [xs, keep]
  | .member p (.builtin _ "filter" [xs, keep]) (.int _ (-1)) false _ =>
    .builtin p "findLast+" [xs, keep]
  | .builtin p "sum" [.array _ (a :: b :: es)] => sumOf p a (b :: es)
  | .builtin p "sum" [.builtin _ "map" [xs, f]] => .builtin p "sum" [xs, f]
  | e => e

/-- The expression that runs in place of a checked one. -/
def simplify (e : Expr) : Simplified Expr := do
  let e ← applyUp constantRule e
  applyUp (fun e => .ok (listRule e)) e

end Pagesmith.Expr
