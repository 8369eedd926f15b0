import Pagesmith.Expr.Syntax
import Pagesmith.Expr.Token

/-!
# Expressions as text

Messages show an expression in a uniform spelling, with parentheses where the precedences ask for
them.
-/

namespace Pagesmith.Expr

open Pagesmith.Text (quoted)

/-- Whether an operand of a unary operator is put in parentheses. -/
def wrapsUnder (op : UnaryOp) : Expr → Bool
  | .binary _ o _ _ => o.precedence < op.precedence
  | .cond .. => true
  | _ => false

/-- Whether the left operand of an operator is put in parentheses. -/
def wrapsLeft (op : BinaryOp) : Expr → Bool
  | .unary _ o _ => o.precedence < op.precedence
  | .binary _ o _ _ =>
    o.precedence < op.precedence || (o.precedence == op.precedence && op.isRight)
      || o == .coalesce || (o.isBoolean && o != op)
  | .cond .. => true
  | _ => false

/-- Whether the right operand of an operator is put in parentheses. -/
def wrapsRight (op : BinaryOp) : Expr → Bool
  | .binary _ o _ _ =>
    o.precedence < op.precedence || (o.precedence == op.precedence && !op.isRight)
      || (o.isBoolean && o != op)
  | .cond .. => true
  | _ => false

def isCond : Expr → Bool
  | .cond .. => true
  | _ => false

def isBinary : Expr → Bool
  | .binary .. => true
  | _ => false

def isPointer : Expr → Bool
  | .pointer .. => true
  | _ => false

/-- A text in parentheses if asked for. -/
def wrapIf (b : Bool) (s : String) : String := if b then "(" ++ s ++ ")" else s

def propertyName? : Expr → Option String
  | .str _ s => if isName s then some s else none
  | _ => none

mutual

def print : Expr → String
  | .nil _ => "nil"
  | .bool _ b => if b then "true" else "false"
  | .int _ n => toString n
  | .float _ x => floatText x
  | .str _ s => quoted s
  | .ident _ name => name
  | .unary _ op e =>
    (if op = .not then "not " else op.text) ++ wrapIf (wrapsUnder op e) (print e)
  | .binary _ op l r =>
    if op = .range then print l ++ ".." ++ print r
    else
      wrapIf (wrapsLeft op l) (print l) ++ " " ++ op.text ++ " "
        ++ wrapIf (wrapsRight op r) (print r)
  | .chain _ e => print e
  | .member _ e prop optional _ =>
    let base := wrapIf (isBinary e) (print e)
    match propertyName? prop with
    | some name =>
      if optional then base ++ "?." ++ name
      else if isPointer e then "." ++ name
      else base ++ "." ++ name
    | none => base ++ (if optional then "?.[" else "[") ++ print prop ++ "]"
  | .slice _ e low high => print e ++ "[" ++ printOption low ++ ":" ++ printOption high ++ "]"
  | .call _ callee args => print callee ++ "(" ++ ", ".intercalate (printAll args) ++ ")"
  | .builtin _ name args => name ++ "(" ++ ", ".intercalate (printAll args) ++ ")"
  | .predicate _ e => print e
  | .pointer _ name => "#" ++ name
  | .cond _ c t e =>
    wrapIf (isCond c) (print c) ++ " ? " ++ wrapIf (isCond t) (print t) ++ " : "
      ++ wrapIf (isCond e) (print e)
  | .array _ items => "[" ++ ", ".intercalate (printAll items) ++ "]"
  | .map _ pairs => "\x7b" ++ ", ".intercalate (printAll pairs) ++ "\x7d"
  | .pair _ key value =>
    match key with
    | .str _ s => (if isName s then s else quoted s) ++ ": " ++ print value
    | _ => "(" ++ print key ++ "): " ++ print value
  | .binding _ name value body => "let " ++ name ++ " = " ++ print value ++ "; " ++ print body
  | .sequence _ items => "; ".intercalate (printAll items)
  | .const _ v => v.text
  | .memInts _ e _ => print e
  | .memStrs _ e _ => print e

def printAll : List Expr → List String
  | [] => []
  | e :: es => print e :: printAll es

/-- A bound of a slice as text, nothing if it is left out. -/
def printOption : Option Expr → String
  | none => ""
  | some e => print e

end

end Pagesmith.Expr
