import Pagesmith.Logic.Token
import Pagesmith.Text.Quoted

/-!
# Statements of page logic

A statement ends at a semicolon or at a line end outside brackets, unless the next line goes on with
a member.  A statement declares or assigns a name, exports a value under a name, or is an
expression.

* `Statement`: a kind with its name, the text of the expression, and a line.
* `statementsFrom`: the statements of a token list, given the state of the reading.
* `split`: the statements of a logic block.
-/

namespace Pagesmith.Logic

open Pagesmith.Text

inductive Role where
  | expr
  | declare (name : String)
  | assign (name : String)
  | exported (name : String)
  deriving DecidableEq, Repr

/-- A statement.  An empty expression has no value to compute. -/
structure Statement where
  role : Role
  source : List Char
  line : Nat
  deriving DecidableEq, Repr

inductive SplitError where
  | unbalanced
  | declaration (line : Nat) (text : List Char)
  deriving DecidableEq, Repr

def SplitError.message : SplitError → String
  | .unbalanced => "unbalanced brackets at end of logic"
  | .declaration line text =>
    "line " ++ toString line ++ ": unsupported declaration " ++ String.ofList (quotedChars text)

/-! ### One statement -/

def Token.isSignificant (t : Token) : Bool := t.kind != .space && t.kind != .newline

def sourceOf (ts : List Token) : List Char := trim (ts.flatMap Token.text)

/-- What follows the first `n` significant tokens. -/
def afterSignificant : Nat → List Token → List Token
  | 0, ts => ts
  | _, [] => []
  | n + 1, t :: ts => if t.isSignificant then afterSignificant n ts else afterSignificant (n + 1) ts

def Token.declares (t : Token) : Bool :=
  t.kind = .ident && t.text ∈ ["const".toList, "let".toList, "var".toList]

def Token.is (t : Token) (s : String) : Bool := t.text = s.toList

/-- The statement that a non-empty token list makes. -/
def classify (first : Token) (rest : List Token) : Except SplitError Statement :=
  let ts := first :: rest
  let name (t : Token) : String := String.ofList t.text
  let make (role : Role) (n : Nat) : Except SplitError Statement :=
    .ok ⟨role, sourceOf (afterSignificant n ts), first.line⟩
  let bad : Except SplitError Statement := .error (.declaration first.line (sourceOf ts))
  let plain : Except SplitError Statement := make .expr 0
  match ts.filter Token.isSignificant with
  | a :: b :: more =>
    if a.declares then
      if b.kind ≠ .ident then bad
      else
        match more with
        | [] => .ok ⟨.declare (name b), [], first.line⟩
        | eq :: _ :: _ => if eq.is "=" then make (.declare (name b)) 3 else bad
        | [_] => bad
    else
      match more with
      | c :: d :: _ :: _ =>
        if a.is "exports" && b.is "." && c.kind = .ident && d.is "=" then
          make (.exported (name c)) 4
        else if a.kind = .ident && b.is "=" then make (.assign (name a)) 2
        else plain
      | _ :: _ => if a.kind = .ident && b.is "=" then make (.assign (name a)) 2 else plain
      | [] => plain
  | _ => plain

/-- The statement that the tokens read so far make, if there are any. -/
def flush : List Token → Except SplitError (List Statement)
  | [] => .ok []
  | t :: ts => (classify t ts).map fun s => [s]

/-! ### The statements of a block -/

def Token.respelled (t : Token) : Token :=
  let spell (s : String) : Token := { t with text := s.toList }
  if t.kind = .op && t.is "===" then spell "=="
  else if t.kind = .op && t.is "!==" then spell "!="
  else if t.kind = .ident && (t.is "null" || t.is "undefined") then spell "nil"
  else t

/-- Whether a token continues a statement on the line before it. -/
def Token.continues (t : Token) : Bool := t.is "." || t.is "?."

def Token.isAwait (t : Token) : Bool := t.kind = .ident && t.is "await"

def Token.depthAfter (t : Token) (depth : Nat) : Nat :=
  match t.kind with
  | .openBracket => depth + 1
  | .closeBracket => depth - 1
  | _ => depth

/-- The statements of a token list, where `current` holds the tokens of the statement being read,
`depth` brackets are open in it, and `pending` tells that a line ended after it. -/
def statementsFrom (current : List Token) (depth : Nat) (pending : Bool) :
    List Token → Except SplitError (List Statement)
  | [] => if 0 < depth then .error .unbalanced else flush current
  | t :: ts =>
    match t.kind with
    | .comment => statementsFrom current depth pending ts
    | .space =>
      statementsFrom (if current.isEmpty then [] else current ++ [t]) depth pending ts
    | .newline =>
      if 0 < depth then statementsFrom (current ++ [{ t with text := [' '] }]) depth pending ts
      else statementsFrom current depth (pending || !current.isEmpty) ts
    | _ =>
      if t.kind = .semicolon && depth = 0 then do
        let done ← flush current
        return done ++ (← statementsFrom [] 0 false ts)
      else
        let added := if t.isAwait then [] else [t.respelled]
        if pending && !t.continues then do
          let done ← flush current
          return done ++ (← statementsFrom added (t.depthAfter depth) false ts)
        else statementsFrom (current ++ added) (t.depthAfter depth) false ts

def split (logic : List Char) : Except SplitError (List Statement) :=
  statementsFrom [] 0 false (tokens logic)

end Pagesmith.Logic
