import Pagesmith.Expr.Eval
import Pagesmith.Expr.Parser
import Pagesmith.Expr.Printer
import Pagesmith.Expr.Simplify
import Pagesmith.Expr.Typing

/-!
# From source text to value

An expression is read, checked against the types of its environment, simplified and run.  Whatever
goes wrong on the way is reported with its place in the source.

* `Failure`: a report, or the end of the time.
* `runLogic`: the value of an expression of page logic, where `x.length` is the length of `x`.
* `runTemplate`: the value of an expression of a template, which may consist of names, members and
  literals only.
-/

namespace Pagesmith.Expr

inductive Failure where
  | report (message : String)
  | timeout
  deriving DecidableEq, Repr

/-- Environments: named values in increasing order of their names. -/
abbrev Env := List (String × Value)

def typesOf (env : Env) (name : String) : Option Ty := (Value.field? env name).map Ty.ofValue

def reported {ε α : Type} (source : List Char) (message : ε → String)
    (r : Except (Located ε) α) : Except Failure α :=
  match r with
  | .ok a => .ok a
  | .error e => .error (.report (report source e.pos (message e.cause)))

/-- The expression that runs in place of a syntax tree, after it was checked. -/
def compile (source : List Char) (env : Env) (e : Expr) : Except Failure Expr := do
  let (_, e) ← reported source TypeError.message (infer ⟨typesOf env, [], []⟩ e)
  reported source RunError.message (simplify e)

def readLogic (source : List Char) (env : Env) : Except Failure Expr := do
  let hidden := fun name => (Value.field? env name).isSome
  let e ← reported source SyntaxError.message (parse hidden source)
  reported source RunError.message (applyUp (fun e => .ok (lengthRule e)) e)

def runCompiled {σ : Type} (h : Host σ) (source : List Char) (env : Env) (e : Expr) (world : σ) :
    Except Failure Value × σ :=
  let (r, m) := (eval h env e {}).run.run { world := world }
  match r with
  | .ok v => (.ok v, m.world)
  | .error (.fault pos cause) => (.error (.report (report source pos cause.message)), m.world)
  | .error .broken => (.ok .nil, m.world)
  | .error .timeout => (.error .timeout, m.world)

def runLogic {σ : Type} (h : Host σ) (source : List Char) (env : Env) (world : σ) :
    Except Failure Value × σ :=
  match readLogic source env >>= compile source env with
  | .ok e => runCompiled h source env e world
  | .error f => (.error f, world)

/-! ### Templates -/

mutual

/-- The first part of an expression that a template may not hold. -/
def forbidden? : Expr → Option Expr
  | .nil _ | .bool .. | .int .. | .float .. | .str .. | .ident .. => none
  | .chain _ e => forbidden? e
  | .member _ e prop _ _ => (forbidden? e).or (forbidden? prop)
  | .unary p op e => (forbidden? e).or (some (.unary p op e))
  | .binary p op l r => ((forbidden? l).or (forbidden? r)).or (some (.binary p op l r))
  | .slice p e low high =>
    (((forbidden? e).or (forbiddenBound? low)).or (forbiddenBound? high)).or
      (some (.slice p e low high))
  | .call p callee args =>
    ((forbidden? callee).or (forbiddenAmong? args)).or (some (.call p callee args))
  | .builtin p name args => (forbiddenAmong? args).or (some (.builtin p name args))
  | .predicate p e => (forbidden? e).or (some (.predicate p e))
  | .pointer p name => some (.pointer p name)
  | .cond p c t e =>
    (((forbidden? c).or (forbidden? t)).or (forbidden? e)).or (some (.cond p c t e))
  | .array p items => (forbiddenAmong? items).or (some (.array p items))
  | .map p pairs => (forbiddenAmong? pairs).or (some (.map p pairs))
  | .pair p key value => ((forbidden? key).or (forbidden? value)).or (some (.pair p key value))
  | .binding p name value body =>
    ((forbidden? value).or (forbidden? body)).or (some (.binding p name value body))
  | .sequence p items => (forbiddenAmong? items).or (some (.sequence p items))
  | .const p v => some (.const p v)
  | .memInts p e set => (forbidden? e).or (some (.memInts p e set))
  | .memStrs p e set => (forbidden? e).or (some (.memStrs p e set))

/-- The first part among some expressions that a template may not hold. -/
def forbiddenAmong? : List Expr → Option Expr
  | [] => none
  | e :: es => (forbidden? e).or (forbiddenAmong? es)

/-- The first part of a bound that a template may not hold. -/
def forbiddenBound? : Option Expr → Option Expr
  | none => none
  | some e => forbidden? e

end

def silentHost : Host Unit where
  call _ _ world := (.value .nil, world)

def runTemplate (source : List Char) (env : Env) : Except Failure Value := do
  let e ← reported source SyntaxError.message (parse (fun _ => false) source)
  match forbidden? e with
  | some part => .error (.report ("unsupported expression " ++ Text.quoted (print part)))
  | none =>
    let e ← compile source env e
    (runCompiled silentHost source env e ()).1

end Pagesmith.Expr
