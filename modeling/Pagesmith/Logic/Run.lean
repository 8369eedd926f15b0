import Pagesmith.Expr.Program
import Pagesmith.Logic.Statement
import Pagesmith.Logic.Surface

/-!
# Runs of page logic

Statements run in order, each in the environment that those before it have made.  The first that
fails ends the run, and then nothing is bound.  Exports are bound in the end; no statement sees
them.

* `Scope`: the environment, and what is bound and exported so far.
* `execute`: the statements of a block one after another, for any way to evaluate an expression.
* `run`: the bindings of a logic block.
-/

namespace Pagesmith.Logic

open Pagesmith.Expr (Env Failure)

/-- The environment of the next statement, and what is bound and exported so far. -/
structure Scope where
  env : Env
  bound : Env := []
  exports : Env := []

namespace Scope

def record (s : Scope) (role : Role) (v : Value) : Scope :=
  match role with
  | .expr => s
  | .declare name | .assign name =>
    { s with env := Value.setField name v s.env, bound := Value.setField name v s.bound }
  | .exported name => { s with exports := Value.setField name v s.exports }

/-- What a run binds in the end: exports count before declarations and assignments. -/
def bindings (s : Scope) : Env :=
  s.exports.foldl (fun acc (name, v) => Value.setField name v acc) s.bound

end Scope

/-- How an expression is evaluated: in an environment, with an effect on a world. -/
abbrev Evaluator (ε σ : Type) := List Char → Env → σ → Except ε Value × σ

/-- The value of a statement.  One without expression has none to compute. -/
def valueOf {ε σ : Type} (ev : Evaluator ε σ) (st : Statement) (env : Env) (world : σ) :
    Except ε Value × σ :=
  if st.source.isEmpty then (.ok .nil, world) else ev st.source env world

/-- Runs statements one after another.  A failure carries the line of its statement. -/
def execute {ε σ : Type} (ev : Evaluator ε σ) (s : Scope) :
    List Statement → σ → Except (Nat × ε) Scope × σ
  | [], world => (.ok s, world)
  | st :: rest, world =>
    match valueOf ev st s.env world with
    | (.error e, world) => (.error (st.line, e), world)
    | (.ok v, world) => execute ev (s.record st.role v) rest world

inductive RunFailure where
  | malformed (cause : SplitError)
  | panicked (message : String)
  | statement (line : Nat) (message : String)
  | timeout
  | canceled
  deriving DecidableEq, Repr

/-- A time in milliseconds, as hours, minutes and seconds where it has them. -/
def durationText (ms : Nat) : String :=
  let seconds (n : Nat) : String :=
    let part := n % 1000
    let digits := (List.replicate (3 - (toString part).length) '0') ++ (toString part).toList
    let digits := (digits.reverse.dropWhile (· == '0')).reverse
    toString (n / 1000) ++ (if digits.isEmpty then "" else "." ++ String.ofList digits) ++ "s"
  if ms = 0 then "0s"
  else if ms < 1000 then toString ms ++ "ms"
  else if ms < 60000 then seconds ms
  else if ms < 3600000 then toString (ms / 60000) ++ "m" ++ seconds (ms % 60000)
  else
    toString (ms / 3600000) ++ "h" ++ toString (ms / 60000 % 60) ++ "m" ++ seconds (ms % 60000)

/-- The message of a failure, for a run that may take some milliseconds. -/
def RunFailure.message (limit : Nat) : RunFailure → String
  | .malformed e => "parse logic: " ++ e.message
  | .panicked m => "logic panicked: " ++ m
  | .statement line m => "line " ++ toString line ++ ": " ++ m
  | .timeout => "logic execution timed out after " ++ durationText limit
  | .canceled => "context canceled"

/-- The time a run may take if no time is given, in milliseconds. -/
def defaultLimit : Nat := 2000

/-- The time a run may take, in milliseconds. -/
def limitOf (ms : Int) : Nat := if ms ≤ 0 then defaultLimit else ms.toNat

def run {σ : Type} (w : Surface σ) (logic : List Char) (world : σ) : Except RunFailure Env × σ :=
  match split logic with
  | .error e => (.error (.malformed e), world)
  | .ok statements =>
    match w.user world with
    | (.failure m, world) => (.error (.panicked m), world)
    | (.timeout, world) => (.error .timeout, world)
    | (.value user, world) =>
      match execute (Expr.runLogic w.host) { env := globals user } statements world with
      | (.ok s, world) => (.ok s.bindings, world)
      | (.error (line, .report m), world) => (.error (.statement line m), world)
      | (.error (_, .timeout), world) => (.error .timeout, world)

end Pagesmith.Logic
