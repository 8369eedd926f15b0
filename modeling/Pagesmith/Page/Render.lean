import Pagesmith.Expr.Program
import Pagesmith.Log
import Pagesmith.Page.Template
import Pagesmith.Value.Markup

/-!
# Rendering templates

The expressions of a template are evaluated in an environment and shown; the literal texts stand as
they are.  The first expression that fails ends the rendering.

* `RenderError`: the expression that failed, and why.
* `Template.execute`: the markup of a template in an environment.
* `merge`: the environment of a page, where the caller's data counts before what logic binds.
* `Template.render`: the markup, or a text that tells of the failure.
-/

namespace Pagesmith.Page

open Pagesmith.Expr (Env Failure)

structure RenderError where
  expr : List Char
  message : String
  deriving DecidableEq, Repr

def shownExpr (env : Env) (source : List Char) : Except RenderError String :=
  match Expr.runTemplate source env with
  | .error (.report m) => .error ⟨source, m⟩
  | .error .timeout => .error ⟨source, ""⟩
  | .ok v => v.shown.mapError fun e => ⟨source, e.message⟩

def shownSegment (env : Env) : Segment → Except RenderError String
  | .text s => .ok (String.ofList s)
  | .expr source _ => shownExpr env source

def Template.execute (t : Template) (env : Env) : Except RenderError String := do
  return String.join (← t.segments.mapM (shownSegment env))

def merge (bindings data : Env) : Env :=
  data.foldl (fun acc (name, v) => Value.setField name v acc) bindings

/-- What the markup of a page starts with whose rendering failed. -/
def errorMarker : String := "Render error: "

def Template.render (t : Template) (bindings data : Env) : String × List Log.Record :=
  match t.execute (merge bindings data) with
  | .ok s => (s, [])
  | .error e =>
    (errorMarker ++ e.message,
      [⟨.error, "template render failed",
        [("expr", String.ofList e.expr), ("error", e.message)]⟩])

end Pagesmith.Page
