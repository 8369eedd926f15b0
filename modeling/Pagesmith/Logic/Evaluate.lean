import Pagesmith.Log
import Pagesmith.Logic.Run

/-!
# Logic on the way to a page

A page is rendered even if its logic fails: then nothing is bound, and the failure is logged.
-/

namespace Pagesmith.Logic

open Pagesmith.Expr (Env)

/-- The bindings that a page sees, and what is logged about them.  Empty logic is not run. -/
def settle (limit : Nat) (r : Except RunFailure Env) : Env × List Log.Record :=
  match r with
  | .ok env =>
    (env, [⟨.debug, "page logic done", [("bindings", toString env.length)]⟩])
  | .error e => ([], [⟨.warn, "page logic failed", [("error", e.message limit)]⟩])

def evaluate {σ : Type} (w : Surface σ) (limit : Nat) (logic : List Char) (world : σ) :
    (Env × List Log.Record) × σ :=
  if logic.isEmpty then (([], []), world)
  else
    let (r, world) := run w logic world
    (settle limit r, world)

end Pagesmith.Logic
