import Pagesmith.Report.Plain

/-!
# The verdict on a check

Errors fail a check.  A strict check fails on any issue too, and if too few references are resolved.

* `exitCode`: zero for a check that passes, one for a check that fails.
* `verdictNote`: what is said about too few resolved references.
-/

namespace Pagesmith.Lint

open Pagesmith.Report (Result percentText)

def hasIssues (r : Result) : Bool := !r.issues.isEmpty || 0 < r.truncated

/-- Whether a strict check fails only because too few references are resolved. -/
def isBelow (threshold : Float) (r : Result) : Bool :=
  !hasIssues r && 0 < threshold && r.coverage < threshold

def exitCode (strict : Bool) (threshold : Float) (r : Result) : Nat :=
  if strict then (if hasIssues r || isBelow threshold r then 1 else 0)
  else if 0 < r.errors then 1
  else 0

def verdictNote (strict : Bool) (threshold : Float) (r : Result) : String :=
  if strict && isBelow threshold r then
    "\nStrict mode: class coverage " ++ percentText r.coverage ++ " is below threshold "
      ++ percentText threshold ++ "\n"
  else ""

end Pagesmith.Lint
