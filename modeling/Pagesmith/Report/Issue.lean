import Pagesmith.Text.Position

/-!
# Issues

What a check of pages finds, and the numbers that go with it.

* `Issue`: one finding, with its place.
* `Result`: all findings of a check.
* `sortIssues`: issues in the order of their places.
* `limitIssues`: the first issues of each linter and of each text.
-/

namespace Pagesmith.Report

open Pagesmith.Text (Position)

inductive Severity where
  | error
  | warning
  | info
  | other (name : String)
  deriving DecidableEq, Repr

def Severity.name : Severity → String
  | .error => "error"
  | .warning => "warning"
  | .info => ""
  | .other name => name

/-- A text that would settle an issue, and the length of the text it replaces. -/
structure Replacement where
  text : String
  length : Int
  deriving DecidableEq, Repr

structure Issue where
  linter : String
  text : String
  severity : Severity
  lines : Option (List String) := none
  file : String
  position : Position
  replacement : Option Replacement := none
  deriving DecidableEq, Repr

structure MissingClass where
  name : String
  occurrences : Int
  suggestion : Option String := none
  deriving DecidableEq, Repr

structure Result where
  issues : List Issue := []
  errors : Int := 0
  /-- The issues that limits left out. -/
  truncated : Int := 0
  filesScanned : Int := 0
  styleFiles : Int := 0
  classesDefined : Int := 0
  classRefs : Int := 0
  resolvedRefs : Int := 0
  /-- The percentage of references that are resolved. -/
  coverage : Float := 0
  topMissing : List MissingClass := []
  warnings : List String := []
  suggestions : List String := []

/-- Whether an issue does not come after another one: by file, then by line, then by column. -/
def Issue.precedes (a b : Issue) : Bool :=
  if a.file ≠ b.file then decide (a.file < b.file)
  else if a.position.line ≠ b.position.line then decide (a.position.line < b.position.line)
  else decide (a.position.column ≤ b.position.column)

/-- Issues in the order of their places; those at one place keep their order. -/
def sortIssues (issues : List Issue) : List Issue := issues.mergeSort Issue.precedes

/-- The first `most` issues of every key, where `seen` are the keys of the issues kept so far. -/
def keepFirst {κ : Type} [DecidableEq κ] (key : Issue → κ) (most : Nat) (seen : List κ) :
    List Issue → List Issue
  | [] => []
  | i :: is =>
    if seen.count (key i) < most then i :: keepFirst key most (key i :: seen) is
    else keepFirst key most seen is

/-- The first issues of every key, all of them if the limit is not positive. -/
def limitBy {κ : Type} [DecidableEq κ] (key : Issue → κ) (most : Int) (issues : List Issue) :
    List Issue :=
  if most ≤ 0 then issues else keepFirst key most.toNat [] issues

/-- The first issues of each linter, and of these the first of each text; and how many issues are
left out. -/
def limitIssues (perLinter same : Int) (issues : List Issue) : List Issue × Int :=
  let kept := limitBy Issue.text same (limitBy Issue.linter perLinter issues)
  (kept, issues.length - kept.length)

def countSeverity (s : Severity) (issues : List Issue) : Nat :=
  (issues.filter fun i => i.severity = s).length

end Pagesmith.Report
