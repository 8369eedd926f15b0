import Pagesmith.Decimal.Layout
import Pagesmith.Report.Color
import Pagesmith.Report.Issue
import Pagesmith.Text.Quoted

/-!
# Reports for terminals and logs

Issues as `file:line:column: message` lines with the source below them, and the statistics of a
check.

* `caret`: the mark under a column of a source line.
* `issueText`, `summaryText`: the issues and their number.
* `statisticsText`, `coverageText`, `missingText`, `warningsText`: the statistics.
-/

namespace Pagesmith.Report

open Pagesmith.Text

structure Options where
  printLines : Bool := false
  printLinter : Bool := false
  colors : Styling := .off
  deriving DecidableEq, Repr

def percentText (x : Float) : String := (if isFinite x then fixedPlaces 1 x else floatText x) ++ "%"

/-- The mark under a column of a line.  Tabs before it stay, so that it lines up; every other
character takes one blank. -/
def caret (line : List Char) (column : Int) : List Char :=
  if column ≤ 0 then ['^']
  else
    (takeBytes (column - 1).toNat line).map (fun c => if c = '\t' then '\t' else ' ') ++ ['^']

def lineText (lines : List String) : String := String.join (lines.map (· ++ "\n"))

/-- The mark under the text of an issue, as long as the text that it replaces. -/
def issueMark (i : Issue) (first : String) : String :=
  let tail := match i.replacement with
    | some r => rep (r.length - 1).toNat '~'
    | none => []
  String.ofList (caret first.toList i.position.column ++ tail)

def issueText (o : Options) (i : Issue) : String :=
  let place := i.file ++ ":" ++ toString i.position.line ++ ":" ++ toString i.position.column ++ ":"
  let suffix := if o.printLinter then " (" ++ i.linter ++ ")" else ""
  let lead := if i.severity = .warning then Color.yellow.paint o.colors "warning: " else ""
  let head := Color.cyan.paint o.colors place ++ " " ++ lead ++ i.text
    ++ Color.gray.paint o.colors suffix
  let source := match o.printLines, i.lines with
    | true, some (first :: rest) =>
      (first :: rest).map ("\t" ++ ·) ++ ["\t" ++ Color.yellow.paint o.colors (issueMark i first)]
    | _, _ => []
  let hint := match i.replacement with
    | some r => ["\t" ++ Color.green.paint o.colors ("did you mean " ++ quoted r.text ++ "?")]
    | none => []
  lineText (head :: source ++ hint)

def counted (n : Int) (one many : String) : String :=
  toString n ++ " " ++ if n = 1 then one else many

def linters (issues : List Issue) : List String :=
  (issues.map Issue.linter).eraseDups.mergeSort fun a b => decide (a ≤ b)

/-- The number of issues, of each severity and of each linter. -/
def summaryText (o : Options) (r : Result) : String :=
  let errors := countSeverity .error r.issues
  let warnings := countSeverity .warning r.issues
  let details :=
    (if 0 < errors && 0 < warnings then
      [counted errors "error" "errors", counted warnings "warning" "warnings"] else [])
    ++ (if 0 < r.truncated then [counted r.truncated "issue" "issues" ++ " truncated"] else [])
  let total := counted r.issues.length "issue" "issues"
    ++ (if details.isEmpty then "" else " (" ++ ", ".intercalate details ++ ")") ++ ":"
  let perLinter := (linters r.issues).map fun l =>
    "* " ++ l ++ ": " ++ toString (r.issues.filter fun i => i.linter = l).length
  let hint := if r.issues.isEmpty then [] else
    ["", Color.gray.paint o.colors "Hint: Run with --output-format full to see coverage statistics"]
  lineText (["", total] ++ perLinter ++ hint)

def issuesText (o : Options) (r : Result) : String :=
  String.join ((sortIssues r.issues).map (issueText o)) ++ summaryText o r

def statisticsText (colors : Styling) (r : Result) : String :=
  lineText ["", Color.cyan.paint colors "Page Linter Statistics", "------------------------",
    "Pages Scanned:     " ++ toString r.filesScanned,
    "Style Files:       " ++ toString r.styleFiles,
    "Classes Defined:   " ++ toString r.classesDefined,
    "Class References:  " ++ toString r.classRefs,
    "Resolved:          " ++ toString r.resolvedRefs ++ " (" ++ percentText r.coverage ++ ")",
    "Unknown Classes:   " ++ toString r.errors]

def barWidth : Nat := 20

def filledCells (percentage : Float) : Nat :=
  let cells := percentage / 100 * barWidth.toFloat
  if !isFinite cells || cells < 0 || 9223372036854775808 ≤ cells then 0
  else min barWidth cells.toUInt64.toNat

def barText (percentage : Float) : String :=
  let filled := filledCells percentage
  String.ofList ('[' :: rep filled '█' ++ rep (barWidth - filled) '░' ++ "] ".toList)
    ++ percentText percentage

def coverageText (colors : Styling) (r : Result) : String :=
  lineText ["", Color.cyan.paint colors "Class Coverage", "----------------", barText r.coverage]

def missingLine (number : Nat) (m : MissingClass) : String :=
  toString number ++ ". " ++ quoted m.name ++ " - " ++ toString m.occurrences ++ " occurrences"
    ++ match m.suggestion with
      | none | some "" => ""
      | some s => " → did you mean " ++ quoted s ++ "?"

def missingText (colors : Styling) (r : Result) : String :=
  if r.topMissing.isEmpty then ""
  else
    lineText (["", Color.red.paint colors "Most Referenced Missing Classes",
      "---------------------------------"]
      ++ r.topMissing.mapIdx fun i m => missingLine (i + 1) m)

def warningsText (colors : Styling) (r : Result) : String :=
  if r.warnings.isEmpty then ""
  else
    lineText (["", Color.yellow.paint colors "Warnings", "-----------"]
      ++ r.warnings.map ("• " ++ ·))

def verboseText (colors : Styling) (r : Result) : String :=
  statisticsText colors r ++ coverageText colors r ++ missingText colors r ++ warningsText colors r

end Pagesmith.Report
