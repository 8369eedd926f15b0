import Pagesmith.Report.Markdown
import Pagesmith.Report.Structured

/-!
# Report formats

* `Format.ofFlag`: the format that a name asks for.  Any other name means issues.
* `Format.write`: the report, and what is told about a failure to write it.
-/

namespace Pagesmith.Report

inductive Format where
  | issues
  | summary
  | full
  | json
  | markdown
  deriving DecidableEq, Repr

namespace Format

def name : Format → String
  | .issues => "issues"
  | .summary => "summary"
  | .full => "full"
  | .json => "json"
  | .markdown => "markdown"

def all : List Format := [.issues, .summary, .full, .json, .markdown]

def ofName? (s : String) : Option Format := all.find? fun f => f.name = s

/-- The format that a name asks for.  Quiet output is that of issues, which is then not printed. -/
def ofFlag (flag : String) (quiet : Bool) : Format :=
  if quiet then .issues
  else if flag = "md" then .markdown
  else (ofName? flag).getD .issues

end Format

/-- The times of a report: in full for tools, and to the minute for readers. -/
structure Clock where
  full : String
  minute : String
  deriving DecidableEq, Repr

/-- What a report prints, and what it tells about a failure. -/
structure Printed where
  output : String
  problem : String := ""
  deriving DecidableEq, Repr

def Format.write (f : Format) (o : Options) (now : Clock) (r : Result) : Printed :=
  match f with
  | .issues => ⟨issuesText o r, ""⟩
  | .summary => ⟨verboseText o.colors r, ""⟩
  | .full => ⟨issuesText o r ++ verboseText o.colors r, ""⟩
  | .json =>
    match structuredText now.full r with
    | .ok text => ⟨text, ""⟩
    | .error e => ⟨"", "Error writing JSON: " ++ e.message ++ "\n"⟩
  | .markdown => ⟨markdownText now.minute r, ""⟩

end Pagesmith.Report
