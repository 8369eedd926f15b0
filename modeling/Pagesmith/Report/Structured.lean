import Pagesmith.Json.Outline
import Pagesmith.Report.Issue

/-!
# Reports for tools

The result of a check as JSON. A percentage that JSON has no number for makes the report fail.
-/

namespace Pagesmith.Report

open Pagesmith.Json (Outline WriteError)

def optionalField (name value : String) : List (String × Outline) :=
  if value = "" then [] else [(name, .str value)]

def issueOutline (i : Issue) : Outline :=
  .fields ([("file", .str i.file), ("line", .int i.position.line),
    ("column", .int i.position.column), ("severity", .str i.severity.name),
    ("message", .str i.text), ("linter", .str i.linter)]
    ++ optionalField "source" (((i.lines.getD []).head?).getD ""))

def missingOutline (m : MissingClass) : Outline :=
  .fields ([("class", .str m.name), ("occurrences", .int m.occurrences)]
    ++ optionalField "suggestion" (m.suggestion.getD ""))

def resultOutline (time : String) (coverage : String) (r : Result) : Outline :=
  .fields [("version", .str "1.0"), ("timestamp", .str time),
    ("summary", .fields [("total_issues", .int r.issues.length),
      ("errors", .int (countSeverity .error r.issues)),
      ("warnings", .int (countSeverity .warning r.issues)),
      ("truncated", .int r.truncated), ("files_scanned", .int r.filesScanned)]),
    ("stats", .fields [("style_files", .int r.styleFiles),
      ("classes_defined", .int r.classesDefined), ("class_references", .int r.classRefs),
      ("resolved_references", .int r.resolvedRefs),
      ("coverage_percentage", .literal coverage)]),
    ("issues", .items (r.issues.map issueOutline)),
    ("top_missing", .items (r.topMissing.map missingOutline)),
    ("warnings", .items (r.warnings.map .str))]

def structuredText (time : String) (r : Result) : Except WriteError String := do
  let coverage ← (Value.float r.coverage).json
  return (resultOutline time coverage r).text 0 ++ "\n"

end Pagesmith.Report
