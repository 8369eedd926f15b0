import Pagesmith.Report.Plain

/-!
# Reports to share

The result of a check as a Markdown document with tables.
-/

namespace Pagesmith.Report

open Pagesmith.Text

def cellText (s : String) : String :=
  String.ofList (s.toList.flatMap fun c =>
    if c = '|' then ['\\', '|'] else if c = '\n' then [' '] else [c])

def codeText (s : String) : String := "\x60" ++ s ++ "\x60"

def row (cells : List String) : String := "| " ++ " | ".intercalate cells ++ " |"

/-- The first two lines of a table. -/
def tableHead (names : List String) : List String :=
  [row names, "|" ++ String.join (names.map fun _ => "---|")]

def statusBadge (r : Result) : String :=
  if 0 < r.errors then "🔴 Needs Attention"
  else if !r.issues.isEmpty then "🟡 Warnings"
  else "🟢 Clean"

def overviewLines (r : Result) : List String :=
  ["## Executive Summary", ""] ++ tableHead ["Metric", "Value"]
    ++ [row ["**Status**", statusBadge r],
      row ["**Total Issues**", toString r.issues.length ++ " ("
        ++ toString (countSeverity .error r.issues) ++ " errors, "
        ++ toString (countSeverity .warning r.issues) ++ " warnings)"],
      row ["**Pages Scanned**", toString r.filesScanned],
      row ["**Class Coverage**", percentText r.coverage],
      row ["**References Resolved**", toString r.resolvedRefs ++ " / " ++ toString r.classRefs], ""]

def missingLines (r : Result) : List String :=
  if r.topMissing.isEmpty then []
  else
    ["## 🎯 Most Referenced Missing Classes", ""]
      ++ tableHead ["Class", "Occurrences", "Did you mean"]
      ++ (r.topMissing.map fun m =>
        row [codeText (cellText m.name), toString m.occurrences,
          match m.suggestion with
          | none | some "" => ""
          | some s => codeText (cellText s)])
      ++ [""]

def errorLines (r : Result) : List String :=
  let errors := r.issues.filter fun i => i.severity = .error
  if errors.isEmpty then []
  else
    ["## ❌ Errors", ""] ++ tableHead ["Location", "Message"]
      ++ (errors.map fun i =>
        row [codeText (cellText i.file ++ ":" ++ toString i.position.line ++ ":"
          ++ toString i.position.column), cellText i.text])
      ++ [""]

def statisticsLines (r : Result) : List String :=
  ["## 📊 Detailed Statistics", ""] ++ tableHead ["Metric", "Value"]
    ++ [row ["Style Files", toString r.styleFiles],
      row ["Classes Defined", toString r.classesDefined],
      row ["Class References", toString r.classRefs],
      row ["Unknown Classes", toString r.errors],
      row ["Truncated Issues", toString r.truncated], ""]

def recommendationLines (r : Result) : List String :=
  if r.suggestions.isEmpty then []
  else ["## ✅ Recommendations", ""] ++ r.suggestions.map ("- " ++ ·) ++ [""]

/-- The result of a check at a time, as a Markdown document. -/
def markdownText (time : String) (r : Result) : String :=
  lineText (["# Page Linter Report", "", "*" ++ time ++ "*", ""]
    ++ overviewLines r ++ missingLines r ++ errorLines r ++ statisticsLines r
    ++ recommendationLines r ++ ["---", "*Generated by animax lint v1.0*"])

end Pagesmith.Report
