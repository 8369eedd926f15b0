import Pagesmith.Build
import Pagesmith.Lint.Column
import Pagesmith.Lint.Suggestion
import Pagesmith.Page.Reference
import Pagesmith.Report.Issue

/-!
# Checking pages

The class names and markers of every page template are checked against the compiled styles.  The
logic of pages is not run.

* `LintConfig`: what is checked, and how much is reported.
* `pageFindings?`: the references and the issues of one page.
* `topMissing`: the missing classes that are used most.
* `lint?`: the findings of all pages.
-/

namespace Pagesmith.Lint

open Pagesmith.Report
open Pagesmith.Text (Origin Position quoted trim split)

structure LintConfig where
  sourceDir : String := ""
  pages : List String := []
  styles : List String := []
  /-- Whether the presets count as defined. -/
  includePresets : Bool := false
  truncated : Bool := false
  /-- The most issues of a linter; zero for all. -/
  maxPerLinter : Int := 0
  /-- The most issues with one text; zero for all. -/
  maxSame : Int := 0
  deriving DecidableEq, Repr

/-- The configuration with a value for everything that it leaves open. -/
def LintConfig.complete (c : LintConfig) : LintConfig :=
  { c with
    sourceDir := if c.sourceDir = "" then "." else c.sourceDir
    pages := if c.pages.isEmpty then defaultPagePatterns else c.pages
    styles := if c.styles.isEmpty then defaultStylePatterns else c.styles }

def linterName : String := "maxlint"

/-! ### One page -/

/-- What a check of one page finds: its issues, and the class names it refers to with whether they
are defined. -/
structure Findings where
  issues : List Issue := []
  refs : List (String × Bool) := []
  deriving Repr

def missingTemplate (path : String) : Issue where
  linter := linterName
  text := "page has no <template> section"
  severity := .warning
  file := path
  position := ⟨1, 1⟩

/-- A line of a page without its carriage returns; empty if there is no such line. -/
def sourceLine (lines : List (List Char)) (line : Int) : List Char :=
  if line < 1 then []
  else ((lines.getD (line - 1).toNat []).reverse.dropWhile (· == '\r')).reverse

def unknownClass (path : String) (lines : List (List Char)) (at_ : Origin) (defined : List String)
    (ref : Page.Reference) : Issue :=
  let name := String.ofList ref.name
  let place := at_.inWhole ref.position
  let source := sourceLine lines place.line
  let column := classColumn source ref.name
  { linter := linterName
    text := "class " ++ quoted name ++ " not found in stylesheet"
    severity := .error
    lines := some [String.ofList source]
    file := path
    position := ⟨place.line, if column = 0 then place.column else column⟩
    replacement := (closest? name defined).bind fun s =>
      if s = "" then none else some ⟨s, name.utf8ByteSize⟩ }

def unknownMarker (path : String) (lines : List (List Char)) (at_ : Origin) (ref : Page.Reference) :
    Issue :=
  let place := at_.inWhole ref.position
  let source := sourceLine lines place.line
  { linter := linterName
    text := "unknown marker " ++ quoted (String.ofList ref.name)
    severity := .warning
    lines := some [String.ofList source]
    file := path
    position := ⟨place.line,
      match Text.indexOfBytes? ref.name source with
      | some i => i + 1
      | none => place.column⟩ }

/-- What is found on a page whose template is `region`. -/
def findingsFrom (defined : List String) (path source : String) (region : List Char)
    (refs markers : List Page.Reference) : Findings :=
  let lines := split ['\n'] source.toList
  let at_ := Origin.locate source.toList region
  let unknown := refs.filter fun r => !defined.contains (String.ofList r.name)
  { issues := unknown.map (unknownClass path lines at_ defined)
      ++ markers.map (unknownMarker path lines at_)
    refs := refs.map fun r => (String.ofList r.name, defined.contains (String.ofList r.name)) }

/-- The findings of one page, unless the check breaks off at a reference without position. -/
def pageFindings? (c : Compiler) (defined : List String) (path source : String) :
    Option Findings :=
  let d := c.parse source
  if (trim d.source).isEmpty then some { issues := [missingTemplate path] }
  else do
    let refs ← Page.classRefs? d.template.static
    let markers ← Page.unknownMarkers? d.template.static
    return findingsFrom defined path source d.source refs markers

/-- The findings of one page if the check does not break off. -/
def pageFindings (c : Compiler) (defined : List String) (path source : String) : Findings :=
  let d := c.parse source
  if (trim d.source).isEmpty then { issues := [missingTemplate path] }
  else
    findingsFrom defined path source d.source (Page.classRefs d.template.static)
      (Page.unknownMarkers d.template.static)

/-! ### All pages -/

def maxTopMissing : Nat := 10

def tally (names : List String) : List (String × Nat) :=
  (Style.firstOccurrences names).map fun n => (n, names.count n)

/-- Whether a missing class does not come after another one: the one that occurs more often first,
then the smaller name. -/
def mostFrequent (a b : MissingClass) : Bool :=
  if a.occurrences ≠ b.occurrences then decide (b.occurrences < a.occurrences)
  else decide (a.name ≤ b.name)

/-- The missing classes that are used most, each with a suggestion. -/
def topMissing (counts : List (String × Nat)) (defined : List String) : List MissingClass :=
  ((counts.map fun (name, n) => MissingClass.mk name n (closest? name defined)).mergeSort
    mostFrequent).take maxTopMissing

def coverage (resolved refs : Nat) : Float :=
  if refs = 0 then 100 else resolved.toFloat / refs.toFloat * 100

def suggestionsFor (config : LintConfig) (c : Compiler) (errors styleFiles : Nat)
    (missing : List MissingClass) : List String :=
  (if 0 < errors then
    ["Define the missing classes in a .maxt file or fix the misspelled names"] else [])
  ++ (if !config.includePresets && missing.any fun m => (c.catalog.style? m.name).isSome then
    ["Preset classes are only emitted with build.emit-presets; "
      ++ "lint with --presets if the build uses it"] else [])
  ++ (if styleFiles = 0 then
    ["No style files found; add .maxt files below the source directory"] else [])

/-- Why nothing was checked. -/
inductive LintError where
  | pages (cause : PatternError)
  | styles (cause : PatternError)
  deriving DecidableEq, Repr

def LintError.message : LintError → String
  | .pages e => "failed to scan pages: " ++ e.message
  | .styles e => "failed to scan styles: " ++ e.message

/-- The pages that can be read, each with its source, and a warning for each that cannot. -/
def readPages (t : FileTree) : List String → List (String × String) × List String
  | [] => ([], [])
  | path :: paths =>
    let (pages, warnings) := readPages t paths
    match t.read path with
    | .ok source => ((path, source) :: pages, warnings)
    | .error e => (pages, ("Failed to read " ++ path ++ ": " ++ e.message) :: warnings)

def resultOf (config : LintConfig) (c : Compiler) (defined : List String) (styleFiles : Nat)
    (warnings : List String) (findings : List Findings) : Result :=
  let refs := findings.flatMap Findings.refs
  let resolved := (refs.filter (·.2)).length
  let issues := findings.flatMap Findings.issues
  let errors := countSeverity .error issues
  let missing := topMissing (tally ((refs.filter (!·.2)).map (·.1))) defined
  { issues := sortIssues issues
    errors
    filesScanned := findings.length
    styleFiles
    classesDefined := defined.length
    classRefs := refs.length
    resolvedRefs := resolved
    coverage := coverage resolved refs.length
    topMissing := missing
    warnings
    suggestions := suggestionsFor config c errors styleFiles missing }

def limited (config : LintConfig) (r : Result) : Result :=
  let (issues, removed) := limitIssues config.maxPerLinter config.maxSame r.issues
  { r with issues, truncated := removed }

/-- The classes that the styles of a project define, and a warning for each file that cannot be
read. -/
def definedClasses (config : LintConfig) (c : Compiler) (t : FileTree) (styleFiles : List String) :
    List String × List String :=
  let (css, warnings) := c.stylesheetOf t styleFiles
  let css := if config.includePresets then joinCss [css, c.presetStyles] else css
  ((Style.Stats.ofCss css).classes, warnings)

/-- What the pages of a project are checked with, and what is made of their findings. -/
structure Survey where
  compiler : Compiler
  defined : List String
  sources : List (String × String)
  result : List Findings → Result

def survey (config : LintConfig) (t : FileTree) : Except LintError Survey := do
  let config := config.complete
  let (pages, _) ← (t.discover config.sourceDir config.pages).mapError .pages
  let (styleFiles, _) ← (t.discover config.sourceDir config.styles).mapError .styles
  let c : Compiler := { truncated := config.truncated }
  let (defined, styleWarnings) := definedClasses config c t styleFiles
  let (sources, pageWarnings) := readPages t pages
  return ⟨c, defined, sources, fun findings => limited config
    (resultOf config c defined styleFiles.length (styleWarnings ++ pageWarnings) findings)⟩

/-- The result of a check, unless the check of a page breaks off. -/
def lint? (config : LintConfig) (t : FileTree) : Except LintError (Option Result) := do
  let s ← survey config t
  return (s.sources.mapM fun (path, source) =>
    pageFindings? s.compiler s.defined path source).map s.result

def lint (config : LintConfig) (t : FileTree) : Except LintError Result := do
  let s ← survey config t
  return s.result (s.sources.map fun (path, source) =>
    pageFindings s.compiler s.defined path source)

end Pagesmith.Lint
