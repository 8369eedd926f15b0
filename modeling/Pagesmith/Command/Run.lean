import Pagesmith.Command.Line
import Pagesmith.Lint.Verdict
import Pagesmith.Report.Format
import Pagesmith.Settings.Site
import Pagesmith.Settings.Source

/-!
# Running commands

* `Process`: what a command gets from outside.
* `Outcome`: what a command leaves behind.
* `runBuild`, `runRender`, `runCss`, `runLint`, `runInit`: the commands.
* `run`: the outcome of a command line.
-/

namespace Pagesmith.Command

open Pagesmith.Report (Format Clock Styling Result)

structure Process where
  args : List String
  env : List (String × String) := []
  tree : FileTree
  clock : Clock
  /-- What answers requests to the network. -/
  net : Http.Transport := { replies := [] }
  /-- Whether output goes to a terminal. -/
  terminal : Bool := false

structure Outcome where
  tree : FileTree
  output : String := ""
  problems : String := ""
  code : Nat := 0

inductive Failure where
  | usage (e : UsageError)
  | source (e : SourceError)
  | build (e : BuildError)
  | lint (e : Lint.LintError)
  | missingPage (path : String)
  | page (e : Compiler.PageError)
  | configPresent
  | config (e : FileError)

def Failure.message : Failure → String
  | .usage e => e.message
  | .source e => e.message
  | .build e => "build failed: " ++ e.message
  | .lint e => "lint failed: " ++ e.message
  | .missingPage path => "page " ++ path ++ " does not exist"
  | .page e => e.message
  | .configPresent => defaultConfigFile ++ " already exists (use --force to overwrite)"
  | .config e => "writing config file: " ++ e.message

def Outcome.fail (o : Outcome) (e : Failure) : Outcome :=
  { o with problems := o.problems ++ "Error: " ++ e.message ++ "\n", code := 1 }

/-- A command that breaks off.  The trace that it leaves is not part of the outcome. -/
def Outcome.crash (o : Outcome) : Outcome := { o with code := 2 }

def Outcome.print (o : Outcome) (s : String) : Outcome := { o with output := o.output ++ s }

def Process.start (p : Process) : Outcome := { tree := p.tree }

/-- The settings of a command: the flags that are given count first. -/
def Process.settings (p : Process) (parsed : Parsed) : Except SourceError Settings :=
  (loadSettings p.tree p.env (parsed.text "config")).map (Settings.layer ⟨parsed.values⟩)

/-! ### Checks -/

def runLint (p : Process) (s : Settings) (o : Outcome) : Outcome :=
  let l := LintSettings.of s
  match Lint.lint? l.config o.tree with
  | .error e => o.fail (.lint e)
  | .ok none => o.crash
  | .ok (some r) =>
    let colors := Styling.ofEnv (Report.wantsColors l.colors p.env p.terminal) p.env p.terminal
    let printed := (Format.ofFlag l.format s.isQuiet).write
      ⟨l.printLines, l.printLinter, colors⟩ p.clock r
    let o := { o with code := Lint.exitCode l.strict l.threshold r }
    if s.isQuiet then o
    else
      { o with
        output := o.output ++ printed.output
        problems := o.problems ++ printed.problem ++ Lint.verdictNote l.strict l.threshold r }

/-! ### Builds -/

def categoryLines (s : Style.Stats) : List String :=
  (Style.Category.all.filter fun c => 0 < s.count c).map fun c =>
    let name := c.name ++ ":"
    "    " ++ name ++ String.ofList (Text.rep (11 - name.length) ' ') ++ " " ++ toString (s.count c)

def buildText (outDir : String) (r : BuildResult) : String :=
  Report.lineText (
    ["Built site in " ++ outDir,
      "  Pages rendered: " ++ toString r.pages.length,
      "  Style files: " ++ toString r.styleFiles,
      "  Stylesheet: " ++ r.stylesheet ++ " (" ++ toString r.styles.rules ++ " rules, "
        ++ toString r.styles.keyframes ++ " keyframes, " ++ toString r.styles.declarations
        ++ " declarations)"]
    ++ categoryLines r.styles
    ++ (if 0 < r.styles.tokenUses then ["  Token references: " ++ toString r.styles.tokenUses]
      else [])
    ++ r.warnings.map ("  Warning: " ++ ·))

def runBuild (p : Process) (s : Settings) (checked : Bool) : Outcome :=
  let b := BuildSettings.of s
  match build b.config Logic.inert p.net false p.tree with
  | .error e => p.start.fail (.build e)
  | .ok (r, tree) =>
    let o : Outcome := { tree, output := if s.isQuiet then "" else buildText b.outDir r }
    if checked then runLint p s o else o

/-! ### Single files -/

def runRender (p : Process) (s : Settings) (parsed : Parsed) : Outcome :=
  let path := parsed.args.headD ""
  let c := (RenderSettings.of s).compiler (s.text "stylesheet" "build.stylesheet" "")
  match loadData p.tree (parsed.text "data") with
  | .error e => p.start.fail (.source e)
  | .ok data =>
    match c.parseFile p.tree path with
    | .error (.missing _) => p.start.fail (.missingPage path)
    | .error e => p.start.fail (.page e)
    | .ok d =>
      p.start.print (if parsed.isOn "document" then c.document Logic.inert p.net d (data.getD [])
        else (c.render Logic.inert p.net d (data.getD [])).1)

def runCss (p : Process) (s : Settings) (parsed : Parsed) : Outcome :=
  let c := (RenderSettings.of s).compiler ""
  let (css, warnings) := c.stylesheetOf p.tree parsed.args
  let css :=
    if parsed.isOn "presets" then (if css = "" then "" else css ++ "\n") ++ c.presetStyles else css
  let problems := if s.isQuiet then [] else warnings.map fun w => "Warning: " ++ w
  { p.start.print css with problems := Report.lineText problems }

/-! ### Other commands -/

def defaultConfig : String := Report.lineText [
  "# animax configuration",
  "",
  "# Shared settings",
  "source: .",
  "verbose: false",
  "",
  "# Build settings",
  "build:",
  "  out-dir: dist",
  "  pages:",
  "    - \"**/*.max\"",
  "  styles:",
  "    - \"**/*.maxt\"",
  "  stylesheet: styles.css",
  "  emit-presets: false",
  "  concurrency: 0           # 0 = GOMAXPROCS",
  "",
  "# Page rendering",
  "render:",
  "  timeout: 2s              # budget of one @backend run",
  "  sanitize: false",
  "  legacy-truncation: false",
  "",
  "# Linting settings",
  "lint:",
  "  strict: false",
  "  threshold: 0.0",
  "  output-format: issues    # issues | summary | full | json | markdown",
  "  max-issues-per-linter: 0 # 0 = unlimited",
  "  max-same-issues: 0       # 0 = unlimited",
  "  print-lines: true",
  "  print-linter-name: true"]

def runInit (p : Process) (forced : Bool) : Outcome :=
  if p.tree.present defaultConfigFile && !forced then p.start.fail .configPresent
  else
    match p.tree.write defaultConfigFile defaultConfig with
    | .error e => p.start.fail (.config e)
    | .ok tree => { tree, output := "Created " ++ defaultConfigFile ++ "\n" }

def description : String := Report.lineText [
  "Compile .max pages and .maxt style files into HTML and CSS.",
  "Pages combine a @page config block, a @backend logic block and a",
  "<template>; style files declare @style, @component, @theme and",
  "@animations rules that become one stylesheet.",
  "",
  "Usage:",
  "  animax [command] [flags]",
  "",
  "Commands: build, render, css, lint, init, completion, version"]

def version : String := "dev"

/-- Runs a command with the settings of its flags, the environment and the settings file. -/
def withSettings (p : Process) (parsed : Parsed) (f : Settings → Outcome) : Outcome :=
  match p.settings parsed with
  | .error e => p.start.fail (.source e)
  | .ok s => f s

/-- Runs a command.  Completions are words for the shell, of which there are none. -/
def runLine (p : Process) (line : Line) : Outcome :=
  let parsed := line.parsed
  match line.command with
  | .program => withSettings p parsed fun s => runBuild p s false
  | .build => withSettings p parsed fun s => runBuild p s (parsed.isOn "lint")
  | .render => withSettings p parsed fun s => runRender p s parsed
  | .css => withSettings p parsed fun s => runCss p s parsed
  | .lint => withSettings p parsed fun s => runLint p s p.start
  | .init => runInit p (parsed.isOn "force")
  | .version => p.start.print (programName ++ " " ++ version ++ "\n")
  | .help => p.start.print description
  | .completion => p.start

def run (p : Process) : Outcome :=
  match parseLine p.args with
  | .error e => p.start.fail (.usage e)
  | .ok line => runLine p line

end Pagesmith.Command
