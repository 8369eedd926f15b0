import Pagesmith.Lint.Check
import Pagesmith.Settings.Basic

/-!
# Settings of a site

What the settings say about building and checking a site.  A setting has a short key, which the
command line uses, and a key in a section, which files and the environment use.

* `RenderSettings.of`, `BuildSettings.of`, `LintSettings.of`: the settings with their defaults.
* `BuildSettings.config`, `LintSettings.config`: the configurations they stand for.
-/

namespace Pagesmith

structure RenderSettings where
  /-- The nanoseconds that the logic of a page may take. -/
  timeout : Int
  sanitize : Bool
  truncate : Bool
  deriving DecidableEq, Repr

def RenderSettings.of (s : Settings) : RenderSettings where
  timeout := s.duration "timeout" "render.timeout" 0
  sanitize := s.bool "sanitize" "render.sanitize" false
  truncate := s.bool "legacy-truncation" "render.legacy-truncation" false

/-- The compiler of some settings, with the stylesheet that documents refer to. -/
def RenderSettings.compiler (r : RenderSettings) (stylesheet : String) : Compiler where
  truncated := r.truncate
  sanitized := r.sanitize
  stylesheet := if stylesheet = "" then defaultStylesheet else stylesheet
  limit := Logic.limitOf ((r.timeout + 999999) / 1000000)

structure BuildSettings where
  sourceDir : String
  outDir : String
  pages : List String
  styles : List String
  stylesheet : String
  emitPresets : Bool
  /-- The number of pages at the same time, which changes nothing of what is built. -/
  concurrency : Int
  render : RenderSettings
  deriving DecidableEq, Repr

def BuildSettings.of (s : Settings) : BuildSettings where
  sourceDir := s.text "source" "source" "."
  outDir := s.text "out-dir" "build.out-dir" "dist"
  pages := s.texts "pages" "build.pages" defaultPagePatterns
  styles := s.texts "styles" "build.styles" defaultStylePatterns
  stylesheet := s.text "stylesheet" "build.stylesheet" defaultStylesheet
  emitPresets := s.bool "emit-presets" "build.emit-presets" false
  concurrency := s.int "concurrency" "build.concurrency" 0
  render := .of s

def BuildSettings.config (b : BuildSettings) : BuildConfig where
  sourceDir := b.sourceDir
  outDir := b.outDir
  pages := b.pages
  styles := b.styles
  stylesheet := b.stylesheet
  emitPresets := b.emitPresets
  compiler := b.render.compiler ""

/-- What is checked, how much is reported, and what counts as a failure. -/
structure LintSettings where
  sourceDir : String
  pages : List String
  styles : List String
  presets : Bool
  truncate : Bool
  strict : Bool
  maxPerLinter : Int
  maxSame : Int
  printLines : Bool
  printLinter : Bool
  colors : Bool
  threshold : Float
  format : String
  deriving Repr

def LintSettings.of (s : Settings) : LintSettings where
  sourceDir := s.text "source" "source" "."
  pages := s.texts "pages" "build.pages" defaultPagePatterns
  styles := s.texts "styles" "build.styles" defaultStylePatterns
  presets := s.bool "presets" "build.emit-presets" false
  truncate := s.bool "legacy-truncation" "render.legacy-truncation" false
  strict := s.bool "strict" "lint.strict" false
  maxPerLinter := s.int "max-issues-per-linter" "lint.max-issues-per-linter" 0
  maxSame := s.int "max-same-issues" "lint.max-same-issues" 0
  printLines := s.bool "print-lines" "lint.print-lines" true
  printLinter := s.bool "print-linter-name" "lint.print-linter-name" true
  colors := s.bool "color" "color" false
  threshold := s.float "threshold" "lint.threshold" 0
  format := s.text "output-format" "lint.output-format" ""

def LintSettings.config (l : LintSettings) : Lint.LintConfig where
  sourceDir := l.sourceDir
  pages := l.pages
  styles := l.styles
  includePresets := l.presets
  truncated := l.truncate
  maxPerLinter := l.maxPerLinter
  maxSame := l.maxSame

def Settings.isQuiet (s : Settings) : Bool := s.bool "quiet" "quiet" false

end Pagesmith
