import Pagesmith.Compiler
import Pagesmith.File.Scan
import Pagesmith.Style.Stats

/-!
# Building a site

Every page below a source folder becomes a document, and every style file a part of one stylesheet,
in an output folder.

* `BuildConfig`: what is built, and where to.
* `outputPath`: the document of a page.
* `build`: the site, with the tree that holds it.  A page that fails is a warning.
-/

namespace Pagesmith

open Pagesmith.Logic (Surface)

/-- The patterns of page files unless others are given. -/
def defaultPagePatterns : List String := ["**/*.max"]

/-- The patterns of style files unless others are given. -/
def defaultStylePatterns : List String := ["**/*.maxt"]

structure BuildConfig where
  sourceDir : String := ""
  outDir : String := ""
  pages : List String := []
  styles : List String := []
  stylesheet : String := ""
  /-- Whether the presets become classes of the stylesheet. -/
  emitPresets : Bool := false
  compiler : Compiler := {}

/-- The configuration with a value for everything that it leaves open. -/
def BuildConfig.complete (c : BuildConfig) : BuildConfig where
  sourceDir := if c.sourceDir = "" then "." else c.sourceDir
  outDir := if c.outDir = "" then "dist" else c.outDir
  pages := if c.pages.isEmpty then defaultPagePatterns else c.pages
  styles := if c.styles.isEmpty then defaultStylePatterns else c.styles
  stylesheet := if c.stylesheet = "" then defaultStylesheet else c.stylesheet
  emitPresets := c.emitPresets
  compiler := c.compiler

structure BuiltPage where
  source : String
  output : String
  deriving DecidableEq, Repr

structure BuildResult where
  pages : List BuiltPage
  styleFiles : Nat
  stylesheet : String
  styles : Style.Stats
  pageScan : ScanStats
  styleScan : ScanStats
  warnings : List String

/-- Why nothing was built. -/
inductive BuildError where
  | pages (cause : PatternError)
  | styles (cause : PatternError)
  | outDir (cause : FileError)
  | stylesheet (cause : FileError)
  | canceled
  deriving DecidableEq, Repr

def BuildError.message : BuildError → String
  | .pages e => "scan pages: " ++ e.message
  | .styles e => "scan styles: " ++ e.message
  | .outDir e => "create output dir: " ++ e.message
  | .stylesheet e => "write stylesheet: " ++ e.message
  | .canceled => "context canceled"

/-- The document of a page: at the same place below the output folder, or right in it for a page
outside the source folder. -/
def outputPath (sourceDir outDir source : String) : String :=
  let way := File.relativeTo sourceDir source
  let way := if "..".isPrefixOf way || File.isAbsolute way then File.baseName source else way
  File.joinPaths outDir (File.dropExtension way ++ ".html")

def stylesheetAddress (document stylesheet : String) : String :=
  (File.relative? (File.folderOf document) stylesheet).getD (File.baseName stylesheet)

def buildPage {σ : Type} (c : Compiler) (w : Surface σ) (world : σ) (stylesheet : String)
    (page : BuiltPage) (t : FileTree) : Except FileError FileTree := do
  let source ← t.read page.source
  let text := c.documentWith w world (stylesheetAddress page.output stylesheet) (c.parse source) []
  let t ← t.makeFolder (File.folderOf page.output)
  t.write page.output text

/-- Writes the documents of some pages: those that were built, a warning for each that was not, and
the tree that holds the documents. -/
def buildPages {σ : Type} (c : Compiler) (w : Surface σ) (world : σ) (stylesheet : String) :
    List BuiltPage → FileTree → List BuiltPage × List String × FileTree
  | [], t => ([], [], t)
  | page :: pages, t =>
    match buildPage c w world stylesheet page t with
    | .ok t =>
      let (built, warnings, t) := buildPages c w world stylesheet pages t
      (page :: built, warnings, t)
    | .error e =>
      let (built, warnings, t) := buildPages c w world stylesheet pages t
      (built, ("Failed to build " ++ page.source ++ ": " ++ e.message) :: warnings, t)

/-- Builds a site, unless it is canceled before the first page. -/
def build {σ : Type} (config : BuildConfig) (w : Surface σ) (world : σ) (canceled : Bool)
    (t : FileTree) : Except BuildError (BuildResult × FileTree) := do
  let config := config.complete
  let c := config.compiler
  let (pages, pageScan) ← (t.discover config.sourceDir config.pages).mapError .pages
  let (styleFiles, styleScan) ← (t.discover config.sourceDir config.styles).mapError .styles
  let t ← (t.makeFolder config.outDir).mapError .outDir
  let (css, styleWarnings) := c.stylesheetOf t styleFiles
  let css := if config.emitPresets then joinCss [css, c.presetStyles] else css
  let stylesheet := File.joinPaths config.outDir config.stylesheet
  let t ← (t.write stylesheet css).mapError .stylesheet
  if canceled && !pages.isEmpty then .error .canceled
  let planned := pages.map fun p => BuiltPage.mk p (outputPath config.sourceDir config.outDir p)
  let (built, pageWarnings, t) := buildPages c w world stylesheet planned t
  return ({
      pages := built
      styleFiles := styleFiles.length
      stylesheet
      styles := .ofCss css
      pageScan
      styleScan
      warnings := styleWarnings ++ pageWarnings }, t)

end Pagesmith
