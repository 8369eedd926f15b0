import Pagesmith.File.Tree
import Pagesmith.Html.Sanitize
import Pagesmith.Logic.Evaluate
import Pagesmith.Page.Document
import Pagesmith.Page.Render
import Pagesmith.Page.Shell
import Pagesmith.Style.Catalog.Builtin
import Pagesmith.Style.Sheet

/-!
# The compiler

Pages become markup or documents, and style files become one stylesheet, all against one catalog of
presets.

* `Compiler`: the catalog and the options.
* `Compiler.parse`, `Compiler.render`, `Compiler.document`: from a page source to a document.
* `Compiler.parseFile`: the page in a file.
* `Compiler.stylesheetOf`: the stylesheet of some files, with a warning for each unreadable one.
-/

namespace Pagesmith

open Pagesmith.Expr (Env)
open Pagesmith.Logic (Surface)
open Pagesmith.Page (Document)
open Pagesmith.Style (Catalog)

/-- The stylesheet that documents refer to unless another one is given. -/
def defaultStylesheet : String := "styles.css"

structure Compiler where
  catalog : Catalog := .builtin
  /-- Whether regions and rules end at their first closing delimiter. -/
  truncated : Bool := false
  /-- Whether rendered markup is cleaned. -/
  sanitized : Bool := false
  stylesheet : String := defaultStylesheet
  /-- The milliseconds that the logic of a page may take. -/
  limit : Nat := Logic.defaultLimit

namespace Compiler

def mode (c : Compiler) : Page.Mode := if c.truncated then .truncated else .balanced

def extent (c : Compiler) : Style.Extent := if c.truncated then .first else .matching

def tags (c : Compiler) : Page.TagTable := .ofPresets c.catalog.styles.names

def parse (c : Compiler) (source : String) : Document := .parse c.tags c.mode source.toList

/-- Runs the logic of a page and shows its template.  Data counts before what logic binds. -/
def render {σ : Type} (c : Compiler) (w : Surface σ) (world : σ) (d : Document) (data : Env) :
    String × List Log.Record :=
  let ((bindings, logicLog), _) := Logic.evaluate w c.limit d.logic world
  let (markup, renderLog) := d.template.render bindings data
  let out := if c.sanitized then String.ofList (Html.sanitize markup.toList) else markup
  (out, logicLog ++ renderLog
    ++ [⟨.debug, "page rendered",
      [("bindings", toString bindings.length), ("bytes", toString out.utf8ByteSize)]⟩])

def documentWith {σ : Type} (c : Compiler) (w : Surface σ) (world : σ) (stylesheet : String)
    (d : Document) (data : Env) : String :=
  (Page.Shell.ofConfig d.config stylesheet).wrap (c.render w world d data).1

def document {σ : Type} (c : Compiler) (w : Surface σ) (world : σ) (d : Document) (data : Env) :
    String :=
  c.documentWith w world c.stylesheet d data

inductive PageError where
  | missing (cause : FileError)
  | unreadable (cause : FileError)
  deriving DecidableEq, Repr

def PageError.message : PageError → String
  | .missing e => "page not found: " ++ e.message
  | .unreadable e => "read page: " ++ e.message

def parseFile (c : Compiler) (t : FileTree) (path : String) : Except PageError Document :=
  match t.read path with
  | .ok source => .ok (c.parse source)
  | .error e => .error (if e.fault = .missing then .missing e else .unreadable e)

/-- The sources of some files, and a warning for each that cannot be read. -/
def readSources (t : FileTree) : List String → List String × List String
  | [] => ([], [])
  | path :: paths =>
    let (sources, warnings) := readSources t paths
    match t.read path with
    | .ok source => (source :: sources, warnings)
    | .error e => (sources, ("Failed to read " ++ path ++ ": " ++ e.message) :: warnings)

/-- The stylesheet of some files, and a warning for each that cannot be read. -/
def stylesheetOf (c : Compiler) (t : FileTree) (paths : List String) : String × List String :=
  let (sources, warnings) := readSources t paths
  (Style.compile c.catalog c.extent sources, warnings)

def presetStyles (c : Compiler) : String := Style.compileAllPresets c.catalog

end Compiler

/-- The parts that are not blank, each on a line of its own. -/
def joinCss (parts : List String) : String :=
  "\n".intercalate (parts.filter fun p => !(Text.trim p.toList).isEmpty)

end Pagesmith
