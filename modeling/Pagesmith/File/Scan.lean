import Pagesmith.File.Glob
import Pagesmith.File.Ignore
import Pagesmith.Text.Quoted

/-!
# Finding source files

The files below a folder that fit some patterns, without hidden and ignored ones.

* `ScanStats`: how many files were found, kept and skipped.
* `FileTree.discover`: the files, each where the first pattern that fits it puts it.
-/

namespace Pagesmith

structure ScanStats where
  discovered : Int := 0
  scanned : Int := 0
  skipped : Int := 0
  deriving DecidableEq, Repr

def ScanStats.add (a b : ScanStats) : ScanStats where
  discovered := a.discovered + b.discovered
  scanned := a.scanned + b.scanned
  skipped := a.skipped + b.skipped

structure PatternError where
  pattern : String
  deriving DecidableEq, Repr

def PatternError.message (e : PatternError) : String :=
  "glob pattern " ++ Text.quoted e.pattern ++ ": syntax error in pattern"

namespace FileTree

def ignoreFile : String := ".gitignore"

def ignoreRules (t : FileTree) : List File.IgnoreRule :=
  match t.read ignoreFile with
  | .ok content => File.ignoreRules content
  | .error _ => []

/-- Whether a file below a root is skipped: if a part of its path below the root is hidden, or if it
is ignored.  Ignore rules say nothing about absolute paths. -/
def skips (t : FileTree) (root path : String) : Bool :=
  File.isHidden (File.relativeTo root path)
    || (!File.isAbsolute path && File.isIgnored t.ignoreRules path)

def fullPattern (root pattern : String) : String :=
  if root = "" || File.isAbsolute pattern then pattern else File.joinPaths root pattern

def found (t : FileTree) (root : String) : List String → Except PatternError (List String)
  | [] => .ok []
  | p :: ps => do
    match t.glob? (fullPattern root p) with
    | none => .error ⟨p⟩
    | some files =>
      let files := files.eraseDups
      let rest ← found t root ps
      return files ++ rest.filter fun f => !files.contains f

/-- The files below a root that fit some patterns and are not skipped, and how many there are. -/
def discover (t : FileTree) (root : String) (patterns : List String) :
    Except PatternError (List String × ScanStats) := do
  let files ← t.found root patterns
  let kept := files.filter fun f => !t.skips root f
  return (kept, ⟨files.length, kept.length, files.length - kept.length⟩)

end FileTree

end Pagesmith
