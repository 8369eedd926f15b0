import Pagesmith.File.Tree
import Pagesmith.Settings.Variable
import Pagesmith.Yaml.Load

/-!
# Sources of settings and data

Settings come from a file, from the environment and from the command line, and each of them counts
before those that are named first here.  The data of a page is a file of the same form.

* `SourceError`: why a file cannot be used.
* `loadSettings`: the settings of a file, unless it is missing, with the environment over them.
* `loadData`: the data in a file.
-/

namespace Pagesmith

/-- The file with the settings unless another one is given. -/
def defaultConfigFile : String := ".animax.yaml"

inductive ContentError where
  | unreadable (e : FileError)
  | malformed (e : Yaml.Error)
  deriving DecidableEq, Repr

def ContentError.message : ContentError → String
  | .unreadable e => e.message
  | .malformed e => e.message

inductive SourceError where
  | config (path : String) (e : ContentError)
  | missingData (e : FileError)
  | data (path : String) (e : ContentError)
  deriving DecidableEq, Repr

def SourceError.message : SourceError → String
  | .config path e => "loading config file " ++ path ++ ": " ++ e.message
  | .missingData e => "reading data file: " ++ e.message
  | .data path e => "loading data file " ++ path ++ ": " ++ e.message

def loadFields (t : FileTree) (path : String) : Except ContentError (List (String × Value)) := do
  let text ← (t.read (File.clean path)).mapError .unreadable
  (Yaml.load text).mapError .malformed

/-- The settings of a file, unless it is missing, with the environment over them.  An empty path is
that of the usual file. -/
def loadSettings (t : FileTree) (env : List (String × String)) (path : String) :
    Except SourceError Settings := do
  let path := if path = "" then defaultConfigFile else path
  let fields ←
    if t.present path then (loadFields t path).mapError (.config path) else pure []
  return (Settings.ofVariables env).layer ⟨fields⟩

def loadData (t : FileTree) (path : String) :
    Except SourceError (Option (List (String × Value))) := do
  if path = "" then return none
  match t.lookup path with
  | .error e => throw (.missingData ⟨.inspect, path, e⟩)
  | .ok _ => some <$> (loadFields t path).mapError (.data path)

end Pagesmith
