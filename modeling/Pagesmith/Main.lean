import Std.Time.DateTime.Timestamp
import Pagesmith.Command.Run
import Pagesmith.Text.Utf8
import Pagesmith.Time.Moment

/-!
# The program

Everything that a command may look at is read first, `Command.run` says what comes of it, and that
is written back.

* `readPlace`: the files below a place of the disk.
* `readEnvironment`: the variables of the environment.
* `writeChanges`: what a command has changed, on the disk.
* `main`: a command line from start to end.
-/

namespace Pagesmith

def deepestFolder : Nat := 64

def pathOf (place : Place) : String := "/" ++ File.joinParts place

def readText (path : String) : IO String := do
  let bytes ← IO.FS.readBinFile path
  match String.fromUTF8? bytes with
  | some s => return s
  | none => return String.ofList (Text.decode (bytes.toList.map UInt8.toNat))

/-- What stands at a place and below it.  What cannot be read is left out. -/
def readPlace : Nat → Place → IO (List (Place × FileNode))
  | 0, _ => return []
  | depth + 1, place => do
    try
      let info ← System.mkFilePath [pathOf place] |>.metadata
      match info.type with
      | .dir =>
        let names := (← System.mkFilePath [pathOf place] |>.readDir).toList.map (·.fileName)
        let inner ← names.mapM fun name => readPlace depth (place ++ [name])
        return (place, .folder) :: inner.flatten
      | _ => return [(place, .file (← readText (pathOf place)))]
    catch _ => return []

/-- The places outside of some folder that a command line names. -/
def outerPlaces (home : Place) (args : List String) : List Place :=
  (args.flatMap fun arg => arg.splitOn "=").filterMap fun path =>
    let place := File.cleanParts
      (if File.isAbsolute path then path else File.joinPaths (pathOf home) path)
    if home.isPrefixOf place || place.isEmpty then none else some place

def readEnvironment : IO (List (String × String)) := do
  try
    let text ← readText "/proc/self/environ"
    return (text.splitOn "\x00").filterMap fun entry =>
      match entry.splitOn "=" with
      | name :: rest@(_ :: _) => some (name, "=".intercalate rest)
      | _ => none
  catch _ => return []

def readClock : IO Report.Clock := do
  let now ← Std.Time.Timestamp.now
  let moment := Time.Moment.ofSeconds now.toSecondsSinceUnixEpoch.val.toNat
  return ⟨moment.stamp, moment.minuteText⟩

def writeChanges (old new : FileTree) : IO Unit := do
  for (place, node) in new.entries do
    unless old.entries.lookup place = some node do
      match node with
      | .folder => IO.FS.createDirAll (pathOf place)
      | .file content => IO.FS.writeFile (pathOf place) content

end Pagesmith

open Pagesmith in
def main (args : List String) : IO UInt32 := do
  let home := File.cleanParts (← IO.currentDir).toString
  let places := home :: outerPlaces home args
  let entries ← places.mapM (readPlace deepestFolder)
  let terminal ← (← IO.getStdout).isTty
  let process : Command.Process :=
    { args, terminal
      env := ← readEnvironment
      tree := ⟨home, entries.flatten⟩
      clock := ← readClock }
  let outcome := Command.run process
  writeChanges process.tree outcome.tree
  IO.print outcome.output
  IO.eprint outcome.problems
  return UInt32.ofNat outcome.code
