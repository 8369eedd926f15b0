import Pagesmith.File.Path

/-!
# File trees

Files and folders by their places, and one of the folders where relative paths start.  Reading and
writing fail as they do in an operating system.

* `FileError`: what was tried, at which path, and what stood in the way.
* `FileTree.resolve`: the place that a path leads to.  All folders on the way have to exist.
* `FileTree.read`, `FileTree.write`, `FileTree.makeFolder`: the operations.
* `FileTree.changes`: the files that one tree has and another has not.
-/

namespace Pagesmith

open Pagesmith.File (parts joinParts isAbsolute)

namespace File

inductive Fault where
  | missing
  | notFolder
  | isFolder
  | present
  | badName
  | longName
  deriving DecidableEq, Repr

def Fault.text : Fault → String
  | .missing => "no such file or directory"
  | .notFolder => "not a directory"
  | .isFolder => "is a directory"
  | .present => "file exists"
  | .badName => "invalid argument"
  | .longName => "file name too long"

inductive Action where
  | open
  | read
  | makeFolder
  | inspect
  deriving DecidableEq, Repr

def Action.name : Action → String
  | .open => "open"
  | .read => "read"
  | .makeFolder => "mkdir"
  | .inspect => "stat"

end File

structure FileError where
  action : File.Action
  path : String
  fault : File.Fault
  deriving DecidableEq, Repr

def FileError.message (e : FileError) : String :=
  e.action.name ++ " " ++ e.path ++ ": " ++ e.fault.text

inductive FileNode where
  | file (content : String)
  | folder
  deriving DecidableEq, Repr

abbrev Place := List String

/-- Files and folders by their places, and the place where relative paths start. -/
structure FileTree where
  home : Place
  entries : List (Place × FileNode)
  deriving DecidableEq, Repr

namespace FileTree

/-- What stands at a place.  Whatever lies on the way to something is a folder. -/
def node? (t : FileTree) (place : Place) : Option FileNode :=
  match t.entries.lookup place with
  | some n => some n
  | none =>
    if place.isPrefixOf t.home || t.entries.any (fun e => place.isPrefixOf e.1) then some .folder
    else none

/-- The most bytes that a name may have. -/
def longestName : Nat := 255

/-- Goes one part further from a place, which has to be a folder. -/
def enter (t : FileTree) (place : Place) (part : String) : Except File.Fault Place :=
  match t.node? place with
  | none => .error .missing
  | some (.file _) => .error .notFolder
  | some .folder =>
    if part = "" || part = "." then .ok place
    else if part = ".." then .ok place.dropLast
    else if longestName < part.utf8ByteSize then .error .longName
    else .ok (place ++ [part])

/-- The place that a path leads to, whether anything stands there or not. -/
def resolve (t : FileTree) (path : String) : Except File.Fault Place :=
  if path = "" then .error .missing
  else if path.toList.contains '\x00' then .error .badName
  else (parts path).foldlM t.enter (if isAbsolute path then [] else t.home)

def lookup (t : FileTree) (path : String) : Except File.Fault FileNode :=
  match t.resolve path with
  | .error e => .error e
  | .ok place =>
    match t.node? place with
    | none => .error .missing
    | some n => .ok n

def present (t : FileTree) (path : String) : Bool := (t.lookup path).toOption.isSome

def read (t : FileTree) (path : String) : Except FileError String :=
  match t.lookup path with
  | .error e => .error ⟨.open, path, e⟩
  | .ok .folder => .error ⟨.read, path, .isFolder⟩
  | .ok (.file content) => .ok content

/-- The tree with something at a place, whatever stood there before. -/
def put (t : FileTree) (place : Place) (n : FileNode) : FileTree :=
  { t with entries := t.entries.filter (fun e => e.1 != place) ++ [(place, n)] }

def write (t : FileTree) (path content : String) : Except FileError FileTree :=
  match t.resolve path with
  | .error e => .error ⟨.open, path, e⟩
  | .ok place =>
    match t.node? place with
    | some .folder => .error ⟨.open, path, .isFolder⟩
    | _ => .ok (t.put place (.file content))

/-- The paths to the folders on the way to a path, each with its slash, and the path itself. -/
def waypoints (path : String) : List String :=
  let (ends, body) := (path.toList.reverse.span (· == '/'))
  let names := Text.split ['/'] body.reverse
  let way := (List.range names.length).map fun i =>
    String.ofList (Text.join ['/'] (names.take i ++ [[]]))
  way.drop 1 ++ [String.ofList (body.reverse ++ ends)]

def makeOne (t : FileTree) (path : String) : Except FileError FileTree :=
  match t.lookup path with
  | .ok .folder => .ok t
  | .ok (.file _) => .error ⟨.makeFolder, path, .notFolder⟩
  | .error _ =>
    match t.resolve (String.ofList (path.toList.reverse.dropWhile (· == '/')).reverse) with
    | .error e => .error ⟨.makeFolder, path, e⟩
    | .ok place =>
      match t.node? place with
      | some _ => .error ⟨.makeFolder, path, .present⟩
      | none => .ok (t.put place .folder)

def makeFolder (t : FileTree) (path : String) : Except FileError FileTree :=
  (waypoints path).foldlM makeOne t

/-- The files at or below a place, with the names on the way from it. -/
def filesBelow (t : FileTree) (place : Place) : List (List String × String) :=
  t.entries.filterMap fun
    | (p, .file content) =>
      if place.isPrefixOf p then some (p.drop place.length, content) else none
    | (_, .folder) => none

/-- A tree with files and folders at paths below its home.  A path that ends in a slash is a
folder. -/
def ofFiles (home : Place) (files : List (String × String)) : FileTree where
  home := home
  entries := files.map fun (path, content) =>
    if path.toList.getLast? = some '/' then (home ++ (parts path).dropLast, .folder)
    else (home ++ parts path, .file content)

/-- The files below the home of a tree that another tree does not have, or has with another
content. -/
def changes (old new : FileTree) : List (String × String) :=
  ((new.filesBelow new.home).filter fun f => !(old.filesBelow old.home).contains f).map
    fun (names, content) => (joinParts names, content)

end FileTree

end Pagesmith
