import Pagesmith.Text.Basic

/-!
# Paths

A path is a text with slashes between its parts.  The functions here look at the text alone and ask
no file tree.

* `clean`: the shortest path to the same place.
* `joinPaths`: a path below another one.
* `relative?`: the way from one place to another.
* `baseName`, `folderOf`, `extension`: the pieces of a path.
-/

namespace Pagesmith.File

open Pagesmith.Text

def isAbsolute (path : String) : Bool := path.toList.head? = some '/'

def parts (path : String) : List String := (split ['/'] path.toList).map String.ofList

def joinParts (ps : List String) : String := "/".intercalate ps

/-- Goes one part further from a place, whose last part stands first.  Nothing lies above the
root. -/
def step (rooted : Bool) (place : List String) (part : String) : List String :=
  if part = "" || part = "." then place
  else if part = ".." then
    match place with
    | [] => if rooted then [] else [part]
    | last :: before => if last = ".." then part :: place else before
  else part :: place

def cleanParts (path : String) : List String :=
  ((parts path).foldl (step (isAbsolute path)) []).reverse

def clean (path : String) : String :=
  let ps := cleanParts path
  if isAbsolute path then "/" ++ joinParts ps
  else if ps.isEmpty then "."
  else joinParts ps

/-- A path below another one.  An empty path adds nothing. -/
def joinPaths (a b : String) : String :=
  if a = "" && b = "" then ""
  else clean (joinParts ([a, b].filter (· != "")))

def dropCommon : List String → List String → List String × List String
  | a :: as, b :: bs => if a = b then dropCommon as bs else (a :: as, b :: bs)
  | as, bs => (as, bs)

/-- The way from one place to another.  There is none between a relative and an absolute path, and
none out of a place above an unknown one. -/
def relative? (source target : String) : Option String :=
  if clean source = clean target then some "."
  else if isAbsolute source != isAbsolute target then none
  else
    let targetParts := if clean target = "." then ["."] else cleanParts target
    let (up, down) := dropCommon (cleanParts source) targetParts
    if up.head? = some ".." then none
    else some (joinParts (up.map (fun _ => "..") ++ down))

/-- The way from one place to a path, or the path if there is none. -/
def relativeTo (root path : String) : String :=
  if root = "" then path else (relative? root path).getD path

def baseName (path : String) : String :=
  if path = "" then "."
  else
    match ((parts path).filter (· != "")).getLast? with
    | some name => name
    | none => "/"

def folderOf (path : String) : String :=
  clean (String.ofList (path.toList.reverse.dropWhile (· != '/')).reverse)

def extension (path : String) : String :=
  let last := path.toList.reverse.takeWhile (· != '/')
  if last.contains '.' then String.ofList ((last.takeWhile (· != '.')).reverse.cons '.') else ""

def dropExtension (path : String) : String :=
  String.ofList (dropTrailing (extension path).toList path.toList)

/-- Whether a part of a path starts with a dot and is more than a step. -/
def isHidden (path : String) : Bool :=
  (parts path).any fun p => p.toList.head? = some '.' && 1 < p.length && p != ".."

end Pagesmith.File
