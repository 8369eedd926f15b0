import Pagesmith.Style.Tree
import Pagesmith.Style.Line

/-!
# Reading rule bodies

A rule body is a list of logical lines, and each line does one thing to the blocks that are open:
it opens a block, closes the innermost one, or writes a declaration into it.

* `Line.action`: what a line does.
* `Frames`: the block being filled and those around it.
* `Tree.ofBody`: the property tree of a rule body.
-/

namespace Pagesmith.Style

open Pagesmith.Text

inductive Action where
  /-- Close the innermost block. -/
  | close
  /-- Open a block; one without a key is read and dropped. -/
  | enter (key : Option String)
  /-- Write a declaration. -/
  | declare (key value : String)
  /-- Nothing: a comment line, or a line that is no declaration. -/
  | skip
  deriving DecidableEq, Repr

/-- The key of a block: the line without its brace and without a colon before it. -/
def blockKey (line : List Char) : List Char :=
  trim (dropTrailing [':'] (trim (dropTrailing ['\x7b'] line)))

/-- A declaration is cut at its first colon and loses one closing semicolon; neither side may be
empty. -/
def declaration? (line : List Char) : Option (String × String) :=
  match cut [':'] line with
  | none => none
  | some (left, right) =>
    let key := trim left
    let value := trim (dropTrailing [';'] (trim right))
    if key.isEmpty || value.isEmpty then none else some (String.ofList key, String.ofList value)

def Line.action (line : Line) : Action :=
  if line == closeLine then .close
  else if ['\x7b'].isSuffixOf line then
    match blockKey line with
    | [] => .enter none
    | key => .enter (some (String.ofList key))
  else if ['/', '/'].isPrefixOf line then .skip
  else
    match declaration? line with
    | some (key, value) => .declare key value
    | none => .skip

/-- The block being filled, and around it, from the inside out, each enclosing block with the key
under which the inner one is stored in it. -/
structure Frames where
  current : Tree
  around : List (Tree × Option String)
  deriving Repr

namespace Frames

/-- No block open, nothing written. -/
def start : Frames := ⟨[], []⟩

/-- Closes the innermost block.  Closing the outermost level does nothing. -/
def close (f : Frames) : Frames :=
  match f.around with
  | [] => f
  | (parent, some key) :: rest => ⟨parent.put (.block key f.current), rest⟩
  | (parent, none) :: rest => ⟨parent, rest⟩

def step (f : Frames) : Action → Frames
  | .close => f.close
  | .enter key => ⟨[], (f.current, key) :: f.around⟩
  | .declare key value => { f with current := f.current.set key value }
  | .skip => f

def finishFrom (current : Tree) : List (Tree × Option String) → Tree
  | [] => current
  | (parent, some key) :: rest => finishFrom (parent.put (.block key current)) rest
  | (parent, none) :: rest => finishFrom parent rest

/-- The whole tree, all open blocks closed. -/
def finish (f : Frames) : Tree := finishFrom f.current f.around

end Frames

def Tree.ofLines (lines : List Line) : Tree :=
  (lines.foldl (fun f line => f.step (Line.action line)) Frames.start).finish

def Tree.ofBody (body : String) : Tree := Tree.ofLines (logicalLines body.toList)

end Pagesmith.Style
