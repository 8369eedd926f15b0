import Pagesmith.Text.Basic

/-!
# Places in a source text

A failure is reported with the line and column it stands at, the line itself, and a mark under
that column.  Columns count characters.

* `Located`: a cause at a position, counted in characters from the start of the source.
* `report`: the message of a cause with its place.
-/

namespace Pagesmith.Expr

structure Located (ε : Type) where
  pos : Nat
  cause : ε
  deriving Repr

/-- The line and the column of a position, both counted from zero. -/
def lineColumn (pos : Nat) (source : List Char) : Nat × Nat :=
  (source.take pos).foldl (fun (l, c) ch => if ch == '\n' then (l + 1, 0) else (l, c + 1)) (0, 0)

/-- The line of a source text that a position stands on, with its tabs as blanks. -/
def lineText (line : Nat) (source : List Char) : List Char :=
  ((Text.split ['\n'] source).getD line []).map fun c => if c == '\t' then ' ' else c

/-- The mark under a column, or nothing if a character up to it is not ASCII, because then columns
do not line up. -/
def mark (column : Nat) (line : List Char) : List Char :=
  if (line.take (column + 1)).all (·.toNat < 0x80) then
    "\n | ".toList ++ Text.rep (min column line.length) '.' ++ ['^']
  else []

/-- A message with the place it is about.  An empty source has no places. -/
def report (source : List Char) (pos : Nat) (message : String) : String :=
  if source.isEmpty then message
  else
    let (line, column) := lineColumn pos source
    let text := lineText line source
    message ++ " (" ++ toString (line + 1) ++ ":" ++ toString (column + 1) ++ ")\n | "
      ++ String.ofList (text ++ mark column text)

end Pagesmith.Expr
