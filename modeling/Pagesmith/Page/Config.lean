import Pagesmith.Text.Basic

/-!
# Page configuration

The config region holds `key: value` lines.
-/

namespace Pagesmith.Page

open Pagesmith.Text

abbrev Config := List (String × String)

namespace Config

/-- Writes a value, in place of an earlier one. -/
def put (c : Config) (key value : String) : Config :=
  match c with
  | [] => [(key, value)]
  | x :: xs => if x.1 == key then (key, value) :: xs else x :: put xs key value

/-- The value of a key, empty if it has none. -/
def get (c : Config) (key : String) : String := (List.lookup key c).getD ""

/-- The setting on a line: both sides of the first colon, trimmed, neither of them empty, the value
without its quotes. -/
def setting? (line : List Char) : Option (String × String) :=
  match cut [':'] line with
  | none => none
  | some (left, right) =>
    let key := trim left
    let value := trim right
    if key.isEmpty || value.isEmpty then none
    else some (String.ofList key, String.ofList (value.filter fun c => c != '"' && c != '\''))

/-- The configuration of a config region.  The last setting of a key counts. -/
def ofText (text : List Char) : Config :=
  ((split ['\n'] text).filterMap setting?).foldl (fun c s => c.put s.1 s.2) []

end Config

end Pagesmith.Page
