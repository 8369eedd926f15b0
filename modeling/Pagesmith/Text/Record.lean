import Pagesmith.Text.Basic

/-!
# Comma-separated records

One line of fields with commas between them.  A field between double quotes may hold commas, line
ends, and quotes that are written twice.

* `RecordError`: why a text is no record, with the place.
* `readRecord`: the fields of the first line that is not empty.
-/

namespace Pagesmith.Text

inductive RecordFault where
  | bareQuote
  | strayQuote
  deriving DecidableEq, Repr

def RecordFault.message : RecordFault → String
  | .bareQuote => "bare \" in non-quoted field"
  | .strayQuote => "extraneous or missing \" in quoted-field"

inductive RecordError where
  /-- There is no line but empty ones. -/
  | empty
  | malformed (startLine line column : Nat) (fault : RecordFault)
  deriving DecidableEq, Repr

def RecordError.message : RecordError → String
  | .empty => "EOF"
  | .malformed startLine line column fault =>
    (if startLine = line then "" else "record on line " ++ toString startLine ++ "; ")
      ++ "parse error on line " ++ toString line ++ ", column " ++ toString column ++ ": "
      ++ fault.message

/-- The lines of a text with their ends.  A carriage return before an end is dropped. -/
def recordLines (s : List Char) : List (List Char) :=
  let pieces := split ['\n'] s
  let ended := pieces.dropLast.map fun l => dropTrailing ['\r'] l ++ ['\n']
  match pieces.getLast? with
  | none | some [] => ended
  | some last => ended ++ [dropTrailing ['\r'] last]

/-- A place in a record: the line and the column, in bytes and from one. -/
structure RecordPlace where
  line : Nat
  column : Nat
  deriving DecidableEq, Repr

def RecordPlace.after (p : RecordPlace) (s : List Char) : RecordPlace :=
  { p with column := p.column + byteSize s }

mutual

/-- The fields that start at a place, where `lines` follow the rest of the line. -/
def readFields (start : Nat) (lines : List (List Char)) (p : RecordPlace) (line : List Char)
    (fuel : Nat) : Except RecordError (List (List Char)) :=
  match fuel with
  | 0 => .error .empty
  | fuel + 1 =>
    match line with
    | '"' :: rest => readQuoted start lines (p.after ['"']) rest [] fuel
    | _ =>
      let field := line.takeWhile (· != ',')
      let (field, rest) := match line.dropWhile (· != ',') with
        | _ :: rest => (field, some rest)
        | [] => (dropTrailing ['\n'] field, none)
      if field.contains '"' then
        .error (.malformed start p.line (p.after (field.takeWhile (· != '"'))).column .bareQuote)
      else
        match rest with
        | none => .ok [field]
        | some rest =>
          (readFields start lines (p.after (field ++ [','])) rest fuel).map (field :: ·)
termination_by structural fuel

/-- A field between quotes, after `done`, and the fields behind it. -/
def readQuoted (start : Nat) (lines : List (List Char)) (p : RecordPlace)
    (line done : List Char) (fuel : Nat) : Except RecordError (List (List Char)) :=
  match fuel with
  | 0 => .error .empty
  | fuel + 1 =>
    let part := line.takeWhile (· != '"')
    match line.dropWhile (· != '"') with
    | '"' :: rest =>
      let here := p.after part
      match rest with
      | '"' :: rest =>
        readQuoted start lines (here.after ['"', '"']) rest (done ++ part ++ ['"']) fuel
      | ',' :: rest =>
        (readFields start lines (here.after ['"', ',']) rest fuel).map ((done ++ part) :: ·)
      | [] | ['\n'] => .ok [done ++ part]
      | _ => .error (.malformed start p.line here.column .strayQuote)
    | _ =>
      if line.isEmpty then .error (.malformed start p.line p.column .strayQuote)
      else
        match lines with
        | [] => readQuoted start [] (p.after part) [] (done ++ part) fuel
        | next :: lines => readQuoted start lines ⟨p.line + 1, 1⟩ next (done ++ part) fuel
termination_by structural fuel

end

def readRecord (s : List Char) : Except RecordError (List (List Char)) :=
  let lines := recordLines s
  let skipped := lines.takeWhile fun l => l.isEmpty || l == ['\n']
  match lines.drop skipped.length with
  | [] => .error .empty
  | line :: rest =>
    let start := skipped.length + 1
    readFields start rest ⟨start, 1⟩ line (2 * s.length + 2)

end Pagesmith.Text
