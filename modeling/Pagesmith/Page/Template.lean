import Pagesmith.Text.Basic

/-!
# Templates

A template is markup with structural markers such as `@card`, which stand for class attributes, and
with expressions in braces.

* `TagTable.replaced`: the markup with its markers replaced.
* `segmentsFrom`: the literal texts and the expressions of a template whose markers are replaced.
* `Template.source`, `Template.static`: the template written back, with its expressions marked or
  left out.
-/

namespace Pagesmith.Page

open Pagesmith.Text

structure Tag where
  marker : String
  replacement : String
  deriving DecidableEq, Repr

/-- Markers in the order in which they are replaced. -/
abbrev TagTable := List Tag

def Tag.ofClass (name : String) : Tag := ⟨"@" ++ name, "class=\"" ++ name ++ "\""⟩

def builtinMarkers : List String :=
  ["container", "flex", "grid", "center", "title", "text", "button", "input", "card"]

namespace TagTable

def builtin : TagTable := builtinMarkers.map Tag.ofClass

/-- A marker for every preset, the longest first so that none hides a longer one, and after them
the built-in markers. -/
def ofPresets (names : List String) : TagTable :=
  (names.mergeSort fun a b => decide (b.utf8ByteSize ≤ a.utf8ByteSize)).map Tag.ofClass ++ builtin

def replaced (tags : TagTable) (text : List Char) : List Char :=
  tags.foldl (fun s t => replaceAll t.marker.toList t.replacement.toList s) text

end TagTable

/-- A piece of a template: literal text, or an expression with the text it is written as. -/
inductive Segment where
  | text (s : List Char)
  | expr (source raw : List Char)
  deriving DecidableEq, Repr

def literalSegment : List Char → List Segment
  | [] => []
  | s => [.text s]

/-- What follows a character that is not dropped is shorter than the whole text. -/
theorem length_lt_of_dropWhile {p : Char → Bool} {s rest : List Char} {c : Char}
    (h : s.dropWhile p = c :: rest) : rest.length < s.length := by
  have := (List.dropWhile_sublist p : (s.dropWhile p).Sublist s).length_le
  rw [h] at this
  exact this

/-- The segments of a text, where `before` is the literal text just before it, last character
first.  An expression is what stands between an opening brace and the next closing one, unless it is
blank. -/
def segmentsFrom (before : List Char) : List Char → List Segment
  | [] => literalSegment before.reverse
  | c :: cs =>
    if c = '\x7b' then
      match h : cs.dropWhile (· != '\x7d') with
      | [] => literalSegment (before.reverse ++ c :: cs)
      | close :: rest =>
        have : rest.length < cs.length := length_lt_of_dropWhile h
        let inner := cs.takeWhile (· != '\x7d')
        if trim inner = [] then segmentsFrom (close :: inner.reverse ++ c :: before) rest
        else
          literalSegment before.reverse
            ++ .expr (trim inner) (c :: inner ++ [close]) :: segmentsFrom [] rest
    else segmentsFrom (c :: before) cs
termination_by s => s.length
decreasing_by
  · exact Nat.lt_succ_of_lt this
  · exact Nat.lt_succ_of_lt this
  · exact Nat.lt_succ_self _

structure Template where
  segments : List Segment
  deriving DecidableEq, Repr

namespace Template

def compile (tags : TagTable) (text : List Char) : Template :=
  ⟨segmentsFrom [] (tags.replaced text)⟩

def expressions (t : Template) : List (List Char) :=
  t.segments.filterMap fun
    | .expr e _ => some e
    | .text _ => none

/-- The template with its expressions marked by a dollar sign. -/
def source (t : Template) : List Char :=
  t.segments.flatMap fun
    | .expr e _ => '$' :: '\x7b' :: e ++ ['\x7d']
    | .text s => s

/-- The template without its expressions; their line breaks stay, so that lines keep their
numbers. -/
def static (t : Template) : List Char :=
  t.segments.flatMap fun
    | .expr _ raw => raw.filter (· == '\n')
    | .text s => s

end Template

end Pagesmith.Page
