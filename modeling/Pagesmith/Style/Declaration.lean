import Pagesmith.Style.Tree
import Pagesmith.Text.Basic

/-!
# Declarations

A semantic key of the style language stands for one or more CSS declarations.  Keys outside the
table are CSS properties already and pass through.

* `convert`: the declarations of a literal entry.
* `convertColors`, `convertAnimation`: those of the two blocks that are written inside a rule.
-/

namespace Pagesmith.Style

structure Declaration where
  property : String
  value : String
  deriving DecidableEq, Repr

def Declaration.text (d : Declaration) : String := d.property ++ ": " ++ d.value ++ ";"

def defaultColumns : String := "repeat(auto-fit, minmax(250px, 1fr))"

def namedShadow? : String → Option String
  | "small" => some "0 2px 4px rgba(0,0,0,0.1)"
  | "medium" => some "0 4px 8px rgba(0,0,0,0.1)"
  | "large" => some "0 8px 16px rgba(0,0,0,0.1)"
  | _ => none

/-- A layout is a display mode, for `flex` and `grid` with a direction or columns after it. -/
def convertLayout (value : String) : List Declaration :=
  let text := Text.trim value.toList
  let (mode, rest) := (Text.cut [' '] text).getD (text, [])
  let rest := String.ofList (Text.trim rest)
  if mode = "flex".toList then
    [⟨"display", "flex"⟩, ⟨"flex-direction", if rest = "" then "row" else rest⟩]
  else if mode = "grid".toList then
    [⟨"display", "grid"⟩, ⟨"grid-template-columns", if rest = "" then defaultColumns else rest⟩]
  else [⟨"display", value⟩]

def convert (key value : String) : List Declaration :=
  match key with
  | "layout" => convertLayout value
  | "spacing" => [⟨"gap", value⟩]
  | "align" =>
    if value = "center" then
      [⟨"display", "flex"⟩, ⟨"justify-content", "center"⟩, ⟨"align-items", "center"⟩]
    else [⟨"text-align", value⟩]
  | "justify" => [⟨"justify-content", value⟩]
  | "shadow" => [⟨"box-shadow", (namedShadow? value).getD value⟩]
  | "colors" => [⟨"color", value⟩]
  | "radius" => [⟨"border-radius", value⟩]
  | "scale" => [⟨"transform", "scale(" ++ value ++ ")"⟩]
  | "brightness" => [⟨"filter", "brightness(" ++ value ++ ")"⟩]
  | _ => [⟨key, value⟩]

/-- The declaration of an entry of a `colors` block. -/
def convertColor : Entry → Option Declaration
  | .literal "background" v => some ⟨"background-color", v⟩
  | .literal "text" v => some ⟨"color", v⟩
  | .literal k v => some ⟨k ++ "-color", v⟩
  | .block _ _ => none

/-- The declarations of a `colors` block. -/
def convertColors (t : Tree) : List Declaration := t.filterMap convertColor

/-- The declarations of an `animation` block.  Duration and timing are always written. -/
def convertAnimation (t : Tree) : List Declaration :=
  let optional (key property : String) : List Declaration :=
    ((t.get? key).map (Declaration.mk property)).toList
  optional "type" "animation-name"
    ++ [⟨"animation-duration", t.getD "duration" "0.3s"⟩,
        ⟨"animation-timing-function", t.getD "timing" "ease"⟩]
    ++ optional "delay" "animation-delay"
    ++ optional "iteration" "animation-iteration-count"

end Pagesmith.Style
