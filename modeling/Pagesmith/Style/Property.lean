/-!
# Categories of properties

The statistics of a stylesheet count its declarations by the category of their property.
-/

namespace Pagesmith.Style

inductive Category where
  | layout
  | visual
  | typography
  | effects
  | tokens
  | vendor
  deriving DecidableEq, Repr

namespace Category

def all : List Category := [.layout, .visual, .typography, .effects, .tokens, .vendor]

def name : Category → String
  | .layout => "Layout"
  | .visual => "Visual"
  | .typography => "Typography"
  | .effects => "Effects"
  | .tokens => "Tokens"
  | .vendor => "Internal"

def members : Category → List String
  | .visual =>
    ["background", "background-color", "background-image", "background-size",
      "background-position", "background-repeat", "color", "border", "border-color",
      "border-radius", "border-width", "border-style", "box-shadow", "opacity", "outline",
      "outline-color", "outline-width", "outline-style", "fill", "stroke", "cursor",
      "accent-color", "caret-color"]
  | .layout =>
    ["display", "flex", "justify-content", "align-items", "align-self", "align-content", "gap",
      "row-gap", "column-gap", "grid", "position", "inset", "top", "right", "bottom", "left",
      "width", "height", "min-width", "min-height", "max-width", "max-height", "padding",
      "margin", "overflow", "overflow-x", "overflow-y", "z-index", "aspect-ratio", "object-fit",
      "object-position", "box-sizing"]
  | .typography =>
    ["font", "font-family", "font-size", "font-weight", "font-style", "font-variant",
      "line-height", "letter-spacing", "text-align", "text-decoration", "text-transform",
      "text-overflow", "text-shadow", "white-space", "word-break", "word-wrap", "hyphens"]
  | .effects =>
    ["transition", "transform", "transform-origin", "animation", "filter", "backdrop-filter",
      "mix-blend-mode", "clip-path", "mask", "will-change"]
  | .tokens | .vendor => []

/-- The families of properties, by what their names start with. -/
def families : List (String × Category) :=
  [("--", .tokens), ("-webkit-", .vendor), ("-moz-", .vendor), ("-ms-", .vendor),
    ("-o-", .vendor), ("border-", .visual), ("outline-", .visual), ("transition-", .effects),
    ("animation-", .effects), ("font-", .typography), ("text-", .typography)]

/-- The category of a property: where it is listed, else that of its family, else layout. -/
def ofProperty (property : String) : Category :=
  match all.find? (fun c => c.members.contains property) with
  | some c => c
  | none =>
    match families.find? (fun f => f.1.toList.isPrefixOf property.toList) with
    | some f => f.2
    | none => .layout

end Category

end Pagesmith.Style
