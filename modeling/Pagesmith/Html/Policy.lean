import Pagesmith.Regex.Parser
import Pagesmith.Text.Unicode.Number

/-!
# What user content may hold

The elements and attributes that stay when markup is cleaned, and what the values of the attributes
have to look like.

* `Form`: a condition on the value of an attribute.
* `elementRules`: the elements that may stay, each with its own attributes.
* `globalRules`: the attributes that any of them may have.
* `attributedElements`: the elements that may not stand without attributes.
* `hiddenElements`: the elements whose content goes with them.
-/

namespace Pagesmith.Html

open Pagesmith.Text

abbrev Form := List Char → Bool

namespace Form

def any : Form := fun _ => true

def word (words : List String) : Form := isWordOf words

def matching (pattern : String) : Form :=
  match Regex.parse pattern.toList with
  | .ok r => fun s => r.found s
  | .error _ => fun _ => false

def isPlainSpace (c : Char) : Bool := c ∈ ['\t', '\n', '\x0c', '\r', ' ']

def isWordMark (c : Char) : Bool := isUnicodeLetter c || isUnicodeNumber c

/-- A paragraph of text: words, blanks and plain punctuation. -/
def paragraph : Form := fun s => s.all fun c =>
  isWordMark c || isPlainSpace c
    || c ∈ ['-', '_', '\'', ',', '[', ']', '!', '.', '/', '\\', '(', ')']

def name : Form := fun s => !s.isEmpty && s.all fun c => isWordMark c || c == '_' || c == '-'

def names : Form := fun s =>
  !s.isEmpty && s.all fun c => isWordMark c || isPlainSpace c || c == '_' || c == '-'

def fragment : Form
  | '#' :: s => name s
  | _ => false

def integer : Form := fun s => !s.isEmpty && s.all isDigit

/-- A whole number or percentage. -/
def extent : Form := fun s => integer (if s.getLast? = some '%' then s.dropLast else s)

def number : Form := matching "^[-+]?[0-9]*\\.?[0-9]+([eE][-+]?[0-9]+)?$"

def moment : Form :=
  matching ("^[0-9][0-9][0-9][0-9](-[0-9][0-9](-[0-9][0-9]([ T][0-9][0-9](:[0-9][0-9])"
    ++ "(:[0-9][0-9])?(.[0-9][0-9]?[0-9]?[0-9]?[0-9]?[0-9]?)?Z?"
    ++ "([\\+-][0-9][0-9]:[0-9][0-9])?)?)?)?$")

/-- Numbers with commas between them, at least two. -/
def coordinates : Form := matching "^([0-9]+,)+[0-9]+$"

def direction : Form := word ["rtl", "ltr"]

def language : Form := matching "[a-zA-Z][a-zA-Z]"

def identifier : Form := matching "[a-zA-Z0-9:\\-_.]"

def listType : Form := word ["circle", "disc", "square", "a", "i", "1"]

def cellAlign : Form := word ["center", "justify", "left", "right", "char"]

def cellVerticalAlign : Form := word ["baseline", "bottom", "middle", "top"]

def imageAlign : Form :=
  word ["left", "right", "top", "texttop", "middle", "absmiddle", "baseline", "bottom", "absbottom"]

def scope : Form := matching "(?i)row|col"

end Form

/-- An attribute that may stay, with the condition on its value. -/
abbrev AttributeRule := String × Form

/-- Some elements and the attributes that they may have. -/
structure ElementRule where
  elements : List String
  attributes : List AttributeRule

def elementRules : List ElementRule := [
  ⟨["article", "aside", "figure", "section", "summary", "h1", "h2", "h3", "h4", "h5", "h6",
    "hgroup", "br", "div", "hr", "p", "span", "wbr"], []⟩,
  ⟨["details"], [("open", Form.word ["", "open"])]⟩,
  ⟨["blockquote", "q"], [("cite", Form.any)]⟩,
  ⟨["a"], [("href", Form.any)]⟩,
  ⟨["map"], [("name", Form.name)]⟩,
  ⟨["area"], [("alt", Form.paragraph), ("coords", Form.coordinates), ("href", Form.any),
    ("rel", Form.names), ("shape", Form.word ["default", "circle", "rect", "poly"])]⟩,
  ⟨["abbr", "acronym", "cite", "code", "dfn", "em", "figcaption", "mark", "s", "samp", "strong",
    "sub", "sup", "var"], []⟩,
  ⟨["time"], [("datetime", Form.moment)]⟩,
  ⟨["b", "i", "pre", "small", "strike", "tt", "u"], []⟩,
  ⟨["bdi", "bdo"], [("dir", Form.direction)]⟩,
  ⟨["rp", "rt", "ruby"], []⟩,
  ⟨["del", "ins"], [("cite", Form.paragraph), ("datetime", Form.moment)]⟩,
  ⟨["ol", "ul"], [("type", Form.listType)]⟩,
  ⟨["li"], [("type", Form.listType), ("value", Form.integer)]⟩,
  ⟨["dl", "dt", "dd"], []⟩,
  ⟨["table"], [("height", Form.extent), ("width", Form.extent), ("summary", Form.paragraph)]⟩,
  ⟨["caption"], []⟩,
  ⟨["col", "colgroup"], [("align", Form.cellAlign), ("height", Form.extent),
    ("width", Form.extent), ("span", Form.integer), ("valign", Form.cellVerticalAlign)]⟩,
  ⟨["thead", "tr", "tbody", "tfoot"],
    [("align", Form.cellAlign), ("valign", Form.cellVerticalAlign)]⟩,
  ⟨["td", "th"], [("abbr", Form.paragraph), ("align", Form.cellAlign), ("colspan", Form.integer),
    ("rowspan", Form.integer), ("headers", Form.names), ("height", Form.extent),
    ("width", Form.extent), ("scope", Form.scope), ("valign", Form.cellVerticalAlign),
    ("nowrap", Form.any)]⟩,
  ⟨["meter"], [("value", Form.number), ("min", Form.number), ("max", Form.number),
    ("low", Form.number), ("high", Form.number), ("optimum", Form.number)]⟩,
  ⟨["progress"], [("value", Form.number), ("max", Form.number)]⟩,
  ⟨["img"], [("usemap", Form.fragment), ("align", Form.imageAlign), ("alt", Form.paragraph),
    ("height", Form.extent), ("width", Form.extent), ("src", Form.any)]⟩]

def globalRules : List AttributeRule := [
  ("dir", Form.direction), ("lang", Form.language), ("id", Form.identifier),
  ("title", Form.paragraph), ("class", Form.any)]

/-- The own attributes of an element, if it may stay. -/
def attributeRules? (element : String) : Option (List AttributeRule) :=
  (elementRules.find? fun r => r.elements.contains element).map (·.attributes)

/-- The elements that do not stand without attributes, among those that may stay. -/
def attributedElements : List String := ["a", "area", "bdo", "img", "map", "meter", "progress"]

def hiddenElements : List String := [
  "frame", "frameset", "iframe", "noembed", "noframes", "noscript", "nostyle", "object", "script",
  "style", "title"]

/-- The elements that hold code, which never stays. -/
def codeElements : List String := ["script", "style"]

end Pagesmith.Html
