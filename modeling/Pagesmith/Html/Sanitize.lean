import Pagesmith.Html.Policy
import Pagesmith.Html.Token
import Pagesmith.Http.Url

/-!
# Cleaning markup

Markup is read token by token, and what user content may not hold is left out: unknown elements,
their tags but not their text, attributes that do not fit, scripts, styles and comments.

* `escapeText`: text as it is written between tags and in attributes.
* `cleanUrl?`: an address that a link may have.
* `cleanAttributes`: the attributes of an element that stay.
* `sanitize`: the clean markup.
-/

namespace Pagesmith.Html

open Pagesmith.Text
open Pagesmith.Http (Url)

def textChar (c : Char) : List Char :=
  match c with
  | '&' => "&amp;".toList
  | '\'' => "&#39;".toList
  | '<' => "&lt;".toList
  | '>' => "&gt;".toList
  | '"' => "&#34;".toList
  | '\r' => "&#13;".toList
  | _ => [c]

def escapeText (s : List Char) : List Char := s.flatMap textChar

def textOf (kind : TextKind) (source : List Char) : List Char :=
  let lines := unifyLines source
  let visible := lines.map fun c => if c = '\x00' then replacementChar else c
  match kind with
  | .plain => unescape .text lines
  | .escapable => unescape .text visible
  | .raw => visible

/-! ### Attributes -/

def linkSchemes : List (List Char) := ["mailto", "http", "https"].map String.toList

/-- An address that a link may have: without white space inside, well formed, and relative or with
one of a few schemes. -/
def cleanUrl? (value : List Char) : Option (List Char) :=
  let address := trim value
  if address.any fun c => c == ' ' || c == '\t' || c == '\n' then none
  else
    match Url.parse address with
    | .error _ => none
    | .ok u =>
      if !u.scheme.isEmpty then if linkSchemes.contains u.scheme then some u.text else none
      else if u.text.isEmpty then none
      else some u.text

def urlAttribute? (element : String) : Option String :=
  if element ∈ ["a", "area"] then some "href"
  else if element ∈ ["blockquote", "del", "ins", "q"] then some "cite"
  else if element = "img" then some "src"
  else none

def fits (rules : List AttributeRule) (a : Attribute) : Bool :=
  rules.any fun (key, form) => key.toList == a.key && form a.value

/-- An attribute whose address, if it holds one, is clean. -/
def cleanAddress? (element : String) (a : Attribute) : Option Attribute :=
  if (urlAttribute? element).map String.toList = some a.key then
    (cleanUrl? a.value).map fun value => { a with value }
  else some a

/-- The relation of a link that search engines are not to follow. -/
def noFollow : List Char := "nofollow".toList

/-- The attributes of a link with that relation among them. -/
def markLink (attributes : List Attribute) : List Attribute :=
  let rel := "rel".toList
  if attributes.any (·.key == rel) then
    attributes.map fun a =>
      if a.key == rel && !contains noFollow a.value then
        { a with value := a.value ++ ' ' :: noFollow }
      else a
  else attributes ++ [⟨rel, noFollow⟩]

def cleanAttributes (element : String) (rules : List AttributeRule) (attributes : List Attribute) :
    List Attribute :=
  let kept := (attributes.filter fun a => fits (rules ++ globalRules) a).filterMap
    (cleanAddress? element)
  if element ∈ ["a", "area"] && kept.any (·.key == "href".toList) then markLink kept else kept

/-! ### Elements -/

def startTagText (name : List Char) (attributes : List Attribute) (selfClosing : Bool) :
    List Char :=
  let attributeText (a : Attribute) := ' ' :: a.key ++ ['=', '"'] ++ escapeText a.value ++ ['"']
  '<' :: name ++ attributes.flatMap attributeText ++ if selfClosing then ['/', '>'] else ['>']

structure Cleaning where
  /-- Whether content is left out. -/
  hidden : Bool := false
  /-- How many elements whose content goes are open. -/
  covers : Int := 0
  /-- The elements whose start tag was left out for want of attributes, the last one first. -/
  dropped : List (List Char) := []
  /-- The element that was started last, unless it has ended. -/
  current : List Char := []

namespace Cleaning

/-- Text, unless it is left out. -/
def emit (c : Cleaning) (s : List Char) : List Char := if c.hidden then [] else s

def start (c : Cleaning) (name : List Char) (attributes : List Attribute) :
    Cleaning × List Char :=
  let element := String.ofList name
  let c := { c with current := name }
  if element ∈ codeElements then (c, [])
  else
    match attributeRules? element with
    | none =>
      if element ∈ hiddenElements then ({ c with hidden := true, covers := c.covers + 1 }, [])
      else (c, [])
    | some rules =>
      let kept := cleanAttributes element rules attributes
      if kept.isEmpty && element ∈ attributedElements then
        ({ c with dropped := name :: c.dropped }, [])
      else (c, c.emit (startTagText name kept false))

def startClosed (c : Cleaning) (name : List Char) (attributes : List Attribute) : List Char :=
  let element := String.ofList name
  match attributeRules? element with
  | none => []
  | some rules =>
    let kept := cleanAttributes element rules attributes
    if kept.isEmpty && element ∈ attributedElements then []
    else c.emit (startTagText name kept true)

def stop (c : Cleaning) (name : List Char) : Cleaning × List Char :=
  let element := String.ofList name
  let c := if c.current = name then { c with current := [] } else c
  if element ∈ codeElements then (c, [])
  else if c.dropped.head? = some name then ({ c with dropped := c.dropped.drop 1 }, [])
  else if (attributeRules? element).isNone then
    if element ∈ hiddenElements then
      ({ c with
          covers := c.covers - 1
          hidden := c.hidden && c.covers != 1 }, [])
    else (c, [])
  else (c, c.emit ('<' :: '/' :: name ++ ['>']))

def pass (c : Cleaning) : Token → Cleaning × List Char
  | .comment | .doctype => (c, [])
  | .startTag name attributes false => c.start name attributes
  | .startTag name attributes true => (c, c.startClosed name attributes)
  | .endTag name => c.stop name
  | .text kind source =>
    if String.ofList c.current ∈ codeElements then (c, [])
    else (c, c.emit (escapeText (textOf kind source)))

def passAll (c : Cleaning) : List Token → List Char
  | [] => []
  | t :: ts =>
    let (c, text) := c.pass t
    text ++ passAll c ts

end Cleaning

def sanitize (markup : List Char) : List Char :=
  Cleaning.passAll {} ((lexemes markup).map (·.token))

end Pagesmith.Html
