import Pagesmith.Html.Token
import Pagesmith.Text.Position
import Pagesmith.Text.Unicode.Case

/-!
# References in markup

What the start tags of a page refer to: the classes they list, and the structural markers that no
tag table replaced.

* `startTags`: the start tags with their byte offsets.
* `classRefs?`: the class names with their positions.
* `unknownMarkers?`: the markers that are left, with their positions.

A name is looked for in the text of its tag in lower case, which can have more bytes than the tag.
An offset found there may lie behind the tag or behind the markup, and then there are no references.
`classRefs` and `unknownMarkers` go on with the start of the tag or the end of the markup.
-/

namespace Pagesmith.Page

open Pagesmith.Text
open Pagesmith.Html (Attribute Lexeme Token lexemes)

/-- A start tag: where it starts, the text it is written as, and its attributes. -/
structure StartTag where
  offset : Nat
  raw : List Char
  attributes : List Attribute
  deriving DecidableEq, Repr

/-- The start tags among lexemes, the first of which stands at an offset. -/
def startTagsFrom (offset : Nat) : List Lexeme → List StartTag
  | [] => []
  | x :: xs =>
    let rest := startTagsFrom (offset + byteSize x.raw) xs
    match x.token with
    | .startTag _ attributes _ => ⟨offset, x.raw, attributes⟩ :: rest
    | _ => rest

def startTags (markup : List Char) : List StartTag := startTagsFrom 0 (lexemes markup)

structure Reference where
  name : List Char
  position : Position
  deriving DecidableEq, Repr

def StartTag.lowered (t : StartTag) : List Nat := encode (t.raw.map lowerChar)

/-- Whether a class name is known before the page is rendered. -/
def isFixedName (name : List Char) : Bool := !name.any fun c => c ∈ ['$', '\x7b', '\x7d']

/-- The byte offset of a class name that a tag lists: its first occurrence from the word `class`
on, or the start of the tag.  There is none if that word is found behind the tag. -/
def StartTag.classOffset? (t : StartTag) (name : List Char) : Option Nat :=
  match offsetOf? (encode "class".toList) t.lowered with
  | none => some t.offset
  | some i =>
    if (encode t.raw).length < i then none
    else
      match offsetOf? (encode name) ((encode t.raw).drop i) with
      | none => some t.offset
      | some k => some (t.offset + i + k)

def StartTag.classOffset (t : StartTag) (name : List Char) : Nat :=
  (t.classOffset? name).getD t.offset

/-- The fixed names that the class attributes of a tag list. -/
def StartTag.classNames (t : StartTag) : List (List Char) :=
  (t.attributes.filter (·.key == "class".toList)).flatMap fun a =>
    (fields a.value).filter isFixedName

/-- The class names that markup lists, with their positions. -/
def classRefs? (markup : List Char) : Option (List Reference) :=
  ((startTags markup).mapM fun (t : StartTag) => t.classNames.mapM fun name =>
    ((t.classOffset? name).bind (Position.at? markup)).map (Reference.mk name)).map List.flatten

def classRefs (markup : List Char) : List Reference :=
  (startTags markup).flatMap fun t =>
    t.classNames.map fun name => ⟨name, .atOffset markup (t.classOffset name)⟩

def StartTag.markers (t : StartTag) : List (List Char) :=
  (t.attributes.map (·.key)).filter (·.head? = some '@')

def StartTag.markerOffset (t : StartTag) (marker : List Char) : Nat :=
  t.offset + (offsetOf? (encode marker) t.lowered).getD 0

/-- The markers that are left in markup, with their positions.  A marker that a tag table knows is a
class attribute by now. -/
def unknownMarkers? (markup : List Char) : Option (List Reference) :=
  ((startTags markup).mapM fun (t : StartTag) => t.markers.mapM fun m =>
    (Position.at? markup (t.markerOffset m)).map (Reference.mk m)).map List.flatten

def unknownMarkers (markup : List Char) : List Reference :=
  (startTags markup).flatMap fun t =>
    t.markers.map fun m => ⟨m, .atOffset markup (t.markerOffset m)⟩

end Pagesmith.Page
