import Pagesmith.Style.Declaration
import Pagesmith.Style.Selector
import Pagesmith.Style.Rule

/-!
# Blocks of CSS

A property tree becomes a list of CSS blocks: the declarations of its own selector first, then the
blocks of its nested selectors, both in tree order.

* `Entry.emit`, `emitAll`: what entries contribute below a selector.
* `walk`: the blocks of a tree; `ruleBlocks`: those of a rule of any kind.
* `animationRefs`: the names that the emitted `animation` declarations mention.
* `render`: the text of a list of blocks.
-/

namespace Pagesmith.Style

/-- A block: declarations under a selector, or blocks grouped under an at-rule. -/
inductive Block where
  | rule (selector : String) (declarations : List Declaration)
  | group (head : String) (children : List Block)
  deriving Repr

/-- What entries contribute: declarations of the enclosing selector, and nested blocks. -/
structure Emitted where
  own : List Declaration
  nested : List Block

namespace Emitted

def none : Emitted := ⟨[], []⟩

def append (a b : Emitted) : Emitted := ⟨a.own ++ b.own, a.nested ++ b.nested⟩

def blocks (selector : String) (e : Emitted) : List Block :=
  match e.own with
  | [] => e.nested
  | own => .rule selector own :: e.nested

/-- Blocks emitted for the enclosing selector itself: if the first is that selector's rule, its
declarations join the enclosing ones. -/
def ofBlocks (selector : String) : List Block → Emitted
  | .rule s own :: rest => if s = selector then ⟨own, rest⟩ else ⟨[], .rule s own :: rest⟩
  | blocks => ⟨[], blocks⟩

end Emitted

mutual

def Entry.emit (selector : String) : Entry → Emitted
  | .literal k v => if k = "preset" then .none else ⟨convert k v, []⟩
  | .block k es =>
    if k = "animation" then ⟨convertAnimation es, []⟩
    else if k = "colors" then ⟨convertColors es, []⟩
    else if k = "base" then .ofBlocks selector ((emitAll selector es).blocks selector)
    else if k = "states" then ⟨[], variantBlocks selector "&:" es⟩
    else if k = "sizes" then ⟨[], variantBlocks selector "&--" es⟩
    else if k = "responsive" then ⟨[], responsiveBlocks selector es⟩
    else
      let inner := nestSelector selector k
      ⟨[], (emitAll inner es).blocks inner⟩

def emitAll (selector : String) : List Entry → Emitted
  | [] => .none
  | e :: es => (e.emit selector).append (emitAll selector es)

/-- The blocks of the variants of a selector, each named by its key after a mark. -/
def variantBlocks (selector mark : String) : List Entry → List Block
  | [] => []
  | .literal _ _ :: rest => variantBlocks selector mark rest
  | .block k es :: rest =>
    let inner := nestSelector selector (mark ++ k)
    (emitAll inner es).blocks inner ++ variantBlocks selector mark rest

/-- The media groups of a selector; a group that would be empty is left out. -/
def responsiveBlocks (selector : String) : List Entry → List Block
  | [] => []
  | .literal _ _ :: rest => responsiveBlocks selector rest
  | .block k es :: rest =>
    match mediaQuery? k with
    | Option.none => responsiveBlocks selector rest
    | some query =>
      match (emitAll selector es).blocks selector with
      | [] => responsiveBlocks selector rest
      | inner => .group ("@media " ++ query) inner :: responsiveBlocks selector rest

end

def walk (selector : String) (t : Tree) : List Block := (emitAll selector t).blocks selector

def themeProperties (lead : String) (t : Tree) : List Declaration :=
  t.filterMap fun
    | .literal k v => some ⟨lead ++ k, v⟩
    | .block _ _ => none

/-- The block of a theme: its colors and shadows as custom properties of the document. -/
def themeBlock (t : Tree) : Block :=
  .rule ":root"
    (themeProperties "--color-" (t.childD "colors")
      ++ themeProperties "--shadow-" (t.childD "shadows"))

def frameBlock? : Entry → Option Block
  | .literal _ _ => none
  | .block k es =>
    some (.rule k (es.filterMap fun
      | .literal p v => some ⟨p, v⟩
      | .block _ _ => none))

def keyframesBlock (name : String) (t : Tree) : Block :=
  .group ("@keyframes " ++ name) (t.filterMap frameBlock?)

def ruleBlocks (kind : RuleKind) (name : String) (t : Tree) : List Block :=
  match kind with
  | .theme => [themeBlock t]
  | .animation => [keyframesBlock name t]
  | _ => walk (ruleSelector name) t

/-! ### Animations that a tree mentions -/

mutual

/-- The names that the animation declarations of an entry mention, in tree order. -/
def Entry.animationRefs : Entry → List String
  | .literal k v =>
    if k = "animation" then (Text.fields v.toList).map String.ofList else []
  | .block k es =>
    if k = "animation" then (Tree.get? es "type").toList
    else if k = "colors" then []
    else if k = "states" then variantRefs es
    else if k = "sizes" then variantRefs es
    else if k = "responsive" then responsiveRefs es
    else animationRefs es

/-- The names that the animation declarations of a tree mention. -/
def animationRefs : List Entry → List String
  | [] => []
  | e :: es => e.animationRefs ++ animationRefs es

/-- The names mentioned in the blocks of a tree, whatever their keys. -/
def variantRefs : List Entry → List String
  | [] => []
  | .literal _ _ :: rest => variantRefs rest
  | .block _ es :: rest => animationRefs es ++ variantRefs rest

def responsiveRefs : List Entry → List String
  | [] => []
  | .literal _ _ :: rest => responsiveRefs rest
  | .block k es :: rest =>
    if (mediaQuery? k).isSome then animationRefs es ++ responsiveRefs rest
    else responsiveRefs rest

end

/-- The animations that a rule mentions: only styles and components have animation declarations. -/
def ruleRefs (kind : RuleKind) (t : Tree) : List String :=
  match kind with
  | .theme | .animation => []
  | _ => animationRefs t

/-! ### Text -/

mutual

def Block.text (indent : String) : Block → String
  | .rule selector declarations =>
    indent ++ selector ++ " \x7b\n"
      ++ String.join (declarations.map fun d => indent ++ "  " ++ d.text ++ "\n")
      ++ indent ++ "\x7d\n"
  | .group head children =>
    indent ++ head ++ " \x7b\n" ++ blocksText (indent ++ "  ") children ++ indent ++ "\x7d\n"

def blocksText (indent : String) : List Block → String
  | [] => ""
  | b :: bs => b.text indent ++ blocksText indent bs

end

/-- The text of a stylesheet: its blocks with an empty line between them. -/
def render (blocks : List Block) : String := "\n".intercalate (blocks.map (Block.text ""))

end Pagesmith.Style
