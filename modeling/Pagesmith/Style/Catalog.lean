import Pagesmith.Style.Body
import Pagesmith.Style.Rule

/-!
# Preset catalogs

A catalog holds named style presets, animations and themes.  It is written in the style language
itself; a later definition of a name replaces an earlier one and keeps its place.

* `Catalog.ofSource`: the catalog of a source.
* `Catalog.style?`, `Catalog.animation?`, `Catalog.theme?`: lookups by name.
* `expand`: the tree of a rule with the preset it refers to merged in.
-/

namespace Pagesmith.Style

open Pagesmith.Text

/-- The name that a preset reference means: quotes around it and a leading at-sign do not count. -/
def presetName (ref : String) : String :=
  String.ofList
    (dropLeading ['@'] (trimWhere (fun c => c == '"' || c == '\'') (trim ref.toList)))

/-- Named trees in the order of their first definition. -/
abbrev NamedTrees := List (String × Tree)

namespace NamedTrees

/-- Defines a name, in place of its earlier definition or at the end. -/
def define (ts : NamedTrees) (name : String) (t : Tree) : NamedTrees :=
  match ts with
  | [] => [(name, t)]
  | x :: xs => if x.1 == name then (name, t) :: xs else x :: define xs name t

def find? (ts : NamedTrees) (name : String) : Option Tree := List.lookup name ts

def names (ts : NamedTrees) : List String := ts.map Prod.fst

end NamedTrees

structure Catalog where
  styles : NamedTrees := []
  animations : NamedTrees := []
  themes : NamedTrees := []
  deriving Repr

namespace Catalog

def empty : Catalog := {}

def add (c : Catalog) (rule : Rule) : Catalog :=
  let tree := Tree.ofBody rule.body
  match rule.kind with
  | .style | .component => { c with styles := c.styles.define rule.name tree }
  | .animation => { c with animations := c.animations.define rule.name tree }
  | .theme => { c with themes := c.themes.define rule.name tree }
  | .other => c

def ofSource (source : String) : Catalog := (extractRules .matching source).foldl add {}

def style? (c : Catalog) (ref : String) : Option Tree := c.styles.find? (presetName ref)

def animation? (c : Catalog) (name : String) : Option Tree := c.animations.find? name

def theme? (c : Catalog) (name : String) : Option Tree := c.themes.find? name

end Catalog

/-- A style preset merged into the tree of a rule.  The preset's `base` block goes where the rule
has its bare declarations: into its own `base` block if there is one, else to the top level. -/
def mergePreset (t preset : Tree) : Tree :=
  let withBase :=
    match preset.child? "base" with
    | none => t
    | some base =>
      match t.child? "base" with
      | some own => t.put (.block "base" (own.merge base))
      | none => t.merge base
  withBase.merge (preset.filter fun e => !(e.key == "base" && e.isBlock))

/-- The tree of a rule body with the preset or theme it refers to merged in.  What the body defines
always stays. -/
def expand (c : Catalog) (kind : RuleKind) (body : String) : Tree :=
  let t := Tree.ofBody body
  match t.get? "preset" with
  | none => t
  | some ref =>
    match kind with
    | .style | .component =>
      match c.style? (presetName ref) with
      | some preset => mergePreset t preset
      | none => t
    | .theme =>
      match c.theme? (presetName ref) with
      | some theme => t.merge theme
      | none => t
    | .animation | .other => t

end Pagesmith.Style
