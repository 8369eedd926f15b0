import Pagesmith.Style.Block
import Pagesmith.Style.Catalog

/-!
# Stylesheets

Style sources compile to one stylesheet: for each source its styles, components, themes and
animations in that order, and at the end the catalog animations that the output mentions and no
source defines.

* `ParsedRule`: a rule with its expanded tree.
* `sheetBlocks`, `compile`: the stylesheet of a list of sources.
* `presetBlocks`, `compilePresets`: the catalog's own presets as classes.
-/

namespace Pagesmith.Style

structure ParsedRule where
  kind : RuleKind
  name : String
  tree : Tree
  deriving Repr

def ParsedRule.blocks (r : ParsedRule) : List Block := ruleBlocks r.kind r.name r.tree

def ParsedRule.refs (r : ParsedRule) : List String := ruleRefs r.kind r.tree

def parsedRules (c : Catalog) (extent : Extent) (source : String) : List ParsedRule :=
  (extractRules extent source).map fun r => ⟨r.kind, r.name, expand c r.kind r.body⟩

/-- The kinds in the order in which a source emits them. -/
def emissionOrder : List RuleKind := [.style, .component, .theme, .animation]

def sourceBlocks (rules : List ParsedRule) : List Block :=
  emissionOrder.flatMap fun kind =>
    (rules.filter fun r => r.kind = kind).flatMap ParsedRule.blocks

def firstOccurrences (names : List String) : List String :=
  names.foldl (fun seen n => if seen.contains n then seen else seen ++ [n]) []

/-- The catalog animations among the names mentioned, in order of first mention, without those
already defined. -/
def referencedKeyframes (c : Catalog) (mentioned defined : List String) : List Block :=
  (firstOccurrences mentioned).filterMap fun name =>
    if defined.contains name then none else (c.animation? name).map (keyframesBlock name)

def sheetBlocks (c : Catalog) (extent : Extent) (sources : List String) : List Block :=
  let rules := sources.map (parsedRules c extent)
  let defined := (rules.flatten.filter fun r => r.kind = .animation).map ParsedRule.name
  rules.flatMap sourceBlocks
    ++ referencedKeyframes c (rules.flatten.flatMap ParsedRule.refs) defined

def compile (c : Catalog) (extent : Extent) (sources : List String) : String :=
  render (sheetBlocks c extent sources)

/-- The named presets of a catalog as classes, with the animations they mention. -/
def presetBlocks (c : Catalog) (names : List String) : List Block :=
  let rules := names.filterMap fun name =>
    (c.style? name).map fun t => ParsedRule.mk .component name t
  rules.flatMap ParsedRule.blocks ++ referencedKeyframes c (rules.flatMap ParsedRule.refs) []

def compilePresets (c : Catalog) (names : List String) : String := render (presetBlocks c names)

def compileAllPresets (c : Catalog) : String := compilePresets c c.styles.names

end Pagesmith.Style
