import Mathlib.Data.List.Nodup
import Mathlib.Logic.Function.Basic
import Mathlib.Tactic.Common
import Pagesmith.Style.Catalog

/-!
# The entries of a catalog

A catalog keeps three tables of named trees.  Each rule of its source defines one name in one of
them, and styles and components share a table.  A later definition replaces the tree but keeps the
place of the name, so a table lists the names in the order of their first definitions and holds the
trees of their last ones.

* `NamedTrees.names_define`, `NamedTrees.find?_define`: what one definition does to a table.
* `Registry`: a catalog as three maps from names to trees, each with its names in order beside it.
* `Catalog.ordered_add`, `Catalog.ordered_ofSource`: the maps and the names stay in step.
* `NamedTrees.Holds`, `Catalog.Holds`: the tables of some rules.
* `NamedTrees.Holds.define`, `Catalog.Holds.add`: one more rule.
* `holds_ofSource`: the tables of a source.
* `ofSource_last_definition`: the names and the look-ups of a catalog.
-/

namespace Pagesmith.Style

variable {rules : List Rule}

/-! ### Tables -/

namespace NamedTrees

theorem names_cons (x : String × Tree) (ts : NamedTrees) : names (x :: ts) = x.1 :: ts.names := rfl

theorem define_cons (first name : String) (u t : Tree) (ts : NamedTrees) :
    define ((first, u) :: ts) name t
      = if first = name then (name, t) :: ts else (first, u) :: ts.define name t := by
  rw [define]
  exact if_congr beq_iff_eq rfl rfl

theorem find?_cons (first name : String) (u : Tree) (ts : NamedTrees) :
    find? ((first, u) :: ts) name = if name = first then some u else ts.find? name := by
  rw [find?, List.lookup_cons]
  by_cases h : name = first
  · rw [beq_iff_eq.mpr h, if_pos h]
  · rw [beq_false_of_ne h, if_neg h, find?]

theorem names_define (ts : NamedTrees) (name : String) (t : Tree) :
    (ts.define name t).names = if name ∈ ts.names then ts.names else ts.names ++ [name] := by
  induction ts with
  | nil => rfl
  | cons x ts ih =>
    obtain ⟨first, u⟩ := x
    rw [define_cons]
    by_cases hname : first = name
    · rw [if_pos hname, names_cons, names_cons, hname, if_pos List.mem_cons_self]
    · rw [if_neg hname, names_cons, names_cons, ih]
      by_cases hmem : name ∈ names ts
      · rw [if_pos hmem, if_pos (List.mem_cons_of_mem first hmem)]
      · rw [if_neg hmem, if_neg (List.not_mem_cons_of_ne_of_not_mem (Ne.symm hname) hmem)]
        rfl

theorem find?_define (ts : NamedTrees) (name other : String) (t : Tree) :
    (ts.define name t).find? other = if other = name then some t else ts.find? other := by
  induction ts with
  | nil => rw [define, find?_cons]
  | cons x ts ih =>
    obtain ⟨first, u⟩ := x
    rw [define_cons, find?_cons]
    by_cases hname : first = name
    · subst hname
      rw [if_pos rfl, find?_cons]
      split <;> rfl
    · rw [if_neg hname, find?_cons, ih]
      by_cases hother : other = first
      · rw [if_pos hother, if_pos hother, if_neg fun h => hname (hother.symm.trans h)]
      · rw [if_neg hother, if_neg hother]

theorem isSome_find?_iff (ts : NamedTrees) (name : String) :
    (ts.find? name).isSome ↔ name ∈ ts.names := by
  rw [find?, List.lookup_isSome_iff, names, List.mem_map]
  constructor
  · rintro ⟨p, hp, hname⟩
    exact ⟨p, hp, (eq_of_beq hname).symm⟩
  · rintro ⟨p, hp, rfl⟩
    exact ⟨p, hp, beq_self_eq_true _⟩

end NamedTrees

/-! ### Maps with an order -/

/-- A map from names to trees, and the order in which the names came in. -/
structure OrderedTrees where
  byName : String → Option Tree := fun _ => none
  order : List String := []

def OrderedTrees.add (n : OrderedTrees) (name : String) (t : Tree) : OrderedTrees where
  byName := Function.update n.byName name (some t)
  order := if (n.byName name).isSome then n.order else n.order ++ [name]

structure Registry where
  styles : OrderedTrees := {}
  animations : OrderedTrees := {}
  themes : OrderedTrees := {}

def Registry.add (r : Registry) (rule : Rule) : Registry :=
  let tree := Tree.ofBody rule.body
  match rule.kind with
  | .style | .component => { r with styles := r.styles.add rule.name tree }
  | .animation => { r with animations := r.animations.add rule.name tree }
  | .theme => { r with themes := r.themes.add rule.name tree }
  | .other => r

def NamedTrees.ordered (ts : NamedTrees) : OrderedTrees := ⟨ts.find?, ts.names⟩

def Catalog.ordered (c : Catalog) : Registry :=
  ⟨c.styles.ordered, c.animations.ordered, c.themes.ordered⟩

/-- A definition keeps the map and the names in step. -/
theorem NamedTrees.ordered_define (ts : NamedTrees) (name : String) (t : Tree) :
    (ts.define name t).ordered = ts.ordered.add name t := by
  refine congrArg₂ OrderedTrees.mk (funext fun other => ?_) ?_
  · rw [find?_define, Function.update_apply]
    rfl
  · rw [names_define]
    exact if_congr (ts.isSome_find?_iff name).symm rfl rfl

theorem Catalog.ordered_add (c : Catalog) (rule : Rule) :
    (c.add rule).ordered = c.ordered.add rule := by
  obtain ⟨kind, name, body⟩ := rule
  cases kind with
  | style | component | animation | theme =>
    simp only [add, Registry.add, ordered, NamedTrees.ordered_define]
  | other => rfl

/-- **Tables are maps with an order.**  The catalog of a source reads as the maps that the rules of
the source are put into one after the other. -/
theorem Catalog.ordered_ofSource (source : String) :
    (Catalog.ofSource source).ordered = (extractRules .matching source).foldl Registry.add {} := by
  have hrun : ∀ (rules : List Rule) (c : Catalog),
      (rules.foldl add c).ordered = rules.foldl Registry.add c.ordered := by
    intro rules
    induction rules with
    | nil => exact fun c => rfl
    | cons rule rules ih =>
      intro c
      rw [List.foldl_cons, List.foldl_cons, ih, ordered_add]
  exact hrun _ {}

/-! ### Tables of rules -/

def lastRule? (rules : List Rule) (name : String) : Option Rule :=
  rules.reverse.find? fun rule => rule.name == name

theorem lastRule?_concat (rules : List Rule) (rule : Rule) (name : String) :
    lastRule? (rules ++ [rule]) name
      = if name = rule.name then some rule else lastRule? rules name := by
  rw [lastRule?, List.reverse_append, List.reverse_singleton, List.singleton_append,
    List.find?_cons, lastRule?]
  by_cases h : name = rule.name
  · subst h
    simp
  · rw [if_neg h, beq_false_of_ne (Ne.symm h)]

theorem eraseDups_concat (names : List String) (name : String) :
    (names ++ [name]).eraseDups
      = if name ∈ names then names.eraseDups else names.eraseDups ++ [name] := by
  rw [List.eraseDups_append]
  by_cases h : name ∈ names
  · have hnone : [name].removeAll names = [] := by simp [List.removeAll, h]
    rw [hnone, if_pos h, List.eraseDups_nil, List.append_nil]
  · have hone : [name].removeAll names = [name] := by simp [List.removeAll, h]
    rw [hone, if_neg h]
    rfl

/-- The table of some rules: the names in the order of their first rules, with the trees of their
last ones. -/
structure NamedTrees.Holds (ts : NamedTrees) (rules : List Rule) : Prop where
  nodup : ts.names.Nodup
  names_eq : ts.names = (rules.map Rule.name).eraseDups
  find?_eq : ∀ name, ts.find? name = (lastRule? rules name).map fun rule => Tree.ofBody rule.body

theorem NamedTrees.Holds.nil : NamedTrees.Holds [] [] := ⟨List.nodup_nil, rfl, fun _ => rfl⟩

theorem NamedTrees.Holds.define {ts : NamedTrees} (h : ts.Holds rules) (rule : Rule) :
    (ts.define rule.name (Tree.ofBody rule.body)).Holds (rules ++ [rule]) := by
  have hmem : rule.name ∈ ts.names ↔ rule.name ∈ rules.map Rule.name := by
    rw [h.names_eq, List.mem_eraseDups]
  refine ⟨?_, ?_, fun name => ?_⟩
  · rw [names_define]
    split
    · exact h.nodup
    · next hnew =>
      exact List.nodup_append'.mpr
        ⟨h.nodup, List.nodup_singleton _, List.disjoint_singleton.mpr hnew⟩
  · rw [names_define, List.map_append, List.map_singleton, eraseDups_concat, ← h.names_eq]
    exact if_congr hmem rfl rfl
  · rw [find?_define, lastRule?_concat, h.find?_eq]
    split <;> rfl

/-! ### Catalogs -/

def RuleKind.isPreset : RuleKind → Bool
  | .style | .component => true
  | _ => false

def presetRulesOf (rules : List Rule) : List Rule := rules.filter fun rule => rule.kind.isPreset

def rulesOfKind (kind : RuleKind) (rules : List Rule) : List Rule :=
  rules.filter fun rule => rule.kind == kind

structure Catalog.Holds (c : Catalog) (rules : List Rule) : Prop where
  styles : c.styles.Holds (presetRulesOf rules)
  animations : c.animations.Holds (rulesOfKind .animation rules)
  themes : c.themes.Holds (rulesOfKind .theme rules)

/-- One more rule goes into one table and leaves the others as they are. -/
theorem Catalog.Holds.add {c : Catalog} (h : c.Holds rules) (rule : Rule) :
    (c.add rule).Holds (rules ++ [rule]) := by
  -- a rule that a table is not for does not count for it
  have hskip : ∀ {ts : NamedTrees} {p : Rule → Bool}, p rule = false → ts.Holds (rules.filter p) →
      ts.Holds ((rules ++ [rule]).filter p) := by
    intro ts p hp hts
    rwa [List.filter_append, List.filter_singleton, hp, cond_false, List.append_nil]
  have hadd : ∀ {ts : NamedTrees} {p : Rule → Bool}, p rule = true → ts.Holds (rules.filter p) →
      (ts.define rule.name (Tree.ofBody rule.body)).Holds ((rules ++ [rule]).filter p) := by
    intro ts p hp hts
    rw [List.filter_append, List.filter_singleton, hp, cond_true]
    exact hts.define rule
  obtain ⟨hstyles, hanimations, hthemes⟩ := h
  obtain ⟨kind, name, body⟩ := rule
  cases kind with
  | style | component => exact ⟨hadd rfl hstyles, hskip rfl hanimations, hskip rfl hthemes⟩
  | animation => exact ⟨hskip rfl hstyles, hadd rfl hanimations, hskip rfl hthemes⟩
  | theme => exact ⟨hskip rfl hstyles, hskip rfl hanimations, hadd rfl hthemes⟩
  | other => exact ⟨hskip rfl hstyles, hskip rfl hanimations, hskip rfl hthemes⟩

/-- **The catalog of a source holds the rules of it.** -/
theorem holds_ofSource (source : String) :
    (Catalog.ofSource source).Holds (extractRules .matching source) := by
  have hrun : ∀ (rules done : List Rule) (c : Catalog), c.Holds done →
      (rules.foldl Catalog.add c).Holds (done ++ rules) := by
    intro rules
    induction rules with
    | nil =>
      intro done c h
      rwa [List.append_nil]
    | cons rule rules ih =>
      intro done c h
      have := ih (done ++ [rule]) (c.add rule) (h.add rule)
      rwa [List.append_assoc] at this
  exact hrun _ [] {} ⟨.nil, .nil, .nil⟩

/-- A look-up by references among some rules, where `key` is the name that a reference means: the
names are listed once each in the order of their first rules, a reference is found exactly if its
name is listed, and it then gives the tree of the last rule of that name. -/
structure LastDefinition (rules : List Rule) (key : String → String) (names : List String)
    (look : String → Option Tree) : Prop where
  nodup : names.Nodup
  names_eq : names = (rules.map Rule.name).eraseDups
  isSome_iff : ∀ ref, (look ref).isSome ↔ key ref ∈ names
  look_eq : ∀ ref, look ref = (lastRule? rules (key ref)).map fun rule => Tree.ofBody rule.body

theorem NamedTrees.Holds.lastDefinition {ts : NamedTrees} (h : ts.Holds rules)
    (key : String → String) : LastDefinition rules key ts.names fun ref => ts.find? (key ref) :=
  ⟨h.nodup, h.names_eq, fun ref => ts.isSome_find?_iff (key ref), fun ref => h.find?_eq (key ref)⟩

/-- **The last definition of a name counts, and the first one gives its place.**  Styles and
components are looked up together, by the name that a reference means; animations and themes are
looked up by their names. -/
theorem ofSource_last_definition (source : String) :
    let rules := extractRules .matching source
    let c := Catalog.ofSource source
    LastDefinition (presetRulesOf rules) presetName c.styles.names c.style? ∧
      LastDefinition (rulesOfKind .animation rules) id c.animations.names c.animation? ∧
      LastDefinition (rulesOfKind .theme rules) id c.themes.names c.theme? := by
  have h := holds_ofSource source
  exact ⟨h.styles.lastDefinition presetName, h.animations.lastDefinition id,
    h.themes.lastDefinition id⟩

end Pagesmith.Style
