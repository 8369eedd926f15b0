import Pagesmith.Proofs.Emission.Invariant

/-!
# Where declarations are emitted

Emission splices the first block of a `base` entry into the declarations around it, and puts the
own declarations of a selector before its nested blocks whatever their order in the tree.  The
sites of a tree are read off the tree directly, without any of that: each entry that is written as
declarations, with the selector it is written under and the media groups around it.

* `Written`: an entry that is written as declarations.
* `sites`: the entries of a tree that are written, each with its place.
* `placedAll`: the declarations of blocks, each with its place.
* `placed_walk`: the blocks of a tree hold the declarations of its sites, each as often as it
  occurs there, and no block is empty.
-/

namespace Pagesmith.Style

/-! ### Sites -/

inductive Written where
  | literal (key value : String)
  | animation (entries : Tree)
  | colors (entries : Tree)

def Written.declarations : Written → List Declaration
  | .literal k v => convert k v
  | .animation es => convertAnimation es
  | .colors es => convertColors es

/-- An entry that is written, with the heads of the groups around it, from the outside in, and the
selector that it is written under. -/
structure Site where
  groups : List String
  selector : String
  written : Written

mutual

def Entry.sites (groups : List String) (selector : String) : Entry → List Site
  | .literal k v => if k = "preset" then [] else [⟨groups, selector, .literal k v⟩]
  | .block k es =>
    match Role.ofKey k with
    | .animation => [⟨groups, selector, .animation es⟩]
    | .colors => [⟨groups, selector, .colors es⟩]
    | .base => sites groups selector es
    | .variants mark => variantSites groups selector mark es
    | .responsive => responsiveSites groups selector es
    | .nested => sites groups (nestSelector selector k) es

def sites (groups : List String) (selector : String) : List Entry → List Site
  | [] => []
  | e :: es => e.sites groups selector ++ sites groups selector es

def variantSites (groups : List String) (selector mark : String) : List Entry → List Site
  | [] => []
  | .literal _ _ :: rest => variantSites groups selector mark rest
  | .block k es :: rest =>
    sites groups (nestSelector selector (mark ++ k)) es ++ variantSites groups selector mark rest

def responsiveSites (groups : List String) (selector : String) : List Entry → List Site
  | [] => []
  | .literal _ _ :: rest => responsiveSites groups selector rest
  | .block k es :: rest =>
    match mediaQuery? k with
    | none => responsiveSites groups selector rest
    | some query =>
      sites (groups ++ ["@media " ++ query]) selector es ++ responsiveSites groups selector rest

end

/-! ### Placed declarations -/

structure Placed where
  groups : List String
  selector : String
  declaration : Declaration
  deriving DecidableEq, Repr

mutual

def Block.placed (groups : List String) : Block → List Placed
  | .rule selector ds => ds.map (Placed.mk groups selector)
  | .group head children => placedAll (groups ++ [head]) children

def placedAll (groups : List String) : List Block → List Placed
  | [] => []
  | b :: bs => b.placed groups ++ placedAll groups bs

end

def Site.placed (x : Site) : List Placed :=
  x.written.declarations.map (Placed.mk x.groups x.selector)

variable (groups : List String) (selector : String)

@[simp] theorem placedAll_nil : placedAll groups [] = [] := by rw [placedAll]

theorem placedAll_cons (b : Block) (bs : List Block) :
    placedAll groups (b :: bs) = b.placed groups ++ placedAll groups bs := by rw [placedAll]

theorem placedAll_append (bs cs : List Block) :
    placedAll groups (bs ++ cs) = placedAll groups bs ++ placedAll groups cs := by
  induction bs with
  | nil => rw [placedAll_nil]; rfl
  | cons b bs ih =>
    rw [List.cons_append, placedAll_cons, placedAll_cons, ih, List.append_assoc]

namespace Emitted

def placed (e : Emitted) : List Placed :=
  e.own.map (Placed.mk groups selector) ++ placedAll groups e.nested

theorem placedAll_blocks (e : Emitted) :
    placedAll groups (e.blocks selector) = e.placed groups selector := by
  rw [blocks, placed]
  cases e.own with
  | nil => rfl
  | cons d ds => rw [placedAll_cons, Block.placed]

/-- Splicing the first block into the enclosing selector moves no declaration: it is done only
where that block has this very selector. -/
theorem placed_ofBlocks (bs : List Block) :
    (ofBlocks selector bs).placed groups selector = placedAll groups bs := by
  cases bs with
  | nil => rfl
  | cons b rest =>
    cases b with
    | group head children => rfl
    | rule s own =>
      rw [ofBlocks]
      split
      · next h => rw [h, placed, placedAll_cons, Block.placed]
      · rfl

/-- Own declarations move before nested blocks, so the order may change. -/
theorem placed_append (a b : Emitted) :
    ((a.append b).placed groups selector).Perm
      (a.placed groups selector ++ b.placed groups selector) := by
  simp only [placed, append, List.map_append, placedAll_append, List.append_assoc]
  refine List.Perm.append_left _ ?_
  rw [← List.append_assoc, ← List.append_assoc]
  exact List.Perm.append_right _ List.perm_append_comm

end Emitted

/-! ### Nothing is lost or doubled -/

theorem placed_responsiveBlocks_cons (k : String) (ds es : Tree) :
    placedAll groups (responsiveBlocks selector (.block k ds :: es)) =
      match mediaQuery? k with
      | none => placedAll groups (responsiveBlocks selector es)
      | some query => placedAll (groups ++ ["@media " ++ query]) (walk selector ds)
          ++ placedAll groups (responsiveBlocks selector es) := by
  rw [responsiveBlocks]
  cases mediaQuery? k with
  | none => rfl
  | some query =>
    -- a group without blocks is left out, and holds no declarations
    simp only [walk]
    cases (emitAll selector ds).blocks selector with
    | nil => rw [placedAll_nil]; rfl
    | cons b bs => rw [placedAll_cons, Block.placed]

/-- The declarations of an entry, from those of the entries inside it as a tree, as variants and as
breakpoints. -/
theorem placed_emit_block (k : String) {es : Tree}
    (hall : ∀ selector, ((emitAll selector es).placed groups selector).Perm
      ((sites groups selector es).flatMap Site.placed))
    (hvar : ∀ mark, (placedAll groups (variantBlocks selector mark es)).Perm
      ((variantSites groups selector mark es).flatMap Site.placed))
    (hresp : (placedAll groups (responsiveBlocks selector es)).Perm
      ((responsiveSites groups selector es).flatMap Site.placed)) :
    ((Entry.emit selector (.block k es)).placed groups selector).Perm
      ((Entry.sites groups selector (.block k es)).flatMap Site.placed) := by
  rw [emit_block, Entry.sites]
  cases Role.ofKey k with
  | animation =>
    rw [List.flatMap_singleton, Emitted.placed, placedAll_nil, List.append_nil, Site.placed,
      Written.declarations]
  | colors =>
    rw [List.flatMap_singleton, Emitted.placed, placedAll_nil, List.append_nil, Site.placed,
      Written.declarations]
  | base =>
    simp only
    rw [Emitted.placed_ofBlocks, Emitted.placedAll_blocks]
    exact hall selector
  | variants mark => exact hvar mark
  | responsive => exact hresp
  | nested =>
    simp only [Emitted.placed, List.map_nil, List.nil_append, walk]
    rw [Emitted.placedAll_blocks]
    exact hall (nestSelector selector k)

/-- Emission in a tree, in the variants of a selector and in its breakpoints. -/
theorem placed_emitAll (t : Tree) :
    (∀ groups selector, ((emitAll selector t).placed groups selector).Perm
      ((sites groups selector t).flatMap Site.placed)) ∧
    (∀ groups selector mark, (placedAll groups (variantBlocks selector mark t)).Perm
      ((variantSites groups selector mark t).flatMap Site.placed)) ∧
    ∀ groups selector, (placedAll groups (responsiveBlocks selector t)).Perm
      ((responsiveSites groups selector t).flatMap Site.placed) := by
  induction t using Tree.ind with
  | nil =>
    refine ⟨fun groups selector => ?_, fun groups selector mark => ?_, fun groups selector => ?_⟩
    · rw [emitAll_nil, sites]; exact List.Perm.refl _
    · rw [variantBlocks, variantSites, placedAll_nil]; exact List.Perm.refl _
    · rw [responsiveBlocks, responsiveSites, placedAll_nil]; exact List.Perm.refl _
  | literal k v es ih =>
    obtain ⟨ihall, ihvar, ihresp⟩ := ih
    refine ⟨fun groups selector => ?_, fun groups selector mark => ?_, fun groups selector => ?_⟩
    · rw [emitAll_cons, sites, List.flatMap_append]
      refine (Emitted.placed_append _ _ _ _).trans (List.Perm.append ?_ (ihall groups selector))
      by_cases hk : k = "preset"
      · rw [hk, emit_preset, Entry.sites, if_pos rfl]
        exact List.Perm.refl _
      · rw [emit_literal hk, Entry.sites, if_neg hk, List.flatMap_singleton, Emitted.placed,
          placedAll_nil, List.append_nil, Site.placed, Written.declarations]
    · rw [variantBlocks, variantSites]
      exact ihvar groups selector mark
    · rw [responsiveBlocks, responsiveSites]
      exact ihresp groups selector
  | block k ds es ihd ih =>
    obtain ⟨ihall, ihvar, ihresp⟩ := ih
    obtain ⟨hall, hvar, hresp⟩ := ihd
    refine ⟨fun groups selector => ?_, fun groups selector mark => ?_, fun groups selector => ?_⟩
    · rw [emitAll_cons, sites, List.flatMap_append]
      exact (Emitted.placed_append _ _ _ _).trans (List.Perm.append
        (placed_emit_block groups selector k (hall groups) (hvar groups selector)
          (hresp groups selector)) (ihall groups selector))
    · rw [variantBlocks, variantSites, placedAll_append, List.flatMap_append,
        Emitted.placedAll_blocks]
      exact List.Perm.append (hall groups _) (ihvar groups selector mark)
    · rw [placed_responsiveBlocks_cons, responsiveSites]
      cases mediaQuery? k with
      | none => exact ihresp groups selector
      | some query =>
        simp only
        rw [List.flatMap_append, walk, Emitted.placedAll_blocks]
        exact List.Perm.append (hall _ selector) (ihresp groups selector)

/-- **Emission neither loses nor doubles a declaration,** and emits no empty block: what the blocks
of a tree hold, each declaration with its place, is what the sites of the tree hold. -/
theorem placed_walk (selector : String) (t : Tree) :
    (placedAll [] (walk selector t)).Perm ((sites [] selector t).flatMap Site.placed) ∧
      ∀ b ∈ walk selector t, b.Filled := by
  refine ⟨?_, filled_walk selector t⟩
  rw [walk, Emitted.placedAll_blocks]
  exact (placed_emitAll t).1 [] selector

end Pagesmith.Style
