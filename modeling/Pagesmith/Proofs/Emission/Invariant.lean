import Pagesmith.Proofs.Emission.Basic

/-!
# What emission keeps

What an entry contributes depends on the role of its key.  A property of entries that passes to the
entries inside a block, and that makes the selectors, declarations and media queries of the entry
good ones, makes all blocks of a tree good ones.

* `Role`: what the key of a block makes of it.
* `emit_block`: what a block contributes, by its role.
* `EmissionInvariant.walk`: the blocks of a tree of good entries are built of good parts.
* `filled_walk`: no block of a tree is empty.
-/

namespace Pagesmith.Style

variable {k selector : String}

/-! ### Blocks by their key -/

inductive Role where
  /-- The block is written as declarations of an animation. -/
  | animation
  /-- The block is written as declarations of colors. -/
  | colors
  /-- The entries belong to the selector around the block. -/
  | base
  /-- The blocks inside are variants of the selector, named after a mark. -/
  | variants (mark : String)
  /-- The blocks inside belong to media groups. -/
  | responsive
  /-- The key is a nested selector. -/
  | nested
  deriving DecidableEq, Repr

def Role.ofKey (k : String) : Role :=
  if k = "animation" then .animation
  else if k = "colors" then .colors
  else if k = "base" then .base
  else if k = "states" then .variants "&:"
  else if k = "sizes" then .variants "&--"
  else if k = "responsive" then .responsive
  else .nested

theorem Role.mark_of_ofKey {mark : String} (h : Role.ofKey k = .variants mark) :
    mark ∈ ["&:", "&--"] := by
  rw [ofKey] at h
  split_ifs at h
  all_goals
    rw [← Role.variants.inj h]
    decide

theorem emit_literal (hk : k ≠ "preset") (selector v : String) :
    Entry.emit selector (.literal k v) = ⟨convert k v, []⟩ := by
  rw [Entry.emit, if_neg hk]

theorem emit_block (selector k : String) (es : Tree) :
    Entry.emit selector (.block k es) =
      match Role.ofKey k with
      | .animation => ⟨convertAnimation es, []⟩
      | .colors => ⟨convertColors es, []⟩
      | .base => .ofBlocks selector ((emitAll selector es).blocks selector)
      | .variants mark => ⟨[], variantBlocks selector mark es⟩
      | .responsive => ⟨[], responsiveBlocks selector es⟩
      | .nested => ⟨[], walk (nestSelector selector k) es⟩ := by
  rw [Entry.emit, Role.ofKey]
  split_ifs <;> rfl

/-! ### Blocks built of good parts -/

inductive Block.Built (S : String → Prop) (D : Declaration → Prop) (Q : String → Prop) :
    Block → Prop where
  | rule {selector : String} {ds : List Declaration} (hs : S selector) (hne : ds ≠ [])
      (hd : ∀ d ∈ ds, D d) : Built S D Q (.rule selector ds)
  | media {query : String} {children : List Block} (hq : Q query) (hne : children ≠ [])
      (hall : ∀ b ∈ children, Built S D Q b) : Built S D Q (.group ("@media " ++ query) children)

/-- Good entries have good entries inside them and give good selectors, declarations and media
queries. -/
structure EmissionInvariant (P : Entry → Prop) (S : String → Prop) (D : Declaration → Prop)
    (Q : String → Prop) : Prop where
  inside {k : String} {es : Tree} : P (.block k es) → ∀ e ∈ es, P e
  literal {k v : String} : P (.literal k v) → ∀ d ∈ convert k v, D d
  animation {k : String} {es : Tree} : P (.block k es) → ∀ d ∈ convertAnimation es, D d
  colors {k : String} {es : Tree} : P (.block k es) → ∀ d ∈ convertColors es, D d
  variant {selector mark k : String} {es : Tree} :
    S selector → mark ∈ ["&:", "&--"] → P (.block k es) → S (nestSelector selector (mark ++ k))
  nested {selector k : String} {es : Tree} :
    S selector → P (.block k es) → S (nestSelector selector k)
  query {k query : String} {es : Tree} :
    P (.block k es) → mediaQuery? k = some query → Q query

variable {P : Entry → Prop} {S : String → Prop} {D : Declaration → Prop} {Q : String → Prop}

def Emitted.Good (S : String → Prop) (D : Declaration → Prop) (Q : String → Prop) (e : Emitted) :
    Prop :=
  (∀ d ∈ e.own, D d) ∧ ∀ b ∈ e.nested, b.Built S D Q

namespace Emitted.Good

theorem append {a b : Emitted} (ha : a.Good S D Q) (hb : b.Good S D Q) :
    (a.append b).Good S D Q := by
  refine ⟨fun d hd => ?_, fun x hx => ?_⟩
  · exact (List.mem_append.mp hd).elim (ha.1 d) (hb.1 d)
  · exact (List.mem_append.mp hx).elim (ha.2 x) (hb.2 x)

theorem blocks {e : Emitted} (h : e.Good S D Q) (hs : S selector) :
    ∀ b ∈ e.blocks selector, b.Built S D Q := by
  rw [Emitted.blocks]
  split
  · exact h.2
  · next hown =>
    intro b hb
    rcases List.mem_cons.mp hb with rfl | hb
    · exact .rule hs hown h.1
    · exact h.2 b hb

theorem ofBlocks {bs : List Block} (h : ∀ b ∈ bs, b.Built S D Q) :
    (Emitted.ofBlocks selector bs).Good S D Q := by
  have hnone : Emitted.Good S D Q ⟨[], bs⟩ := ⟨by simp, h⟩
  cases bs with
  | nil => exact hnone
  | cons b rest =>
    cases b with
    | group head children => exact hnone
    | rule s own =>
      rw [Emitted.ofBlocks]
      split
      · cases h _ List.mem_cons_self with
        | rule hs hne hd => exact ⟨hd, fun x hx => h x (List.mem_cons_of_mem _ hx)⟩
      · exact hnone

end Emitted.Good

namespace EmissionInvariant

variable (h : EmissionInvariant P S D Q)

include h in
theorem emit_literal {v : String} (hp : P (.literal k v)) (selector : String) :
    (Entry.emit selector (.literal k v)).Good S D Q := by
  by_cases hk : k = "preset"
  · rw [hk, emit_preset]
    exact ⟨by simp [Emitted.none], by simp [Emitted.none]⟩
  · rw [Style.emit_literal hk]
    exact ⟨h.literal hp, by simp⟩

include h in
/-- Emission in a tree, in the variants of a selector and in its breakpoints. -/
theorem emitAll (t : Tree) (ht : ∀ e ∈ t, P e) :
    (∀ selector, S selector → (emitAll selector t).Good S D Q) ∧
    (∀ selector mark, S selector → mark ∈ ["&:", "&--"] →
      ∀ b ∈ variantBlocks selector mark t, b.Built S D Q) ∧
    ∀ selector, S selector → ∀ b ∈ responsiveBlocks selector t, b.Built S D Q := by
  induction t using Tree.ind with
  | nil =>
    refine ⟨fun selector hs => ?_, fun selector mark hs hm b hb => ?_, fun selector hs b hb => ?_⟩
    · rw [emitAll_nil]
      exact ⟨by simp [Emitted.none], by simp [Emitted.none]⟩
    · rw [variantBlocks] at hb; cases hb
    · rw [responsiveBlocks] at hb; cases hb
  | literal k v es ih =>
    obtain ⟨ihall, ihvar, ihresp⟩ := ih fun e he => ht e (List.mem_cons_of_mem _ he)
    refine ⟨fun selector hs => ?_, fun selector mark hs hm b hb => ?_, fun selector hs b hb => ?_⟩
    · rw [emitAll_cons]
      exact (h.emit_literal (ht _ List.mem_cons_self) selector).append (ihall selector hs)
    · rw [variantBlocks] at hb
      exact ihvar selector mark hs hm b hb
    · rw [responsiveBlocks] at hb
      exact ihresp selector hs b hb
  | block k ds es ihd ih =>
    have hp : P (.block k ds) := ht _ List.mem_cons_self
    obtain ⟨ihall, ihvar, ihresp⟩ := ih fun e he => ht e (List.mem_cons_of_mem _ he)
    obtain ⟨hall, hvar, hresp⟩ := ihd (h.inside hp)
    refine ⟨fun selector hs => ?_, fun selector mark hs hm b hb => ?_, fun selector hs b hb => ?_⟩
    · rw [emitAll_cons]
      refine Emitted.Good.append ?_ (ihall selector hs)
      rw [emit_block]
      cases hr : Role.ofKey k with
      | animation => exact ⟨h.animation hp, by simp⟩
      | colors => exact ⟨h.colors hp, by simp⟩
      | base => exact .ofBlocks ((hall selector hs).blocks hs)
      | variants mark => exact ⟨by simp, hvar selector mark hs (Role.mark_of_ofKey hr)⟩
      | responsive => exact ⟨by simp, hresp selector hs⟩
      | nested =>
        have hs' := h.nested hs hp
        exact ⟨by simp, (hall _ hs').blocks hs'⟩
    · rw [variantBlocks, List.mem_append] at hb
      have hs' := h.variant hs hm hp
      exact hb.elim ((hall _ hs').blocks hs' b) (ihvar selector mark hs hm b)
    · rw [responsiveBlocks] at hb
      split at hb
      · exact ihresp selector hs b hb
      · next query hquery =>
        split at hb
        · exact ihresp selector hs b hb
        · next hne =>
          rcases List.mem_cons.mp hb with rfl | hb
          · exact .media (h.query hp hquery) hne ((hall selector hs).blocks hs)
          · exact ihresp selector hs b hb

include h in
theorem walk {t : Tree} (ht : ∀ e ∈ t, P e) (hs : S selector) :
    ∀ b ∈ walk selector t, b.Built S D Q :=
  ((h.emitAll t ht).1 selector hs).blocks hs

end EmissionInvariant

/-! ### No block is empty -/

/-- A rule with a declaration, or a media group with a child and nothing but such blocks inside.
By the type of blocks a rule has no children and a group no declarations. -/
inductive Block.Filled : Block → Prop where
  | rule {selector : String} {ds : List Declaration} (hne : ds ≠ []) : Filled (.rule selector ds)
  | media {query : String} {children : List Block} (hne : children ≠ [])
      (hall : ∀ b ∈ children, Filled b) : Filled (.group ("@media " ++ query) children)

theorem Block.Built.filled {b : Block} (h : b.Built S D Q) : b.Filled := by
  induction h with
  | rule hs hne hd => exact .rule hne
  | media hq hne hall ih => exact .media hne ih

theorem filled_walk (selector : String) (t : Tree) : ∀ b ∈ walk selector t, b.Filled := by
  have h : EmissionInvariant (fun _ => True) (fun _ => True) (fun _ => True) (fun _ => True) := by
    constructor <;> intros <;> trivial
  intro b hb
  exact (h.walk (fun _ _ => trivial) trivial b hb).filled

end Pagesmith.Style
