import Pagesmith.Proofs.Emission.Invariant

/-!
# Inlining base blocks

A `base` block holds entries of the selector around it.  The blocks that they emit are taken apart
again: if the first is a rule of that selector, its declarations join those of the selector.  So a
`base` block may be written out in its place if one of its entries is a declaration.  Without one
the first block may belong to a nested selector that is the selector itself, and it would move to
the front.

* `Emitted.blocks_ofBlocks`: blocks taken apart and put together are what they were.
* `inline_base_iff`: when a `base` block can be inlined whatever stands around it.
* `walk_inline_base`: one with a literal can, and so can one that is alone.
-/

namespace Pagesmith.Style

/-! ### Taking blocks apart -/

namespace Emitted

/-- Blocks without an empty rule are given back, whether or not the first joins the selector. -/
theorem blocks_ofBlocks {bs : List Block} (h : ∀ b ∈ bs, b.Filled) (selector : String) :
    (ofBlocks selector bs).blocks selector = bs := by
  cases bs with
  | nil => rfl
  | cons b rest =>
    cases b with
    | group head children => rfl
    | rule s own =>
      rw [ofBlocks]
      split
      · next hs =>
        cases h _ List.mem_cons_self with
        | rule hne => rw [blocks_of_own hne, hs]
      · rfl

theorem ofBlocks_of_ne {selector : String} {bs : List Block}
    (h : ∀ ds rest, bs ≠ .rule selector ds :: rest) : ofBlocks selector bs = ⟨[], bs⟩ := by
  cases bs with
  | nil => rfl
  | cons b rest =>
    cases b with
    | group head children => rfl
    | rule s own =>
      have hs : s ≠ selector := fun heq => h own rest (heq ▸ rfl)
      rw [ofBlocks, if_neg hs]

end Emitted

theorem emitAll_base (selector : String) (t : Tree) :
    emitAll selector [.block "base" t] = .ofBlocks selector (walk selector t) := by
  rw [emitAll_cons, emitAll_nil, Emitted.append_none, emit_block]
  rfl

theorem walk_base (selector : String) (t : Tree) :
    walk selector [.block "base" t] = walk selector t := by
  rw [walk, emitAll_base, Emitted.blocks_ofBlocks (filled_walk selector t)]

/-! ### Inlining -/

/-- A `base` block can be inlined whatever stands around it exactly if it has a declaration of its
own or its first block is no rule of the selector. -/
theorem inline_base_iff (selector : String) (t : Tree) :
    (∀ t₁ t₃ : Tree,
      walk selector (t₁ ++ [.block "base" t] ++ t₃) = walk selector (t₁ ++ t ++ t₃)) ↔
    (emitAll selector t).own ≠ [] ∨
      ∀ ds rest, (emitAll selector t).nested ≠ .rule selector ds :: rest := by
  have hfilled := filled_walk selector t
  constructor
  · intro h
    by_contra hnot
    push Not at hnot
    obtain ⟨hown, ds, rest, hnested⟩ := hnot
    have hwalk : walk selector t = .rule selector ds :: rest := by
      rw [walk, Emitted.blocks, hown, hnested]
    rw [hwalk] at hfilled
    -- behind a declaration the rule would be merged with it on one side only
    have heq := h [.literal "color" "red"] []
    have hcolor : emitAll selector [.literal "color" "red"] = ⟨[⟨"color", "red"⟩], []⟩ := by
      rw [emitAll_cons, emitAll_nil, Emitted.append_none, emit_literal (by decide)]
      rfl
    rw [List.append_nil, List.append_nil, walk, walk, emitAll_append, emitAll_append, hcolor,
      emitAll_base, hwalk, Emitted.ofBlocks, if_pos rfl] at heq
    simp only [Emitted.append, hown, hnested, List.cons_append, List.nil_append, List.append_nil,
      Emitted.blocks, List.cons.injEq, Block.rule.injEq] at heq
    cases hfilled _ List.mem_cons_self with
    | rule hne => exact hne heq.1.2.2
  · intro h t₁ t₃
    have hbase : emitAll selector [.block "base" t] = emitAll selector t := by
      rw [emitAll_base, walk]
      by_cases hown : (emitAll selector t).own = []
      · have hfirst := h.resolve_left (not_not.mpr hown)
        rw [Emitted.blocks, hown, Emitted.ofBlocks_of_ne hfirst, ← hown]
      · exact Emitted.ofBlocks_blocks hown selector
    simp only [walk, emitAll_append, hbase]

/-! ### Animations -/

theorem animationRefs_append (t s : Tree) :
    animationRefs (t ++ s) = animationRefs t ++ animationRefs s := by
  induction t with
  | nil => rw [animationRefs]; rfl
  | cons e es ih => rw [List.cons_append, animationRefs, ih, animationRefs, List.append_assoc]

theorem animationRefs_base (t : Tree) :
    animationRefs [.block "base" t] = animationRefs t := by
  rw [animationRefs, Entry.animationRefs, animationRefs, List.append_nil]
  rfl

/-- **Inlining a `base` block changes neither the blocks nor the animations mentioned**, whatever
stands before and after it, if one of its entries is a literal that is emitted.  Alone it can always
be inlined.  Keys that occur twice are no exception. -/
theorem walk_inline_base (selector : String) :
    (∀ t₁ t₂ t₃ : Tree, (∃ k v, .literal k v ∈ t₂ ∧ k ≠ "preset") →
      walk selector (t₁ ++ [.block "base" t₂] ++ t₃) = walk selector (t₁ ++ t₂ ++ t₃) ∧
      animationRefs (t₁ ++ [.block "base" t₂] ++ t₃) = animationRefs (t₁ ++ t₂ ++ t₃)) ∧
    ∀ t : Tree, walk selector [.block "base" t] = walk selector t ∧
      animationRefs [.block "base" t] = animationRefs t := by
  refine ⟨fun t₁ t₂ t₃ hliteral => ⟨?_, ?_⟩, fun t => ⟨walk_base selector t, animationRefs_base t⟩⟩
  · obtain ⟨k, v, hmem, hk⟩ := hliteral
    have hown : (emitAll selector t₂).own ≠ [] := own_emitAll_ne_nil selector hmem hk
    exact (inline_base_iff selector t₂).mpr (.inl hown) t₁ t₃
  · simp only [animationRefs_append, animationRefs_base]

/-- The block has a literal, a `base` block of its own and a nested selector that is the selector
itself, and it stands between two declarations and behind a state. -/
theorem walk_inline_base_card :
    let t₁ : Tree :=
      [.literal "color" "red", .block "states" [.block "hover" [.literal "scale" "2"]]]
    let t₂ : Tree := [.literal "padding" "1px", .block "base" [.literal "radius" "3px"],
      .block "&" [.literal "gap" "4px"]]
    let t₃ : Tree := [.literal "margin" "0"]
    (∃ k v, Entry.literal k v ∈ t₂ ∧ k ≠ "preset") ∧
      walk ".card" (t₁ ++ [.block "base" t₂] ++ t₃) =
        [.rule ".card" [⟨"color", "red"⟩, ⟨"padding", "1px"⟩, ⟨"border-radius", "3px"⟩,
            ⟨"margin", "0"⟩],
          .rule ".card:hover" [⟨"transform", "scale(2)"⟩], .rule ".card" [⟨"gap", "4px"⟩]] := by
  intro t₁ t₂ t₃
  have hliteral : ∃ k v, Entry.literal k v ∈ t₂ ∧ k ≠ "preset" :=
    ⟨"padding", "1px", List.mem_cons_self, by decide⟩
  refine ⟨hliteral, ((walk_inline_base ".card").1 t₁ t₂ t₃ hliteral).1.trans ?_⟩
  rfl

end Pagesmith.Style
