import Pagesmith.Proofs.Sheet.Mention

/-!
# The shape of a stylesheet

A stylesheet is made of what its sources emit, source after source and in each source kind after
kind, and of a tail of catalog keyframes.  The tail follows the mentions in the rules as they are
written, not as they are emitted: the rules of a source are regrouped by kind only after their
mentions have been collected.

* `pairwise_firstOccurrences`: first occurrences stand in the order of the list.
* `render_flatten`: a stylesheet of parts is the parts that are not empty, line break between them.
* `compile_shape`: the blocks of a stylesheet, and its text where there is no catalog.
-/

namespace Pagesmith.Style

/-! ### First occurrences -/

theorem firstOccurrences_concat (names : List String) (name : String) :
    firstOccurrences (names ++ [name]) =
      if name ∈ names then firstOccurrences names else firstOccurrences names ++ [name] := by
  rw [firstOccurrences, List.foldl_append, ← firstOccurrences, List.foldl_cons, List.foldl_nil]
  simp only [List.contains_eq_mem, decide_eq_true_eq, mem_firstOccurrences]

theorem pairwise_firstOccurrences (names : List String) :
    (firstOccurrences names).Pairwise fun a b => names.idxOf a < names.idxOf b := by
  induction names using List.reverseRecOn with
  | nil => exact List.Pairwise.nil
  | append_singleton names name ih =>
    -- one more name at the end does not move the others
    have hkeep : ∀ {a}, a ∈ firstOccurrences names →
        (names ++ [name]).idxOf a = names.idxOf a :=
      fun ha => List.idxOf_append_of_mem (mem_firstOccurrences.mp ha)
    have ih' : (firstOccurrences names).Pairwise fun a b =>
        (names ++ [name]).idxOf a < (names ++ [name]).idxOf b := by
      refine ih.imp_of_mem fun ha hb hab => ?_
      rwa [hkeep ha, hkeep hb]
    rw [firstOccurrences_concat]
    split
    · exact ih'
    · next hnew =>
      refine List.pairwise_append.mpr ⟨ih', List.pairwise_singleton _ _, fun a ha b hb => ?_⟩
      obtain rfl := List.mem_singleton.mp hb
      have hlast : (names ++ [b]).idxOf b = names.length := by
        rw [List.idxOf_append_of_notMem hnew, List.idxOf_cons_self, Nat.add_zero]
      rw [hkeep ha, hlast]
      exact List.idxOf_lt_length_of_mem (mem_firstOccurrences.mp ha)

/-! ### The tail of a stylesheet -/

def tailNames (c : Catalog) (mentioned defined : List String) : List String :=
  (firstOccurrences mentioned).filter fun name =>
    !defined.contains name && (c.animation? name).isSome

theorem mem_tailNames {c : Catalog} {mentioned defined : List String} {name : String} :
    name ∈ tailNames c mentioned defined ↔
      (c.animation? name).isSome ∧ name ∉ defined ∧ name ∈ mentioned := by
  rw [tailNames, List.mem_filter, mem_firstOccurrences, Bool.and_eq_true, Bool.not_eq_true',
    List.contains_eq_mem, decide_eq_false_iff_not]
  tauto

theorem forall₂_referencedKeyframes (c : Catalog) (mentioned defined : List String) :
    List.Forall₂ (fun name b => ∃ t, c.animation? name = some t ∧ b = keyframesBlock name t)
      (tailNames c mentioned defined) (referencedKeyframes c mentioned defined) := by
  rw [tailNames, referencedKeyframes]
  induction firstOccurrences mentioned with
  | nil => exact List.Forall₂.nil
  | cons name names ih =>
    rw [List.filterMap_cons, List.filter_cons]
    by_cases hd : defined.contains name
    · rw [if_pos hd, hd]
      exact ih
    · rw [if_neg hd, Bool.eq_false_iff.mpr hd]
      cases hc : c.animation? name with
      | none => exact ih
      | some t => exact List.Forall₂.cons ⟨t, hc, rfl⟩ ih

/-! ### Stylesheets of parts -/

theorem render_ne_empty {bs : List Block} (h : bs ≠ []) : render bs ≠ "" := by
  intro hempty
  refine trim_render_ne_nil h ?_
  rw [hempty]
  rfl

theorem render_flatten (parts : List (List Block)) :
    render parts.flatten = "\n".intercalate ((parts.map render).filter (· ≠ "")) := by
  induction parts with
  | nil => rfl
  | cons bs parts ih =>
    rw [List.flatten_cons, List.map_cons]
    by_cases hb : bs = []
    · subst hb
      rw [List.nil_append, ih]
      rfl
    · rw [List.filter_cons_of_pos (by simpa using render_ne_empty hb)]
      by_cases hc : parts.flatten = []
      · have hnone : (parts.map render).filter (· ≠ "") = [] := by
          rw [List.filter_eq_nil_iff]
          intro text ht
          obtain ⟨cs, hcs, rfl⟩ := List.mem_map.mp ht
          rw [List.flatten_eq_nil_iff.mp hc cs hcs]
          decide
        rw [hc, List.append_nil, hnone]
        simp
      · have hsome : (parts.map render).filter (· ≠ "") ≠ [] := by
          intro hnil
          rw [hnil] at ih
          exact render_ne_empty hc ih
        rw [render_append hb hc, ih, ← List.singleton_append,
          String.intercalate_append_of_ne_nil (by simp) hsome]
        simp

/-! ### The shape -/

def blocksOfKind (kind : RuleKind) (rules : List ParsedRule) : List Block :=
  (rules.filter fun r => r.kind = kind).flatMap ParsedRule.blocks

theorem sourceBlocks_eq (rules : List ParsedRule) :
    sourceBlocks rules = blocksOfKind .style rules ++ blocksOfKind .component rules
      ++ blocksOfKind .theme rules ++ blocksOfKind .animation rules := by
  simp [sourceBlocks, emissionOrder, blocksOfKind]

def mentions (rules : List ParsedRule) : List String :=
  rules.flatMap fun r => r.sites.flatMap fun x => x.written.animations

theorem mentionedBy_eq (rules : List ParsedRule) : mentionedBy rules = mentions rules :=
  List.flatMap_congr fun r _ => refs_eq r

theorem animation?_empty (name : String) : Catalog.empty.animation? name = none := rfl

theorem sheetBlocks_empty (extent : Extent) (sources : List String) :
    sheetBlocks Catalog.empty extent sources =
      sources.flatMap fun source => sourceBlocks (parsedRules Catalog.empty extent source) := by
  have htail : ∀ mentioned defined, referencedKeyframes Catalog.empty mentioned defined = [] := by
    intro mentioned defined
    rw [referencedKeyframes, List.filterMap_eq_nil_iff]
    intro name _
    split
    · rfl
    · rw [animation?_empty]; rfl
  rw [sheetBlocks_eq, htail, List.append_nil]

theorem compile_empty (extent : Extent) (sources : List String) :
    compile Catalog.empty extent sources =
      "\n".intercalate
        ((sources.map fun source => compile Catalog.empty extent [source]).filter (· ≠ "")) := by
  have hone : ∀ source, compile Catalog.empty extent [source] =
      render (sourceBlocks (parsedRules Catalog.empty extent source)) := by
    intro source
    rw [compile, sheetBlocks_empty, List.flatMap_singleton]
  rw [compile, sheetBlocks_empty, List.flatMap_def, render_flatten, List.map_map]
  simp only [hone, Function.comp_def]

/-- **The shape of a stylesheet.**  For each source it holds the blocks of its styles, components,
themes and animations, each in the order of the source, and after all sources the keyframes of some
catalog animations.  These are the catalog animations that stand as a word in an emitted
`animation` declaration or that are the type of an `animation` block, less those that any source
defines, once each and in the order in which the rules, as they are written, first mention them.
Without a catalog the stylesheet is that of the sources one by one. -/
theorem compile_shape (c : Catalog) (extent : Extent) (sources : List String) :
    let rules := rulesOf c extent sources
    compile c extent sources = render (sheetBlocks c extent sources) ∧
      (∃ (names : List String) (tail : List Block),
        sheetBlocks c extent sources = (sources.flatMap fun source =>
            let own := parsedRules c extent source
            blocksOfKind .style own ++ blocksOfKind .component own ++ blocksOfKind .theme own
              ++ blocksOfKind .animation own) ++ tail ∧
          List.Forall₂ (fun name b => ∃ t, c.animation? name = some t ∧ b = keyframesBlock name t)
            names tail ∧
          names.Nodup ∧
          (names.Pairwise fun a b => (mentions rules).idxOf a < (mentions rules).idxOf b) ∧
          ∀ name, name ∈ names ↔
            (c.animation? name).isSome ∧ name ∉ definedBy rules ∧
              ((∃ p ∈ placedAll [] (sheetBlocks c extent sources), p.Outside ∧
                  p.declaration.property = "animation" ∧
                  name.toList ∈ Text.fields p.declaration.value.toList) ∨
                ∃ r ∈ rules, ∃ x ∈ r.sites, ∃ es, x.written = .animation es ∧
                  Tree.get? es "type" = some name)) ∧
      compile Catalog.empty extent sources =
        "\n".intercalate
          ((sources.map fun source => compile Catalog.empty extent [source]).filter (· ≠ "")) := by
  intro rules
  have horder : (tailNames c (mentions rules) (definedBy rules)).Pairwise
      fun a b => (mentions rules).idxOf a < (mentions rules).idxOf b :=
    (pairwise_firstOccurrences _).filter _
  refine ⟨rfl, ⟨tailNames c (mentions rules) (definedBy rules),
    referencedKeyframes c (mentions rules) (definedBy rules), ?_, ?_, ?_, horder, ?_⟩,
    compile_empty extent sources⟩
  · rw [sheetBlocks_eq, mentionedBy_eq]
    simp only [sourceBlocks_eq, rules]
  · exact forall₂_referencedKeyframes c _ _
  · exact horder.imp fun hab heq => absurd hab (by rw [heq]; exact Nat.lt_irrefl _)
  · intro name
    rw [mem_tailNames, ← mem_mentionedBy_rulesOf, mentionedBy_eq]

end Pagesmith.Style
