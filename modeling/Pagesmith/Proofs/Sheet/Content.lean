import Mathlib.Data.List.Nodup
import Pagesmith.Proofs.Emission.Site
import Pagesmith.Style.Sheet

/-!
# What a stylesheet holds

The keyframes and the rules in the blocks of a stylesheet, at any depth, and the keyframes in the
blocks that a rule, a source and a list of sources become.

* `keyframesAll`, `selectorsAll`, `declarationsAll`: the animations that blocks define, the
  selectors of their rules outside keyframes, and their declarations.
* `keyframesAll_sourceBlocks`: a source defines the animations of its animation rules.
* `keyframesAll_sheetBlocks`, `keyframesAll_presetBlocks`: what a stylesheet defines.
-/

namespace Pagesmith.Style

/-! ### Keyframes and rules in blocks -/

def keyframesName? (head : String) : Option String :=
  ("@keyframes ".toList.isPrefixOf? head.toList).map String.ofList

mutual

def Block.keyframes : Block → List String
  | .rule _ _ => []
  | .group head children => (keyframesName? head).toList ++ keyframesAll children

def keyframesAll : List Block → List String
  | [] => []
  | b :: bs => b.keyframes ++ keyframesAll bs

end

mutual

/-- The selectors of the rules in a block, at any depth; a frame of keyframes is no rule. -/
def Block.selectors : Block → List String
  | .rule selector _ => [selector]
  | .group head children => if (keyframesName? head).isSome then [] else selectorsAll children

def selectorsAll : List Block → List String
  | [] => []
  | b :: bs => b.selectors ++ selectorsAll bs

end

mutual

def Block.declarations : Block → List Declaration
  | .rule _ declarations => declarations
  | .group _ children => declarationsAll children

def declarationsAll : List Block → List Declaration
  | [] => []
  | b :: bs => b.declarations ++ declarationsAll bs

end

theorem keyframesName?_keyframes (name : String) :
    keyframesName? ("@keyframes " ++ name) = some name := by
  rw [keyframesName?, String.toList_append, List.isPrefixOf?_eq_some_iff_append_eq.mpr rfl]
  exact congrArg some String.ofList_toList

theorem keyframesName?_media (query : String) : keyframesName? ("@media " ++ query) = none := by
  rw [keyframesName?, String.toList_append]
  rfl

theorem keyframesAll_eq (bs : List Block) : keyframesAll bs = bs.flatMap Block.keyframes := by
  induction bs with
  | nil => rw [keyframesAll]; rfl
  | cons b bs ih => rw [keyframesAll, ih, List.flatMap_cons]

theorem selectorsAll_eq (bs : List Block) : selectorsAll bs = bs.flatMap Block.selectors := by
  induction bs with
  | nil => rw [selectorsAll]; rfl
  | cons b bs ih => rw [selectorsAll, ih, List.flatMap_cons]

theorem declarationsAll_eq (bs : List Block) :
    declarationsAll bs = bs.flatMap Block.declarations := by
  induction bs with
  | nil => rw [declarationsAll]; rfl
  | cons b bs ih => rw [declarationsAll, ih, List.flatMap_cons]

@[simp] theorem keyframesAll_nil : keyframesAll [] = [] := by rw [keyframesAll]

theorem keyframesAll_cons (b : Block) (bs : List Block) :
    keyframesAll (b :: bs) = b.keyframes ++ keyframesAll bs := by rw [keyframesAll]

theorem keyframesAll_append (bs cs : List Block) :
    keyframesAll (bs ++ cs) = keyframesAll bs ++ keyframesAll cs := by
  simp only [keyframesAll_eq, List.flatMap_append]

theorem keyframesAll_flatMap {α : Type} (f : α → List Block) (l : List α) :
    keyframesAll (l.flatMap f) = l.flatMap fun x => keyframesAll (f x) := by
  simp only [keyframesAll_eq, List.flatMap_assoc]

theorem keyframesAll_eq_nil {bs : List Block} (h : ∀ b ∈ bs, b.keyframes = []) :
    keyframesAll bs = [] := by
  rw [keyframesAll_eq, List.flatMap_eq_nil_iff]
  exact h

/-! ### The keyframes of a rule -/

theorem Block.Filled.keyframes_eq_nil {b : Block} (h : b.Filled) : b.keyframes = [] := by
  induction h with
  | rule hne => rw [Block.keyframes]
  | media hne hall ih =>
    rw [Block.keyframes, keyframesName?_media, keyframesAll_eq_nil ih]
    rfl

theorem keyframesAll_walk (selector : String) (t : Tree) : keyframesAll (walk selector t) = [] :=
  keyframesAll_eq_nil fun b hb =>
    (filled_walk selector t b hb).keyframes_eq_nil

theorem keyframes_frame {e : Entry} {b : Block} (h : frameBlock? e = some b) :
    b.keyframes = [] := by
  cases e with
  | literal k v => cases h
  | block k es =>
    obtain rfl := Option.some.inj h
    rw [Block.keyframes]

theorem keyframes_keyframesBlock (name : String) (t : Tree) :
    (keyframesBlock name t).keyframes = [name] := by
  have hframes : keyframesAll (t.filterMap frameBlock?) = [] := by
    refine keyframesAll_eq_nil fun b hb => ?_
    obtain ⟨e, -, he⟩ := List.mem_filterMap.mp hb
    exact keyframes_frame he
  rw [keyframesBlock, Block.keyframes, keyframesName?_keyframes, hframes]
  rfl

/-- Only an animation defines keyframes, those of its own name. -/
theorem keyframesAll_blocks (r : ParsedRule) :
    keyframesAll r.blocks = if r.kind = .animation then [r.name] else [] := by
  obtain ⟨kind, name, t⟩ := r
  cases kind with
  | theme =>
    show keyframesAll [themeBlock t] = []
    rw [keyframesAll_cons, keyframesAll_nil, themeBlock, Block.keyframes]
    rfl
  | animation =>
    show keyframesAll [keyframesBlock name t] = [name]
    rw [keyframesAll_cons, keyframesAll_nil, keyframes_keyframesBlock]
    rfl
  | style => exact keyframesAll_walk _ _
  | component => exact keyframesAll_walk _ _
  | other => exact keyframesAll_walk _ _

/-! ### Names once each -/

theorem mem_foldl_addNew (names seen : List String) (name : String) :
    name ∈ names.foldl (fun seen n => if seen.contains n then seen else seen ++ [n]) seen ↔
      name ∈ seen ∨ name ∈ names := by
  induction names generalizing seen with
  | nil => simp
  | cons n names ih =>
    rw [List.foldl_cons, ih, List.mem_cons]
    split
    · next h =>
      have hn : n ∈ seen := by simpa using h
      constructor
      · exact Or.imp_right Or.inr
      · rintro (h | rfl | h)
        exacts [Or.inl h, Or.inl hn, Or.inr h]
    · rw [List.mem_append, List.mem_singleton, or_assoc]

theorem nodup_foldl_addNew (names : List String) {seen : List String} (hs : seen.Nodup) :
    (names.foldl (fun seen n => if seen.contains n then seen else seen ++ [n]) seen).Nodup := by
  induction names generalizing seen with
  | nil => exact hs
  | cons n names ih =>
    rw [List.foldl_cons]
    split
    · exact ih hs
    · next h =>
      refine ih (List.nodup_append.mpr ⟨hs, List.nodup_singleton n, fun a ha b hb hab => ?_⟩)
      obtain rfl := List.mem_singleton.mp hb
      exact h (by simpa [hab] using ha)

theorem mem_firstOccurrences {names : List String} {name : String} :
    name ∈ firstOccurrences names ↔ name ∈ names := by
  rw [firstOccurrences, mem_foldl_addNew]
  simp

theorem nodup_firstOccurrences (names : List String) : (firstOccurrences names).Nodup :=
  nodup_foldl_addNew names List.nodup_nil

theorem count_firstOccurrences (names : List String) (name : String) :
    (firstOccurrences names).count name = if name ∈ names then 1 else 0 := by
  rw [(nodup_firstOccurrences names).count]
  exact if_congr mem_firstOccurrences rfl rfl

theorem count_filter_firstOccurrences (p : String → Bool) (names : List String) (name : String) :
    ((firstOccurrences names).filter p).count name = if name ∈ names ∧ p name then 1 else 0 := by
  by_cases hp : p name = true
  · rw [List.count_filter hp, count_firstOccurrences]
    simp [hp]
  · rw [if_neg (fun h => hp h.2), List.count_eq_zero]
    exact fun h => hp (List.mem_filter.mp h).2

/-! ### The keyframes of a stylesheet -/

def definedBy (rules : List ParsedRule) : List String :=
  (rules.filter fun r => r.kind = .animation).map ParsedRule.name

theorem keyframesAll_flatMap_blocks (rules : List ParsedRule) :
    keyframesAll (rules.flatMap ParsedRule.blocks) = definedBy rules := by
  rw [keyframesAll_flatMap, definedBy]
  induction rules with
  | nil => rfl
  | cons r rules ih =>
    rw [List.flatMap_cons, ih, keyframesAll_blocks, List.filter_cons]
    by_cases h : r.kind = .animation
    · simp [h]
    · simp [h]

theorem definedBy_filter_eq_nil {kind : RuleKind} (hk : kind ≠ .animation)
    (rules : List ParsedRule) : definedBy (rules.filter fun r => r.kind = kind) = [] := by
  rw [definedBy, List.filter_filter, List.map_eq_nil_iff, List.filter_eq_nil_iff]
  intro r _ h
  simp only [Bool.and_eq_true, decide_eq_true_eq] at h
  exact hk (h.2.symm.trans h.1)

/-- Grouping the rules of a source by kind changes nothing about its animations. -/
theorem keyframesAll_sourceBlocks (rules : List ParsedRule) :
    keyframesAll (sourceBlocks rules) = definedBy rules := by
  rw [sourceBlocks, keyframesAll_flatMap]
  simp only [keyframesAll_flatMap_blocks, emissionOrder, List.flatMap_cons, List.flatMap_nil]
  rw [definedBy_filter_eq_nil (by decide), definedBy_filter_eq_nil (by decide),
    definedBy_filter_eq_nil (by decide)]
  simp [definedBy, List.filter_filter]

theorem keyframesAll_referencedKeyframes (c : Catalog) (mentioned defined : List String) :
    keyframesAll (referencedKeyframes c mentioned defined) =
      (firstOccurrences mentioned).filter fun name =>
        !defined.contains name && (c.animation? name).isSome := by
  rw [referencedKeyframes]
  induction firstOccurrences mentioned with
  | nil => exact keyframesAll_nil
  | cons name names ih =>
    rw [List.filterMap_cons, List.filter_cons]
    by_cases hd : defined.contains name
    · rw [if_pos hd, hd]
      exact ih
    · rw [if_neg hd, Bool.eq_false_iff.mpr hd]
      cases c.animation? name with
      | none => exact ih
      | some t =>
        show keyframesAll (keyframesBlock name t :: _) = _
        rw [keyframesAll_cons, keyframes_keyframesBlock, ih]
        rfl

def rulesOf (c : Catalog) (extent : Extent) (sources : List String) : List ParsedRule :=
  sources.flatMap (parsedRules c extent)

def presetRules (c : Catalog) (names : List String) : List ParsedRule :=
  names.filterMap fun name => (c.style? name).map (ParsedRule.mk .component name)

def mentionedBy (rules : List ParsedRule) : List String := rules.flatMap ParsedRule.refs

theorem sheetBlocks_eq (c : Catalog) (extent : Extent) (sources : List String) :
    sheetBlocks c extent sources =
      sources.flatMap (fun source => sourceBlocks (parsedRules c extent source))
        ++ referencedKeyframes c (mentionedBy (rulesOf c extent sources))
          (definedBy (rulesOf c extent sources)) := by
  simp only [sheetBlocks, rulesOf, mentionedBy, definedBy, List.flatMap_map]
  rfl

theorem keyframesAll_sheetBlocks (c : Catalog) (extent : Extent) (sources : List String) :
    keyframesAll (sheetBlocks c extent sources) =
      definedBy (rulesOf c extent sources) ++
        (firstOccurrences (mentionedBy (rulesOf c extent sources))).filter fun name =>
          !(definedBy (rulesOf c extent sources)).contains name && (c.animation? name).isSome := by
  rw [sheetBlocks_eq, keyframesAll_append, keyframesAll_referencedKeyframes, keyframesAll_flatMap]
  congr 1
  simp only [keyframesAll_sourceBlocks, definedBy, rulesOf]
  rw [List.filter_flatMap, List.map_flatMap]

theorem keyframesAll_presetBlocks (c : Catalog) (names : List String) :
    keyframesAll (presetBlocks c names) =
      (firstOccurrences (mentionedBy (presetRules c names))).filter fun name =>
        (c.animation? name).isSome := by
  have hdefined : definedBy (presetRules c names) = [] := by
    rw [definedBy, List.map_eq_nil_iff, List.filter_eq_nil_iff]
    intro r hr
    obtain ⟨name, -, hname⟩ := List.mem_filterMap.mp hr
    obtain ⟨t, -, rfl⟩ := Option.map_eq_some_iff.mp hname
    simp
  show keyframesAll ((presetRules c names).flatMap ParsedRule.blocks
    ++ referencedKeyframes c (mentionedBy (presetRules c names)) []) = _
  rw [keyframesAll_append, keyframesAll_flatMap_blocks, hdefined, keyframesAll_referencedKeyframes]
  rfl

end Pagesmith.Style
