import Pagesmith.Proofs.Rule.Structure
import Pagesmith.Proofs.Sheet.Keyframes

/-!
# Animations that a stylesheet mentions

The animations that a rule mentions are collected from its tree, in a reading of its own beside
emission.  This file ties the two together: a rule mentions the words of its emitted `animation`
declarations and the types of its `animation` blocks.  A name that touches a comma is no word.

* `animationRefs_eq`: the animations mentioned, by the sites of a tree.
* `animation_mem_declarations`: where a declaration of `animation` comes from.
* `mem_keyframes_iff`: which animations have keyframes in a stylesheet.
* `listed_animation_without_keyframes`: a name before a comma is not found.
-/

namespace Pagesmith.Style

variable {p : Placed} {extent : Extent} {t : Tree} {d : Declaration} {name v : String} {c : Catalog}
  {groups sources : List String}

/-! ### Mentions by site -/

theorem animationRefs_block (k : String) (es : Tree) :
    (Entry.block k es).animationRefs =
      match Role.ofKey k with
      | .animation => (es.get? "type").toList
      | .colors => []
      | .base => animationRefs es
      | .variants _ => variantRefs es
      | .responsive => responsiveRefs es
      | .nested => animationRefs es := by
  rw [Entry.animationRefs, Role.ofKey]
  -- `base` is not told apart from a nested selector here
  by_cases hb : k = "base"
  · subst hb
    rfl
  · simp only [if_neg hb]
    split_ifs <;> rfl

def Written.animations : Written → List String
  | .literal k v => if k = "animation" then (Text.fields v.toList).map String.ofList else []
  | .animation es => (es.get? "type").toList
  | .colors _ => []

/-- **The animations mentioned are those of the sites,** in a tree, in the variants of a selector
and in its breakpoints. -/
theorem animationRefs_eq (t : Tree) :
    (∀ groups selector, animationRefs t =
      (sites groups selector t).flatMap fun x => x.written.animations) ∧
    (∀ groups selector mark, variantRefs t =
      (variantSites groups selector mark t).flatMap fun x => x.written.animations) ∧
    ∀ groups selector, responsiveRefs t =
      (responsiveSites groups selector t).flatMap fun x => x.written.animations := by
  induction t using Tree.ind with
  | nil =>
    refine ⟨fun groups selector => ?_, fun groups selector mark => ?_, fun groups selector => ?_⟩
    · rw [animationRefs, sites]; rfl
    · rw [variantRefs, variantSites]; rfl
    · rw [responsiveRefs, responsiveSites]; rfl
  | literal k v es ih =>
    obtain ⟨ihall, ihvar, ihresp⟩ := ih
    refine ⟨fun groups selector => ?_, fun groups selector mark => ?_, fun groups selector => ?_⟩
    · rw [animationRefs, sites, List.flatMap_append, ← ihall, Entry.sites]
      by_cases hk : k = "preset"
      · rw [if_pos hk, hk, Entry.animationRefs]; rfl
      · rw [if_neg hk, List.flatMap_singleton, Entry.animationRefs]
        rfl
    · rw [variantRefs, variantSites, ← ihvar]
    · rw [responsiveRefs, responsiveSites, ← ihresp]
  | block k ds es ihd ih =>
    obtain ⟨ihall, ihvar, ihresp⟩ := ih
    obtain ⟨hall, hvar, hresp⟩ := ihd
    refine ⟨fun groups selector => ?_, fun groups selector mark => ?_, fun groups selector => ?_⟩
    · rw [animationRefs, sites, List.flatMap_append, ← ihall, Entry.sites, animationRefs_block]
      congr 1
      cases Role.ofKey k with
      | animation => rw [List.flatMap_singleton, Written.animations]
      | colors => rw [List.flatMap_singleton, Written.animations]
      | base => exact hall groups selector
      | variants mark => exact hvar groups selector mark
      | responsive => exact hresp groups selector
      | nested => exact hall groups _
    · rw [variantRefs, variantSites, List.flatMap_append, ← hall, ← ihvar]
    · rw [responsiveRefs, responsiveSites]
      cases mediaQuery? k with
      | none => exact ihresp groups selector
      | some query =>
        rw [Option.isSome_some, if_pos rfl, List.flatMap_append, ← hall, ← ihresp]

/-! ### Declarations of animations -/

theorem property_of_mem_convertAnimation {es : Tree} (h : d ∈ convertAnimation es) :
    d.property ≠ "animation" := by
  have opt : ∀ {key property}, d ∈ ((es.get? key).map (Declaration.mk property)).toList →
      d.property = property := by
    intro key property hd
    obtain ⟨v, -, rfl⟩ := Option.map_eq_some_iff.mp (Option.mem_toList.mp hd)
    rfl
  simp only [convertAnimation, List.mem_append, List.mem_cons, List.not_mem_nil, or_false] at h
  rcases h with ((h | h | h) | h) | h
  · rw [opt h]; decide
  · rw [h]; simp
  · rw [h]; simp
  · rw [opt h]; decide
  · rw [opt h]; decide

theorem property_of_mem_convertColors {es : Tree} (h : d ∈ convertColors es) :
    d.property ≠ "animation" := by
  obtain ⟨e, -, he⟩ := List.mem_filterMap.mp h
  unfold convertColor at he
  split at he
  · obtain rfl := Option.some.inj he
    show "background-color" ≠ "animation"
    decide
  · obtain rfl := Option.some.inj he
    show "color" ≠ "animation"
    decide
  · next k v _ _ =>
    obtain rfl := Option.some.inj he
    intro hp
    have hlast := congrArg (fun s : String => s.toList.getLast?) hp
    simp at hlast
  · cases he

/-- A declaration of `animation` comes from a literal of that key, with its value. -/
theorem animation_mem_declarations {w : Written} :
    ⟨"animation", v⟩ ∈ w.declarations ↔ w = .literal "animation" v := by
  constructor
  · intro h
    cases w with
    | literal k w =>
      rw [Written.declarations] at h
      unfold convert at h
      split at h
      case h_1 =>
        unfold convertLayout at h
        simp only at h
        split at h
        · simp at h
        · split at h <;> simp at h
      case h_3 => split at h <;> simp at h
      all_goals simp at h
      obtain ⟨rfl, rfl⟩ := h
      rfl
    | animation es => exact absurd rfl (property_of_mem_convertAnimation h)
    | colors es => exact absurd rfl (property_of_mem_convertColors h)
  · rintro rfl
    show _ ∈ convert "animation" v
    simp [convert]

/-! ### Rules of sources -/

theorem kind_of_ofKeyword? {keyword : List Char} {kind : RuleKind}
    (h : Head.ofKeyword? keyword = some (.named kind)) : kind ∈ emissionOrder := by
  unfold Head.ofKeyword? at h
  split_ifs at h
  all_goals simp only [Option.some.injEq, Head.named.injEq, reduceCtorEq] at h
  all_goals
    rw [← h]
    decide

theorem kind_of_mem_extractRules {source : String} {r : Rule} (h : r ∈ extractRules extent source) :
    r.kind ∈ emissionOrder := by
  obtain ⟨blocks, rest, -, hrules, -⟩ :=
    rulesFrom_layout extent 0 (Css.tokens source.toList) (fenced_tokens _)
  rw [extractRules, hrules] at h
  obtain ⟨b, -, h⟩ := List.mem_flatMap.mp h
  rw [SourceBlock.rules] at h
  split at h
  · next head hhead =>
    cases head with
    | named kind =>
      obtain rfl := List.mem_singleton.mp h
      exact kind_of_ofKeyword? hhead
    | animations =>
      rw [kind_of_mem_keyframeRules h]
      decide
  · cases h

theorem kind_of_mem_rulesOf {r : ParsedRule} (h : r ∈ rulesOf c extent sources) :
    r.kind ∈ emissionOrder := by
  obtain ⟨source, -, hr⟩ := List.mem_flatMap.mp h
  obtain ⟨rule, hrule, rfl⟩ := List.mem_map.mp hr
  exact kind_of_mem_extractRules hrule

theorem mem_sourceBlocks {b : Block} :
    b ∈ sources.flatMap (fun source => sourceBlocks (parsedRules c extent source)) ↔
      ∃ r ∈ rulesOf c extent sources, b ∈ r.blocks := by
  simp only [sourceBlocks, List.mem_flatMap, List.mem_filter, decide_eq_true_eq]
  constructor
  · rintro ⟨source, hs, kind, -, r, ⟨hr, -⟩, hb⟩
    exact ⟨r, List.mem_flatMap.mpr ⟨source, hs, hr⟩, hb⟩
  · rintro ⟨r, hr, hb⟩
    obtain ⟨source, hs, hr'⟩ := List.mem_flatMap.mp hr
    exact ⟨source, hs, r.kind, kind_of_mem_rulesOf hr, r, ⟨hr', rfl⟩, hb⟩

/-! ### Animations in a stylesheet -/

theorem mem_placedAll {bs : List Block} :
    p ∈ placedAll groups bs ↔ ∃ b ∈ bs, p ∈ b.placed groups := by
  induction bs with
  | nil => simp
  | cons b bs ih => rw [placedAll_cons, List.mem_append, ih]; simp

def Placed.Outside (p : Placed) : Prop := ∀ g ∈ p.groups, keyframesName? g = none

theorem Block.Filled.outside {b : Block} (h : b.Filled) (hg : ∀ g ∈ groups, keyframesName? g = none)
    (hp : p ∈ b.placed groups) : p.Outside := by
  induction h generalizing groups with
  | rule hne =>
    rw [Block.placed] at hp
    obtain ⟨d, -, rfl⟩ := List.mem_map.mp hp
    exact hg
  | @media query children hne hall ih =>
    rw [Block.placed, mem_placedAll] at hp
    obtain ⟨b, hb, hp⟩ := hp
    refine ih b hb (fun g hm => ?_) hp
    rcases List.mem_append.mp hm with hm | hm
    · exact hg g hm
    · rw [List.mem_singleton.mp hm, keyframesName?_media]

theorem not_outside_of_mem_keyframesBlock (hp : p ∈ (keyframesBlock name t).placed []) :
    ¬ p.Outside := by
  rw [keyframesBlock, Block.placed, mem_placedAll] at hp
  obtain ⟨b, hb, hp⟩ := hp
  obtain ⟨e, -, he⟩ := List.mem_filterMap.mp hb
  cases e with
  | literal k v => cases he
  | block k es =>
    obtain rfl := Option.some.inj he
    rw [Block.placed] at hp
    obtain ⟨d, -, rfl⟩ := List.mem_map.mp hp
    intro hout
    have := hout ("@keyframes " ++ name) (by simp)
    rw [keyframesName?_keyframes] at this
    cases this

theorem property_of_mem_themeProperties {lead : String} (h : d ∈ themeProperties lead t) :
    ∃ k, d.property = lead ++ k := by
  obtain ⟨e, -, he⟩ := List.mem_filterMap.mp h
  cases e with
  | literal k v =>
    obtain rfl := Option.some.inj he
    exact ⟨k, rfl⟩
  | block k es => cases he

theorem property_of_mem_themeBlock (h : p ∈ (themeBlock t).placed groups) :
    p.declaration.property ≠ "animation" := by
  have hlead : ∀ lead k : String, lead.toList.head? = some '-' → lead ++ k ≠ "animation" := by
    intro lead k hl he
    have hhead := congrArg (fun s : String => s.toList.head?) he
    simp only [String.toList_append, List.head?_append, hl, Option.some_or] at hhead
    revert hhead
    decide
  rw [themeBlock, Block.placed] at h
  obtain ⟨d, hd, rfl⟩ := List.mem_map.mp h
  rcases List.mem_append.mp hd with hd | hd
  · obtain ⟨k, hk⟩ := property_of_mem_themeProperties hd
    rw [show d.property = _ from hk]
    exact hlead _ _ (by decide)
  · obtain ⟨k, hk⟩ := property_of_mem_themeProperties hd
    rw [show d.property = _ from hk]
    exact hlead _ _ (by decide)

def ParsedRule.sites (r : ParsedRule) : List Site :=
  match r.kind with
  | .theme | .animation => []
  | _ => Style.sites [] (ruleSelector r.name) r.tree

theorem refs_eq (r : ParsedRule) : r.refs = r.sites.flatMap fun x => x.written.animations := by
  obtain ⟨kind, name, t⟩ := r
  cases kind with
  | theme => rfl
  | animation => rfl
  | style => exact (animationRefs_eq t).1 _ _
  | component => exact (animationRefs_eq t).1 _ _
  | other => exact (animationRefs_eq t).1 _ _

theorem animation_placed_walk {selector : String} :
    (p ∈ placedAll [] (walk selector t) ∧ p.declaration = ⟨"animation", v⟩) ↔
      ∃ x ∈ sites [] selector t, x.written = .literal "animation" v ∧
        p = ⟨x.groups, x.selector, ⟨"animation", v⟩⟩ := by
  have hperm : (placedAll [] (walk selector t)).Perm
      ((sites [] selector t).flatMap Site.placed) := by
    rw [walk, Emitted.placedAll_blocks]
    exact (placed_emitAll t).1 [] selector
  rw [hperm.mem_iff, List.mem_flatMap]
  constructor
  · rintro ⟨⟨x, hx, hp⟩, hd⟩
    obtain ⟨d, hmem, rfl⟩ := List.mem_map.mp hp
    obtain rfl : d = ⟨"animation", v⟩ := hd
    exact ⟨x, hx, animation_mem_declarations.mp hmem, rfl⟩
  · rintro ⟨x, hx, hw, rfl⟩
    exact ⟨⟨x, hx, List.mem_map_of_mem (animation_mem_declarations.mpr hw)⟩, rfl⟩

/-- The emitted declarations of `animation` outside keyframes are those of the sites. -/
theorem animation_placed_blocks {r : ParsedRule} (hr : r.kind ∈ emissionOrder) :
    (∃ b ∈ r.blocks, ∃ p ∈ b.placed [], p.Outside ∧ p.declaration = ⟨"animation", v⟩) ↔
      ∃ x ∈ r.sites, x.written = .literal "animation" v := by
  have hwalk : ∀ selector t, (∃ b ∈ walk selector t, ∃ p ∈ b.placed [], p.Outside ∧
      p.declaration = ⟨"animation", v⟩) ↔
        ∃ x ∈ sites [] selector t, x.written = .literal "animation" v := by
    intro selector t
    constructor
    · rintro ⟨b, hb, p, hp, -, hd⟩
      obtain ⟨x, hx, hw, -⟩ := animation_placed_walk.mp ⟨mem_placedAll.mpr ⟨b, hb, hp⟩, hd⟩
      exact ⟨x, hx, hw⟩
    · rintro ⟨x, hx, hw⟩
      obtain ⟨hp, hd⟩ := animation_placed_walk.mpr ⟨x, hx, hw, rfl⟩
      obtain ⟨b, hb, hp⟩ := mem_placedAll.mp hp
      exact ⟨b, hb, _, hp, (filled_walk selector t b hb).outside (by simp) hp, hd⟩
  obtain ⟨kind, name, t⟩ := r
  cases kind with
  | style => exact hwalk _ t
  | component => exact hwalk _ t
  | theme =>
    refine iff_of_false ?_ (by simp [ParsedRule.sites])
    rintro ⟨b, hb, p, hp, -, hd⟩
    obtain rfl := List.mem_singleton.mp hb
    exact property_of_mem_themeBlock hp (by rw [hd])
  | animation =>
    refine iff_of_false ?_ (by simp [ParsedRule.sites])
    rintro ⟨b, hb, p, hp, hout, -⟩
    obtain rfl := List.mem_singleton.mp hb
    exact not_outside_of_mem_keyframesBlock hp hout
  | other => exact absurd hr (by simp [emissionOrder])

/-- The same for a whole stylesheet: the catalog's keyframes at its end add none. -/
theorem animation_placed_sheetBlocks (c : Catalog) (extent : Extent) (sources : List String)
    (v : String) :
    (∃ p ∈ placedAll [] (sheetBlocks c extent sources), p.Outside ∧
        p.declaration = ⟨"animation", v⟩) ↔
      ∃ r ∈ rulesOf c extent sources, ∃ x ∈ r.sites, x.written = .literal "animation" v := by
  rw [sheetBlocks_eq]
  constructor
  · rintro ⟨p, hp, hout, hd⟩
    rw [placedAll_append, List.mem_append] at hp
    rcases hp with hp | hp
    · obtain ⟨b, hb, hp⟩ := mem_placedAll.mp hp
      obtain ⟨r, hr, hb⟩ := mem_sourceBlocks.mp hb
      exact ⟨r, hr, (animation_placed_blocks (kind_of_mem_rulesOf hr)).mp ⟨b, hb, p, hp, hout, hd⟩⟩
    · obtain ⟨b, hb, hp⟩ := mem_placedAll.mp hp
      obtain ⟨name, -, hname⟩ := List.mem_filterMap.mp hb
      split at hname
      · cases hname
      · obtain ⟨t, -, rfl⟩ := Option.map_eq_some_iff.mp hname
        exact absurd hout (not_outside_of_mem_keyframesBlock hp)
  · rintro ⟨r, hr, hx⟩
    obtain ⟨b, hb, p, hp, hout, hd⟩ :=
      (animation_placed_blocks (kind_of_mem_rulesOf hr)).mpr hx
    refine ⟨p, ?_, hout, hd⟩
    rw [placedAll_append, List.mem_append]
    exact Or.inl (mem_placedAll.mpr ⟨b, mem_sourceBlocks.mpr ⟨r, hr, hb⟩, hp⟩)

theorem mem_animations {w : Written} :
    name ∈ w.animations ↔
      (∃ v, w = .literal "animation" v ∧ name.toList ∈ Text.fields v.toList) ∨
        ∃ es, w = .animation es ∧ Tree.get? es "type" = some name := by
  cases w with
  | literal k v =>
    rw [Written.animations]
    by_cases hk : k = "animation"
    · subst hk
      simp only [if_pos, List.mem_map, Written.literal.injEq, true_and, reduceCtorEq, false_and,
        exists_false, or_false, exists_eq_left']
      constructor
      · rintro ⟨word, hword, rfl⟩
        rwa [String.toList_ofList]
      · intro h
        exact ⟨_, h, String.ofList_toList⟩
    · simp [hk]
  | animation es => simp [Written.animations]
  | colors es => simp [Written.animations]

/-- The animations that the rules of sources mention, by what is emitted for them. -/
theorem mem_mentionedBy_rulesOf :
    name ∈ mentionedBy (rulesOf c extent sources) ↔
      (∃ p ∈ placedAll [] (sheetBlocks c extent sources), p.Outside ∧
          p.declaration.property = "animation" ∧
          name.toList ∈ Text.fields p.declaration.value.toList) ∨
        ∃ r ∈ rulesOf c extent sources, ∃ x ∈ r.sites, ∃ es, x.written = .animation es ∧
          Tree.get? es "type" = some name := by
  simp only [mentionedBy, List.mem_flatMap, refs_eq, mem_animations]
  constructor
  · rintro ⟨r, hr, x, hx, ⟨v, hv, hname⟩ | hes⟩
    · obtain ⟨p, hp, hout, hd⟩ :=
        (animation_placed_sheetBlocks c extent sources v).mpr ⟨r, hr, x, hx, hv⟩
      exact Or.inl ⟨p, hp, hout, by rw [hd], by rwa [hd]⟩
    · exact Or.inr ⟨r, hr, x, hx, hes⟩
  · rintro (⟨p, hp, hout, hprop, hname⟩ | ⟨r, hr, x, hx, hes⟩)
    · obtain ⟨r, hr, x, hx, hw⟩ :=
        (animation_placed_sheetBlocks c extent sources p.declaration.value).mp
          ⟨p, hp, hout, by rw [← hprop]⟩
      exact ⟨r, hr, x, hx, Or.inl ⟨_, hw, hname⟩⟩
    · exact ⟨r, hr, x, hx, Or.inr hes⟩

/-- **Which animations have keyframes in a stylesheet:** those that a source defines, and those of
the catalog that stand as a word of their own in an emitted `animation` declaration or that are the
whole type of an `animation` block. -/
theorem mem_keyframes_iff (c : Catalog) (extent : Extent) (sources : List String)
    (name : String) :
    name ∈ keyframesAll (sheetBlocks c extent sources) ↔
      name ∈ definedBy (rulesOf c extent sources) ∨
        (c.animation? name).isSome ∧
          ((∃ p ∈ placedAll [] (sheetBlocks c extent sources), p.Outside ∧
              p.declaration.property = "animation" ∧
              name.toList ∈ Text.fields p.declaration.value.toList) ∨
            ∃ r ∈ rulesOf c extent sources, ∃ x ∈ r.sites, ∃ es, x.written = .animation es ∧
              Tree.get? es "type" = some name) := by
  rw [← mem_mentionedBy_rulesOf, keyframesAll_sheetBlocks, List.mem_append, List.mem_filter,
    mem_firstOccurrences, Bool.and_eq_true, Bool.not_eq_true', List.contains_eq_mem,
    decide_eq_false_iff_not]
  by_cases hd : name ∈ definedBy (rulesOf c extent sources)
  · simp only [hd, true_or]
  · simp only [hd, false_or, not_false_eq_true, true_and]
    exact and_comm

/-- The names in a list of animations: the words of the parts between its commas. -/
def listedNames (value : String) : List String :=
  ((Text.split [','] value.toList).flatMap Text.fields).map String.ofList

/-- **An animation named in front of a comma gets no keyframes.**  The comma is read as a part of
the name, although a comma separates the animations of a list. -/
theorem listed_animation_without_keyframes :
    ¬ ∀ (c : Catalog) (extent : Extent) (sources : List String) (name : String) (p : Placed),
      p ∈ placedAll [] (sheetBlocks c extent sources) → p.Outside →
      p.declaration.property = "animation" → name ∈ listedNames p.declaration.value →
      (c.animation? name).isSome → name ∈ keyframesAll (sheetBlocks c extent sources) := by
  intro h
  let c : Catalog :=
    { animations := [("fade", [.block "from" [.literal "opacity" "0"]]),
        ("spin", [.block "to" [.literal "opacity" "1"]])] }
  let source := "@style a \x7b animation: 1s fade, 2s spin \x7d"
  have hrules : rulesOf c .matching [source] =
      [⟨.style, "a", [.literal "animation" "1s fade, 2s spin"]⟩] := by
    have hex : extractRules .matching source =
        [⟨.style, "a", " animation: 1s fade, 2s spin "⟩] := by
      simp only [source]
      cbv
    have hbody : Tree.ofBody " animation: 1s fade, 2s spin "
        = [.literal "animation" "1s fade, 2s spin"] := by cbv
    simp only [rulesOf, parsedRules, List.flatMap_cons, List.flatMap_nil, hex, List.map_cons,
      List.map_nil, List.append_nil, expand, hbody]
    rfl
  obtain ⟨p, hp, hout, hd⟩ :=
    (animation_placed_sheetBlocks c .matching [source] "1s fade, 2s spin").mpr
      ⟨_, by rw [hrules]; exact List.mem_singleton.mpr rfl,
        ⟨[], ".a", .literal "animation" "1s fade, 2s spin"⟩, List.mem_cons_self, rfl⟩
  have hmem := h c .matching [source] "fade" p hp hout (by rw [hd]) (by rw [hd]; decide) rfl
  rw [keyframesAll_sheetBlocks, hrules] at hmem
  revert hmem
  decide

end Pagesmith.Style
