import Pagesmith.Proofs.Sheet.Stats
import Pagesmith.Proofs.Tree.Lookup

/-!
# Plain rules

A plain rule has identifiers for its name and keys and words for its values.  Every block it
becomes is legible, whatever its kind and however its states, sizes and breakpoints are nested: the
selectors stay plain, and the texts that conversion adds to a value are soft.  So the statistics of
a stylesheet of plain rules are exact.

* `ParsedRule.isPlain`: rules of identifiers and words.
* `legible_blocks`: their blocks are legible.
* `stats_render_rules`: the statistics of their stylesheet.
-/

namespace Pagesmith.Style

open Pagesmith.Css

variable {t : Tree} {k v : String} {s : List Char}

/-! ### Plain rules -/

def isWords (s : List Char) : Bool := s.all fun c => isWordChar c || c == ' '

mutual

def Entry.isPlain : Entry → Bool
  | .literal k v => isIdentifier k.toList && isWords v.toList
  | .block k es => isIdentifier k.toList && Tree.isPlain es

def Tree.isPlain : List Entry → Bool
  | [] => true
  | e :: es => e.isPlain && Tree.isPlain es

end

def ParsedRule.isPlain (r : ParsedRule) : Bool := isIdentifier r.name.toList && Tree.isPlain r.tree

theorem Tree.isPlain_iff : Tree.isPlain t = true ↔ ∀ e ∈ t, e.isPlain = true := by
  induction t with
  | nil => simp [Tree.isPlain]
  | cons e es ih => rw [Tree.isPlain, Bool.and_eq_true, ih, List.forall_mem_cons]

theorem Entry.isPlain_literal (h : (Entry.literal k v).isPlain = true) :
    isIdentifier k.toList = true ∧ isWords v.toList = true := by
  rwa [Entry.isPlain, Bool.and_eq_true] at h

theorem Entry.isPlain_block {es : Tree} (h : (Entry.block k es).isPlain = true) :
    isIdentifier k.toList = true ∧ ∀ e ∈ es, e.isPlain = true := by
  rwa [Entry.isPlain, Bool.and_eq_true, Tree.isPlain_iff] at h

/-! ### Values -/

theorem isWords_iff : isWords s = true ↔ ∀ c ∈ s, isWordChar c = true ∨ c = ' ' := by
  simp [isWords]

theorem softText_words (h : isWords s = true) : SoftText s :=
  .of_words (isWords_iff.mp h)

theorem isWords_of_subset {t : List Char} (h : isWords t = true) (hs : ∀ c ∈ s, c ∈ t) :
    isWords s = true :=
  isWords_iff.mpr fun c hc => isWords_iff.mp h c (hs c hc)

theorem softText_call {name value : String} (hn : SoftText name.toList)
    (hv : isWords value.toList = true) : SoftText (name ++ value ++ ")").toList := by
  have hparen : value.toList.head? ≠ some '(' := by
    intro hc
    rcases isWords_iff.mp hv _ (List.mem_of_head? hc) with h | h
    · exact absurd h (by decide)
    · exact absurd h (by decide)
  rw [String.toList_append, String.toList_append]
  exact (hn.append (softText_words hv) hparen).append (by decide) (by decide)

theorem softText_namedShadow {value shadow : String} (h : namedShadow? value = some shadow) :
    SoftText shadow.toList := by
  unfold namedShadow? at h
  split at h
  case h_4 => cases h
  all_goals
    obtain rfl := Option.some.inj h
    decide

theorem softText_mediaQuery {query : String} (hk : isIdentifier k.toList = true)
    (h : mediaQuery? k = some query) : SoftText query.toList := by
  unfold mediaQuery? at h
  split at h
  case h_4 =>
    split at h
    · next hc => exact absurd (List.mem_of_head? hc) (not_mem_identifier hk (by decide))
    · cases h
  all_goals
    obtain rfl := Option.some.inj h
    decide

/-! ### Declarations -/

theorem Declaration.Legible.of_identifier {p : String} (hp : isIdentifier p.toList = true)
    (hv : SoftText v.toList) : Declaration.Legible ⟨p, v⟩ := ⟨Or.inl hp, hv⟩

theorem legible_convertLayout (hv : isWords v.toList = true) :
    ∀ d ∈ convertLayout v, d.Legible := by
  simp only [convertLayout]
  generalize hcut : (Text.cut [' '] (Text.trim v.toList)).getD (Text.trim v.toList, []) = parts
  have hrest : SoftText (Text.trim parts.2) := by
    refine softText_words (isWords_of_subset hv fun c hc => ?_)
    have hmem := Text.mem_of_mem_trim hc
    cases h : Text.cut [' '] (Text.trim v.toList) with
    | none =>
      rw [h] at hcut
      rw [← hcut] at hmem
      cases hmem
    | some p =>
      rw [h] at hcut
      rw [← hcut] at hmem
      exact Text.mem_of_mem_trim (Text.mem_of_mem_cut h hmem)
  have hdefault : ∀ fallback : String, SoftText fallback.toList →
      SoftText (if String.ofList (Text.trim parts.2) = "" then fallback
        else String.ofList (Text.trim parts.2)).toList := by
    intro fallback hf
    split
    · exact hf
    · rwa [String.toList_ofList]
  split
  · exact List.forall_mem_cons.mpr ⟨.of_identifier (by decide) (by decide),
      List.forall_mem_singleton.mpr (.of_identifier (by decide) (hdefault _ (by decide)))⟩
  · split
    · exact List.forall_mem_cons.mpr ⟨.of_identifier (by decide) (by decide),
        List.forall_mem_singleton.mpr (.of_identifier (by decide) (hdefault _ (by decide)))⟩
    · exact List.forall_mem_singleton.mpr (.of_identifier (by decide) (softText_words hv))

theorem legible_convert (hk : isIdentifier k.toList = true) (hv : isWords v.toList = true) :
    ∀ d ∈ convert k v, d.Legible := by
  have hsoft : SoftText v.toList := softText_words hv
  have hone : ∀ {p value : String}, isIdentifier p.toList = true → SoftText value.toList →
      ∀ d ∈ [Declaration.mk p value], d.Legible :=
    fun hp hv => List.forall_mem_singleton.mpr (.of_identifier hp hv)
  unfold convert
  split
  case h_1 => exact legible_convertLayout hv
  case h_3 =>
    split
    · exact List.forall_mem_cons.mpr ⟨.of_identifier (by decide) (by decide),
        List.forall_mem_cons.mpr ⟨.of_identifier (by decide) (by decide),
          hone (by decide) (by decide)⟩⟩
    · exact hone (by decide) hsoft
  case h_5 =>
    refine hone (by decide) ?_
    cases h : namedShadow? v with
    | none => exact hsoft
    | some shadow => exact softText_namedShadow h
  case h_8 | h_9 => exact hone (by decide) (softText_call (by decide) hv)
  case h_10 => exact hone hk hsoft
  all_goals exact hone (by decide) hsoft

theorem softText_get? (ht : ∀ e ∈ t, e.isPlain = true) (h : t.get? k = some v) :
    SoftText v.toList :=
  softText_words (Entry.isPlain_literal (ht _ (Tree.mem_of_get? h))).2

theorem legible_convertAnimation (ht : ∀ e ∈ t, e.isPlain = true) :
    ∀ d ∈ convertAnimation t, d.Legible := by
  have hoptional : ∀ key property : String, isIdentifier property.toList = true →
      ∀ d ∈ ((t.get? key).map (Declaration.mk property)).toList, d.Legible := by
    intro key property hp d hd
    obtain ⟨v, hv, rfl⟩ := Option.map_eq_some_iff.mp (Option.mem_toList.mp hd)
    exact .of_identifier hp (softText_get? ht hv)
  have hdefault : ∀ key fallback : String, SoftText fallback.toList →
      SoftText (t.getD key fallback).toList := by
    intro key fallback hf
    rw [Tree.getD]
    cases h : t.get? key with
    | none => exact hf
    | some v => exact softText_get? ht h
  intro d hd
  simp only [convertAnimation, List.mem_append, List.mem_cons, List.not_mem_nil, or_false] at hd
  rcases hd with ((hd | rfl | rfl) | hd) | hd
  · exact hoptional _ _ (by decide) d hd
  · exact .of_identifier (by decide) (hdefault _ _ (by decide))
  · exact .of_identifier (by decide) (hdefault _ _ (by decide))
  · exact hoptional _ _ (by decide) d hd
  · exact hoptional _ _ (by decide) d hd

theorem legible_convertColors (ht : ∀ e ∈ t, e.isPlain = true) :
    ∀ d ∈ convertColors t, d.Legible := by
  intro d hd
  obtain ⟨e, he, hcolor⟩ := List.mem_filterMap.mp hd
  cases e with
  | block k es => cases hcolor
  | literal k v =>
    obtain ⟨hk, hv⟩ := Entry.isPlain_literal (ht _ he)
    unfold convertColor at hcolor
    split at hcolor
    case h_3 heq =>
      obtain ⟨rfl, rfl⟩ := Entry.literal.inj heq
      obtain rfl := Option.some.inj hcolor
      refine .of_identifier ?_ (softText_words hv)
      rw [String.toList_append]
      exact identifier_append hk (List.all_eq_true.mp rfl)
    case h_4 => cases hcolor
    all_goals
      next heq =>
      obtain ⟨-, rfl⟩ := Entry.literal.inj heq
      obtain rfl := Option.some.inj hcolor
      exact .of_identifier (by decide) (softText_words hv)

theorem legible_customProperty {lead : String} (hlead : isIdentifier lead.toList = true)
    (h : (Entry.literal k v).isPlain = true) : Declaration.Legible ⟨"--" ++ lead ++ k, v⟩ := by
  obtain ⟨hk, hv⟩ := Entry.isPlain_literal h
  refine ⟨Or.inr ⟨lead.toList ++ k.toList, identifier_append hlead fun c hc => ?_, ?_⟩,
    softText_words hv⟩
  · exact isWordChar_of_mem_identifier hk hc
  · simp

theorem legible_themeProperties (lead : String) (hlead : isIdentifier lead.toList = true)
    (ht : ∀ e ∈ t, e.isPlain = true) : ∀ d ∈ themeProperties ("--" ++ lead) t, d.Legible := by
  intro d hd
  obtain ⟨e, he, hproperty⟩ := List.mem_filterMap.mp hd
  cases e with
  | block k es => cases hproperty
  | literal k v =>
    obtain rfl := Option.some.inj hproperty
    exact legible_customProperty hlead (ht _ he)

/-! ### Blocks -/

/-- Plain entries give plain selectors, legible declarations and soft media queries. -/
theorem emissionInvariant_isPlain :
    EmissionInvariant (fun e => e.isPlain = true) PlainSelector Declaration.Legible
      (fun query => SoftText query.toList) where
  inside h := (Entry.isPlain_block h).2
  literal h := legible_convert (Entry.isPlain_literal h).1 (Entry.isPlain_literal h).2
  animation h := legible_convertAnimation (Entry.isPlain_block h).2
  colors h := legible_convertColors (Entry.isPlain_block h).2
  variant hs hm h := hs.variant hm (Entry.isPlain_block h).1
  nested hs h := hs.nested (Entry.isPlain_block h).1
  query h hq := softText_mediaQuery (Entry.isPlain_block h).1 hq

theorem Block.Built.legible {b : Block} (h : b.Built PlainSelector Declaration.Legible
    (fun query => SoftText query.toList)) : b.Legible := by
  induction h with
  | rule hs hne hd => exact .rule hs hd
  | media hq hne hall ih => exact .media hq ih

theorem legible_themeBlock (ht : ∀ e ∈ t, e.isPlain = true) : (themeBlock t).Legible := by
  have hchild : ∀ k, ∀ e ∈ t.childD k, e.isPlain = true := by
    intro k
    rw [Tree.childD]
    cases h : t.child? k with
    | none => simp
    | some es => exact (Entry.isPlain_block (ht _ (Tree.mem_of_child? h))).2
  refine .rule ⟨(':', "root".toList), [], rfl, by decide, by decide, by decide⟩ fun d hd => ?_
  rcases List.mem_append.mp hd with hd | hd
  · exact legible_themeProperties "color-" (by decide) (hchild _) d hd
  · exact legible_themeProperties "shadow-" (by decide) (hchild _) d hd

theorem legible_keyframesBlock {name : String} (hn : isIdentifier name.toList = true)
    (ht : ∀ e ∈ t, e.isPlain = true) : (keyframesBlock name t).Legible := by
  refine .keyframes hn fun b hb => ?_
  obtain ⟨e, he, hframe⟩ := List.mem_filterMap.mp hb
  cases e with
  | literal k v => cases hframe
  | block k es =>
    obtain rfl := Option.some.inj hframe
    obtain ⟨hk, hes⟩ := Entry.isPlain_block (ht _ he)
    refine .rule hk fun d hd => ?_
    obtain ⟨e, he, hd⟩ := List.mem_filterMap.mp hd
    cases e with
    | block p fs => cases hd
    | literal p v =>
      obtain rfl := Option.some.inj hd
      obtain ⟨hp, hv⟩ := Entry.isPlain_literal (hes _ he)
      exact .of_identifier hp (softText_words hv)

/-- **The blocks of a plain rule are legible,** whatever its kind. -/
theorem legible_blocks {r : ParsedRule} (h : r.isPlain = true) : ∀ b ∈ r.blocks, b.Legible := by
  obtain ⟨kind, name, t⟩ := r
  rw [ParsedRule.isPlain, Bool.and_eq_true, Tree.isPlain_iff] at h
  obtain ⟨hn, ht⟩ := h
  have hwalk : ∀ b ∈ walk (ruleSelector name) t, b.Legible := fun b hb =>
    (emissionInvariant_isPlain.walk ht (.ruleSelector hn) b hb).legible
  cases kind with
  | theme => exact List.forall_mem_singleton.mpr (legible_themeBlock ht)
  | animation => exact List.forall_mem_singleton.mpr (legible_keyframesBlock hn ht)
  | style => exact hwalk
  | component => exact hwalk
  | other => exact hwalk

/-! ### Statistics -/

/-- **The statistics of a stylesheet of plain rules are exact:** its rules outside keyframes, its
keyframes, its declarations, in each category and in all, and its classes, each once. -/
theorem stats_render_rules (rules : List ParsedRule) (h : ∀ r ∈ rules, r.isPlain = true) :
    let blocks := rules.flatMap ParsedRule.blocks
    let stats := Stats.ofCss (render blocks)
    stats.rules = (selectorsAll blocks).length ∧
      stats.keyframes = (keyframesAll blocks).length ∧
      stats.declarations = (declarationsAll blocks).length ∧
      (∀ c, stats.count c =
        (declarationsAll blocks).countP fun d => Category.ofProperty d.property = c) ∧
      stats.classes.Nodup ∧
      ∀ name, name ∈ stats.classes ↔
        ∃ selector ∈ selectorsAll blocks, name ∈ selectorClasses selector.toList := by
  intro blocks stats
  have hlegible : ∀ b ∈ blocks, b.Legible := by
    intro b hb
    obtain ⟨r, hr, hb⟩ := List.mem_flatMap.mp hb
    exact legible_blocks (h r hr) b hb
  have hstats : stats = ({} : Stats).add blocks := ofCss_render hlegible
  rw [hstats]
  refine ⟨Nat.zero_add _, Nat.zero_add _, ?_, fun c => ?_, ?_, fun name => ?_⟩
  · simp [Stats.declarations, Stats.add]
  · rw [Stats.count, Stats.add, List.count]
    exact List.countP_map
  · exact nodup_foldl_addNew _ List.nodup_nil
  · simp only [Stats.add, Stats.addClasses, mem_foldl_addNew]
    simp

def buttonRules : List ParsedRule :=
  [⟨.style, "button",
      [.literal "layout" "flex column",
        .block "states" [.block "hover" [.literal "scale" "2"]],
        .block "sizes" [.block "large" [.literal "padding" "2rem"]],
        .block "responsive" [.block "mobile" [.literal "radius" "0"]]]⟩,
    ⟨.theme, "dark", [.block "colors" [.literal "primary" "teal"]]⟩,
    ⟨.animation, "fade",
      [.block "from" [.literal "opacity" "0"], .block "to" [.literal "opacity" "1"]]⟩]

theorem stats_render_button :
    let stats := Stats.ofCss (render (buttonRules.flatMap ParsedRule.blocks))
    (∀ r ∈ buttonRules, r.isPlain = true) ∧ stats.rules = 5 ∧ stats.keyframes = 1 ∧
      stats.declarations = 8 ∧ stats.count .visual = 3 ∧
      ∀ name, name ∈ stats.classes ↔ name = "button" ∨ name = "button--large" := by
  have hmem : ∀ name : String, name ∈ ["button", "button", "button--large", "button"] ↔
      name = "button" ∨ name = "button--large" := by
    intro name
    simp only [List.mem_cons, List.not_mem_nil, or_false]
    tauto
  have hplain : ∀ r ∈ buttonRules, r.isPlain = true := by decide +kernel
  have hselectors : (selectorsAll (buttonRules.flatMap ParsedRule.blocks)).length = 5 := by
    decide +kernel
  have hanimations : (keyframesAll (buttonRules.flatMap ParsedRule.blocks)).length = 1 := by
    decide +kernel
  have hall : (declarationsAll (buttonRules.flatMap ParsedRule.blocks)).length = 8 := by
    decide +kernel
  have hvisual : (declarationsAll (buttonRules.flatMap ParsedRule.blocks)).countP
      (fun d => Category.ofProperty d.property = .visual) = 3 := by decide +kernel
  have hnames : (selectorsAll (buttonRules.flatMap ParsedRule.blocks)).flatMap
      (fun selector => selectorClasses selector.toList)
        = ["button", "button", "button--large", "button"] := by decide +kernel
  obtain ⟨hrules, hkeyframes, hdeclarations, hcount, -, hclasses⟩ :=
    stats_render_rules buttonRules hplain
  refine ⟨hplain, hrules.trans hselectors, hkeyframes.trans hanimations,
    hdeclarations.trans hall, (hcount _).trans hvisual, fun name => (hclasses name).trans ?_⟩
  rw [← List.mem_flatMap, hnames]
  exact hmem name

end Pagesmith.Style
