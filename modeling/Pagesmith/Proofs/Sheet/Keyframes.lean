import Mathlib.Tactic
import Pagesmith.Compiler
import Pagesmith.Proofs.Sheet.Content
import Pagesmith.Proofs.Text.Basic

/-!
# Keyframes of a stylesheet

A stylesheet of some sources ends with the keyframes of the catalog animations that its rules
mention and no source defines.  A site that also emits the presets of its catalog joins a second
stylesheet to it, compiled on its own, which knows nothing of the first.

* `joinCss_render`: the joined text is the text of the blocks of both.
* `keyframes_twice_iff`: when an animation has more than one block of keyframes there.
* `catalog_redefines_keyframes`: a source's keyframes that the presets define once more.
-/

namespace Pagesmith

open Pagesmith.Style

/-! ### Joined stylesheets -/

theorem leftBrace_mem_text (indent : String) (b : Block) : '\x7b' ∈ (b.text indent).toList := by
  cases b with
  | rule selector ds => simp [Block.text]
  | group head children => simp [Block.text]

theorem trim_render_ne_nil {bs : List Block} (h : bs ≠ []) : Text.trim (render bs).toList ≠ [] := by
  obtain ⟨b, bs, rfl⟩ := List.exists_cons_of_ne_nil h
  refine Text.trim_ne_nil (c := '\x7b') ?_ (by decide)
  have hb := leftBrace_mem_text "" b
  cases bs with
  | nil => simpa [render] using hb
  | cons b' bs => simp [render, hb]

/-- Between the blocks of two stylesheets that are not empty there is a line break. -/
theorem render_append {bs cs : List Block} (hb : bs ≠ []) (hc : cs ≠ []) :
    render (bs ++ cs) = render bs ++ "\n" ++ render cs := by
  have hb' : bs.map (Block.text "") ≠ [] := by simpa using hb
  have hc' : cs.map (Block.text "") ≠ [] := by simpa using hc
  rw [render, List.map_append, String.intercalate_append_of_ne_nil hb' hc']
  rfl

/-- **Two stylesheets joined are the stylesheet of the blocks of both.** -/
theorem joinCss_render (bs cs : List Block) :
    joinCss [render bs, render cs] = render (bs ++ cs) := by
  have hnil : Text.trim (render []).toList = [] := rfl
  rw [joinCss]
  by_cases hb : bs = []
  · by_cases hc : cs = []
    · subst hb hc
      rfl
    · simp [hb, hnil, trim_render_ne_nil hc]
  · by_cases hc : cs = []
    · simp [hc, hnil, trim_render_ne_nil hb]
    · simp [trim_render_ne_nil hb, trim_render_ne_nil hc, render_append hb hc]

end Pagesmith

namespace Pagesmith.Style

/-- How many blocks of keyframes an animation has where the presets of the catalog are joined to
the sources. -/
theorem count_keyframes_joined (c : Catalog) (extent : Extent) (sources : List String)
    (name : String) :
    (keyframesAll (sheetBlocks c extent sources ++ presetBlocks c c.styles.names)).count name =
      (definedBy (rulesOf c extent sources)).count name
        + (if name ∈ mentionedBy (rulesOf c extent sources) ∧
            name ∉ definedBy (rulesOf c extent sources) ∧ (c.animation? name).isSome
          then 1 else 0)
        + (if name ∈ mentionedBy (presetRules c c.styles.names) ∧ (c.animation? name).isSome
          then 1 else 0) := by
  rw [keyframesAll_append, keyframesAll_sheetBlocks, keyframesAll_presetBlocks, List.count_append,
    List.count_append, count_filter_firstOccurrences, count_filter_firstOccurrences]
  simp

/-- **When an animation has two blocks of keyframes in the joined stylesheet:** where the sources
define it twice, or where the presets mention it, the catalog has it, and the sources define or
mention it too. -/
theorem keyframes_twice_iff (c : Catalog) (extent : Extent) (sources : List String)
    (name : String) :
    let blocks := sheetBlocks c extent sources ++ presetBlocks c c.styles.names
    joinCss [compile c extent sources, compileAllPresets c] = render blocks ∧
      (1 < (keyframesAll blocks).count name ↔
        1 < (definedBy (rulesOf c extent sources)).count name ∨
          (c.animation? name).isSome ∧ name ∈ mentionedBy (presetRules c c.styles.names) ∧
            (name ∈ definedBy (rulesOf c extent sources) ∨
              name ∈ mentionedBy (rulesOf c extent sources))) := by
  refine ⟨joinCss_render _ _, ?_⟩
  rw [count_keyframes_joined]
  by_cases hc : (c.animation? name).isSome = true
  · by_cases hp : name ∈ mentionedBy (presetRules c c.styles.names)
    · by_cases hd : name ∈ definedBy (rulesOf c extent sources)
      · simp [hc, hp, hd]
      · by_cases hm : name ∈ mentionedBy (rulesOf c extent sources) <;>
          simp [hc, hp, hd, hm, List.count_eq_zero.mpr hd]
    · by_cases hd : name ∈ definedBy (rulesOf c extent sources)
      · simp [hp, hd]
      · simp only [hp, List.count_eq_zero.mpr hd, false_and, and_false, or_false, if_false]
        split <;> simp
  · simp [hc]

theorem rulesFrom_animations {extent : Extent} {ts : List Css.Token} (body : List Char)
    (h : blockBody extent ts = some (body, [])) :
    rulesFrom extent 0 (⟨.atKeyword, "@animations".toList⟩ :: ⟨.leftBrace, ['\x7b']⟩ :: ts)
      = keyframeRules extent [] (Css.tokens body) := by
  have hread : Head.read extent .animations (⟨.leftBrace, ['\x7b']⟩ :: ts)
      = ⟨keyframeRules extent [] (Css.tokens body), 0, []⟩ := by
    show HeadResult.ofBody extent _ ts = _
    rw [HeadResult.ofBody, h]
  rw [rulesFrom]
  show (Head.read extent .animations _).rules ++ rulesFrom _ _ _ = _
  rw [hread, rulesFrom, List.append_nil]

/-- **The catalog may have the last word on an animation of a source.**  The source defines `fade`,
and a preset that mentions it brings the keyframes of the catalog along. -/
theorem catalog_redefines_keyframes :
    ¬ ∀ (c : Catalog) (extent : Extent) (sources : List String) (name : String),
      (definedBy (rulesOf c extent sources)).count name ≤ 1 →
        (keyframesAll (sheetBlocks c extent sources
          ++ presetBlocks c c.styles.names)).count name ≤ 1 := by
  intro h
  let c : Catalog :=
    { styles := [("card", [.literal "animation" "fade 1s"])]
      animations := [("fade", [.block "from" [.literal "opacity" "0"]])] }
  let source := "@animations\x7bfade:\x7bfrom\x7bopacity:1\x7d\x7d\x7d"
  have hrules : extractRules .matching source
      = [⟨.animation, "fade", "from\x7bopacity:1\x7d"⟩] := by
    have hts : Css.tokens source.toList =
        ⟨.atKeyword, "@animations".toList⟩ :: ⟨.leftBrace, ['\x7b']⟩ ::
          [⟨.ident, "fade".toList⟩, ⟨.colon, [':']⟩, ⟨.leftBrace, ['\x7b']⟩,
            ⟨.ident, "from".toList⟩, ⟨.leftBrace, ['\x7b']⟩, ⟨.ident, "opacity".toList⟩,
            ⟨.colon, [':']⟩, ⟨.number, ['1']⟩, ⟨.rightBrace, ['\x7d']⟩, ⟨.rightBrace, ['\x7d']⟩,
            ⟨.rightBrace, ['\x7d']⟩] := by
      simp only [source]
      cbv
    have hinner : Css.tokens "fade:\x7bfrom\x7bopacity:1\x7d\x7d".toList =
        [⟨.ident, "fade".toList⟩, ⟨.colon, [':']⟩, ⟨.leftBrace, ['\x7b']⟩,
          ⟨.ident, "from".toList⟩, ⟨.leftBrace, ['\x7b']⟩, ⟨.ident, "opacity".toList⟩,
          ⟨.colon, [':']⟩, ⟨.number, ['1']⟩, ⟨.rightBrace, ['\x7d']⟩,
          ⟨.rightBrace, ['\x7d']⟩] := by cbv
    rw [extractRules, hts, rulesFrom_animations "fade:\x7bfrom\x7bopacity:1\x7d\x7d".toList rfl,
      hinner]
    simp [keyframeRules, blockBody, bodyFrom]
    rfl
  have hparsed : rulesOf c .matching [source] =
      [⟨.animation, "fade", expand c .animation "from\x7bopacity:1\x7d"⟩] := by
    simp only [rulesOf, parsedRules, List.flatMap_cons, List.flatMap_nil, hrules, List.map_cons,
      List.map_nil, List.append_nil]
  have hdefined : definedBy (rulesOf c .matching [source]) = ["fade"] := by
    rw [hparsed]
    rfl
  specialize h c .matching [source] "fade" (by rw [hdefined]; decide)
  rw [count_keyframes_joined, hdefined] at h
  have hpreset : "fade" ∈ mentionedBy (presetRules c c.styles.names) ∧
      (c.animation? "fade").isSome := ⟨by decide, rfl⟩
  rw [if_pos hpreset] at h
  have hcount : List.count "fade" ["fade"] = 1 := rfl
  omega

end Pagesmith.Style
