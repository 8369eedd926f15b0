import Pagesmith.Proofs.Emission.Basic
import Pagesmith.Proofs.Preset.Expansion
import Pagesmith.Proofs.Tree.Body

/-!
# A preset as a class and as a reference

The catalog writes a preset out as a class of its own, and a rule that refers to it has the preset
merged into its tree.  Two different mechanisms flatten the `base` block on the way: the merge
spreads it over the top level of the rule, and emission joins its declarations to those around it.
This file says when the two give the same CSS.

* `mergePreset_reference`: a rule that is only a reference takes the preset as it is, without the
  preset's own reference.
* `render_expand_reference`: the rule and the class render alike.
-/

namespace Pagesmith.Style

open Style.Tree

/-! ### The tree of a reference -/

theorem outsideBase_eq_self {preset : Tree} (hn : preset.keys.Nodup)
    (h : preset.child? "base" = none) : preset.outsideBase = preset := by
  refine List.filter_eq_self.mpr (fun e he => ?_)
  cases e with
  | literal k v => simp [Entry.isBlock]
  | block k es =>
    have hk : k ≠ "base" := by
      rintro rfl
      exact block_not_mem hn h es he
    simp [hk]

theorem outsideBase_cons {base rest : Tree} (h : "base" ∉ rest.keys) :
    outsideBase (.block "base" base :: rest) = rest := by
  have hrest : outsideBase rest = rest := by
    refine List.filter_eq_self.mpr (fun e he => ?_)
    have hk : e.key ≠ "base" := fun hk => h (mem_keys.mpr ⟨e, he, hk⟩)
    simp [hk]
  rw [outsideBase, List.filter_cons_of_neg (by simp [Entry.isBlock])]
  exact hrest

/-- A rule that is only a reference takes every entry of the preset but a reference there. -/
theorem mergePreset_reference (ref : String) {preset : Tree} (hn : preset.spread.keys.Nodup) :
    mergePreset [.literal "preset" ref] preset
      = .literal "preset" ref :: preset.spread.filter fun e => !("preset" == e.key) := by
  have hhas : ∀ k, has [.literal "preset" ref] k = ("preset" == k) := by
    intro k
    simp [has]
  have hkept : merge [.literal "preset" ref]
      (preset.spread.filter fun e => has [.literal "preset" ref] e.key)
        = [.literal "preset" ref] := by
    refine merge_of_literals (fun e he => ?_)
    have hk := (List.mem_filter.mp he).2
    rw [hhas, beq_iff_eq] at hk
    rw [← hk]
    rfl
  have hnew : (keys (preset.spread.filter fun e => !("preset" == e.key))).Nodup :=
    hn.sublist (List.filter_sublist.map Entry.key)
  rw [mergePreset_of_no_base rfl, merge_eq_append, hkept]
  simp only [hhas]
  rw [merge_nil_left hnew]
  rfl

/-! ### The CSS of a reference -/

theorem emitAll_mergePreset_reference (selector ref : String) {preset : Tree}
    (hn : preset.spread.keys.Nodup) (hb : ∀ es, .block "preset" es ∉ preset.spread) :
    emitAll selector (mergePreset [.literal "preset" ref] preset)
      = emitAll selector preset.spread := by
  rw [mergePreset_reference ref hn, emitAll_cons, emit_preset, Emitted.none_append,
    emitAll_filter_preset selector hb]

/-- **A rule that only refers to a preset renders like the preset's own class.**  The preset holds
no block named `preset`, and either no `base` block, or one in front that has a declaration of its
own and shares no key with the entries after it. -/
theorem render_expand_reference {c : Catalog} (hc : c.WellKeyed) {body ref : String} {preset : Tree}
    (hbody : Tree.ofBody body = [.literal "preset" ref])
    (href : c.style? (presetName ref) = some preset)
    (hblock : preset.child? "preset" = none)
    (hbase : preset.child? "base" = none ∨
      ∃ base rest : Tree, preset = .block "base" base :: rest ∧ base.child? "preset" = none ∧
        (∃ k v, k ≠ "preset" ∧ base.get? k = some v) ∧ ∀ k ∈ base.keys, k ∉ rest.keys)
    (name : String) :
    render (ruleBlocks .style name (expand c .style body))
      = render (ruleBlocks .style name preset) := by
  have hp : WellKeyed preset := hc.style href
  have hexp : expand c .style body = mergePreset [.literal "preset" ref] preset := by
    have he : c.entry? .style (Tree.ofBody body) = some preset := by
      rw [hbody]
      exact href
    rw [expand_of_preset (Or.inl rfl) he, hbody]
  suffices h : emitAll (ruleSelector name) (mergePreset [.literal "preset" ref] preset)
      = emitAll (ruleSelector name) preset by
    show render (walk _ _) = render (walk _ _)
    rw [hexp, walk, walk, h]
  rcases hbase with hbase | ⟨base, rest, rfl, hbblock, ⟨k, v, hk, hv⟩, hdisj⟩
  · -- without a `base` block there is nothing to flatten
    have hs : preset.spread = preset := by
      rw [spread, childD, hbase, outsideBase_eq_self hp.nodup hbase]
      rfl
    rw [emitAll_mergePreset_reference, hs]
    · rw [hs]; exact hp.nodup
    · rw [hs]; exact block_not_mem hp.nodup hblock
  · have hlevels : "base" ∉ rest.keys ∧ WellKeyed base ∧ WellKeyed rest := hp
    obtain ⟨hbk, hb, hr⟩ := hlevels
    have hs : spread (.block "base" base :: rest) = base ++ rest := by
      rw [spread, outsideBase_cons hbk]
      rfl
    have hown : (emitAll (ruleSelector name) base).own ≠ [] :=
      own_emitAll_ne_nil _ (mem_of_get? hv) hk
    rw [emitAll_mergePreset_reference, hs, emitAll_append, emitAll_cons, emit_base _ hown]
    · rw [hs, keys_append]
      exact List.nodup_append.mpr ⟨WellKeyed.nodup hb, hr.nodup,
        fun a ha b hb' hab => hdisj a ha (hab ▸ hb')⟩
    · intro es hm
      rw [hs] at hm
      rcases List.mem_append.mp hm with hm | hm
      · exact block_not_mem (WellKeyed.nodup hb) hbblock es hm
      · exact block_not_mem hp.nodup hblock es (List.mem_cons_of_mem _ hm)

/-- A preset with a `base` block and a state, read from a source. -/
theorem render_expand_reference_card :
    let c := Catalog.ofSource
      "@style card \x7b base \x7b padding: 20px \x7d &:hover \x7b color: red \x7d \x7d"
    let preset : Tree :=
      [.block "base" [.literal "padding" "20px"], .block "&:hover" [.literal "color" "red"]]
    c.style? (presetName "@card") = some preset ∧
      render (ruleBlocks .style "box" (expand c .style "preset: @card"))
        = render (ruleBlocks .style "box" preset) := by
  intro c preset
  have hc : c = { styles := [("card", preset)] } := by
    simp only [c, preset]
    cbv
  have href : c.style? (presetName "@card") = some preset := by
    rw [hc]
    rfl
  have hbody : Tree.ofBody "preset: @card" = [.literal "preset" "@card"] := by cbv
  refine ⟨href, render_expand_reference (Catalog.wellKeyed_ofSource _) hbody href rfl
    (Or.inr ⟨_, _, rfl, rfl, ⟨"padding", "20px", by decide, rfl⟩, by decide⟩) "box"⟩

end Pagesmith.Style
