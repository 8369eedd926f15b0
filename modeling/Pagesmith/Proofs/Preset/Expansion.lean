import Mathlib.Tactic
import Pagesmith.Proofs.Tree.Keep
import Pagesmith.Style.Catalog

/-!
# Expanding a preset

A rule that refers to a preset is read as the tree of its body with the preset merged in.  The
merge has two steps: the `base` block of the preset goes to the place where the rule has its bare
declarations, and after it what stands outside `base` goes to the top level.

* `mergePreset_of_base`, `mergePreset_of_no_base`: the two steps as merges of trees.
* `keeps_mergePreset`: the body stays as its author wrote it.
* `expand_keeps_body`: the same for rules of every kind, with what the preset adds.
-/

namespace Pagesmith.Style

open Style.Tree

variable {preset : Tree} {c : Catalog} {body : String}

def Tree.outsideBase (preset : Tree) : Tree :=
  preset.filter fun e => !(e.key == "base" && e.isBlock)

/-- The entries of a preset in the order in which a rule without a `base` block takes them. -/
def Tree.spread (preset : Tree) : Tree := preset.childD "base" ++ preset.outsideBase

/-- Where a rule has its bare declarations: in its `base` block if it has one, else at the top
level. -/
def Tree.basePlace (t : Tree) : List String := if (t.child? "base").isSome then ["base"] else []

def Catalog.entry? (c : Catalog) (kind : RuleKind) (t : Tree) : Option Tree :=
  match kind with
  | .style | .component => (t.get? "preset").bind fun ref => c.style? (presetName ref)
  | .theme => (t.get? "preset").bind fun ref => c.theme? (presetName ref)
  | .animation | .other => none

/-! ### The two steps -/

theorem mergePreset_of_base {t own : Tree} (h : t.child? "base" = some own) (preset : Tree) :
    mergePreset t preset
      = (t.put (.block "base" (own.merge (preset.childD "base")))).merge preset.outsideBase := by
  rw [mergePreset, childD]
  cases preset.child? "base" with
  | none =>
    have hput : t.put (.block "base" own) = t := put_eq_self (child?_eq_some.mp h)
    rw [Option.getD_none, merge_nil, hput]
    rfl
  | some base =>
    simp only [h]
    rfl

theorem mergePreset_of_no_base {t : Tree} (h : t.child? "base" = none) (preset : Tree) :
    mergePreset t preset = t.merge preset.spread := by
  rw [mergePreset, spread, childD, merge_append]
  cases preset.child? "base" with
  | none => rfl
  | some base =>
    simp only [h]
    rfl

/-- **A preset leaves the body of the rule as it is.** -/
theorem keeps_mergePreset (t preset : Tree) : Keeps t (mergePreset t preset) := by
  cases h : t.child? "base" with
  | none =>
    rw [mergePreset_of_no_base h]
    exact keeps_merge t _
  | some own =>
    rw [mergePreset_of_base h]
    exact (Keeps.put_block h (keeps_merge own _)).trans (keeps_merge _ _)

/-! ### What a preset adds -/

theorem has_mergePreset_outsideBase (t : Tree) {k : String} (h : preset.outsideBase.has k = true) :
    (mergePreset t preset).has k = true := by
  cases hb : t.child? "base" with
  | none =>
    rw [mergePreset_of_no_base hb, has_merge, spread, has_append, h, Bool.or_true, Bool.or_true]
  | some own => rw [mergePreset_of_base hb, has_merge, h, Bool.or_true]

/-- The `base` block of a preset is found at the place of the rule's bare declarations. -/
theorem exists_basePlace_mergePreset (t : Tree) {base : Tree}
    (hb : preset.child? "base" = some base) :
    ∃ place, (mergePreset t preset).at? t.basePlace = some place ∧
      ∀ k, base.has k = true → place.has k = true ∧
        (((t.at? t.basePlace).getD []).has k = false → KeepsKey k base place) := by
  have hbase : preset.childD "base" = base := by rw [childD, hb, Option.getD_some]
  rw [basePlace]
  cases h : t.child? "base" with
  | none =>
    refine ⟨_, rfl, fun k hk => ⟨?_, fun hn => ?_⟩⟩
    · rw [mergePreset_of_no_base h, has_merge, spread, hbase, has_append, hk, Bool.true_or,
        Bool.or_true]
    · rw [mergePreset_of_no_base h, spread, hbase, merge_append]
      exact (keepsKey_merge hn base).trans ((keeps_iff.mp (keeps_merge _ _)).2 k)
  | some own =>
    -- the block written into the rule is kept by the merge that follows
    have hput : (t.put (.block "base" (own.merge base))).child? "base" = some (own.merge base) :=
      child?_eq_some.mpr (by rw [find?_put]; exact if_pos rfl)
    obtain ⟨place, hp, hkeep⟩ := (keeps_merge _ preset.outsideBase).child hput
    refine ⟨place, at?_singleton ?_, fun k hk => ⟨hkeep.has ?_, fun hn => ?_⟩⟩
    · rw [mergePreset_of_base h, hbase, hp]
    · rw [has_merge, hk, Bool.or_true]
    · rw [Option.isSome_some, if_pos rfl, at?_singleton h, Option.getD_some] at hn
      exact (keepsKey_merge hn base).trans ((keeps_iff.mp hkeep).2 k)

/-! ### Rules -/

theorem expand_of_preset {kind : RuleKind} (hkind : kind = .style ∨ kind = .component)
    (h : c.entry? kind (Tree.ofBody body) = some preset) :
    expand c kind body = mergePreset (Tree.ofBody body) preset := by
  rcases hkind with rfl | rfl
  all_goals
    obtain ⟨ref, href, he⟩ := Option.bind_eq_some_iff.mp h
    simp only [expand, href, he]

theorem expand_of_theme {theme : Tree} (h : c.entry? .theme (Tree.ofBody body) = some theme) :
    expand c .theme body = (Tree.ofBody body).merge theme := by
  obtain ⟨ref, href, he⟩ := Option.bind_eq_some_iff.mp h
  simp only [expand, href, he]

theorem expand_of_no_entry {kind : RuleKind} (h : c.entry? kind (Tree.ofBody body) = none) :
    expand c kind body = Tree.ofBody body := by
  rw [expand]
  cases href : (Tree.ofBody body).get? "preset" with
  | none => rfl
  | some ref =>
    cases kind with
    | style | component =>
      rw [Catalog.entry?, href, Option.bind_some] at h
      simp only [h]
    | theme =>
      rw [Catalog.entry?, href, Option.bind_some] at h
      simp only [h]
    | animation | other => rfl

theorem keeps_expand (c : Catalog) (kind : RuleKind) (body : String) :
    Keeps (Tree.ofBody body) (expand c kind body) := by
  cases h : c.entry? kind (Tree.ofBody body) with
  | none => rw [expand_of_no_entry h]; exact .refl _
  | some entry =>
    cases kind with
    | style => rw [expand_of_preset (Or.inl rfl) h]; exact keeps_mergePreset _ entry
    | component => rw [expand_of_preset (Or.inr rfl) h]; exact keeps_mergePreset _ entry
    | theme => rw [expand_of_theme h]; exact keeps_merge _ entry
    | animation | other => cases h

/-- **Expansion never changes what the author wrote.**  The expanded tree keeps every literal and
every block of the body, with the author's keys first.  It holds every key that a style preset
defines outside its `base` block, at the place of the author's bare declarations every key of that
`base` block, and every key of a theme; what the author did not define there is the catalog's.
Without an entry to merge, as in every animation, the tree is the body's own. -/
theorem expand_keeps_body (c : Catalog) (kind : RuleKind) (body : String) :
    let t := Tree.ofBody body
    let r := expand c kind body
    Keeps t r ∧
    (∀ preset, kind = .style ∨ kind = .component → c.entry? kind t = some preset →
      (∀ k, preset.outsideBase.has k = true → r.has k = true) ∧
      (∀ base, preset.child? "base" = some base →
        ∃ place, r.at? t.basePlace = some place ∧
          ∀ k, base.has k = true → place.has k = true ∧
            (((t.at? t.basePlace).getD []).has k = false → KeepsKey k base place))) ∧
    (∀ theme, kind = .theme → c.entry? kind t = some theme →
      ∀ k, theme.has k = true → r.has k = true ∧ (t.has k = false → KeepsKey k theme r)) ∧
    (c.entry? kind t = none → r = t) ∧
    (kind = .animation ∨ kind = .other → r = t) := by
  intro t r
  refine ⟨keeps_expand c kind body, ?_, ?_, expand_of_no_entry, ?_⟩
  · intro preset hkind h
    have hr : r = mergePreset t preset := expand_of_preset hkind h
    rw [hr]
    exact ⟨fun k => has_mergePreset_outsideBase t, fun base => exists_basePlace_mergePreset t⟩
  · rintro theme rfl h k hk
    have hr : r = t.merge theme := expand_of_theme h
    rw [hr]
    exact ⟨by rw [has_merge, hk, Bool.or_true], fun hn => keepsKey_merge hn theme⟩
  · rintro (rfl | rfl) <;> exact expand_of_no_entry rfl

/-- A rule with a `base` block of its own, whose preset has one too. -/
theorem expand_keeps_body_card :
    let preset : Tree :=
      [.block "base" [.literal "radius" "15px", .literal "padding" "20px"], .block "states" []]
    let c : Catalog := { styles := [("card", preset)] }
    let r := expand c .style "preset: @card; base \x7b radius: 5px \x7d"
    r.literalAt? ["base", "radius"] = some "5px" ∧ r.literalAt? ["base", "padding"] = some "20px" ∧
      r.has "states" = true := by
  intro preset c r
  have ht : Tree.ofBody "preset: @card; base \x7b radius: 5px \x7d"
      = [.literal "preset" "@card", .block "base" [.literal "radius" "5px"]] := by cbv
  obtain ⟨hkeep, hadd, -⟩ := expand_keeps_body c .style "preset: @card; base \x7b radius: 5px \x7d"
  rw [ht] at hkeep hadd
  have he : c.entry? .style [.literal "preset" "@card", .block "base" [.literal "radius" "5px"]]
      = some preset := rfl
  obtain ⟨hout, hbase⟩ := hadd preset (Or.inl rfl) he
  obtain ⟨place, hp, hk⟩ := hbase _ rfl
  obtain ⟨own, hown, heq⟩ := at?_cons_eq_some.mp hp
  cases heq
  exact ⟨hkeep.literal ["base", "radius"] "5px" rfl,
    literalAt?_cons hown (((hk "padding" rfl).2 rfl).literal [] "20px" rfl), hout "states" rfl⟩

end Pagesmith.Style
