import Pagesmith.Proofs.Emission.Source
import Pagesmith.Proofs.Preset.Expansion
import Pagesmith.Proofs.Tree.Body

/-!
# The cascade of an expanded rule

A browser applies the last declaration of a property.  The merge of a preset works on the keys of
the style language, and several keys give declarations of one property, so a declaration of the
author may be followed by one of the preset.  This file says when.  What the preset adds to the rule
stands behind all that the author wrote, and what it adds to a `base` or `colors` block of the
author stands behind all that the author wrote in that block.

* `mergePreset_eq_merge`: the merge of a preset as one merge of trees.
* `mem_trace_of_holds`: what an expanded tree gives at a path of the author is what the author
  wrote.
* `Tree.lastWord`: whose the last declaration of a property is, entry by entry from the end.
* `lastWord_eq`: so it is.
* `last_declaration_expand`: the last declaration of a property that the author declares.
* `preset_overrides_author`: a preset that has the last word.
-/

namespace Pagesmith.Style

open Style.Tree

variable {preset s t : Tree} {k q v : String} {e : Entry} {d : Sourced}

/-! ### The merge of a preset -/

/-- What a preset offers to a rule. -/
def Tree.offered (t preset : Tree) : Tree :=
  if (t.child? "base").isSome then .block "base" (preset.childD "base") :: preset.outsideBase
  else preset.spread

theorem mergePreset_eq_merge (t preset : Tree) :
    mergePreset t preset = t.merge (t.offered preset) := by
  rw [offered]
  cases h : t.child? "base" with
  | none => exact mergePreset_of_no_base h preset
  | some own =>
    rw [mergePreset_of_base h, Option.isSome_some, if_pos rfl, merge_cons,
      mergeInto_block (child?_eq_some.mp h)]

theorem holds_childD {path : List String} (h : (t.childD k).Holds path) :
    path = [] ∨ t.Holds (k :: path) := by
  rw [childD] at h
  cases hd : t.child? k with
  | some ds =>
    rw [hd, Option.getD_some] at h
    exact Or.inr (.of_child? hd h)
  | none =>
    rw [hd, Option.getD_none] at h
    cases path with
    | nil => exact Or.inl rfl
    | cons j path => obtain ⟨e, he, -⟩ := h; cases he

theorem holds_mergePreset {path : List String} (h : (mergePreset t preset).Holds path) :
    t.Holds path ∨ preset.Holds path ∨ preset.Holds ("base" :: path) := by
  have hout : ∀ {path}, preset.outsideBase.Holds path → preset.Holds path :=
    Holds.mono (List.filter_subset_self _)
  rw [mergePreset_eq_merge, offered] at h
  rcases holds_merge h with h | h
  · exact Or.inl h
  split at h
  · next hbase =>
    obtain ⟨own, hown⟩ := Option.isSome_iff_exists.mp hbase
    rcases holds_append (t := [_]) h with h | h
    · cases path with
      | nil => exact Or.inl trivial
      | cons j path =>
        obtain ⟨e, he, rfl, hh⟩ := h
        rw [List.mem_singleton.mp he] at hh ⊢
        rcases holds_childD hh with rfl | hh
        · exact Or.inl (.of_child? hown trivial)
        · exact Or.inr (Or.inl hh)
    · exact Or.inr (Or.inl (hout h))
  · rcases holds_append h with h | h
    · rcases holds_childD h with rfl | h
      · exact Or.inl trivial
      · exact Or.inr (Or.inr h)
    · exact Or.inr (Or.inl (hout h))

/-! ### What the author wrote -/

theorem mem_traceAnimation_of_holds (ht : t.keys.Nodup) (h : d ∈ traceAnimation (t.merge s))
    (hh : t.Holds d.path) : d ∈ traceAnimation t := by
  have hget : ∀ key, (t.merge s).get? key = t.get? key ∨ t.get? key = none ∧ ¬ t.Holds [key] := by
    intro key
    cases hkey : t.has key with
    | true => exact .inl (get?_merge_of_has ht hkey s)
    | false =>
      refine .inr ⟨by rw [get?, has_eq_false.mp hkey], fun hheld => ?_⟩
      rw [has_iff.mpr hheld.head] at hkey
      cases hkey
  have hoptional : ∀ {key property},
      d ∈ (((t.merge s).get? key).map fun v => Sourced.mk [key] ⟨property, v⟩).toList →
      d ∈ ((t.get? key).map fun v => Sourced.mk [key] ⟨property, v⟩).toList := by
    intro key property hd
    rcases hget key with heq | ⟨-, hfree⟩
    · rwa [heq] at hd
    · obtain ⟨v, -, rfl⟩ := Option.map_eq_some_iff.mp (Option.mem_toList.mp hd)
      exact absurd hh hfree
  simp only [traceAnimation, List.mem_append, List.mem_cons, List.not_mem_nil, or_false] at h ⊢
  refine h.imp (Or.imp (Or.imp hoptional (Or.imp (fun hd => ?_) fun hd => ?_)) hoptional) hoptional
  -- where the author has no entry, what holds at no path is the fallback
  · rcases hget "duration" with heq | ⟨hnone, hfree⟩
    · rwa [heq] at hd
    · rw [hnone]
      split at hd
      · rw [hd] at hh
        exact absurd hh hfree
      · exact hd
  · rcases hget "timing" with heq | ⟨hnone, hfree⟩
    · rwa [heq] at hd
    · rw [hnone]
      split at hd
      · rw [hd] at hh
        exact absurd hh hfree
      · exact hd

theorem mem_traceColor_of_holds (ht : t.keys.Nodup) (h : d ∈ (t.merge s).filterMap traceColor)
    (hh : t.Holds d.path) : d ∈ t.filterMap traceColor := by
  obtain ⟨e, he, hd⟩ := List.mem_filterMap.mp h
  rw [path_of_mem_traceColor hd] at hh
  rcases mem_merge_cases ht he with hnew | ⟨x, hx, rfl⟩
  · rw [has_iff.mpr hh.head] at hnew
    cases hnew
  · cases x with
    | literal k v => exact List.mem_filterMap.mpr ⟨_, hx, hd⟩
    | block k ds => cases hd

/-- An entry whose key the author has is one of the author, with its block merged. -/
theorem exists_mergedWith_of_holds (ht : t.keys.Nodup) {p : List String} (he : e ∈ t.merge s)
    (hh : t.Holds (e.key :: p)) : ∃ x ∈ t, e = x.mergedWith s ∧ x.inner.Holds p := by
  rcases mem_merge_cases ht he with hnew | ⟨x, hx, rfl⟩
  · rw [has_iff.mpr hh.head] at hnew
    cases hnew
  · rw [Entry.key_mergedWith] at hh
    exact ⟨x, hx, rfl, hh.inner ht hx⟩

/-- **What a merged tree gives at a path of the author is what the author wrote there**, in a rule
and in variants of it. -/
theorem mem_trace_of_holds (ht : WellKeyed t) :
    (∀ s selector, ∀ d ∈ (traceAll selector (t.merge s)).all, t.Holds d.path →
      d ∈ (traceAll selector t).all) ∧
    ∀ s selector mark,
      ∀ d ∈ (traceVariants selector mark (t.merge s)).flatMap SourcedBlock.declarations,
      t.Holds d.path → d ∈ (traceVariants selector mark t).flatMap SourcedBlock.declarations := by
  induction t using Tree.blockInd with
  | step t ih =>
    refine ⟨fun s selector d hd hh => ?_, fun s selector mark d hd hh => ?_⟩
    · obtain ⟨e, he, hd⟩ := (mem_all_traceAll selector).mp hd
      obtain ⟨p, hp⟩ := path_of_mem_trace selector hd
      rw [hp] at hh
      obtain ⟨x, hx, rfl, hin⟩ := exists_mergedWith_of_holds ht.nodup he hh
      refine (mem_all_traceAll selector).mpr ⟨x, hx, ?_⟩
      cases x with
      | literal k v => exact hd
      | block k ds =>
        have hds := ht.of_mem hx
        rw [Entry.mergedWith, trace_block, Traced.all_under] at hd
        obtain ⟨y, hy, rfl⟩ := List.mem_map.mp hd
        obtain rfl : y.path = p := (List.cons.inj hp).2
        rw [trace_block, Traced.all_under]
        refine List.mem_map_of_mem ?_
        obtain h | h | ⟨inner, h⟩ | ⟨mark, h⟩ | h := inside_cases selector k <;> rw [h] at hy ⊢
        · exact mem_traceAnimation_of_holds hds.nodup hy hin
        · exact mem_traceColor_of_holds hds.nodup hy hin
        · exact (ih k ds hx hds).1 _ inner y hy hin
        · exact (ih k ds hx hds).2 _ selector mark y hy hin
        · cases hy
    · obtain ⟨k, ds, he, hd⟩ := (mem_traceVariants selector).mp hd
      obtain ⟨y, hy, rfl⟩ := List.mem_map.mp hd
      obtain ⟨x, hx, hxe, hin⟩ := exists_mergedWith_of_holds ht.nodup he hh
      cases x with
      | literal j v => cases hxe
      | block j cs =>
        cases hxe
        exact (mem_traceVariants selector).mpr ⟨k, cs, hx,
          List.mem_map_of_mem ((ih k cs hx (ht.of_mem hx)).1 _ _ y hy hin)⟩

/-! ### Who has the last word -/

inductive Owner where
  | author
  | preset
  deriving DecidableEq, Repr

/-- Whose a declaration is, where the author alone makes some. -/
def ownerAmong (ds : List Sourced) (d : Sourced) : Owner := if d ∈ ds then .author else .preset

def gives (q : String) (ds : List Sourced) : Bool := ds.any (·.declaration.property == q)

mutual

/-- Whose the last declaration of a property is that an entry of the author gives to the rule when
a tree is merged into it.  What is added to a `base` or `colors` block comes last in it.  A `base`
block without declarations may pass on those of the first rule inside, and an `animation` block
gives each property once. -/
def Entry.lastWord (selector q : String) (s : Tree) : Entry → Option Owner
  | .literal k v => if gives q ((Entry.literal k v).trace selector).own then some .author else none
  | .block k ds =>
    let es := s.contents k
    let merged := Tree.merge ds es
    if k = "base" ∧ (traceAll selector merged).own ≠ [] then
      if (Tree.additions ds es).any fun e => gives q (e.trace selector).own then some .preset
      else lastWordAmong selector q es ds
    else if k = "colors" ∧ (Tree.additions ds es).any (fun e => gives q (traceColor e).toList) then
      some .preset
    else (applied? q (inside selector k merged).own).map (ownerAmong (inside selector k ds).all)

def lastWordAmong (selector q : String) (s : Tree) : List Entry → Option Owner
  | [] => none
  | e :: es => (lastWordAmong selector q s es).or (e.lastWord selector q s)

end

/-- Whose the last declaration of a property is in a rule of the author into which a tree is merged:
the preset's if it adds one to the rule. -/
def Tree.lastWord (selector q : String) (t s : Tree) : Option Owner :=
  if (t.additions s).any fun e => gives q (e.trace selector).own then some .preset
  else lastWordAmong selector q s t

theorem applied?_eq_none_iff {ds : List Sourced} : applied? q ds = none ↔ gives q ds = false := by
  rw [applied?_eq_none, gives, List.any_eq_false]
  simp

theorem ownerAmong_congr {d' : Sourced} {ds es : List Sourced} (h : d ∈ ds ↔ d' ∈ es) :
    ownerAmong ds d = ownerAmong es d' := by
  simp only [ownerAmong, h]

/-- What a merge adds comes last, and it is not the author's. -/
theorem applied?_merge {f : Entry → List Sourced} {own : List Sourced} (ht : t.keys.Nodup)
    (hf : ∀ e, ∀ d ∈ f e, ∃ p, d.path = e.key :: p) (hown : ∀ d ∈ own, t.Holds d.path) (q : String)
    (s : Tree) :
    (applied? q ((t.merge s).flatMap f)).map (ownerAmong own)
      = if (t.additions s).any fun e => gives q (f e) then some .preset
        else (applied? q ((t.map (Entry.mergedWith s)).flatMap f)).map (ownerAmong own) := by
  have hany : gives q ((t.additions s).flatMap f) = (t.additions s).any fun e => gives q (f e) :=
    List.any_flatMap
  rw [merge_eq_map_append ht, List.flatMap_append, applied?_append]
  cases ha : applied? q ((t.additions s).flatMap f) with
  | none => rw [Option.none_or, ← hany, applied?_eq_none_iff.mp ha, if_neg Bool.false_ne_true]
  | some w =>
    have hgives : gives q ((t.additions s).flatMap f) = true := by
      rw [← Bool.not_eq_false, ← applied?_eq_none_iff, ha]
      exact Option.some_ne_none w
    have hnot : w ∉ own := by
      intro hw
      obtain ⟨e, he, hwe⟩ := List.mem_flatMap.mp (mem_of_applied? ha).1
      obtain ⟨p, hp⟩ := hf e w hwe
      have hholds := hown w hw
      rw [hp] at hholds
      have hnew := has_of_mem_additions he
      rw [has_iff.mpr hholds.head] at hnew
      cases hnew
    rw [Option.some_or, Option.map_some, ← hany, hgives, if_pos rfl, ownerAmong, if_neg hnot]

theorem path_of_mem_own (selector : String) (e : Entry) (d : Sourced)
    (h : d ∈ (e.trace selector).own) : ∃ p, d.path = e.key :: p :=
  path_of_mem_trace selector (List.mem_append_left _ h)

variable {selector : String}

/-- The rule and a `base` block of it, from their entries. -/
theorem lastWord_of_among (ht : t.keys.Nodup)
    (h : lastWordAmong selector q s t = (applied? q ((t.map (Entry.mergedWith s)).flatMap fun e =>
      (e.trace selector).own)).map (ownerAmong (traceAll selector t).all)) :
    t.lastWord selector q s = (applied? q (traceAll selector (t.merge s)).own).map
      (ownerAmong (traceAll selector t).all) := by
  rw [own_traceAll, applied?_merge ht (path_of_mem_own selector)
    ((holds_of_mem_trace t).1 selector), Tree.lastWord, h]

theorem own_inside_base {es : Tree} (h : (traceAll selector es).own ≠ []) :
    (inside selector "base" es).own = (traceAll selector es).own := by
  obtain ⟨d, ds, hown⟩ := List.exists_cons_of_ne_nil h
  simp [inside, Traced.blocks, hown, Traced.ofBlocks]

theorem lastWord_literal (k v : String) :
    (Entry.literal k v).lastWord selector q s
      = (applied? q (((Entry.literal k v).mergedWith s).trace selector).own).map
        (ownerAmong ((Entry.literal k v).trace selector).all) := by
  rw [Entry.lastWord, Entry.mergedWith]
  cases ha : applied? q ((Entry.literal k v).trace selector).own with
  | none => rw [applied?_eq_none_iff.mp ha, if_neg Bool.false_ne_true, Option.map_none]
  | some w =>
    have hgives : gives q ((Entry.literal k v).trace selector).own = true := by
      rw [← Bool.not_eq_false, ← applied?_eq_none_iff, ha]
      exact Option.some_ne_none w
    have hw : w ∈ ((Entry.literal k v).trace selector).all :=
      List.mem_append_left _ (mem_of_applied? ha).1
    rw [hgives, if_pos rfl, Option.map_some, ownerAmong, if_pos hw]

/-- What a merge adds to a block of colors comes last in it. -/
theorem applied?_inside_colors (ht : t.keys.Nodup) (q : String) (s : Tree) :
    (applied? q (inside selector "colors" (t.merge s)).own).map
        (ownerAmong (inside selector "colors" t).all)
      = if (t.additions s).any fun e => gives q (traceColor e).toList then some .preset
        else (applied? q ((t.map (Entry.mergedWith s)).flatMap fun e => (traceColor e).toList)).map
          (ownerAmong (inside selector "colors" t).all) := by
  have hown : (inside selector "colors" (t.merge s)).own
      = (t.merge s).flatMap fun e => (traceColor e).toList := List.filterMap_eq_flatMap_toList _ _
  have hpath : ∀ e, ∀ d ∈ (traceColor e).toList, ∃ p, d.path = e.key :: p := fun e d hd =>
    ⟨[], path_of_mem_traceColor (Option.mem_toList.mp hd)⟩
  have hall : (inside selector "colors" t).all = t.filterMap traceColor := by
    simp [inside, Traced.all]
  rw [hown, applied?_merge ht hpath]
  intro d hd
  rw [hall] at hd
  obtain ⟨e, he, hd⟩ := List.mem_filterMap.mp hd
  rw [path_of_mem_traceColor hd]
  exact holds_singleton.mpr (key_mem_keys he)

/-- A block, from what is said of its entries. -/
theorem lastWord_block {ds : Tree} (hds : ds.keys.Nodup)
    (h : ∀ s, lastWordAmong selector q s ds
      = (applied? q ((ds.map (Entry.mergedWith s)).flatMap fun e => (e.trace selector).own)).map
        (ownerAmong (traceAll selector ds).all)) (k : String) :
    (Entry.block k ds).lastWord selector q s
      = (applied? q (((Entry.block k ds).mergedWith s).trace selector).own).map
        (ownerAmong ((Entry.block k ds).trace selector).all) := by
  have hinside : (Entry.block k ds).lastWord selector q s
      = (applied? q (inside selector k (ds.merge (s.contents k))).own).map
        (ownerAmong (inside selector k ds).all) := by
    rw [Entry.lastWord]
    split
    · next hbase =>
      obtain ⟨rfl, hne⟩ := hbase
      have hall : (inside selector "base" ds).all = (traceAll selector ds).all := by
        rw [inside, if_neg (by decide), if_neg (by decide), if_pos rfl, Traced.all_ofBlocks,
          Traced.flatMap_blocks]
      rw [own_inside_base hne, hall]
      exact lastWord_of_among hds (h _)
    · split
      · next hcolors =>
        obtain ⟨rfl, hany⟩ := hcolors
        rw [applied?_inside_colors hds, if_pos hany]
      · rfl
  have hinj : Function.Injective (Sourced.under k) := by
    rintro ⟨p, x⟩ ⟨p', x'⟩ heq
    cases heq
    rfl
  rw [hinside, Entry.mergedWith, trace_block, trace_block, Traced.all_under]
  show _ = (applied? q (List.map _ _)).map _
  rw [applied?_map_under, Option.map_map]
  refine Option.map_congr fun d _ => ?_
  exact ownerAmong_congr (List.mem_map_of_injective hinj).symm

theorem lastWordAmong_cons {es : Tree} (hkey : e.key ∉ es.keys)
    (he : e.lastWord selector q s = (applied? q ((e.mergedWith s).trace selector).own).map
      (ownerAmong (e.trace selector).all))
    (hes : lastWordAmong selector q s es
      = (applied? q ((es.map (Entry.mergedWith s)).flatMap fun e => (e.trace selector).own)).map
        (ownerAmong (traceAll selector es).all)) :
    lastWordAmong selector q s (e :: es)
      = (applied? q (((e :: es).map (Entry.mergedWith s)).flatMap fun e =>
        (e.trace selector).own)).map (ownerAmong (traceAll selector (e :: es)).all) := by
  have hhead : ∀ {d : Sourced} {k : String} {p : List String}, d.path = k :: p →
      d ∈ (traceAll selector es).all → k ∈ es.keys := by
    intro d k p hp hd
    have hholds := (holds_of_mem_trace es).1 selector d hd
    rw [hp] at hholds
    exact hholds.head
  rw [lastWordAmong, hes, he, List.map_cons, List.flatMap_cons, applied?_append, Option.map_or]
  -- paths that start with the key of the one are not those of the other
  congr 1
  · refine Option.map_congr fun d hd => ownerAmong_congr ?_
    obtain ⟨x, hx, hd⟩ := List.mem_flatMap.mp (mem_of_applied? hd).1
    obtain ⟨y, hy, rfl⟩ := List.mem_map.mp hx
    obtain ⟨p, hp⟩ := path_of_mem_own selector _ _ hd
    rw [Entry.key_mergedWith] at hp
    rw [traceAll, Traced.mem_all_append, or_iff_right]
    intro hfirst
    obtain ⟨p', hp'⟩ := path_of_mem_trace selector hfirst
    exact hkey ((List.cons.inj (hp'.symm.trans hp)).1 ▸ key_mem_keys hy)
  · refine Option.map_congr fun d hd => ownerAmong_congr ?_
    obtain ⟨p, hp⟩ := path_of_mem_own selector _ _ (mem_of_applied? hd).1
    rw [Entry.key_mergedWith] at hp
    rw [traceAll, Traced.mem_all_append, or_iff_left]
    exact fun hrest => hkey (hhead hp hrest)

theorem lastWordAmong_eq (ht : WellKeyed t) (q : String) (s : Tree) :
    lastWordAmong selector q s t = (applied? q ((t.map (Entry.mergedWith s)).flatMap fun e =>
      (e.trace selector).own)).map (ownerAmong (traceAll selector t).all) := by
  induction t using Tree.ind generalizing s with
  | nil => rw [lastWordAmong]; rfl
  | literal k v es ih =>
    obtain ⟨hkey, -, hes⟩ := ht
    exact lastWordAmong_cons hkey (lastWord_literal k v) (ih hes s)
  | block k ds es ihd ih =>
    obtain ⟨hkey, hds, hes⟩ := ht
    exact lastWordAmong_cons hkey (lastWord_block (WellKeyed.nodup hds) (ihd hds) k) (ih hes s)

/-- **Who has the last word on a property.**  It is the author if and only if the author alone makes
the last declaration. -/
theorem lastWord_eq (ht : WellKeyed t) (selector q : String) (s : Tree) :
    t.lastWord selector q s = (applied? q (traceAll selector (t.merge s)).own).map
      (ownerAmong (traceAll selector t).all) :=
  lastWord_of_among ht.nodup (lastWordAmong_eq ht q s)

/-! ### Rules -/

theorem exists_applied?_of_literal (hmem : .literal k v ∈ t) (hne : k ≠ "preset")
    (hq : q ∈ (convert k v).map Declaration.property) (selector : String) :
    ∃ w, applied? q (traceAll selector t).own = some w := by
  refine Option.ne_none_iff_exists'.mp fun hnone => ?_
  obtain ⟨x, hx, hxq⟩ := List.mem_map.mp hq
  refine applied?_eq_none.mp hnone ⟨[k], x⟩ ?_ hxq
  rw [own_traceAll]
  refine List.mem_flatMap.mpr ⟨_, hmem, ?_⟩
  rw [Entry.trace, if_neg hne]
  exact List.mem_map_of_mem hx

/-- The block of the selector itself comes first. -/
theorem exists_walk_eq_cons (h : (traceAll selector t).own ≠ []) :
    ∃ nested, walk selector t
      = .rule selector ((traceAll selector t).own.map Sourced.declaration) :: nested := by
  have hown : (emitAll selector t).own = (traceAll selector t).own.map Sourced.declaration := by
    rw [← erase_traceAll]
    rfl
  refine ⟨(emitAll selector t).nested, ?_⟩
  rw [walk, Emitted.blocks_of_own (by rwa [hown, Ne, List.map_eq_nil_iff]), hown]

/-- **The last declaration of a property that the author declares.**  The block of a rule's own
selector comes first and has a declaration of the property.  The last one is made by the author's
body, with the value that the author wrote, or it is the preset's and stands where the author wrote
nothing.  Which of the two is told by `Tree.lastWord`. -/
theorem last_declaration_expand {c : Catalog} {kind : RuleKind} {body : String} {preset : Tree}
    (hkind : kind = .style ∨ kind = .component)
    (hentry : c.entry? kind (Tree.ofBody body) = some preset) {k v q : String}
    (hk : (Tree.ofBody body).get? k = some v) (hne : k ≠ "preset")
    (hq : q ∈ (convert k v).map Declaration.property) (name : String) :
    let t := Tree.ofBody body
    let selector := ruleSelector name
    let own := (traceAll selector (expand c kind body)).own
    (∃ nested, ruleBlocks kind name (expand c kind body)
      = .rule selector (own.map Sourced.declaration) :: nested) ∧
    ∃ w, applied? q own = some w ∧
      (t.lastWord selector q (t.offered preset) = some .author ∧ w ∈ (traceAll selector t).all ∨
        t.lastWord selector q (t.offered preset) = some .preset ∧ ¬ t.Holds w.path ∧
          (preset.Holds w.path ∨ preset.Holds ("base" :: w.path))) := by
  intro t selector own
  have ht : WellKeyed t := Tree.wellKeyed_ofBody body
  have hr : expand c kind body = t.merge (t.offered preset) :=
    (expand_of_preset hkind hentry).trans (mergePreset_eq_merge t preset)
  obtain ⟨w, hw⟩ : ∃ w, applied? q own = some w := by
    refine exists_applied?_of_literal ?_ hne hq selector
    rw [hr, merge_eq_map_append ht.nodup]
    exact List.mem_append_left _ (List.mem_map.mpr ⟨_, mem_of_get? hk, rfl⟩)
  have hm : w ∈ own := (mem_of_applied? hw).1
  refine ⟨?_, w, hw, ?_⟩
  · have hwalk : ruleBlocks kind name (expand c kind body)
        = walk selector (expand c kind body) := by
      rcases hkind with rfl | rfl <;> rfl
    rw [hwalk]
    exact exists_walk_eq_cons (List.ne_nil_of_mem hm)
  · have hlast := lastWord_eq ht selector q (t.offered preset)
    rw [← hr, show applied? q (traceAll selector (expand c kind body)).own = some w from hw,
      Option.map_some, ownerAmong] at hlast
    split at hlast
    · next hauthor => exact .inl ⟨hlast, hauthor⟩
    · next hpreset =>
      have hnot : ¬ t.Holds w.path := by
        intro hh
        refine hpreset ((mem_trace_of_holds ht).1 (t.offered preset) selector w ?_ hh)
        rw [← hr]
        exact List.mem_append_left _ hm
      have hheld := holds_of_mem_own selector hm
      rw [expand_of_preset hkind hentry] at hheld
      exact .inr ⟨hlast, hnot, (holds_mergePreset hheld).resolve_left hnot⟩

/-- The author has the last word on the color, inside the block `base`, and the preset on the
padding, which it adds to that block. -/
theorem last_declaration_expand_base :
    let preset : Tree := [.block "base" [.literal "padding" "20px", .literal "color" "red"]]
    let c : Catalog := { styles := [("card", preset)] }
    let body := "preset: card; padding: 0; color: red; base \x7b color: blue \x7d"
    let t : Tree := [.literal "preset" "card", .literal "padding" "0", .literal "color" "red",
      .block "base" [.literal "color" "blue"]]
    let own := (traceAll ".box" (expand c .style body)).own
    Tree.ofBody body = t ∧
      (∃ w, applied? "color" own = some w ∧ w ∈ (traceAll ".box" t).all) ∧
      ∃ w, applied? "padding" own = some w ∧ ¬ t.Holds w.path := by
  intro preset c body t own
  have ht : Tree.ofBody body = t := by
    simp only [body, t]
    cbv
  have he : c.entry? .style (Tree.ofBody body) = some preset := by
    rw [ht]
    rfl
  have hcolor : t.lastWord ".box" "color" (t.offered preset) = some .author := by decide +kernel
  have hpadding : t.lastWord ".box" "padding" (t.offered preset) = some .preset := by
    decide +kernel
  obtain ⟨-, w, hw, hlast⟩ := last_declaration_expand (k := "color") (v := "red") (q := "color")
    (Or.inl rfl) he (by rw [ht]; rfl) (by decide) (by decide) "box"
  obtain ⟨-, w', hw', hlast'⟩ := last_declaration_expand (k := "padding") (v := "0")
    (q := "padding") (Or.inl rfl) he (by rw [ht]; rfl) (by decide) (by decide) "box"
  have hbox : ruleSelector "box" = ".box" := by decide +kernel
  rw [ht, hbox] at hlast hlast'
  rw [hcolor] at hlast
  rw [hpadding] at hlast'
  refine ⟨ht, ⟨w, hw, ?_⟩, w', hw', ?_⟩
  · rcases hlast with h | h
    · exact h.2
    · cases h.1
  · rcases hlast' with h | h
    · cases h.1
    · exact h.2.1

/-- **A preset may have the last word.**  The key `shadow` of the preset gives the same property as
the author's `box-shadow`, and its declaration is added after the author's. -/
theorem preset_overrides_author :
    ¬ ∀ (c : Catalog) (kind : RuleKind) (name body : String) (preset : Tree) (k v q : String),
      kind = .style ∨ kind = .component → c.entry? kind (Tree.ofBody body) = some preset →
      (Tree.ofBody body).get? k = some v → k ≠ "preset" →
      q ∈ (convert k v).map Declaration.property →
      ∀ w, applied? q (traceAll (ruleSelector name) (expand c kind body)).own = some w →
        w ∈ (traceAll (ruleSelector name) (Tree.ofBody body)).all := by
  intro h
  have ht : Tree.ofBody "preset: card; box-shadow: none"
      = [.literal "preset" "card", .literal "box-shadow" "none"] := by cbv
  let preset : Tree := [.block "base" [.literal "shadow" "medium"]]
  let c : Catalog := { styles := [("card", preset)] }
  have he : c.entry? .style (Tree.ofBody "preset: card; box-shadow: none") = some preset := by
    rw [ht]; rfl
  have hr : expand c .style "preset: card; box-shadow: none"
      = [.literal "preset" "card", .literal "box-shadow" "none", .literal "shadow" "medium"] := by
    rw [expand_of_preset (Or.inl rfl) he, ht]
    rfl
  specialize h c .style "x" "preset: card; box-shadow: none" preset "box-shadow" "none" "box-shadow"
    (Or.inl rfl) he (by rw [ht]; rfl) (by decide) (by decide)
    ⟨["shadow"], ⟨"box-shadow", "0 4px 8px rgba(0,0,0,0.1)"⟩⟩ (by rw [hr]; rfl)
  rw [ht] at h
  revert h
  decide +kernel

end Pagesmith.Style
