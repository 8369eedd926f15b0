import Pagesmith.Proofs.Tree.Merge

/-!
# What a tree keeps of another

`Tree.Keeps t r` says that `r` still holds everything that `t` holds: the same literal at every
path that ends in a literal, and at every path that ends in a block a block that begins with the
same keys.  `Tree.KeepsKey k t r` says it of the paths that start with `k`.

* `Tree.keeps_iff`: a tree is kept if its keys come first and each of them is kept.
* `Tree.keeps_merge`: a merge keeps its left tree.
* `Tree.keepsKey_merge`: it keeps the keys of its right tree that are new to the left one.

Nothing here asks for distinct keys.
-/

namespace Pagesmith.Style

variable {path : List String} {ds es : Tree} {e : Entry}

namespace Tree

/-- Everything that `t` holds is held by `r`, and the keys that `r` adds come last. -/
structure Keeps (t r : Tree) : Prop where
  literal : ∀ path v, t.literalAt? path = some v → r.literalAt? path = some v
  block : ∀ path ds, t.at? path = some ds → ∃ es, r.at? path = some es ∧ ds.keys <+: es.keys

structure KeepsKey (k : String) (t r : Tree) : Prop where
  literal : ∀ path v, t.literalAt? (k :: path) = some v → r.literalAt? (k :: path) = some v
  block : ∀ path ds, t.at? (k :: path) = some ds →
    ∃ es, r.at? (k :: path) = some es ∧ ds.keys <+: es.keys

theorem keeps_iff {t r : Tree} : Keeps t r ↔ t.keys <+: r.keys ∧ ∀ k, KeepsKey k t r := by
  constructor
  · intro h
    obtain ⟨es, he, hk⟩ := h.block [] t rfl
    cases he
    exact ⟨hk, fun k => ⟨fun path => h.literal (k :: path), fun path => h.block (k :: path)⟩⟩
  · rintro ⟨hk, h⟩
    refine ⟨fun path v hv => ?_, fun path ds hd => ?_⟩
    · cases path with
      | nil => cases hv
      | cons k path => exact (h k).literal path v hv
    · cases path with
      | nil => cases hd; exact ⟨r, rfl, hk⟩
      | cons k path => exact (h k).block path ds hd

namespace KeepsKey

variable {k : String} {t r s : Tree}

theorem trans (h : KeepsKey k t r) (h' : KeepsKey k r s) : KeepsKey k t s := by
  refine ⟨fun path v hv => h'.literal path v (h.literal path v hv), fun path ds hd => ?_⟩
  obtain ⟨es, he, hk⟩ := h.block path ds hd
  obtain ⟨fs, hf, hk'⟩ := h'.block path es he
  exact ⟨fs, hf, hk.trans hk'⟩

theorem of_find?_eq (h : t.find? k = r.find? k) : KeepsKey k t r := by
  have hc : t.child? k = r.child? k := by rw [child?, child?, h]
  refine ⟨fun path v hv => ?_, fun path ds hd => ⟨ds, ?_, List.prefix_rfl⟩⟩
  · cases path with
    | nil => rwa [literalAt?, get?, h] at hv
    | cons k' path => rwa [literalAt?, hc] at hv
  · rwa [at?, hc] at hd

/-- A block is kept by a block that keeps its entries. -/
theorem of_child? (hd : t.child? k = some ds) (he : r.child? k = some es) (h : Keeps ds es) :
    KeepsKey k t r := by
  refine ⟨fun path v hv => ?_, fun path cs hc => ?_⟩
  · cases path with
    | nil =>
      rw [literalAt?, get?_eq_some, child?_eq_some.mp hd] at hv
      cases hv
    | cons k' path =>
      rw [literalAt?, hd] at hv
      exact literalAt?_cons he (h.literal (k' :: path) v hv)
  · obtain ⟨ds', hd', hc⟩ := at?_cons_eq_some.mp hc
    cases hd.symm.trans hd'
    obtain ⟨fs, hf, hk⟩ := h.block path cs hc
    exact ⟨fs, at?_cons_eq_some.mpr ⟨es, he, hf⟩, hk⟩

end KeepsKey

namespace Keeps

variable {t r s : Tree}

theorem refl (t : Tree) : Keeps t t := ⟨fun _ _ h => h, fun _ ds h => ⟨ds, h, List.prefix_rfl⟩⟩

theorem trans (h : Keeps t r) (h' : Keeps r s) : Keeps t s :=
  keeps_iff.mpr ⟨(keeps_iff.mp h).1.trans (keeps_iff.mp h').1,
    fun k => ((keeps_iff.mp h).2 k).trans ((keeps_iff.mp h').2 k)⟩

theorem has (h : Keeps t r) {k : String} (hk : t.has k = true) : r.has k = true :=
  has_iff.mpr ((keeps_iff.mp h).1.subset (has_iff.mp hk))

theorem append (t s : Tree) : Keeps t (t ++ s) := by
  refine keeps_iff.mpr ⟨by rw [keys_append]; exact List.prefix_append _ _, fun k => ?_⟩
  cases h : t.find? k with
  | some e => exact .of_find?_eq (by rw [find?_append, h, Option.some_or])
  | none =>
    -- nothing is held under the key, so there is nothing to keep
    have hc : t.child? k = none := by rw [child?, h]
    refine ⟨fun path v hv => ?_, fun path ds hd => ?_⟩
    · cases path with
      | nil => rw [literalAt?, get?, h] at hv; cases hv
      | cons k' path => rw [literalAt?, hc] at hv; cases hv
    · rw [at?, hc] at hd
      cases hd

theorem child (h : Keeps t r) {k : String} (hd : t.child? k = some ds) :
    ∃ es, r.child? k = some es ∧ Keeps ds es := by
  obtain ⟨es, he, -⟩ := h.block [k] ds (at?_singleton hd)
  obtain ⟨es', he, heq⟩ := at?_cons_eq_some.mp he
  cases heq
  refine ⟨es, he, fun path v hv => ?_, fun path cs hc => ?_⟩
  · cases path with
    | nil => cases hv
    | cons k' path =>
      have hr := h.literal (k :: k' :: path) v (literalAt?_cons hd hv)
      rwa [literalAt?, he] at hr
  · obtain ⟨fs, hf, hk⟩ := h.block (k :: path) cs (at?_cons_eq_some.mpr ⟨ds, hd, hc⟩)
    rw [at?, he] at hf
    exact ⟨fs, hf, hk⟩

theorem put_block {k : String} (hd : t.child? k = some ds) (h : Keeps ds es) :
    Keeps t (t.put (.block k es)) := by
  have hkeys : (t.put (.block k es)).keys = t.keys := keys_put_of_has (has_of_child? hd)
  refine keeps_iff.mpr ⟨hkeys.symm ▸ List.prefix_rfl, fun j => ?_⟩
  by_cases hj : k = j
  · subst hj
    exact .of_child? hd (child?_eq_some.mpr (by rw [find?_put]; exact if_pos rfl)) h
  · exact .of_find?_eq (by rw [find?_put]; exact (if_neg hj).symm)

end Keeps

/-! ### Merges -/

theorem keeps_mergeInto (t : Tree) (h : ∀ ds : Tree, Keeps ds (ds.merge e.inner)) :
    Keeps t (Entry.mergeInto t e) := by
  obtain ⟨-, hm⟩ | ⟨ds, es, hd, he, hm⟩ | ⟨x, -, -, hm⟩ := mergeInto_cases t e
  · rw [hm]; exact .append t _
  · rw [hm]
    rw [he] at h
    exact .put_block (child?_eq_some.mpr hd) (h ds)
  · rw [hm]; exact .refl t

theorem keeps_merge (t s : Tree) : Keeps t (t.merge s) := by
  -- on the right tree: its entries are merged one by one, and its blocks into blocks of `t`
  induction s using Tree.ind generalizing t with
  | nil => rw [merge_nil]; exact .refl t
  | literal k v es ih =>
    rw [merge_cons]
    refine (keeps_mergeInto t (fun ds => ?_)).trans (ih _)
    rw [Entry.inner_literal, merge_nil]
    exact .refl ds
  | block k ds es ihd ih =>
    rw [merge_cons]
    exact (keeps_mergeInto t (e := .block k ds) ihd).trans (ih _)

/-- A key that only the right tree of a merge holds is kept from there. -/
theorem keepsKey_merge {t : Tree} {k : String} (h : t.has k = false) (s : Tree) :
    KeepsKey k s (t.merge s) := by
  rw [has_eq_false] at h
  induction s generalizing t with
  | nil => exact .of_find?_eq (by rw [merge_nil, h, find?_nil])
  | cons e es ih =>
    rw [merge_cons]
    by_cases hk : e.key = k
    · -- the entry is appended, and the rest of the merge keeps it
      have hf : find? (e :: es) k = (Entry.mergeInto t e).find? k := by
        rw [find?_cons, find?_mergeInto, if_pos hk, if_pos hk, h, overlay?_none_left]
      exact (KeepsKey.of_find?_eq hf).trans ((keeps_iff.mp (keeps_merge _ es)).2 k)
    · have hf : find? (e :: es) k = find? es k := by rw [find?_cons, if_neg hk]
      refine (KeepsKey.of_find?_eq hf).trans (ih ?_)
      rw [find?_mergeInto, if_neg hk, h]

/-! ### Nothing else is held -/

theorem holds_append {t s : Tree} (h : (t ++ s).Holds path) : t.Holds path ∨ s.Holds path := by
  cases path with
  | nil => exact Or.inl trivial
  | cons k path =>
    obtain ⟨e, he, hk⟩ := h
    exact (List.mem_append.mp he).imp (fun he => ⟨e, he, hk⟩) (fun he => ⟨e, he, hk⟩)

theorem holds_mergeInto {t : Tree}
    (he : ∀ (ds : Tree) (path), (ds.merge e.inner).Holds path → ds.Holds path ∨ e.inner.Holds path)
    (h : (Entry.mergeInto t e).Holds path) : t.Holds path ∨ Holds [e] path := by
  obtain ⟨-, hm⟩ | ⟨ds, es, hd, heq, hm⟩ | ⟨x, -, -, hm⟩ := mergeInto_cases t e <;> rw [hm] at h
  · exact holds_append h
  · rcases holds_put_block h with h | ⟨rest, rfl, hh⟩
    · exact Or.inl h
    · -- in the merged block, the path goes on in the block of `t` or in that of the entry
      rw [heq, Entry.inner_block] at he
      rcases he ds rest hh with hh | hh
      · exact Or.inl (.of_child? (child?_eq_some.mpr hd) hh)
      · refine Or.inr ⟨e, List.mem_singleton_self e, rfl, ?_⟩
        rw [heq]
        exact hh
  · exact Or.inl h

theorem holds_cons (h : Holds [e] path ∨ es.Holds path) : Holds (e :: es) path := by
  rcases h with h | h
  · exact h.mono (List.cons_subset_cons _ (List.nil_subset _))
  · exact h.mono (List.subset_cons_self _ _)

/-- **A merge holds nothing that neither of its trees holds.** -/
theorem holds_merge {t s : Tree} (h : (t.merge s).Holds path) : t.Holds path ∨ s.Holds path := by
  induction s using Tree.ind generalizing t path with
  | nil => rw [merge_nil] at h; exact Or.inl h
  | literal k v es ih =>
    rw [merge_cons] at h
    rcases ih h with h | h
    · refine (holds_mergeInto (fun ds path h => ?_) h).imp_right (fun h => holds_cons (Or.inl h))
      rw [Entry.inner_literal, merge_nil] at h
      exact Or.inl h
    · exact Or.inr (holds_cons (Or.inr h))
  | block k ds es ihd ih =>
    rw [merge_cons] at h
    rcases ih h with h | h
    · refine (holds_mergeInto (fun cs path h => ?_) h).imp_right (fun h => holds_cons (Or.inl h))
      exact ihd h
    · exact Or.inr (holds_cons (Or.inr h))

end Tree

end Pagesmith.Style
