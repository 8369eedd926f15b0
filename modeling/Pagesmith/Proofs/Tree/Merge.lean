import Pagesmith.Proofs.Tree.Lookup

/-!
# The merge of property trees

`Tree.merge t s` keeps what `t` defines and adds what only `s` defines.  It is a fold of
`Entry.mergeInto`, so each law is proved of one entry first and then of a whole tree.

* `Tree.keys_merge`, `Tree.find?_merge`: the keys and the look-ups of a merge.  With distinct keys
  they determine it (`Tree.ext_find?`), and the laws below compare nothing else.
* `Tree.merge_self`, `Tree.merge_merge_right`: merging a tree a second time changes nothing.
* `Tree.merge_assoc_iff`: the merge is associative except where a literal of the middle tree stands
  between two blocks.  Merged with the left block first it hides nothing, merged with the right
  block first it hides that block.
-/

namespace Pagesmith.Style

variable {s t : Tree} {e : Entry}

namespace Tree

/-- The entry that a merge holds under a key, from the entries that the two trees hold there. -/
def overlay? : Option Entry → Option Entry → Option Entry
  | none, e => e
  | some (.block k ds), some (.block _ es) => some (.block k (merge ds es))
  | some e, _ => some e

@[simp] theorem overlay?_none_left (e : Option Entry) : overlay? none e = e := rfl

@[simp] theorem overlay?_none_right (e : Option Entry) : overlay? e none = e := by
  cases e with
  | none => rfl
  | some e => cases e <;> rfl

@[simp] theorem overlay?_literal (k v : String) (e : Option Entry) :
    overlay? (some (.literal k v)) e = some (.literal k v) := rfl

@[simp] theorem overlay?_block_literal (k k' v : String) (ds : Tree) :
    overlay? (some (.block k ds)) (some (.literal k' v)) = some (.block k ds) := rfl

@[simp] theorem overlay?_block_block (k k' : String) (ds es : Tree) :
    overlay? (some (.block k ds)) (some (.block k' es)) = some (.block k (merge ds es)) := rfl

theorem isSome_overlay? (d e : Option Entry) :
    (overlay? d e).isSome = (d.isSome || e.isSome) := by
  rcases d with _ | ⟨_ | _⟩ <;> rcases e with _ | ⟨_ | _⟩ <;> rfl

/-! ### One entry -/

theorem mergeInto_of_missing (h : t.find? e.key = none) : Entry.mergeInto t e = t ++ [e] := by
  cases e with
  | literal k v =>
    rw [Entry.key_literal] at h
    rw [Entry.mergeInto, has_eq_false.mpr h]
    rfl
  | block k es =>
    rw [Entry.key_block] at h
    rw [Entry.mergeInto, h]

theorem mergeInto_block {ds : Tree} {k k' : String} (h : t.find? k = some (.block k' ds))
    (es : Tree) : Entry.mergeInto t (.block k es) = t.put (.block k (merge ds es)) := by
  rw [Entry.mergeInto, h]

/-- An entry changes nothing if its key is taken and the two do not both hold a block. -/
theorem mergeInto_of_kept {x : Entry} (h : t.find? e.key = some x)
    (hb : x.isBlock = false ∨ e.isBlock = false) : Entry.mergeInto t e = t := by
  cases e with
  | literal k v =>
    rw [Entry.mergeInto, if_pos]
    rw [has_eq_isSome, ← Entry.key_literal k v, h, Option.isSome_some]
  | block k es =>
    rw [Entry.key_block] at h
    rw [Entry.mergeInto, h]
    cases x with
    | literal k' v => rfl
    | block k' ds => rcases hb with hb | hb <;> cases hb

/-- What merging one entry can do: append it, merge two blocks, or nothing. -/
theorem mergeInto_cases (t : Tree) (e : Entry) :
    (t.find? e.key = none ∧ Entry.mergeInto t e = t ++ [e]) ∨
    (∃ ds es, t.find? e.key = some (.block e.key ds) ∧ e = .block e.key es ∧
      Entry.mergeInto t e = t.put (.block e.key (merge ds es))) ∨
    (∃ x, t.find? e.key = some x ∧ (x.isBlock = false ∨ e.isBlock = false) ∧
      Entry.mergeInto t e = t) := by
  obtain h | ⟨v, h⟩ | ⟨ds, h⟩ := t.find?_cases e.key
  · exact Or.inl ⟨h, mergeInto_of_missing h⟩
  · exact Or.inr (Or.inr ⟨_, h, Or.inl rfl, mergeInto_of_kept h (Or.inl rfl)⟩)
  · cases e with
    | literal k v => exact Or.inr (Or.inr ⟨_, h, Or.inr rfl, mergeInto_of_kept h (Or.inr rfl)⟩)
    | block k es => exact Or.inr (Or.inl ⟨ds, es, h, rfl, mergeInto_block h es⟩)

theorem find?_mergeInto (t : Tree) (e : Entry) (k : String) :
    (Entry.mergeInto t e).find? k
      = if e.key = k then overlay? (t.find? k) (some e) else t.find? k := by
  obtain ⟨h, hm⟩ | ⟨ds, es, h, he, hm⟩ | ⟨x, h, hb, hm⟩ := mergeInto_cases t e
  · rw [hm, find?_append, find?_cons, find?_nil]
    by_cases hk : e.key = k
    · subst hk
      rw [if_pos rfl, if_pos rfl, h]
      rfl
    · rw [if_neg hk, if_neg hk, Option.or_none]
  · rw [hm, find?_put, Entry.key_block]
    by_cases hk : e.key = k
    · subst hk
      rw [if_pos rfl, if_pos rfl, h, he]
      rfl
    · rw [if_neg hk, if_neg hk]
  · rw [hm]
    by_cases hk : e.key = k
    · subst hk
      rw [if_pos rfl, h]
      cases x with
      | literal k' v => rfl
      | block k' ds =>
        cases e with
        | literal k v => rfl
        | block k es => rcases hb with hb | hb <;> cases hb
    · rw [if_neg hk]

theorem keys_mergeInto (t : Tree) (e : Entry) :
    (Entry.mergeInto t e).keys = if t.has e.key then t.keys else t.keys ++ [e.key] := by
  obtain ⟨h, hm⟩ | ⟨ds, es, h, he, hm⟩ | ⟨x, h, hb, hm⟩ := mergeInto_cases t e
  · rw [hm, has_eq_false.mpr h, keys_append]
    rfl
  · rw [hm, keys_put, Entry.key_block]
  · rw [hm, has_eq_isSome, h, Option.isSome_some, if_pos rfl]

theorem has_mergeInto (t : Tree) (e : Entry) (k : String) :
    (Entry.mergeInto t e).has k = (t.has k || e.key == k) := by
  rw [has_eq_isSome, has_eq_isSome, find?_mergeInto]
  by_cases hk : e.key = k
  · rw [if_pos hk, isSome_overlay?]
    simp [hk]
  · rw [if_neg hk]
    simp [hk]

/-! ### A whole tree -/

@[simp] theorem merge_nil (t : Tree) : t.merge [] = t := by rw [merge]

theorem merge_cons (t : Tree) (e : Entry) (es : Tree) :
    t.merge (e :: es) = (Entry.mergeInto t e).merge es := by rw [merge]

theorem merge_eq_foldl (t s : Tree) : t.merge s = s.foldl Entry.mergeInto t := by
  induction s generalizing t with
  | nil => rw [merge_nil, List.foldl_nil]
  | cons e es ih => rw [merge_cons, ih, List.foldl_cons]

theorem merge_append (t s u : Tree) : t.merge (s ++ u) = (t.merge s).merge u := by
  rw [merge_eq_foldl, List.foldl_append, ← merge_eq_foldl, ← merge_eq_foldl]

theorem has_merge (t s : Tree) (k : String) : (t.merge s).has k = (t.has k || s.has k) := by
  induction s generalizing t with
  | nil => rw [merge_nil]; simp [has]
  | cons e es ih => rw [merge_cons, ih, has_mergeInto, Bool.or_assoc]; rfl

theorem keys_merge_of_has (h : ∀ k ∈ s.keys, t.has k = true) : (t.merge s).keys = t.keys := by
  induction s generalizing t with
  | nil => rw [merge_nil]
  | cons e es ih =>
    have hk : (Entry.mergeInto t e).keys = t.keys := by
      rw [keys_mergeInto, if_pos (h e.key (by simp))]
    rw [merge_cons, ih, hk]
    intro k hm
    rw [has_mergeInto, h k (List.mem_cons_of_mem _ hm), Bool.true_or]

/-- The keys of a merge: those of the left tree, then those that only the right one has. -/
theorem keys_merge (t : Tree) (hs : s.keys.Nodup) :
    (t.merge s).keys = t.keys ++ s.keys.filter (fun k => !t.has k) := by
  rw [merge_eq_foldl, keys_foldl keys_mergeInto t hs]

theorem find?_merge (t : Tree) (hs : s.keys.Nodup) (k : String) :
    (t.merge s).find? k = overlay? (t.find? k) (s.find? k) := by
  induction s generalizing t with
  | nil => rw [merge_nil, find?_nil, overlay?_none_right]
  | cons e es ih =>
    rw [keys_cons, List.nodup_cons] at hs
    rw [merge_cons, ih (Entry.mergeInto t e) hs.2, find?_mergeInto, find?_cons]
    by_cases hk : e.key = k
    · have hn : find? es k = none := find?_eq_none.mpr (hk ▸ hs.1)
      rw [if_pos hk, if_pos hk, hn, overlay?_none_right]
    · rw [if_neg hk, if_neg hk]

theorem nodup_keys_merge (ht : t.keys.Nodup) (hs : s.keys.Nodup) :
    (t.merge s).keys.Nodup := by
  rw [merge_eq_foldl]
  exact nodup_keys_foldl keys_mergeInto ht hs

/-! ### The two parts of a merge -/

theorem mergeInto_append_of_has (h : t.has e.key = true) (u : Tree) :
    Entry.mergeInto (t ++ u) e = Entry.mergeInto t e ++ u := by
  have hf : (t ++ u).find? e.key = t.find? e.key := by
    obtain ⟨x, hx⟩ := Option.isSome_iff_exists.mp ((has_eq_isSome t _).symm.trans h)
    rw [find?_append, hx, Option.some_or]
  obtain ⟨hn, -⟩ | ⟨ds, es, hd, he, hm⟩ | ⟨x, hx, hb, hm⟩ := mergeInto_cases t e
  · rw [has_eq_false.mpr hn] at h
    cases h
  · rw [hm, he, mergeInto_block (by rw [hf, hd]) es]
    exact put_append_of_has (e := .block e.key (merge ds es)) h u
  · rw [hm, mergeInto_of_kept (hf.trans hx) hb]

theorem mergeInto_append_of_missing (h : t.has e.key = false) (u : Tree) :
    Entry.mergeInto (t ++ u) e = t ++ Entry.mergeInto u e := by
  have hf : (t ++ u).find? e.key = u.find? e.key := by
    rw [find?_append, has_eq_false.mp h, Option.none_or]
  obtain ⟨hn, hm⟩ | ⟨ds, es, hd, he, hm⟩ | ⟨x, hx, hb, hm⟩ := mergeInto_cases u e
  · rw [hm, mergeInto_of_missing (hf.trans hn), List.append_assoc]
  · rw [hm, he, mergeInto_block (by rw [hf, hd]) es]
    exact put_append_of_missing (e := .block e.key (merge ds es)) h u
  · rw [hm, mergeInto_of_kept (hf.trans hx) hb]

/-- A merge goes on in two trees side by side: an entry whose key the left one holds is merged
there, any other into the right one. -/
theorem append_merge {u : Tree} (s : Tree) :
    (t ++ u).merge s = t.merge (s.filter fun e => t.has e.key)
      ++ u.merge (s.filter fun e => !t.has e.key) := by
  induction s generalizing t u with
  | nil => rw [List.filter_nil, List.filter_nil, merge_nil, merge_nil, merge_nil]
  | cons e es ih =>
    rw [merge_cons, List.filter_cons, List.filter_cons]
    cases h : t.has e.key with
    | false =>
      rw [mergeInto_append_of_missing h, ih]
      simp [merge_cons]
    | true =>
      -- the keys of the left tree are the same before and after the step
      have hh : ∀ k, (Entry.mergeInto t e).has k = t.has k := by
        intro k
        rw [has_mergeInto]
        by_cases hk : e.key = k
        · rw [← hk, h, Bool.true_or]
        · rw [beq_false_of_ne hk, Bool.or_false]
      rw [mergeInto_append_of_has h, ih]
      simp [merge_cons, hh]

/-- **The two parts of a merge.**  What the left tree holds comes first, with its blocks merged;
the entries under new keys follow. -/
theorem merge_eq_append (t s : Tree) :
    t.merge s = t.merge (s.filter fun e => t.has e.key)
      ++ merge [] (s.filter fun e => !t.has e.key) := by
  have h := append_merge (t := t) (u := []) s
  rwa [List.append_nil] at h

/-- The entries of all blocks under a key. -/
def contents (s : Tree) (k : String) : Tree :=
  s.flatMap fun e => if e.key = k then e.inner else []

/-- The entries that a merge adds under new keys. -/
def additions (t s : Tree) : Tree := merge [] (s.filter fun e => !t.has e.key)

theorem has_of_mem_additions (h : e ∈ t.additions s) : t.has e.key = false := by
  have hk : (t.additions s).has e.key = true := has_iff.mpr (key_mem_keys h)
  rw [additions, has_merge] at hk
  obtain ⟨x, hx, hxe⟩ := mem_keys.mp (has_iff.mp hk)
  have := (List.mem_filter.mp hx).2
  rwa [hxe, Bool.not_eq_true'] at this

end Tree

namespace Entry

/-- An entry of the left tree, with its block merged. -/
def mergedWith (s : Tree) : Entry → Entry
  | .literal k v => .literal k v
  | .block k ds => .block k (Tree.merge ds (s.contents k))

@[simp] theorem key_mergedWith (s : Tree) (e : Entry) : (e.mergedWith s).key = e.key := by
  cases e <;> rfl

theorem mergedWith_of_missing (h : s.has e.key = false) : e.mergedWith s = e := by
  cases e with
  | literal k v => rfl
  | block k ds =>
    have hnil : s.contents k = [] := by
      refine List.flatMap_eq_nil_iff.mpr fun x hx => if_neg fun hk => ?_
      rw [Bool.eq_false_iff, Ne, Tree.has_iff] at h
      exact h (Tree.mem_keys.mpr ⟨x, hx, hk⟩)
    rw [mergedWith, hnil, Tree.merge_nil]

theorem mergedWith_cons (x : Entry) (s : Tree) (e : Entry) :
    e.mergedWith (x :: s) = (e.mergedWith [x]).mergedWith s := by
  cases e with
  | literal k v => rfl
  | block k ds =>
    have hsplit : Tree.contents (x :: s) k = Tree.contents [x] k ++ s.contents k := by
      rw [Tree.contents, Tree.contents, Tree.contents, List.flatMap_cons, List.flatMap_singleton]
    rw [mergedWith, hsplit, Tree.merge_append]
    rfl

end Entry

namespace Tree

theorem keys_mergedWith (t s : Tree) : keys (t.map (Entry.mergedWith s)) = t.keys := by
  simp [keys]

theorem find?_map_mergedWith (t s : Tree) (k : String) :
    find? (t.map (Entry.mergedWith s)) k = (t.find? k).map (Entry.mergedWith s) := by
  have hkey : (fun e : Entry => e.key == k) ∘ Entry.mergedWith s = fun e => e.key == k :=
    funext fun e => by rw [Function.comp_apply, Entry.key_mergedWith]
  rw [find?, List.find?_map, hkey, find?]

theorem mergeInto_eq_map (ht : t.keys.Nodup) (h : t.has e.key = true) :
    Entry.mergeInto t e = t.map (Entry.mergedWith [e]) := by
  have hkeys : (Entry.mergeInto t e).keys = t.keys := by rw [keys_mergeInto, if_pos h]
  refine ext_find? (hkeys ▸ ht) (hkeys.trans (keys_mergedWith t [e]).symm) fun k => ?_
  rw [find?_map_mergedWith, find?_mergeInto]
  cases hx : t.find? k with
  | none =>
    have hne : e.key ≠ k := by
      rintro rfl
      rw [has_eq_isSome, hx] at h
      cases h
    rw [if_neg hne]
    rfl
  | some x =>
    rw [Option.map_some]
    split
    · next hk =>
      cases x with
      | literal j v => rfl
      | block j ds =>
        obtain rfl : j = e.key := (key_of_find? hx).trans hk.symm
        have hinner : contents [e] e.key = e.inner := by simp [contents]
        rw [Entry.mergedWith, hinner]
        cases e with
        | literal j v => rw [Entry.inner_literal, merge_nil]; rfl
        | block j es => rfl
    · next hk =>
      have hmissing : has [e] x.key = false := by simpa [has, key_of_find? hx] using hk
      rw [Entry.mergedWith_of_missing hmissing]

theorem merge_filter_has (ht : t.keys.Nodup) (s : Tree) :
    t.merge (s.filter fun e => t.has e.key) = t.map (Entry.mergedWith s) := by
  induction s generalizing t with
  | nil =>
    rw [List.filter_nil, merge_nil]
    exact ((List.map_congr_left fun e _ => Entry.mergedWith_of_missing rfl).trans
      (List.map_id t)).symm
  | cons x s ih =>
    cases h : t.has x.key with
    | true =>
      have hkeys := keys_mergedWith t [x]
      have hhas : ∀ k, has (t.map (Entry.mergedWith [x])) k = t.has k := by
        intro k
        rw [Bool.eq_iff_iff, has_iff, has_iff, hkeys]
      have hrest := ih (t := t.map (Entry.mergedWith [x])) (hkeys ▸ ht)
      simp only [hhas] at hrest
      rw [List.filter_cons_of_pos (by exact h), merge_cons, mergeInto_eq_map ht h, hrest,
        List.map_map]
      exact List.map_congr_left fun e _ => (Entry.mergedWith_cons x s e).symm
    | false =>
      rw [List.filter_cons_of_neg (by simp [h]), ih ht]
      refine List.map_congr_left fun e he => ?_
      have hmissing : has [x] e.key = false := by
        rw [Bool.eq_false_iff, Ne, has_iff, keys_cons, keys_nil, List.mem_singleton]
        intro hk
        rw [← hk, has_iff.mpr (key_mem_keys he)] at h
        cases h
      rw [Entry.mergedWith_cons, Entry.mergedWith_of_missing hmissing]

/-- **A merge, entry by entry**: those of the left tree with their blocks merged, then what is
added. -/
theorem merge_eq_map_append (ht : t.keys.Nodup) (s : Tree) :
    t.merge s = t.map (Entry.mergedWith s) ++ t.additions s := by
  rw [merge_eq_append, merge_filter_has ht, additions]

theorem mem_merge_cases (ht : t.keys.Nodup) (h : e ∈ t.merge s) :
    t.has e.key = false ∨ ∃ x ∈ t, e = x.mergedWith s := by
  rw [merge_eq_map_append ht] at h
  rcases List.mem_append.mp h with h | h
  · obtain ⟨x, hx, rfl⟩ := List.mem_map.mp h
    exact .inr ⟨x, hx, rfl⟩
  · exact .inl (has_of_mem_additions h)

theorem get?_merge_of_has (ht : t.keys.Nodup) {k : String} (h : t.has k = true) (s : Tree) :
    (t.merge s).get? k = t.get? k := by
  rw [has_eq_isSome] at h
  obtain ⟨x, hx⟩ := Option.isSome_iff_exists.mp h
  rw [get?, get?, merge_eq_map_append ht, find?_append, find?_map_mergedWith, hx]
  cases x <;> rfl

theorem merge_of_literals (h : ∀ e ∈ s, (t.get? e.key).isSome = true) : t.merge s = t := by
  induction s with
  | nil => rw [merge_nil]
  | cons e es ih =>
    obtain ⟨v, hv⟩ := Option.isSome_iff_exists.mp (h e List.mem_cons_self)
    rw [merge_cons, mergeInto_of_kept (get?_eq_some.mp hv) (Or.inl rfl)]
    exact ih (fun e' hm => h e' (List.mem_cons_of_mem e hm))

theorem merge_nil_left (hs : s.keys.Nodup) : merge [] s = s := by
  refine ext_find? (nodup_keys_merge List.nodup_nil hs) ?_ (fun k => find?_merge [] hs k)
  rw [keys_merge [] hs]
  exact List.filter_eq_self.mpr (fun _ _ => rfl)

/-- A block of a merge is a block of one of the trees, or two of their blocks merged. -/
theorem child?_merge_cases (hs : s.keys.Nodup) {k : String} {cs : Tree}
    (h : (t.merge s).child? k = some cs) :
    t.child? k = some cs ∨ s.child? k = some cs ∨
      ∃ ds es, t.child? k = some ds ∧ s.child? k = some es ∧ cs = ds.merge es := by
  simp only [child?_eq_some] at h ⊢
  rw [find?_merge t hs] at h
  obtain ht | ⟨v, ht⟩ | ⟨ds, ht⟩ := t.find?_cases k <;> rw [ht] at h ⊢
  · exact Or.inr (Or.inl h)
  · cases h
  · obtain hk | ⟨v, hk⟩ | ⟨es, hk⟩ := s.find?_cases k <;> rw [hk] at h ⊢
    · exact Or.inl h
    · exact Or.inl h
    · rw [overlay?_block_block, Option.some.injEq, Entry.block.injEq] at h
      exact Or.inr (Or.inr ⟨ds, es, rfl, rfl, h.2.symm⟩)

theorem WellKeyed.merge (ht : WellKeyed t) (hs : WellKeyed s) : WellKeyed (t.merge s) := by
  induction t using childInd generalizing s with
  | step t ih =>
    have hn := nodup_keys_merge ht.nodup hs.nodup
    refine wellKeyed_iff.mpr ⟨hn, fun k cs hm => ?_⟩
    obtain h | h | ⟨ds, es, hd, he, rfl⟩ := child?_merge_cases hs.nodup (child?_of_mem hn hm)
    · exact ht.child h
    · exact hs.child h
    · exact ih k ds hd (ht.child hd) (hs.child he)

/-! ### Merging twice -/

theorem merge_eq_of_overlay? {u : Tree} (ht : t.keys.Nodup) (hs : s.keys.Nodup)
    (hk : (t.merge s).keys = u.keys) (hf : ∀ k, overlay? (t.find? k) (s.find? k) = u.find? k) :
    t.merge s = u :=
  ext_find? (nodup_keys_merge ht hs) hk (fun k => by rw [find?_merge t hs, hf])

theorem merge_self (ht : WellKeyed t) : t.merge t = t := by
  induction t using childInd with
  | step t ih =>
    refine merge_eq_of_overlay? ht.nodup ht.nodup
      (keys_merge_of_has (fun k hk => has_iff.mpr hk)) (fun k => ?_)
    obtain h | ⟨v, h⟩ | ⟨ds, h⟩ := t.find?_cases k <;> rw [h]
    · rfl
    · rfl
    · have hc := child?_eq_some.mpr h
      rw [overlay?_block_block, ih k ds hc (ht.child hc)]

theorem merge_merge_right (ht : WellKeyed t) (hs : WellKeyed s) :
    (t.merge s).merge s = t.merge s := by
  induction t using childInd generalizing s with
  | step t ih =>
    refine merge_eq_of_overlay? (nodup_keys_merge ht.nodup hs.nodup) hs.nodup
      (keys_merge_of_has (fun k hk => ?_)) (fun k => ?_)
    · rw [has_merge, has_iff.mpr hk, Bool.or_true]
    · rw [find?_merge t hs.nodup]
      obtain h | ⟨v, h⟩ | ⟨ds, h⟩ := t.find?_cases k <;> rw [h]
      · -- what only `s` holds is merged with itself
        rw [overlay?_none_left, ← find?_merge s hs.nodup, merge_self hs]
      · rfl
      · obtain h' | ⟨v, h'⟩ | ⟨es, h'⟩ := s.find?_cases k <;> rw [h']
        · rfl
        · rfl
        · have hc := child?_eq_some.mpr h
          have hc' := child?_eq_some.mpr h'
          rw [overlay?_block_block, overlay?_block_block,
            ih k ds hc (ht.child hc) (hs.child hc')]

/-! ### Merging three trees -/

theorem keys_merge_assoc {a b c : Tree} (hb : b.keys.Nodup) (hc : c.keys.Nodup) :
    ((a.merge b).merge c).keys = (a.merge (b.merge c)).keys := by
  have hf : c.keys.filter (fun k => !(a.merge b).has k)
      = (c.keys.filter (fun k => !b.has k)).filter (fun k => !a.has k) := by
    rw [List.filter_filter]
    refine List.filter_congr (fun k _ => ?_)
    rw [has_merge, Bool.not_or]
  rw [keys_merge _ hc, keys_merge a hb, keys_merge a (nodup_keys_merge hb hc), keys_merge b hc, hf,
    List.filter_append, List.append_assoc]

/-- The two ways to merge three trees agree exactly if no block of the first tree takes anything
from a block of the third one that a literal of the second one hides from it. -/
theorem merge_assoc_iff {a b c : Tree} (ha : WellKeyed a) (hb : WellKeyed b) (hc : WellKeyed c) :
    (a.merge b).merge c = a.merge (b.merge c) ↔
      ∀ path ds v es, a.at? path = some ds → b.literalAt? path = some v → c.at? path = some es →
        ds.merge es = ds := by
  constructor
  · intro h path
    induction path generalizing a b c with
    | nil => intro ds v es _ hv _; cases hv
    | cons k path ih =>
      intro ds v es hds hv hes
      obtain ⟨a', ha', hds⟩ := at?_cons_eq_some.mp hds
      obtain ⟨c', hc', hes⟩ := at?_cons_eq_some.mp hes
      -- the entries that the two merges hold under the first key of the path
      have hk := congrArg (find? · k) h
      simp only [find?_merge _ hc.nodup, find?_merge _ hb.nodup,
        find?_merge _ (nodup_keys_merge hb.nodup hc.nodup),
        child?_eq_some.mp ha', child?_eq_some.mp hc'] at hk
      cases path with
      | nil =>
        rw [get?_eq_some.mp hv] at hk
        cases hds
        cases hes
        simpa using hk
      | cons k' path =>
        obtain ⟨b', hb', hv⟩ := Option.bind_eq_some_iff.mp hv
        rw [child?_eq_some.mp hb'] at hk
        refine ih (ha.child ha') (hb.child hb') (hc.child hc') ?_ ds v es hds hv hes
        simpa using hk
  · intro h
    induction a using childInd generalizing b c with
    | step a ih =>
      refine merge_eq_of_overlay? (nodup_keys_merge ha.nodup hb.nodup) hc.nodup
        (keys_merge_assoc hb.nodup hc.nodup) (fun k => ?_)
      rw [find?_merge a hb.nodup, find?_merge a (nodup_keys_merge hb.nodup hc.nodup),
        find?_merge b hc.nodup]
      obtain hka | ⟨v, hka⟩ | ⟨ds, hka⟩ := a.find?_cases k <;> rw [hka]
      · rfl
      · rfl
      obtain hkb | ⟨v, hkb⟩ | ⟨cs, hkb⟩ := b.find?_cases k <;> rw [hkb]
      · rfl
      · obtain hkc | ⟨w, hkc⟩ | ⟨es, hkc⟩ := c.find?_cases k <;> rw [hkc]
        · rfl
        · rfl
        · have := h [k] ds v es (at?_singleton (child?_eq_some.mpr hka)) (get?_eq_some.mpr hkb)
            (at?_singleton (child?_eq_some.mpr hkc))
          rw [overlay?_block_literal, overlay?_block_block, this]
          rfl
      · obtain hkc | ⟨w, hkc⟩ | ⟨es, hkc⟩ := c.find?_cases k <;> rw [hkc]
        · rfl
        · rfl
        · have h1 := child?_eq_some.mpr hka
          have h2 := child?_eq_some.mpr hkb
          have h3 := child?_eq_some.mpr hkc
          simp only [overlay?_block_block]
          rw [ih k ds h1 (ha.child h1) (hb.child h2) (hc.child h3)]
          intro path ds' v es' hds hv hes
          refine h (k :: path) ds' v es' (at?_cons_eq_some.mpr ⟨ds, h1, hds⟩) ?_
            (at?_cons_eq_some.mpr ⟨es, h3, hes⟩)
          exact literalAt?_cons h2 hv

/-! ### The laws together -/

/-- **The merge is deep, left-biased and keeps the order of both trees.**  Its keys are those of
the left tree and then the new ones of the right tree; what the left tree holds stays, two blocks
are merged, and the rest is the right tree's.  Merging again changes nothing, and the merge of
three trees is associative unless, at the end of some path, the outer two hold a block and the
middle one a literal. -/
theorem merge_deep_left_biased {a b c : Tree} (ha : WellKeyed a) (hb : WellKeyed b)
    (hc : WellKeyed c) :
    (a.merge b).keys = a.keys ++ b.keys.filter (fun k => !a.has k) ∧
    (∀ k v, a.get? k = some v → (a.merge b).find? k = a.find? k) ∧
    (∀ k ds, a.child? k = some ds → b.child? k = none → (a.merge b).find? k = a.find? k) ∧
    (∀ k ds es, a.child? k = some ds → b.child? k = some es →
      (a.merge b).find? k = some (.block k (ds.merge es))) ∧
    (∀ k, a.has k = false → (a.merge b).find? k = b.find? k) ∧
    a.merge a = a ∧
    (a.merge b).merge b = a.merge b ∧
    ((¬ ∃ path, (a.at? path).isSome ∧ (b.literalAt? path).isSome ∧ (c.at? path).isSome) →
      (a.merge b).merge c = a.merge (b.merge c)) := by
  refine ⟨keys_merge a hb.nodup, ?_, ?_, ?_, ?_, merge_self ha, merge_merge_right ha hb, ?_⟩
  · intro k v h
    rw [find?_merge a hb.nodup, get?_eq_some.mp h, overlay?_literal]
  · intro k ds h h'
    rw [find?_merge a hb.nodup, child?_eq_some.mp h]
    obtain hk | ⟨v, hk⟩ | ⟨es, hk⟩ := b.find?_cases k
    · rw [hk, overlay?_none_right]
    · rw [hk, overlay?_block_literal]
    · rw [child?_eq_some.mpr hk] at h'
      cases h'
  · intro k ds es h h'
    rw [find?_merge a hb.nodup, child?_eq_some.mp h, child?_eq_some.mp h', overlay?_block_block]
  · intro k h
    rw [find?_merge a hb.nodup, has_eq_false.mp h, overlay?_none_left]
  · intro h
    refine (merge_assoc_iff ha hb hc).mpr (fun path ds v es hds hv hes => ?_)
    exact absurd ⟨path, by rw [hds]; rfl, by rw [hv]; rfl, by rw [hes]; rfl⟩ h

/-- Three trees with a block in common, two of which also share a literal. -/
theorem merge_deep_left_biased_states :
    let a : Tree := [.block "states" [.literal "color" "red"], .literal "radius" "5px"]
    let b : Tree := [.literal "padding" "0", .block "states" [.literal "color" "blue"]]
    let c : Tree := [.literal "radius" "1px", .block "states" [.block "hover" []]]
    WellKeyed a ∧ WellKeyed b ∧ WellKeyed c ∧
      (a.merge b).keys = ["states", "radius", "padding"] ∧
      (a.merge b).merge c = a.merge (b.merge c) := by
  intro a b c
  have ha : WellKeyed a := by decide
  have hb : WellKeyed b := by decide
  have hc : WellKeyed c := by decide
  have laws := merge_deep_left_biased ha hb hc
  refine ⟨ha, hb, hc, laws.1, laws.2.2.2.2.2.2.2 ?_⟩
  rintro ⟨path, hp, hv, -⟩
  obtain ⟨ds, hds⟩ := Option.isSome_iff_exists.mp hp
  cases path with
  | nil => cases hv
  | cons k path =>
    -- the one block of `a` is `states`, and it holds no block
    obtain ⟨cs, hcs, hds⟩ := at?_cons_eq_some.mp hds
    have hm := mem_of_child? hcs
    simp only [a, List.mem_cons, Entry.block.injEq, reduceCtorEq, List.not_mem_nil, or_false] at hm
    obtain ⟨rfl, rfl⟩ := hm
    cases path with
    | nil => cases hv
    | cons k' path =>
      obtain ⟨_, h, _⟩ := at?_cons_eq_some.mp hds
      simpa using mem_of_child? h

/-- The shape on which the two orders differ. -/
example :
    let a : Tree := [.block "states" []]
    let b : Tree := [.literal "states" "none"]
    let c : Tree := [.block "states" [.literal "color" "red"]]
    ((a.merge b).merge c).literalAt? ["states", "color"] = some "red" ∧
      (a.merge (b.merge c)).literalAt? ["states", "color"] = none := by
  decide

end Tree

end Pagesmith.Style
