import Mathlib.Data.List.Nodup
import Pagesmith.Style.Tree

/-!
# Reading property trees

What the reading operations of a property tree say about each other and about the one write
operation `Tree.put`.  A tree is a list of entries, so nothing in its type keeps two entries from
sharing a key; `Tree.WellKeyed` is the invariant that none do, at any depth.

* `Tree.ind`: induction on a tree, one case for each kind of first entry.
* `Tree.blockInd`, `Tree.childInd`: induction from the blocks of a tree to the tree.
* `Tree.find?_put`, `Tree.keys_put`: a write is seen under its own key only.
* `Tree.ext_find?`: keys and look-ups determine a well-keyed tree.
-/

namespace Pagesmith.Style

variable {ds t : Tree} {k v : String} {e : Entry} {path : List String}

@[simp] theorem Entry.key_literal (k v : String) : (Entry.literal k v).key = k := rfl

@[simp] theorem Entry.key_block (k : String) (es : Tree) : (Entry.block k es).key = k := rfl

namespace Tree

/-- Induction on the first entry of a tree; a block brings a hypothesis for its own entries. -/
@[elab_as_elim]
theorem ind {motive : Tree → Prop} (nil : motive [])
    (literal : ∀ k v es, motive es → motive (.literal k v :: es))
    (block : ∀ k ds es, motive ds → motive es → motive (.block k ds :: es)) :
    ∀ t : Tree, motive t
  | [] => nil
  | .literal k v :: es => literal k v es (ind nil literal block es)
  | .block k ds :: es => block k ds es (ind nil literal block ds) (ind nil literal block es)

/-! ### Keys and look-ups -/

@[simp] theorem keys_nil : keys [] = [] := rfl

@[simp] theorem keys_cons (e : Entry) (es : Tree) : keys (e :: es) = e.key :: keys es := rfl

@[simp] theorem keys_append (t s : Tree) : keys (t ++ s) = keys t ++ keys s := List.map_append

theorem mem_keys : k ∈ t.keys ↔ ∃ e ∈ t, e.key = k := List.mem_map

theorem key_mem_keys (h : e ∈ t) : e.key ∈ t.keys := List.mem_map_of_mem h

@[simp] theorem find?_nil (k : String) : find? [] k = none := rfl

theorem find?_cons (e : Entry) (es : Tree) (k : String) :
    find? (e :: es) k = if e.key = k then some e else find? es k := by
  by_cases h : e.key = k
  · rw [if_pos h]
    exact List.find?_cons_of_pos (by simpa using h)
  · rw [if_neg h]
    exact List.find?_cons_of_neg (by simpa using h)

theorem find?_append (t s : Tree) (k : String) :
    find? (t ++ s) k = (find? t k).or (find? s k) := List.find?_append

theorem key_of_find? (h : t.find? k = some e) : e.key = k := by
  simpa using List.find?_some h

theorem mem_of_find? (h : t.find? k = some e) : e ∈ t :=
  List.mem_of_find?_eq_some h

theorem find?_eq_none : t.find? k = none ↔ k ∉ t.keys := by
  rw [find?, List.find?_eq_none, mem_keys]
  simp

theorem has_iff : t.has k = true ↔ k ∈ t.keys := by
  rw [has, List.any_eq_true, mem_keys]
  simp

theorem has_eq_isSome (t : Tree) (k : String) : t.has k = (t.find? k).isSome := by
  rw [Bool.eq_iff_iff, has_iff, Option.isSome_iff_ne_none, Ne, find?_eq_none, not_not]

theorem has_eq_false : t.has k = false ↔ t.find? k = none := by
  rw [has_eq_isSome, Option.isSome_eq_false_iff, Option.isNone_iff_eq_none]

theorem has_append (t s : Tree) (k : String) : (t ++ s).has k = (t.has k || s.has k) :=
  List.any_append

theorem find?_of_mem (ht : t.keys.Nodup) (h : e ∈ t) : t.find? e.key = some e := by
  induction t with
  | nil => cases h
  | cons x xs ih =>
    rw [keys_cons, List.nodup_cons] at ht
    rw [find?_cons]
    rcases List.mem_cons.mp h with rfl | hm
    · rw [if_pos rfl]
    · have hx : x.key ≠ e.key := by
        intro hx
        exact ht.1 (hx ▸ key_mem_keys hm)
      rw [if_neg hx, ih ht.2 hm]

theorem find?_cases (t : Tree) (k : String) :
    t.find? k = none ∨ (∃ v, t.find? k = some (.literal k v)) ∨
      ∃ ds, t.find? k = some (.block k ds) := by
  cases h : t.find? k with
  | none => exact Or.inl rfl
  | some e =>
    have hk := key_of_find? h
    cases e with
    | literal k' v =>
      rw [Entry.key_literal] at hk
      exact Or.inr (Or.inl ⟨v, by rw [hk]⟩)
    | block k' ds =>
      rw [Entry.key_block] at hk
      exact Or.inr (Or.inr ⟨ds, by rw [hk]⟩)

theorem child?_eq_some : t.child? k = some ds ↔ t.find? k = some (.block k ds) := by
  rw [child?]
  obtain h | ⟨v, h⟩ | ⟨cs, h⟩ := t.find?_cases k <;> rw [h] <;> simp

theorem mem_of_child? (h : t.child? k = some ds) :
    .block k ds ∈ t := mem_of_find? (child?_eq_some.mp h)

theorem has_of_child? (h : t.child? k = some ds) : t.has k = true := by
  rw [has_eq_isSome, child?_eq_some.mp h, Option.isSome_some]

theorem child?_of_mem (ht : t.keys.Nodup) (h : .block k ds ∈ t) :
    t.child? k = some ds := child?_eq_some.mpr (find?_of_mem ht h)

theorem block_not_mem (ht : t.keys.Nodup) (h : t.child? k = none) (ds : Tree) :
    .block k ds ∉ t := by
  intro hm
  rw [child?_of_mem ht hm] at h
  cases h

theorem get?_eq_some : t.get? k = some v ↔ t.find? k = some (.literal k v) := by
  rw [get?]
  obtain h | ⟨w, h⟩ | ⟨ds, h⟩ := t.find?_cases k <;> rw [h] <;> simp

theorem mem_of_get? (h : t.get? k = some v) : .literal k v ∈ t :=
  mem_of_find? (get?_eq_some.mp h)

theorem ext_find? {s : Tree} (ht : t.keys.Nodup) (hk : t.keys = s.keys)
    (hf : ∀ k, t.find? k = s.find? k) : t = s := by
  induction t generalizing s with
  | nil =>
    cases s with
    | nil => rfl
    | cons y ys => simp at hk
  | cons x xs ih =>
    cases s with
    | nil => simp at hk
    | cons y ys =>
      rw [keys_cons, keys_cons, List.cons.injEq] at hk
      rw [keys_cons, List.nodup_cons] at ht
      have hxy : x = y := by
        have h := hf x.key
        rw [find?_cons, find?_cons, if_pos rfl, if_pos hk.1.symm] at h
        exact Option.some.inj h
      subst hxy
      refine congrArg (x :: ·) (ih ht.2 hk.2 (fun k => ?_))
      have h := hf k
      rw [find?_cons, find?_cons] at h
      by_cases hxk : x.key = k
      · -- neither rest holds the key of the entry in front of it
        rw [find?_eq_none.mpr (hxk ▸ ht.1), find?_eq_none.mpr (hk.2 ▸ hxk ▸ ht.1)]
      · rwa [if_neg hxk, if_neg hxk] at h

/-! ### Writing -/

theorem put_cons (x : Entry) (xs : Tree) (e : Entry) :
    put (x :: xs) e = if x.key = e.key then e :: xs else x :: put xs e := by
  rw [put]
  simp only [beq_iff_eq]

theorem find?_put (t : Tree) (e : Entry) (k : String) :
    (t.put e).find? k = if e.key = k then some e else t.find? k := by
  induction t with
  | nil => rw [put, find?_cons]
  | cons x xs ih =>
    rw [put_cons]
    by_cases hx : x.key = e.key
    · rw [if_pos hx, find?_cons, find?_cons, hx]
      split <;> rfl
    · rw [if_neg hx, find?_cons, find?_cons, ih]
      by_cases hk : e.key = k
      · rw [if_pos hk, if_pos hk, if_neg (hk ▸ hx)]
      · rw [if_neg hk, if_neg hk]

theorem keys_put (t : Tree) (e : Entry) :
    (t.put e).keys = if t.has e.key then t.keys else t.keys ++ [e.key] := by
  induction t with
  | nil => rfl
  | cons x xs ih =>
    rw [put_cons]
    by_cases hx : x.key = e.key
    · have hh : has (x :: xs) e.key = true := has_iff.mpr (by simp [hx])
      rw [if_pos hx, if_pos hh, keys_cons, keys_cons, hx]
    · have hh : has (x :: xs) e.key = has xs e.key := by
        rw [has_eq_isSome, has_eq_isSome, find?_cons, if_neg hx]
      rw [if_neg hx, keys_cons, ih, hh, keys_cons]
      split <;> simp

theorem keys_put_of_has (h : t.has e.key = true) : (t.put e).keys = t.keys := by
  rw [keys_put, if_pos h]

theorem put_eq_self (h : t.find? e.key = some e) : t.put e = t := by
  induction t with
  | nil => cases h
  | cons x xs ih =>
    rw [find?_cons] at h
    rw [put_cons]
    by_cases hx : x.key = e.key
    · rw [if_pos hx, Option.some.injEq] at h
      rw [if_pos hx, h]
    · rw [if_neg hx] at h
      rw [if_neg hx, ih h]

theorem put_append_of_has (h : t.has e.key = true) (u : Tree) : (t ++ u).put e = t.put e ++ u := by
  induction t with
  | nil => cases h
  | cons x xs ih =>
    rw [List.cons_append, put_cons, put_cons]
    by_cases hx : x.key = e.key
    · rw [if_pos hx, if_pos hx, List.cons_append]
    · have hxs : has xs e.key = true := by
        rw [has_eq_isSome, find?_cons, if_neg hx] at h
        rwa [has_eq_isSome]
      rw [if_neg hx, if_neg hx, ih hxs, List.cons_append]

theorem put_append_of_missing (h : t.has e.key = false) (u : Tree) :
    (t ++ u).put e = t ++ u.put e := by
  induction t with
  | nil => rfl
  | cons x xs ih =>
    rw [has_eq_false, find?_cons] at h
    by_cases hx : x.key = e.key
    · rw [if_pos hx] at h
      cases h
    · rw [if_neg hx] at h
      rw [List.cons_append, put_cons, if_neg hx, ih (has_eq_false.mpr h), List.cons_append]

theorem put_of_missing (h : t.has e.key = false) : t.put e = t ++ [e] := by
  have hput := put_append_of_missing h []
  rwa [List.append_nil] at hput

theorem mem_put {x : Entry} (h : x ∈ t.put e) : x = e ∨ x ∈ t := by
  induction t with
  | nil => exact Or.inl (by simpa [put] using h)
  | cons y ys ih =>
    rw [put_cons] at h
    split at h
    · rcases List.mem_cons.mp h with rfl | hm
      · exact Or.inl rfl
      · exact Or.inr (List.mem_cons_of_mem y hm)
    · rcases List.mem_cons.mp h with rfl | hm
      · exact Or.inr List.mem_cons_self
      · exact (ih hm).imp_right (List.mem_cons_of_mem y)

/-- Writing entries one after another keeps the keys that are there in their places, and the new
ones follow in their order. -/
theorem keys_foldl {f : Tree → Entry → Tree}
    (hf : ∀ t e, (f t e).keys = if t.has e.key then t.keys else t.keys ++ [e.key]) (t : Tree)
    {s : Tree} (hs : s.keys.Nodup) :
    (s.foldl f t).keys = t.keys ++ s.keys.filter fun k => !t.has k := by
  induction s generalizing t with
  | nil => simp
  | cons e es ih =>
    rw [keys_cons, List.nodup_cons] at hs
    -- the keys still to come differ from the one just written
    have hfilter : (keys es).filter (fun k => !(f t e).has k)
        = (keys es).filter fun k => !t.has k := by
      refine List.filter_congr fun k hk => congrArg not ?_
      have hne : k ≠ e.key := fun h => hs.1 (h ▸ hk)
      rw [Bool.eq_iff_iff, has_iff, has_iff, hf]
      split <;> simp [hne]
    rw [List.foldl_cons, ih _ hs.2, hfilter, hf, keys_cons, List.filter_cons]
    cases t.has e.key <;> simp

theorem nodup_keys_foldl {f : Tree → Entry → Tree}
    (hf : ∀ t e, (f t e).keys = if t.has e.key then t.keys else t.keys ++ [e.key])
    (ht : t.keys.Nodup) {s : Tree} (hs : s.keys.Nodup) : (s.foldl f t).keys.Nodup := by
  rw [keys_foldl hf t hs]
  refine List.nodup_append.mpr ⟨ht, hs.filter _, fun a ha b hb hab => ?_⟩
  have := (List.mem_filter.mp hb).2
  rw [← hab, has_iff.mpr ha] at this
  cases this

theorem nodup_keys_put (ht : t.keys.Nodup) (e : Entry) : (t.put e).keys.Nodup :=
  nodup_keys_foldl keys_put ht (s := [e]) (List.nodup_singleton _)

/-! ### Distinct keys -/

end Tree

mutual

def Entry.WellKeyed : Entry → Prop
  | .literal _ _ => True
  | .block _ es => Tree.WellKeyed es

/-- No level of the tree holds two entries under one key. -/
def Tree.WellKeyed : List Entry → Prop
  | [] => True
  | e :: es => e.key ∉ Tree.keys es ∧ e.WellKeyed ∧ Tree.WellKeyed es

end

mutual

instance Entry.decidableWellKeyed : (e : Entry) → Decidable e.WellKeyed
  | .literal _ _ => isTrue trivial
  | .block _ es => Tree.decidableWellKeyed es

instance Tree.decidableWellKeyed : (t : List Entry) → Decidable (Tree.WellKeyed t)
  | [] => isTrue trivial
  | e :: es =>
    have := Entry.decidableWellKeyed e
    have := Tree.decidableWellKeyed es
    inferInstanceAs (Decidable (e.key ∉ Tree.keys es ∧ e.WellKeyed ∧ Tree.WellKeyed es))

end

namespace Tree

/-- A tree is well-keyed if its top level is and each of its blocks is. -/
theorem wellKeyed_iff : WellKeyed t ↔ t.keys.Nodup ∧ ∀ k ds, .block k ds ∈ t → WellKeyed ds := by
  induction t with
  | nil => simp [WellKeyed]
  | cons e es ih =>
    rw [WellKeyed, ih, keys_cons, List.nodup_cons]
    constructor
    · rintro ⟨hk, he, hn, hb⟩
      refine ⟨⟨hk, hn⟩, fun k ds hm => ?_⟩
      rcases List.mem_cons.mp hm with rfl | hm
      · exact he
      · exact hb k ds hm
    · rintro ⟨⟨hk, hn⟩, hb⟩
      refine ⟨hk, ?_, hn, fun k ds hm => hb k ds (List.mem_cons_of_mem _ hm)⟩
      cases e with
      | literal k v => exact trivial
      | block k ds => exact hb k ds List.mem_cons_self

theorem WellKeyed.nodup (h : WellKeyed t) : t.keys.Nodup := (wellKeyed_iff.mp h).1

theorem WellKeyed.of_mem (h : WellKeyed t) (hm : .block k ds ∈ t) :
    WellKeyed ds := (wellKeyed_iff.mp h).2 k ds hm

theorem WellKeyed.child (h : WellKeyed t) (hc : t.child? k = some ds) :
    WellKeyed ds := h.of_mem (mem_of_child? hc)

theorem WellKeyed.put (h : WellKeyed t) (he : e.WellKeyed) : WellKeyed (t.put e) := by
  refine wellKeyed_iff.mpr ⟨nodup_keys_put h.nodup e, fun k ds hm => ?_⟩
  rcases mem_put hm with rfl | hm
  · exact he
  · exact h.of_mem hm

/-- Induction from the blocks in a tree to the tree. -/
@[elab_as_elim]
theorem blockInd {motive : Tree → Prop}
    (step : ∀ t : Tree, (∀ k ds, .block k ds ∈ t → motive ds) → motive t) (t : Tree) :
    motive t := by
  refine step t ?_
  induction t using Tree.ind with
  | nil => intro k ds hm; cases hm
  | literal k v es ih =>
    intro k' ds' hm
    exact ih k' ds' (by simpa using hm)
  | block k ds es ihd ih =>
    intro k' ds' hm
    rcases List.mem_cons.mp hm with he | hm
    · cases he
      exact step ds ihd
    · exact ih k' ds' hm

/-- Induction from the blocks that are found in a tree to the tree. -/
@[elab_as_elim]
theorem childInd {motive : Tree → Prop}
    (step : ∀ t : Tree, (∀ k ds, t.child? k = some ds → motive ds) → motive t) (t : Tree) :
    motive t :=
  blockInd (fun t ih => step t fun k ds hc => ih k ds (mem_of_child? hc)) t

/-! ### Paths -/

def literalAt? (t : Tree) : List String → Option String
  | [] => none
  | [k] => t.get? k
  | k :: k' :: ks => (t.child? k).bind (literalAt? · (k' :: ks))

theorem at?_cons_eq_some :
    t.at? (k :: path) = some ds ↔ ∃ cs, t.child? k = some cs ∧ cs.at? path = some ds :=
  Option.bind_eq_some_iff

theorem at?_singleton (h : t.child? k = some ds) :
    t.at? [k] = some ds := at?_cons_eq_some.mpr ⟨ds, h, rfl⟩

theorem literalAt?_cons (h : t.child? k = some ds) (hv : ds.literalAt? path = some v) :
    t.literalAt? (k :: path) = some v := by
  cases path with
  | nil => cases hv
  | cons k' path => exact Option.bind_eq_some_iff.mpr ⟨ds, h, hv⟩

end Tree

def Entry.inner : Entry → Tree
  | .literal _ _ => []
  | .block _ es => es

@[simp] theorem Entry.inner_literal (k v : String) : (Entry.literal k v).inner = [] := rfl

@[simp] theorem Entry.inner_block (k : String) (es : Tree) : (Entry.block k es).inner = es := rfl

namespace Tree

/-- There is an entry, a literal or a block, at the end of the path. -/
def Holds (t : Tree) : List String → Prop
  | [] => True
  | k :: path => ∃ e ∈ t, e.key = k ∧ Holds e.inner path

theorem Holds.mono {s : Tree} (hs : t ⊆ s) (h : t.Holds path) : s.Holds path := by
  cases path with
  | nil => exact trivial
  | cons k path =>
    obtain ⟨e, he, hk⟩ := h
    exact ⟨e, hs he, hk⟩

theorem holds_singleton : t.Holds [k] ↔ k ∈ t.keys := by
  rw [mem_keys]
  exact ⟨fun ⟨e, he, hk, _⟩ => ⟨e, he, hk⟩, fun ⟨e, he, hk⟩ => ⟨e, he, hk, trivial⟩⟩

theorem Holds.of_child? (hd : t.child? k = some ds) (h : ds.Holds path) : t.Holds (k :: path) :=
  ⟨_, mem_of_child? hd, rfl, h⟩

theorem holds_put_block {es : Tree} (h : (t.put (.block k es)).Holds path) :
    t.Holds path ∨ ∃ rest, path = k :: rest ∧ es.Holds rest := by
  cases path with
  | nil => exact Or.inl trivial
  | cons j path =>
    obtain ⟨x, hx, rfl, hh⟩ := h
    rcases mem_put hx with rfl | hx
    · exact Or.inr ⟨path, rfl, hh⟩
    · exact Or.inl ⟨x, hx, rfl, hh⟩

theorem Holds.inner (ht : t.keys.Nodup) (he : e ∈ t) (h : t.Holds (e.key :: path)) :
    e.inner.Holds path := by
  obtain ⟨x, hx, hk, hh⟩ := h
  obtain rfl : x = e :=
    Option.some.inj ((find?_of_mem ht hx).symm.trans (hk ▸ find?_of_mem ht he))
  exact hh

theorem Holds.head (h : t.Holds (k :: path)) : k ∈ t.keys := by
  obtain ⟨e, he, hk, -⟩ := h
  exact mem_keys.mpr ⟨e, he, hk⟩

end Tree

end Pagesmith.Style
