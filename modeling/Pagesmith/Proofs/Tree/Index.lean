import Mathlib.Logic.Function.Basic
import Mathlib.Tactic
import Pagesmith.Proofs.Tree.Merge

/-!
# Property trees with an index

A property tree that is read often holds an index beside the entries of each level: where each key
stands among them.  The index is redundant, so every write has to keep it in step with the entries.
This file writes the operations on such trees and shows that they do: with any history an indexed
tree is `Tree.indexed` of the property tree with the same history.

* `IndexedTree`: the trees, with `put`, `merge` and the copies that a merge makes of blocks.
* `Tree.indexed`: a property tree with the index that belongs to it.
* `Tree.put_indexed`, `Tree.merge_indexed`: what each operation does to such a tree.
* `Write`, `replay`: histories, and the tree after a history.
* `Tree.apply_indexed`, `Tree.replay_indexed`: what one write and a whole history do.
* `replay_refines`: indexed trees are ordered maps.
-/

namespace Pagesmith.Style

/-! ### Trees with an index -/

inductive IndexedEntry where
  | literal (key value : String)
  | block (key : String) (entries : List IndexedEntry) (index : String → Option Nat)

def IndexedEntry.key : IndexedEntry → String
  | .literal k _ => k
  | .block k _ _ => k

/-- Entries in the order of their first insertion, and where each key stands among them. -/
structure IndexedTree where
  entries : List IndexedEntry
  index : String → Option Nat

namespace IndexedTree

def empty : IndexedTree := ⟨[], fun _ => none⟩

def keys (t : IndexedTree) : List String := t.entries.map IndexedEntry.key

def has (t : IndexedTree) (k : String) : Bool := (t.index k).isSome

def find? (t : IndexedTree) (k : String) : Option IndexedEntry :=
  (t.index k).bind fun i => t.entries[i]?

def get? (t : IndexedTree) (k : String) : Option String :=
  match t.find? k with
  | some (.literal _ v) => some v
  | _ => none

def child? (t : IndexedTree) (k : String) : Option IndexedTree :=
  match t.find? k with
  | some (.block _ es index) => some ⟨es, index⟩
  | _ => none

def put (t : IndexedTree) (e : IndexedEntry) : IndexedTree :=
  match t.index e.key with
  | some i => ⟨t.entries.set i e, t.index⟩
  | none => ⟨t.entries ++ [e], Function.update t.index e.key (some t.entries.length)⟩

def set (t : IndexedTree) (k v : String) : IndexedTree := t.put (.literal k v)

def setTree (t : IndexedTree) (k : String) (c : IndexedTree) : IndexedTree :=
  t.put (.block k c.entries c.index)

/-- Enters the keys of some entries, the first of which stands at `i`, into an index. -/
def enter (i : Nat) (index : String → Option Nat) : List IndexedEntry → String → Option Nat
  | [] => index
  | e :: es => enter (i + 1) (Function.update index e.key (some i)) es

end IndexedTree

mutual

def IndexedEntry.clone : IndexedEntry → IndexedEntry
  | .literal k v => .literal k v
  | .block k es _ => .block k (IndexedTree.cloneAll es) (IndexedTree.enter 0 (fun _ => none) es)

def IndexedTree.cloneAll : List IndexedEntry → List IndexedEntry
  | [] => []
  | e :: es => e.clone :: IndexedTree.cloneAll es

end

mutual

def IndexedEntry.mergeInto (t : IndexedTree) (e : IndexedEntry) : IndexedTree :=
  match t.index e.key with
  | none => t.put e.clone
  | some i =>
    match t.entries[i]?, e with
    | some (.block k ds inner), .block _ es _ =>
      let merged := IndexedTree.mergeAll ⟨ds, inner⟩ es
      ⟨t.entries.set i (.block k merged.entries merged.index), t.index⟩
    | _, _ => t

def IndexedTree.mergeAll (t : IndexedTree) : List IndexedEntry → IndexedTree
  | [] => t
  | e :: es => IndexedTree.mergeAll (IndexedEntry.mergeInto t e) es

end

def IndexedTree.merge (t s : IndexedTree) : IndexedTree := t.mergeAll s.entries

/-! ### The index that belongs to a tree -/

mutual

def Entry.indexed : Entry → IndexedEntry
  | .literal k v => .literal k v
  | .block k es => .block k (Tree.indexedEntries es) fun j => (Tree.keys es).idxOf? j

def Tree.indexedEntries : List Entry → List IndexedEntry
  | [] => []
  | e :: es => e.indexed :: Tree.indexedEntries es

end

namespace Tree

def indexed (t : Tree) : IndexedTree := ⟨indexedEntries t, fun k => t.keys.idxOf? k⟩

variable (t : Tree) (e : Entry) (k : String)

theorem indexedEntries_eq : indexedEntries t = t.map Entry.indexed := by
  induction t with
  | nil => rfl
  | cons e es ih => rw [indexedEntries, ih, List.map_cons]

@[simp] theorem key_indexed : e.indexed.key = e.key := by
  cases e <;> rfl

theorem keys_indexed : t.indexed.keys = t.keys := by
  simp [IndexedTree.keys, indexed, indexedEntries_eq, keys, Function.comp_def]

theorem find?_indexed : t.indexed.find? k = (t.find? k).map Entry.indexed := by
  simp only [IndexedTree.find?, indexed, indexedEntries_eq]
  induction t with
  | nil => rfl
  | cons x xs ih =>
    rw [keys_cons, List.idxOf?_cons, find?_cons]
    by_cases hk : x.key = k
    · simp [hk]
    · simpa [hk, Option.bind_map, Function.comp_def] using ih

theorem has_indexed : t.indexed.has k = t.has k := by
  rw [Bool.eq_iff_iff, has_iff]
  exact List.isSome_idxOf?

theorem get?_indexed : t.indexed.get? k = t.get? k := by
  rw [IndexedTree.get?, find?_indexed, get?]
  obtain h | ⟨v, h⟩ | ⟨ds, h⟩ := t.find?_cases k <;> rw [h] <;> rfl

theorem child?_indexed : t.indexed.child? k = (t.child? k).map indexed := by
  rw [IndexedTree.child?, find?_indexed, child?]
  obtain h | ⟨v, h⟩ | ⟨ds, h⟩ := t.find?_cases k <;> rw [h] <;> rfl

theorem index_eq_some_iff {t : Tree} (ht : t.keys.Nodup) (i : Nat) :
    t.indexed.index k = some i ↔ t.keys[i]? = some k := by
  rw [indexed, List.idxOf?_eq_some_iff, List.getElem?_eq_some_iff]
  refine exists_congr fun hi => and_iff_left_of_imp fun hk j hj hjk => ?_
  have := ht.getElem_inj_iff.mp (hjk.trans hk.symm)
  omega

/-! ### Writing -/

theorem entries_put {t : Tree} {e : Entry} {i : Nat} (h : t.indexed.index e.key = some i) :
    (t.put e).indexed.entries = t.indexed.entries.set i e.indexed := by
  simp only [indexed, indexedEntries_eq] at h ⊢
  induction t generalizing i with
  | nil => cases h
  | cons x xs ih =>
    rw [keys_cons, List.idxOf?_cons] at h
    rw [put_cons]
    by_cases hk : x.key = e.key
    · rw [if_pos (by simpa using hk)] at h
      cases h
      simp [hk]
    · rw [if_neg (by simpa using hk)] at h
      obtain ⟨j, hj, rfl⟩ := Option.map_eq_some_iff.mp h
      simp [hk, ih hj]

theorem index_put : (t.put e).indexed.index k
    = (t.indexed.index k).or (if e.key = k then some t.length else none) := by
  cases h : t.has e.key with
  | false =>
    rw [put_of_missing h]
    simp only [indexed, keys_append, List.idxOf?, List.findIdx?_append]
    by_cases hk : e.key = k <;> simp [hk, keys]
  | true =>
    simp only [indexed, keys_put_of_has h]
    by_cases hk : e.key = k
    · subst hk
      obtain ⟨i, hi⟩ := Option.isSome_iff_exists.mp (List.isSome_idxOf?.mpr (has_iff.mp h))
      rw [hi, Option.some_or]
    · rw [if_neg hk, Option.or_none]

/-- A write keeps the index in step. -/
theorem put_indexed : t.indexed.put e.indexed = (t.put e).indexed := by
  have hhas := has_indexed t e.key
  rw [IndexedTree.put, key_indexed]
  cases hi : t.indexed.index e.key with
  | some i =>
    rw [IndexedTree.has, hi] at hhas
    refine congrArg₂ IndexedTree.mk (entries_put hi).symm (funext fun k => ?_)
    rw [keys_put_of_has hhas.symm]
    rfl
  | none =>
    rw [IndexedTree.has, hi] at hhas
    refine congrArg₂ IndexedTree.mk ?_ (funext fun k => ?_)
    · rw [put_of_missing hhas.symm]
      simp [indexed, indexedEntries_eq]
    · refine Eq.trans ?_ (index_put t e k).symm
      by_cases hk : k = e.key
      · subst hk
        rw [hi]
        simp [indexed, indexedEntries_eq]
      · simp [hk, Ne.symm hk]

theorem set_indexed (v : String) : t.indexed.set k v = (t.set k v).indexed :=
  put_indexed t (.literal k v)

theorem setTree_indexed (c : Tree) :
    t.indexed.setTree k c.indexed = (t.setBlock k c).indexed := put_indexed t (.block k c)

/-! ### Merging -/

theorem enter_eq {t : Tree} (ht : t.keys.Nodup) (i : Nat) (index : String → Option Nat) :
    IndexedTree.enter i index (indexedEntries t) k
      = ((t.keys.idxOf? k).map (· + i)).or (index k) := by
  induction t generalizing i index with
  | nil => rfl
  | cons x xs ih =>
    rw [keys_cons, List.nodup_cons] at ht
    rw [indexedEntries, IndexedTree.enter, ih ht.2, key_indexed, keys_cons, List.idxOf?_cons]
    by_cases hk : x.key = k
    · subst hk
      simp [List.idxOf?_eq_none_iff.mpr ht.1]
    · simp [hk, Ne.symm hk, Function.comp_def, Nat.add_comm, Nat.add_left_comm]

theorem cloneAll_indexed {t : Tree} (ht : WellKeyed t) :
    IndexedTree.cloneAll (indexedEntries t) = indexedEntries t := by
  induction t using Tree.ind with
  | nil => rfl
  | literal k v es ih => rw [indexedEntries, IndexedTree.cloneAll, ih ht.2.2]; rfl
  | block k ds es ihd ih =>
    have hds : WellKeyed ds := ht.2.1
    -- only of distinct keys does the copy enter the first position
    have hindex := funext fun j => enter_eq j hds.nodup 0 fun _ => none
    rw [indexedEntries, IndexedTree.cloneAll, ih ht.2.2, Entry.indexed, IndexedEntry.clone,
      ihd hds, hindex]
    simp

theorem clone_indexed {e : Entry} (he : e.WellKeyed) : e.indexed.clone = e.indexed := by
  have ht : WellKeyed [e] := ⟨List.not_mem_nil, he, trivial⟩
  exact (List.cons.inj (cloneAll_indexed ht)).1

/-- Merging one entry, if the merge of its block is known. -/
theorem mergeInto_indexed (he : e.WellKeyed)
    (hblock : ∀ ds : Tree, ds.indexed.mergeAll (indexedEntries e.inner)
      = (ds.merge e.inner).indexed) :
    IndexedEntry.mergeInto t.indexed e.indexed = (Entry.mergeInto t e).indexed := by
  have hhas := has_indexed t e.key
  have hfind := find?_indexed t e.key
  rw [IndexedTree.has] at hhas
  rw [IndexedTree.find?] at hfind
  rw [IndexedEntry.mergeInto, key_indexed, clone_indexed he, put_indexed]
  cases hi : t.indexed.index e.key with
  | none =>
    rw [hi] at hhas
    rw [mergeInto_of_missing (has_eq_false.mp hhas.symm), put_of_missing hhas.symm]
  | some i =>
    rw [hi, Option.bind_some] at hfind
    rw [hi] at hhas
    -- `find?` has the entry at `i`, so a merge has the cases of the plain one
    obtain ⟨hx, -⟩ | ⟨ds, es, hx, he, hm⟩ | ⟨x, hx, hb, hm⟩ := mergeInto_cases t e
    · rw [has_eq_false.mpr hx] at hhas
      cases hhas
    · have hput := put_indexed t (.block e.key (merge ds es))
      rw [he, Entry.inner_block] at hblock
      rw [hx] at hfind
      rw [hm, ← hput, IndexedTree.put, key_indexed, Entry.key_block, hi, he]
      simp only [hfind, Option.map_some, Entry.indexed]
      exact congrArg (fun m : IndexedTree =>
        IndexedTree.mk (t.indexed.entries.set i (.block e.key m.entries m.index)) _) (hblock ds)
    · rw [hx] at hfind
      rw [hm]
      cases x <;> cases e <;> simp_all [Entry.indexed, Entry.isBlock]

theorem mergeAll_indexed {s : Tree} (hs : WellKeyed s) :
    t.indexed.mergeAll (indexedEntries s) = (t.merge s).indexed := by
  induction s using Tree.ind generalizing t with
  | nil => rw [indexedEntries, IndexedTree.mergeAll, merge_nil]
  | literal k v es ih =>
    have hfirst := mergeInto_indexed t (.literal k v) hs.2.1 fun ds => by
      rw [Entry.inner_literal, indexedEntries, IndexedTree.mergeAll, merge_nil]
    rw [indexedEntries, IndexedTree.mergeAll, hfirst, ih _ hs.2.2, merge_cons]
  | block k ds es ihd ih =>
    have hfirst := mergeInto_indexed t (.block k ds) hs.2.1 fun cs => ihd cs hs.2.1
    rw [indexedEntries, IndexedTree.mergeAll, hfirst, ih _ hs.2.2, merge_cons]

theorem merge_indexed {s : Tree} (hs : WellKeyed s) :
    t.indexed.merge s.indexed = (t.merge s).indexed := mergeAll_indexed t hs

end Tree

/-! ### Histories -/

/-- A write to a tree.  The block that is written and the source of a merge have histories of their
own. -/
inductive Write where
  | set (key value : String)
  | setTree (key : String) (history : List Write)
  | merge (history : List Write)

structure TreeOps (τ : Type) where
  empty : τ
  set : τ → String → String → τ
  setTree : τ → String → τ → τ
  merge : τ → τ → τ

def Tree.ops : TreeOps Tree := ⟨empty, set, setBlock, merge⟩

def IndexedTree.ops : TreeOps IndexedTree := ⟨empty, set, setTree, merge⟩

mutual

def Write.apply {τ : Type} (ops : TreeOps τ) (t : τ) : Write → τ
  | .set k v => ops.set t k v
  | .setTree k us => ops.setTree t k (replay ops ops.empty us)
  | .merge us => ops.merge t (replay ops ops.empty us)

def replay {τ : Type} (ops : TreeOps τ) (t : τ) : List Write → τ
  | [] => t
  | w :: ws => replay ops (w.apply ops t) ws

end

theorem replay_concat {τ : Type} (ops : TreeOps τ) (t : τ) (ws : List Write) (w : Write) :
    replay ops t (ws ++ [w]) = w.apply ops (replay ops t ws) := by
  induction ws generalizing t with
  | nil => rfl
  | cons v ws ih => exact ih (v.apply ops t)

namespace Write

def keys : Write → List String
  | .set k _ | .setTree k _ => [k]
  | .merge us => (replay Tree.ops [] us).keys

def entry? : Write → Option Entry
  | .set k v => some (.literal k v)
  | .setTree k us => some (.block k (replay Tree.ops [] us))
  | .merge _ => none

theorem apply_of_entry? {w : Write} {e : Entry} (h : w.entry? = some e) (t : Tree) :
    w.apply Tree.ops t = t.put e := by
  cases w <;> cases h <;> rfl

end Write

namespace Tree

mutual

/-- A write keeps the keys distinct and the index in step. -/
theorem apply_indexed : ∀ (w : Write) {t : Tree}, WellKeyed t → WellKeyed (w.apply ops t) ∧
    w.apply IndexedTree.ops t.indexed = (w.apply ops t).indexed
  | .set k v, t, ht => ⟨ht.put trivial, set_indexed t k v⟩
  | .setTree k us, t, ht => by
    obtain ⟨hus, hindexed⟩ := replay_indexed us (t := []) trivial
    exact ⟨ht.put hus, (congrArg (t.indexed.setTree k) hindexed).trans (setTree_indexed t k _)⟩
  | .merge us, t, ht => by
    obtain ⟨hus, hindexed⟩ := replay_indexed us (t := []) trivial
    exact ⟨ht.merge hus, (congrArg t.indexed.merge hindexed).trans (merge_indexed t hus)⟩

/-- **The index stays in step** over any history. -/
theorem replay_indexed : ∀ (ws : List Write) {t : Tree}, WellKeyed t →
    WellKeyed (replay ops t ws) ∧ replay IndexedTree.ops t.indexed ws = (replay ops t ws).indexed
  | [], _, ht => ⟨ht, rfl⟩
  | w :: ws, _, ht => by
    obtain ⟨hw, hindexed⟩ := apply_indexed w ht
    rw [replay, replay, hindexed]
    exact replay_indexed ws hw

end

end Tree

theorem eraseDups_of_nodup {l : List String} (h : l.Nodup) : l.eraseDups = l := by
  induction l with
  | nil => rfl
  | cons k l ih =>
    rw [List.nodup_cons] at h
    have hfilter : l.filter (fun j => !j == k) = l :=
      List.filter_eq_self.mpr fun j hj => by simpa using fun hjk : j = k => h.1 (hjk ▸ hj)
    rw [List.eraseDups_cons, hfilter, ih h.2]

namespace Tree

theorem nodup_keys_write (w : Write) : w.keys.Nodup := by
  cases w with
  | set k | setTree k => exact List.nodup_singleton k
  | merge us => exact (replay_indexed us (t := []) trivial).1.nodup

theorem keys_apply (t : Tree) (w : Write) :
    (w.apply ops t).keys = t.keys ++ w.keys.filter fun k => !t.has k := by
  cases w with
  | set k v => exact keys_foldl keys_put t (s := [.literal k v]) (List.nodup_singleton k)
  | setTree k us => exact keys_foldl keys_put t (s := [.block k _]) (List.nodup_singleton k)
  | merge us => exact keys_merge t (nodup_keys_write (.merge us))

/-- **Keys stand in the order of their first insertion.** -/
theorem keys_replay (ws : List Write) :
    (replay ops [] ws).keys = (ws.flatMap Write.keys).eraseDups := by
  induction ws using List.reverseRecOn with
  | nil => rfl
  | append_singleton ws w ih =>
    have hnew : (w.keys.filter fun k => !(replay ops [] ws).has k)
        = w.keys.removeAll (ws.flatMap Write.keys) := by
      refine List.filter_congr fun k _ => congrArg not ?_
      rw [Bool.eq_iff_iff, has_iff, ih, List.mem_eraseDups, List.elem_iff]
    have hnodup : (w.keys.removeAll (ws.flatMap Write.keys)).Nodup :=
      (nodup_keys_write w).filter _
    rw [replay_concat, keys_apply, hnew, ih, List.flatMap_append, List.flatMap_singleton,
      List.eraseDups_append, eraseDups_of_nodup hnodup]

/-- Without merges each key holds its last write. -/
theorem find?_replay {ws : List Write} (h : ∀ w ∈ ws, w.entry?.isSome = true) (k : String) :
    (replay ops [] ws).find? k = find? (ws.filterMap Write.entry?).reverse k := by
  induction ws using List.reverseRecOn with
  | nil => rfl
  | append_singleton ws w ih =>
    obtain ⟨e, he⟩ := Option.isSome_iff_exists.mp (h w (by simp))
    rw [replay_concat, Write.apply_of_entry? he, find?_put, ih fun v hv => h v (by simp [hv]),
      List.filterMap_append, List.filterMap_cons_some he, List.filterMap_nil,
      List.reverse_append, List.reverse_singleton, List.singleton_append, find?_cons]

/-- A write is read under its key, and nothing else changes. -/
theorem put_reads (t : Tree) (e : Entry) : (t.put e).indexed.has e.key = true ∧
    (t.put e).indexed.find? e.key = some e.indexed ∧ ∀ j, j ≠ e.key →
      (t.put e).indexed.index j = t.indexed.index j ∧
      (t.put e).indexed.find? j = t.indexed.find? j := by
  simp only [has_indexed, has_eq_isSome, find?_indexed, find?_put, index_put]
  refine ⟨by simp, by simp, fun j hj => ?_⟩
  rw [if_neg hj.symm, if_neg hj.symm, Option.or_none]
  exact ⟨rfl, rfl⟩

end Tree

namespace IndexedTree

inductive Level : IndexedTree → IndexedTree → Prop where
  | top (t : IndexedTree) : Level t t
  | inner {t s : IndexedTree} {k : String} {es : List IndexedEntry} {index : String → Option Nat}
      (h : .block k es index ∈ t.entries) (hs : Level ⟨es, index⟩ s) : Level t s

theorem Level.indexed {t s : IndexedTree} (h : Level t s) {u : Tree} (hu : Tree.WellKeyed u)
    (ht : t = u.indexed) : ∃ v : Tree, Tree.WellKeyed v ∧ s = v.indexed := by
  induction h generalizing u with
  | top t => exact ⟨u, hu, ht⟩
  | inner hmem _ ih =>
    subst ht
    rw [Tree.indexed, Tree.indexedEntries_eq] at hmem
    obtain ⟨e, he, heq⟩ := List.mem_map.mp hmem
    cases e with
    | literal => cases heq
    | block k ds =>
      cases heq
      exact ih (hu.of_mem he) rfl

/-- A write under a key: what is read there, and that nothing else changes. -/
def Wrote (t t' : IndexedTree) (k : String) (value : Option String) (block : Option IndexedTree) :
    Prop :=
  t'.has k = true ∧ t'.get? k = value ∧ t'.child? k = block ∧
    ∀ j, j ≠ k → t'.index j = t.index j ∧ t'.find? j = t.find? j

theorem wrote_set (t : Tree) (k v : String) :
    t.indexed.Wrote (t.indexed.set k v) k (some v) none := by
  obtain ⟨hhas, hfind : (t.set k v).indexed.find? k = some (.literal k v), hother⟩ :=
    t.put_reads (.literal k v)
  rw [t.set_indexed]
  exact ⟨hhas, by rw [get?, hfind], by rw [child?, hfind], hother⟩

theorem wrote_setTree (t c : Tree) (k : String) :
    t.indexed.Wrote (t.indexed.setTree k c.indexed) k none (some c.indexed) := by
  obtain ⟨hhas, hfind : (t.setBlock k c).indexed.find? k
    = some (.block k c.indexed.entries c.indexed.index), hother⟩ := t.put_reads (.block k c)
  rw [t.setTree_indexed]
  exact ⟨hhas, by rw [get?, hfind], by rw [child?, hfind], hother⟩

end IndexedTree

/-- **Indexed trees are ordered maps.**  A tree with any history is the property tree with the same
history, and reads as it does.  At every level the keys are distinct and the index has exactly their
positions.  Keys stand in the order of their first insertion.  A literal or a block that is written
is read under its key, and no other key changes its position or its entry.  So without merges each
key holds its last write at the position of its first. -/
theorem replay_refines (ws : List Write) :
    let t := replay IndexedTree.ops .empty ws
    let plain := replay Tree.ops [] ws
    (t = plain.indexed ∧ ∀ k, t.has k = plain.has k ∧ t.get? k = plain.get? k ∧
      t.child? k = (plain.child? k).map Tree.indexed) ∧
    (∀ s, IndexedTree.Level t s → s.keys.Nodup ∧
      ∀ k i, s.index k = some i ↔ s.keys[i]? = some k) ∧
    t.keys = (ws.flatMap Write.keys).eraseDups ∧
    (∀ k v, t.Wrote (t.set k v) k (some v) none) ∧
    (∀ k us, let c := replay IndexedTree.ops .empty us
      t.Wrote (t.setTree k c) k none (some c)) ∧
    ((∀ w ∈ ws, w.entry?.isSome = true) → ∀ k,
      t.index k = (ws.flatMap Write.keys).eraseDups.idxOf? k ∧
      t.find? k = (Tree.find? (ws.filterMap Write.entry?).reverse k).map Entry.indexed) := by
  intro t plain
  obtain ⟨hplain, ht⟩ : Tree.WellKeyed plain ∧ t = plain.indexed :=
    Tree.replay_indexed ws (t := []) trivial
  have hkeys : plain.keys = (ws.flatMap Write.keys).eraseDups :=
    Tree.keys_replay ws
  clear_value t
  subst ht
  refine ⟨⟨rfl, fun k => ⟨plain.has_indexed k, plain.get?_indexed k, plain.child?_indexed k⟩⟩,
    fun s hs => ?_, plain.keys_indexed.trans hkeys, IndexedTree.wrote_set plain,
    fun k us => ?_, fun hws k => ⟨?_, ?_⟩⟩
  · obtain ⟨u, hu, rfl⟩ := hs.indexed hplain rfl
    rw [u.keys_indexed]
    exact ⟨hu.nodup, fun k i => Tree.index_eq_some_iff k hu.nodup i⟩
  · have hc := (Tree.replay_indexed us (t := []) trivial).2
    exact hc ▸ IndexedTree.wrote_setTree plain _ k
  · rw [← hkeys]
    rfl
  · have hlast := Tree.find?_replay hws k
    rw [plain.find?_indexed, hlast]

end Pagesmith.Style
