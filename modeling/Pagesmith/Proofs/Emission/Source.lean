import Pagesmith.Proofs.Emission.Basic

/-!
# Where declarations come from

Emission again, with each declaration of a rule carrying the path of the entry that it was made
from.  Without the paths it is emission as it was (`erase_traceAll`), and every path leads to an
entry of the tree (`holds_of_mem_own`).

An entry of an `animation` block that is missing has a default, which then comes from the block
itself.  Groups under an at-rule are never joined to the rule around them, so nothing inside them
carries a path of its own.
-/

namespace Pagesmith.Style

variable {t : Tree}

/-- A declaration and the path of the entry that it was made from. -/
structure Sourced where
  path : List String
  declaration : Declaration
  deriving DecidableEq, Repr

variable {d : Sourced}

namespace Sourced

def under (k : String) (d : Sourced) : Sourced := ⟨k :: d.path, d.declaration⟩

end Sourced

/-- A block whose declarations carry their paths; a group is kept as it is. -/
inductive SourcedBlock where
  | rule (selector : String) (declarations : List Sourced)
  | group (head : String) (children : List Block)

namespace SourcedBlock

def under (k : String) : SourcedBlock → SourcedBlock
  | .rule selector ds => .rule selector (ds.map (Sourced.under k))
  | .group head children => .group head children

def erase : SourcedBlock → Block
  | .rule selector ds => .rule selector (ds.map Sourced.declaration)
  | .group head children => .group head children

/-- A block taken as a whole: its declarations have no path of their own. -/
def ofBlock : Block → SourcedBlock
  | .rule selector ds => .rule selector (ds.map (Sourced.mk []))
  | .group head children => .group head children

def declarations : SourcedBlock → List Sourced
  | .rule _ ds => ds
  | .group _ _ => []

theorem erase_ofBlock (b : Block) : (ofBlock b).erase = b := by
  cases b with
  | rule selector ds =>
    rw [ofBlock, erase, List.map_map]
    exact congrArg (Block.rule selector) (List.map_id ds)
  | group head children => rfl

theorem map_erase_ofBlock (bs : List Block) : (bs.map ofBlock).map erase = bs := by
  rw [List.map_map]
  exact (List.map_congr_left (fun b _ => erase_ofBlock b)).trans (List.map_id bs)

theorem erase_under (k : String) (b : SourcedBlock) : (b.under k).erase = b.erase := by
  cases b with
  | rule selector ds =>
    rw [under, erase, erase, List.map_map]
    rfl
  | group head children => rfl

theorem map_erase_under (k : String) (bs : List SourcedBlock) :
    (bs.map (under k)).map erase = bs.map erase := by
  rw [List.map_map]
  exact List.map_congr_left (fun b _ => erase_under k b)

end SourcedBlock

structure Traced where
  own : List Sourced
  nested : List SourcedBlock

namespace Traced

def none : Traced := ⟨[], []⟩

def append (a b : Traced) : Traced := ⟨a.own ++ b.own, a.nested ++ b.nested⟩

def under (k : String) (e : Traced) : Traced :=
  ⟨e.own.map (Sourced.under k), e.nested.map (SourcedBlock.under k)⟩

def blocks (selector : String) (e : Traced) : List SourcedBlock :=
  match e.own with
  | [] => e.nested
  | own => .rule selector own :: e.nested

def ofBlocks (selector : String) : List SourcedBlock → Traced
  | .rule s own :: rest => if s = selector then ⟨own, rest⟩ else ⟨[], .rule s own :: rest⟩
  | blocks => ⟨[], blocks⟩

def erase (e : Traced) : Emitted :=
  ⟨e.own.map Sourced.declaration, e.nested.map SourcedBlock.erase⟩

theorem erase_append (a b : Traced) : (a.append b).erase = a.erase.append b.erase := by
  simp only [append, erase, Emitted.append, List.map_append]

theorem erase_under (k : String) (e : Traced) : (e.under k).erase = e.erase := by
  rw [under, erase, erase, SourcedBlock.map_erase_under, List.map_map]
  rfl

theorem erase_blocks (selector : String) (e : Traced) :
    (e.blocks selector).map SourcedBlock.erase = e.erase.blocks selector := by
  rw [blocks, Emitted.blocks, erase]
  cases e.own with
  | nil => rfl
  | cons d ds => rfl

theorem erase_ofBlocks (selector : String) (bs : List SourcedBlock) :
    (ofBlocks selector bs).erase = Emitted.ofBlocks selector (bs.map SourcedBlock.erase) := by
  cases bs with
  | nil => rfl
  | cons b rest =>
    cases b with
    | group head children => rfl
    | rule s own =>
      rw [ofBlocks, List.map_cons, SourcedBlock.erase, Emitted.ofBlocks]
      split <;> rfl

end Traced

def traceColor (e : Entry) : Option Sourced := (convertColor e).map (Sourced.mk [e.key])

def traceAnimation (t : Tree) : List Sourced :=
  let optional (key property : String) : List Sourced :=
    ((t.get? key).map fun v => Sourced.mk [key] ⟨property, v⟩).toList
  let required (key property fallback : String) : Sourced :=
    match t.get? key with
    | some v => ⟨[key], ⟨property, v⟩⟩
    | none => ⟨[], ⟨property, fallback⟩⟩
  optional "type" "animation-name"
    ++ [required "duration" "animation-duration" "0.3s",
        required "timing" "animation-timing-function" "ease"]
    ++ optional "delay" "animation-delay"
    ++ optional "iteration" "animation-iteration-count"

mutual

/-- What an entry contributes below a selector, with paths. -/
def Entry.trace (selector : String) : Entry → Traced
  | .literal k v => if k = "preset" then .none else ⟨(convert k v).map (Sourced.mk [k]), []⟩
  | .block k es =>
    if k = "animation" then ⟨(traceAnimation es).map (Sourced.under k), []⟩
    else if k = "colors" then ⟨(es.filterMap traceColor).map (Sourced.under k), []⟩
    else if k = "base" then
      (Traced.ofBlocks selector ((traceAll selector es).blocks selector)).under k
    else if k = "states" then ⟨[], (traceVariants selector "&:" es).map (SourcedBlock.under k)⟩
    else if k = "sizes" then ⟨[], (traceVariants selector "&--" es).map (SourcedBlock.under k)⟩
    else if k = "responsive" then
      ⟨[], ((responsiveBlocks selector es).map SourcedBlock.ofBlock).map (SourcedBlock.under k)⟩
    else
      let inner := nestSelector selector k
      ⟨[], ((traceAll inner es).blocks inner).map (SourcedBlock.under k)⟩

def traceAll (selector : String) : List Entry → Traced
  | [] => .none
  | e :: es => (e.trace selector).append (traceAll selector es)

def traceVariants (selector mark : String) : List Entry → List SourcedBlock
  | [] => []
  | .literal _ _ :: rest => traceVariants selector mark rest
  | .block k es :: rest =>
    let inner := nestSelector selector (mark ++ k)
    ((traceAll inner es).blocks inner).map (SourcedBlock.under k)
      ++ traceVariants selector mark rest

end

/-- What the entries of a block contribute, with paths that start inside the block. -/
def inside (selector k : String) (es : Tree) : Traced :=
  if k = "animation" then ⟨traceAnimation es, []⟩
  else if k = "colors" then ⟨es.filterMap traceColor, []⟩
  else if k = "base" then .ofBlocks selector ((traceAll selector es).blocks selector)
  else if k = "states" then ⟨[], traceVariants selector "&:" es⟩
  else if k = "sizes" then ⟨[], traceVariants selector "&--" es⟩
  else if k = "responsive" then ⟨[], (responsiveBlocks selector es).map .ofBlock⟩
  else ⟨[], (traceAll (nestSelector selector k) es).blocks (nestSelector selector k)⟩

theorem trace_block (selector k : String) (es : Tree) :
    Entry.trace selector (.block k es) = (inside selector k es).under k := by
  rw [Entry.trace, inside]
  split_ifs <;> rfl

/-! ### Without the paths -/

theorem map_traceColor (t : Tree) :
    (t.filterMap traceColor).map Sourced.declaration = convertColors t := by
  rw [convertColors, List.map_filterMap]
  refine congrArg (List.filterMap · t) (funext fun e => ?_)
  rw [traceColor, Option.map_map]
  exact congrFun Option.map_id (convertColor e)

theorem map_traceAnimation (t : Tree) :
    (traceAnimation t).map Sourced.declaration = convertAnimation t := by
  have opt : ∀ key property, (((t.get? key).map fun v => Sourced.mk [key] ⟨property, v⟩).toList).map
      Sourced.declaration = ((t.get? key).map (Declaration.mk property)).toList := by
    intro key property
    cases t.get? key <;> rfl
  have req : ∀ key property fallback, (match t.get? key with
      | some v => Sourced.mk [key] ⟨property, v⟩
      | none => ⟨[], ⟨property, fallback⟩⟩).declaration = ⟨property, t.getD key fallback⟩ := by
    intro key property fallback
    rw [Tree.getD]
    cases t.get? key <;> rfl
  simp only [traceAnimation, convertAnimation, List.map_append, List.map_cons, List.map_nil, opt,
    req]

theorem erase_trace_literal (selector k v : String) :
    (Entry.trace selector (.literal k v)).erase = Entry.emit selector (.literal k v) := by
  rw [Entry.trace, Entry.emit]
  split
  · rfl
  · rw [Traced.erase, List.map_map]
    exact congrArg (Emitted.mk · []) (List.map_id (convert k v))

/-- A block, from its entries as a tree of their own and as variants. -/
theorem erase_trace_block (selector k : String) {es : Tree}
    (hall : ∀ selector, (traceAll selector es).erase = emitAll selector es)
    (hvar : ∀ selector mark, (traceVariants selector mark es).map SourcedBlock.erase
      = variantBlocks selector mark es) :
    (Entry.trace selector (.block k es)).erase = Entry.emit selector (.block k es) := by
  have hsame : Sourced.declaration ∘ Sourced.under k = Sourced.declaration := rfl
  rw [Entry.trace, Entry.emit]
  by_cases h : k = "animation"
  · rw [if_pos h, if_pos h, Traced.erase, List.map_map, hsame, map_traceAnimation]
    rfl
  rw [if_neg h, if_neg h]
  by_cases h : k = "colors"
  · rw [if_pos h, if_pos h, Traced.erase, List.map_map, hsame, map_traceColor]
    rfl
  rw [if_neg h, if_neg h]
  by_cases h : k = "base"
  · rw [if_pos h, if_pos h, Traced.erase_under, Traced.erase_ofBlocks, Traced.erase_blocks, hall]
  rw [if_neg h, if_neg h]
  by_cases h : k = "states"
  · rw [if_pos h, if_pos h, Traced.erase, SourcedBlock.map_erase_under, hvar]
    rfl
  rw [if_neg h, if_neg h]
  by_cases h : k = "sizes"
  · rw [if_pos h, if_pos h, Traced.erase, SourcedBlock.map_erase_under, hvar]
    rfl
  rw [if_neg h, if_neg h]
  by_cases h : k = "responsive"
  · rw [if_pos h, if_pos h, Traced.erase, SourcedBlock.map_erase_under,
      SourcedBlock.map_erase_ofBlock]
    rfl
  rw [if_neg h, if_neg h, Traced.erase, SourcedBlock.map_erase_under, Traced.erase_blocks, hall]
  rfl

/-- **Without the paths, what is traced is what is emitted.** -/
theorem erase_traceAll (t : Tree) (selector : String) :
    (traceAll selector t).erase = emitAll selector t := by
  suffices h : (∀ selector, (traceAll selector t).erase = emitAll selector t) ∧
      ∀ selector mark, (traceVariants selector mark t).map SourcedBlock.erase
        = variantBlocks selector mark t from h.1 selector
  induction t using Tree.ind with
  | nil =>
    refine ⟨fun selector => ?_, fun selector mark => ?_⟩
    · rw [traceAll, emitAll]; rfl
    · rw [traceVariants, variantBlocks]; rfl
  | literal k v es ih =>
    refine ⟨fun selector => ?_, fun selector mark => ?_⟩
    · rw [traceAll, emitAll, Traced.erase_append, erase_trace_literal, ih.1]
    · rw [traceVariants, variantBlocks, ih.2]
  | block k ds es ihd ih =>
    refine ⟨fun selector => ?_, fun selector mark => ?_⟩
    · rw [traceAll, emitAll, Traced.erase_append, erase_trace_block selector k ihd.1 ihd.2, ih.1]
    · rw [traceVariants, variantBlocks, List.map_append, ih.2, SourcedBlock.map_erase_under,
        Traced.erase_blocks, ihd.1]

/-! ### The paths -/

variable (selector : String)

/-- All declarations that carry paths, those of nested rules included. -/
def Traced.all (e : Traced) : List Sourced := e.own ++ e.nested.flatMap SourcedBlock.declarations

theorem Traced.flatMap_blocks (e : Traced) :
    (e.blocks selector).flatMap SourcedBlock.declarations = e.all := by
  rw [blocks, all]
  cases e.own with
  | nil => rfl
  | cons d ds => rfl

theorem Traced.all_ofBlocks (bs : List SourcedBlock) :
    (ofBlocks selector bs).all = bs.flatMap SourcedBlock.declarations := by
  cases bs with
  | nil => rfl
  | cons b rest =>
    cases b with
    | group head children => rfl
    | rule s own =>
      rw [ofBlocks]
      split <;> rfl

theorem SourcedBlock.flatMap_under (k : String) (bs : List SourcedBlock) :
    (bs.map (under k)).flatMap declarations = (bs.flatMap declarations).map (Sourced.under k) := by
  induction bs with
  | nil => rfl
  | cons b rest ih =>
    rw [List.map_cons, List.flatMap_cons, List.flatMap_cons, List.map_append, ih]
    cases b <;> rfl

theorem Traced.all_under (k : String) (e : Traced) :
    (e.under k).all = e.all.map (Sourced.under k) := by
  rw [under, all, all, List.map_append, SourcedBlock.flatMap_under]

theorem Traced.mem_all_append {a b : Traced} : d ∈ (a.append b).all ↔ d ∈ a.all ∨ d ∈ b.all := by
  simp only [append, all, List.flatMap_append, List.mem_append]
  tauto

theorem own_traceAll (t : Tree) :
    (traceAll selector t).own = t.flatMap fun e => (e.trace selector).own := by
  induction t with
  | nil => rw [traceAll]; rfl
  | cons e es ih => rw [traceAll, Traced.append, ih, List.flatMap_cons]

theorem mem_all_traceAll : d ∈ (traceAll selector t).all ↔ ∃ e ∈ t, d ∈ (e.trace selector).all := by
  induction t with
  | nil => simp [traceAll, Traced.none, Traced.all]
  | cons e es ih => rw [traceAll, Traced.mem_all_append, ih]; simp

theorem mem_traceVariants {mark : String} :
    d ∈ (traceVariants selector mark t).flatMap SourcedBlock.declarations ↔
      ∃ k ds, .block k ds ∈ t ∧
        d ∈ (traceAll (nestSelector selector (mark ++ k)) ds).all.map (Sourced.under k) := by
  induction t with
  | nil => simp [traceVariants]
  | cons e es ih =>
    cases e with
    | literal k v => rw [traceVariants, ih]; simp
    | block k ds =>
      rw [traceVariants, List.flatMap_append, List.mem_append, SourcedBlock.flatMap_under,
        Traced.flatMap_blocks, ih]
      constructor
      · rintro (h | ⟨j, es', hm, h⟩)
        · exact ⟨k, ds, List.mem_cons_self, h⟩
        · exact ⟨j, es', List.mem_cons_of_mem _ hm, h⟩
      · rintro ⟨j, es', hm, h⟩
        rcases List.mem_cons.mp hm with heq | hm
        · cases heq
          exact .inl h
        · exact .inr ⟨j, es', hm, h⟩

/-- What is grouped under an at-rule carries no path. -/
theorem flatMap_responsiveBlocks (es : Tree) :
    ((responsiveBlocks selector es).map SourcedBlock.ofBlock).flatMap SourcedBlock.declarations
      = [] := by
  induction es with
  | nil => rw [responsiveBlocks]; rfl
  | cons e es ih =>
    cases e with
    | literal k v => rwa [responsiveBlocks]
    | block k ds =>
      rw [responsiveBlocks]
      split
      · exact ih
      · split
        · exact ih
        · rw [List.map_cons, List.flatMap_cons, ih]
          rfl

/-- What the entries of a block give: animation or color properties, what they give as a tree of
their own or as variants, or nothing. -/
theorem inside_cases (k : String) :
    (∀ es, (inside selector k es).all = traceAnimation es) ∨
    (∀ es, (inside selector k es).all = es.filterMap traceColor) ∨
    (∃ inner, ∀ es, (inside selector k es).all = (traceAll inner es).all) ∨
    (∃ mark, ∀ es, (inside selector k es).all
      = (traceVariants selector mark es).flatMap SourcedBlock.declarations) ∨
    ∀ es, (inside selector k es).all = [] := by
  by_cases ha : k = "animation"
  · exact .inl fun es => by simp [inside, ha, Traced.all]
  by_cases hc : k = "colors"
  · exact .inr (.inl fun es => by simp [inside, hc, Traced.all])
  by_cases hb : k = "base"
  · refine .inr (.inr (.inl ⟨selector, fun es => ?_⟩))
    rw [inside, if_neg ha, if_neg hc, if_pos hb, Traced.all_ofBlocks, Traced.flatMap_blocks]
  by_cases hst : k = "states"
  · refine .inr (.inr (.inr (.inl ⟨"&:", fun es => ?_⟩)))
    rw [inside, if_neg ha, if_neg hc, if_neg hb, if_pos hst]
    rfl
  by_cases hsz : k = "sizes"
  · refine .inr (.inr (.inr (.inl ⟨"&--", fun es => ?_⟩)))
    rw [inside, if_neg ha, if_neg hc, if_neg hb, if_neg hst, if_pos hsz]
    rfl
  by_cases hr : k = "responsive"
  · refine .inr (.inr (.inr (.inr fun es => ?_)))
    rw [inside, if_neg ha, if_neg hc, if_neg hb, if_neg hst, if_neg hsz, if_pos hr]
    exact flatMap_responsiveBlocks selector es
  · refine .inr (.inr (.inl ⟨nestSelector selector k, fun es => ?_⟩))
    rw [inside, if_neg ha, if_neg hc, if_neg hb, if_neg hst, if_neg hsz, if_neg hr]
    exact Traced.flatMap_blocks _ _

theorem path_of_mem_traceAnimation (h : d ∈ traceAnimation t) : t.Holds d.path := by
  have hget : ∀ {key v}, t.get? key = some v → t.Holds [key] := by
    intro key v hv
    exact Tree.holds_singleton.mpr (Tree.key_mem_keys (Tree.mem_of_get? hv))
  have opt : ∀ {key property},
      d ∈ ((t.get? key).map fun v => Sourced.mk [key] ⟨property, v⟩).toList → t.Holds d.path := by
    intro key property hd
    obtain ⟨v, hv, rfl⟩ := Option.map_eq_some_iff.mp (Option.mem_toList.mp hd)
    exact hget hv
  have req : ∀ {key property fallback}, d = (match t.get? key with
      | some v => Sourced.mk [key] ⟨property, v⟩
      | none => ⟨[], ⟨property, fallback⟩⟩) → t.Holds d.path := by
    rintro key property fallback rfl
    split
    · next hv => exact hget hv
    · exact trivial
  simp only [traceAnimation, List.mem_append, List.mem_cons, List.not_mem_nil, or_false] at h
  rcases h with ((h | h | h) | h) | h
  · exact opt h
  · exact req h
  · exact req h
  · exact opt h
  · exact opt h

theorem path_of_mem_trace_literal {k v : String}
    (h : d ∈ (Entry.trace selector (.literal k v)).all) : d.path = [k] := by
  rw [Entry.trace] at h
  split at h
  · cases h
  · obtain ⟨x, -, rfl⟩ := List.mem_map.mp (by simpa [Traced.all] using h)
    rfl

theorem path_of_mem_traceColor {e : Entry} (h : traceColor e = some d) : d.path = [e.key] := by
  obtain ⟨x, -, rfl⟩ := Option.map_eq_some_iff.mp h
  rfl

theorem path_of_mem_trace {e : Entry} (h : d ∈ (e.trace selector).all) :
    ∃ p, d.path = e.key :: p := by
  cases e with
  | literal k v => exact ⟨[], path_of_mem_trace_literal selector h⟩
  | block k es =>
    rw [trace_block, Traced.all_under] at h
    obtain ⟨x, -, rfl⟩ := List.mem_map.mp h
    exact ⟨x.path, rfl⟩

/-- **Every declaration comes from an entry of the tree,** in a rule and in variants of it. -/
theorem holds_of_mem_trace (t : Tree) :
    (∀ selector, ∀ d ∈ (traceAll selector t).all, t.Holds d.path) ∧
    ∀ selector mark, ∀ d ∈ (traceVariants selector mark t).flatMap SourcedBlock.declarations,
      t.Holds d.path := by
  induction t using Tree.blockInd with
  | step t ih =>
    refine ⟨fun selector d hd => ?_, fun selector mark d hd => ?_⟩
    · obtain ⟨e, he, hd⟩ := (mem_all_traceAll selector).mp hd
      cases e with
      | literal k v =>
        rw [path_of_mem_trace_literal selector hd, Tree.holds_singleton]
        exact Tree.key_mem_keys he
      | block k ds =>
        rw [trace_block, Traced.all_under] at hd
        obtain ⟨x, hx, rfl⟩ := List.mem_map.mp hd
        refine ⟨_, he, rfl, ?_⟩
        obtain h | h | ⟨inner, h⟩ | ⟨mark, h⟩ | h := inside_cases selector k <;> rw [h] at hx
        · exact path_of_mem_traceAnimation hx
        · obtain ⟨e, he, hx⟩ := List.mem_filterMap.mp hx
          rw [path_of_mem_traceColor hx]
          exact Tree.holds_singleton.mpr (Tree.key_mem_keys he)
        · exact (ih k ds he).1 inner x hx
        · exact (ih k ds he).2 selector mark x hx
        · cases hx
    · obtain ⟨k, ds, he, hd⟩ := (mem_traceVariants selector).mp hd
      obtain ⟨x, hx, rfl⟩ := List.mem_map.mp hd
      exact ⟨_, he, rfl, (ih k ds he).1 _ x hx⟩

theorem holds_of_mem_own (h : d ∈ (traceAll selector t).own) :
    t.Holds d.path := (holds_of_mem_trace t).1 selector d (List.mem_append_left _ h)

/-! ### The last declaration of a property -/

/-- The last declaration of a property, the one that a browser applies. -/
def applied? (property : String) (ds : List Sourced) : Option Sourced :=
  (ds.filter fun d => d.declaration.property == property).getLast?

theorem applied?_append (property : String) (ds es : List Sourced) :
    applied? property (ds ++ es) = (applied? property es).or (applied? property ds) := by
  rw [applied?, List.filter_append, List.getLast?_append]
  rfl

theorem mem_of_applied? {property : String} {ds : List Sourced}
    (h : applied? property ds = some d) : d ∈ ds ∧ d.declaration.property = property := by
  have hm := List.mem_filter.mp (List.mem_of_getLast? h)
  exact ⟨hm.1, beq_iff_eq.mp hm.2⟩

theorem applied?_map_under (property k : String) (ds : List Sourced) :
    applied? property (ds.map (Sourced.under k))
      = (applied? property ds).map (Sourced.under k) := by
  rw [applied?, List.filter_map, List.getLast?_map]
  rfl

theorem applied?_eq_none {property : String} {ds : List Sourced} :
    applied? property ds = none ↔ ∀ d ∈ ds, d.declaration.property ≠ property := by
  rw [applied?, List.getLast?_eq_none_iff, List.filter_eq_nil_iff]
  simp

end Pagesmith.Style
