import Pagesmith.Proofs.Tree.Lookup
import Pagesmith.Style.Block

/-!
# What entries emit

Emission takes the entries of a tree one by one and appends what they contribute, so it turns a
tree laid end to end with another into the two contributions one after the other.

* `emitAll_append`: emission is additive.
* `emitAll_filter_preset`: a reference to a preset emits nothing.
* `emit_base`: a `base` block with a declaration of its own emits what its entries emit.
-/

namespace Pagesmith.Style

namespace Emitted

@[simp] theorem none_append (e : Emitted) : none.append e = e := rfl

@[simp] theorem append_none (e : Emitted) : e.append none = e := by
  rw [append, none, List.append_nil, List.append_nil]

theorem append_assoc (a b c : Emitted) : (a.append b).append c = a.append (b.append c) := by
  simp only [append, List.append_assoc]

theorem blocks_of_own {e : Emitted} (h : e.own ≠ []) (selector : String) :
    e.blocks selector = .rule selector e.own :: e.nested := by
  rw [blocks]
  cases ho : e.own with
  | nil => exact absurd ho h
  | cons d ds => rfl

theorem ofBlocks_blocks {e : Emitted} (h : e.own ≠ []) (selector : String) :
    ofBlocks selector (e.blocks selector) = e := by
  rw [blocks_of_own h, ofBlocks, if_pos rfl]

end Emitted

variable (selector : String)

@[simp] theorem emitAll_nil : emitAll selector [] = .none := by rw [emitAll]

theorem emitAll_cons (e : Entry) (es : Tree) :
    emitAll selector (e :: es) = (e.emit selector).append (emitAll selector es) := by rw [emitAll]

theorem emitAll_append (t s : Tree) :
    emitAll selector (t ++ s) = (emitAll selector t).append (emitAll selector s) := by
  induction t with
  | nil => rw [List.nil_append, emitAll_nil, Emitted.none_append]
  | cons e es ih => rw [List.cons_append, emitAll_cons, emitAll_cons, ih, Emitted.append_assoc]

theorem emit_preset (v : String) : Entry.emit selector (.literal "preset" v) = .none := by
  rw [Entry.emit, if_pos rfl]

/-- Dropping the reference to a preset changes nothing that is emitted. -/
theorem emitAll_filter_preset {t : Tree} (h : ∀ es, .block "preset" es ∉ t) :
    emitAll selector (t.filter fun e => !("preset" == e.key)) = emitAll selector t := by
  induction t with
  | nil => rfl
  | cons e es ih =>
    have hes := ih (fun ds hm => h ds (List.mem_cons_of_mem e hm))
    rw [List.filter_cons]
    by_cases hk : "preset" = e.key
    · cases e with
      | literal k v =>
        rw [Entry.key_literal] at hk
        subst hk
        rw [emitAll_cons, emit_preset, Emitted.none_append, ← hes]
        rfl
      | block k ds =>
        rw [Entry.key_block] at hk
        subst hk
        exact absurd List.mem_cons_self (h ds)
    · rw [beq_false_of_ne hk, Bool.not_false, if_pos rfl, emitAll_cons, emitAll_cons, hes]

/-! ### Declarations of the selector -/

theorem convertLayout_ne_nil (v : String) : convertLayout v ≠ [] := by
  unfold convertLayout
  simp only
  split
  · exact List.cons_ne_nil _ _
  · split <;> exact List.cons_ne_nil _ _

theorem convert_ne_nil (k v : String) : convert k v ≠ [] := by
  unfold convert
  split
  case h_1 => exact convertLayout_ne_nil v
  case h_3 => split <;> exact List.cons_ne_nil _ _
  all_goals exact List.cons_ne_nil _ _

theorem own_emit_literal {k : String} (hk : k ≠ "preset") (v : String) :
    (Entry.emit selector (.literal k v)).own = convert k v := by
  rw [Entry.emit, if_neg hk]

theorem own_emitAll_ne_nil {t : Tree} {k v : String} (hm : .literal k v ∈ t) (hk : k ≠ "preset") :
    (emitAll selector t).own ≠ [] := by
  obtain ⟨t₁, t₂, rfl⟩ := List.append_of_mem hm
  rw [emitAll_append, emitAll_cons]
  simp only [Emitted.append, own_emit_literal selector hk]
  simp [convert_ne_nil]

theorem emit_base {es : Tree} (h : (emitAll selector es).own ≠ []) :
    Entry.emit selector (.block "base" es) = emitAll selector es := by
  rw [Entry.emit, if_neg (by decide), if_neg (by decide), if_pos rfl, Emitted.ofBlocks_blocks h]

end Pagesmith.Style
