import Pagesmith.Value.Basic

/-!
# Fields by their names

A list of fields is read by looking names up: the first field of a name counts.  Fields that are set
one after another count from the last, which `last?` finds.

* `field?_setField`: a field that is set changes what its own name means and nothing else.
* `overlay base top`: the fields `top` set in `base`.  `field?_overlay` says what its names mean.
* `Ordered`: fields as a map has them, each name once.  Setting fields keeps them so.
-/

namespace Pagesmith.Value

variable {fields : List (String × Value)}

theorem field?_nil (name : String) : field? [] name = none := rfl

theorem field?_cons (k : String) (v : Value) (fields : List (String × Value)) (name : String) :
    field? ((k, v) :: fields) name = if name = k then some v else field? fields name := by
  by_cases h : k = name
  · rw [field?, List.find?_cons_of_pos (by simpa using h), if_pos h.symm]
    rfl
  · rw [field?, List.find?_cons_of_neg (by simpa using h), if_neg (Ne.symm h)]
    rfl

theorem field?_append (a b : List (String × Value)) (name : String) :
    field? (a ++ b) name = (field? a name).or (field? b name) := by
  rw [field?, List.find?_append, Option.map_or]
  rfl

theorem field?_setField (name : String) (v : Value) (fields : List (String × Value))
    (other : String) :
    field? (setField name v fields) other =
      if other = name then some v else field? fields other := by
  induction fields with
  | nil => rw [setField, field?_cons]
  | cons f fields ih =>
    obtain ⟨k, w⟩ := f
    rw [setField]
    split
    · next h =>
      have hname : name = k := beq_iff_eq.mp h
      rw [field?_cons, field?_cons, ← hname]
      split <;> rfl
    · next h =>
      split
      · rw [field?_cons]
      · rw [field?_cons, ih, field?_cons]
        -- The name that is set is not `k`, so at most one of the two tests succeeds.
        have hname : name ≠ k := fun hk => h (beq_iff_eq.mpr hk)
        by_cases hk : other = k
        · rw [if_pos hk, if_pos hk, if_neg]
          intro ho
          exact hname (ho.symm.trans hk)
        · rw [if_neg hk, if_neg hk]

def last? (fields : List (String × Value)) (name : String) : Option Value :=
  field? fields.reverse name

theorem last?_cons (f : String × Value) (fields : List (String × Value)) (name : String) :
    last? (f :: fields) name = (last? fields name).or (field? [f] name) := by
  rw [last?, List.reverse_cons, field?_append]
  rfl

theorem isSome_last? (fields : List (String × Value)) (name : String) :
    (last? fields name).isSome = (field? fields name).isSome := by
  rw [Bool.eq_iff_iff, last?, field?, field?, Option.isSome_map, Option.isSome_map,
    List.find?_isSome, List.find?_isSome]
  simp only [List.mem_reverse]

def overlay (base top : List (String × Value)) : List (String × Value) :=
  top.foldl (fun acc (name, v) => setField name v acc) base

theorem field?_overlay (base top : List (String × Value)) (name : String) :
    field? (overlay base top) name = (last? top name).or (field? base name) := by
  induction top generalizing base with
  | nil => rfl
  | cons f top ih =>
    obtain ⟨k, v⟩ := f
    show field? (overlay (setField k v base) top) name = _
    rw [ih, field?_setField, last?_cons, Option.or_assoc, field?_cons, field?_nil]
    split <;> rfl

/-! ### Maps -/

def Ordered (fields : List (String × Value)) : Prop := fields.Pairwise fun f g => f.1 < g.1

theorem mem_setField {name : String} {v : Value} {f : String × Value}
    (h : f ∈ setField name v fields) : f = (name, v) ∨ f ∈ fields := by
  induction fields with
  | nil => exact .inl (List.mem_singleton.mp h)
  | cons g fields ih =>
    rw [setField] at h
    split at h
    · exact (List.mem_cons.mp h).imp_right (List.mem_cons_of_mem g)
    · split at h
      · exact List.mem_cons.mp h
      · rcases List.mem_cons.mp h with rfl | h
        · exact .inr List.mem_cons_self
        · exact (ih h).imp_right (List.mem_cons_of_mem g)

theorem Ordered.setField (h : Ordered fields) (name : String) (v : Value) :
    Ordered (setField name v fields) := by
  induction fields with
  | nil => exact List.pairwise_singleton _ _
  | cons g fields ih =>
    obtain ⟨hg, hfields⟩ := List.pairwise_cons.mp h
    rw [Value.setField]
    split
    · next hname =>
      rw [← beq_iff_eq.mp hname] at hg
      exact List.pairwise_cons.mpr ⟨hg, hfields⟩
    · next hname =>
      split
      · next hlt =>
        refine List.pairwise_cons.mpr ⟨fun f hf => ?_, h⟩
        rcases List.mem_cons.mp hf with rfl | hf
        · exact hlt
        · exact String.lt_trans hlt (hg f hf)
      · next hlt =>
        refine List.pairwise_cons.mpr ⟨fun f hf => ?_, ih hfields⟩
        rcases mem_setField hf with rfl | hf
        · -- The names differ and `name` is not the smaller one.
          refine Classical.byContradiction fun hge => hname (beq_iff_eq.mpr ?_)
          exact String.le_antisymm (String.not_lt.mp hge) (String.not_lt.mp hlt)
        · exact hg f hf

theorem ordered_overlay {base : List (String × Value)} (h : Ordered base)
    (top : List (String × Value)) : Ordered (overlay base top) := by
  induction top generalizing base with
  | nil => exact h
  | cons f top ih => exact ih (h.setField f.1 f.2)

theorem field?_eq_none {name : String} (h : ∀ f ∈ fields, f.1 ≠ name) :
    field? fields name = none := by
  rw [field?, Option.map_eq_none_iff, List.find?_eq_none]
  intro f hf
  simpa using h f hf

theorem Ordered.last?_eq (h : Ordered fields) (name : String) :
    last? fields name = field? fields name := by
  induction fields with
  | nil => rfl
  | cons f fields ih =>
    obtain ⟨k, v⟩ := f
    obtain ⟨hk, hfields⟩ := List.pairwise_cons.mp h
    rw [last?_cons, ih hfields, field?_cons, field?_cons, field?_nil]
    split
    · next hname =>
      have hnone : field? fields name = none := by
        apply field?_eq_none
        intro f hf heq
        have hlt := hk f hf
        rw [heq, hname] at hlt
        exact String.lt_irrefl k hlt
      rw [hnone, Option.none_or]
    · rw [Option.or_none]

end Pagesmith.Value
