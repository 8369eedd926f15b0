import Pagesmith.Proofs.Value.Field
import Pagesmith.Settings.Basic

/-!
# Look-ups in layers

Settings over others answer a key from the upper ones if they can.  A key without dots is the name
of a field; one with dots may lead into sections, and fields with other names do not matter for it.

* `find?_of_no_dot`: a key without dots is looked up as the name of a field.
* `find?_layer`: such a key in layers, if the upper one has no sections.
* `find?_layer_of_apart`: a key that no name of the upper layer leads to.
-/

namespace Pagesmith.Settings

open Pagesmith.Value (field? setField overlay Ordered)

variable {key : String}

/-! ### Keys and names -/

/-- A name that a key neither is nor goes through. -/
def Apart (name : String) (key : List Char) : Prop := name.toList ≠ key ∧ below? name key = none

instance (name : String) (key : List Char) : Decidable (Apart name key) :=
  inferInstanceAs (Decidable (_ ∧ _))

theorem below?_of_no_dot {key : List Char} (h : '.' ∉ key) (name : String) :
    below? name key = none := by
  rw [below?, if_neg]
  intro hlead
  exact h ((List.isPrefixOf_iff_prefix.mp hlead).subset (by simp))

theorem findField_cons_of_apart {name : String} {key : List Char} (h : Apart name key) (v : Value)
    (fields : List (String × Value)) :
    findField ((name, v) :: fields) key = findField fields key := by
  rw [findField, if_neg h.1, h.2]
  rfl

theorem findField_of_no_dot (h : '.' ∉ key.toList) (fields : List (String × Value)) :
    findField fields key.toList = field? fields key := by
  induction fields with
  | nil => rw [findField]; rfl
  | cons f fields ih =>
    obtain ⟨name, v⟩ := f
    rw [Value.field?_cons]
    by_cases hname : key = name
    · rw [findField, if_pos (by rw [hname]), if_pos hname]
    · have hapart : Apart name key.toList :=
        ⟨fun heq => hname (String.toList_inj.mp heq).symm, below?_of_no_dot h name⟩
      rw [findField_cons_of_apart hapart, ih, if_neg hname]

theorem find?_of_no_dot (h : '.' ∉ key.toList) (s : Settings) : s.find? key = field? s.fields key :=
  findField_of_no_dot h s.fields

/-! ### Layers -/

theorem findField_setField {name : String} {key : List Char} (h : Apart name key) (v : Value)
    (fields : List (String × Value)) :
    findField (setField name v fields) key = findField fields key := by
  induction fields with
  | nil => rw [setField, findField_cons_of_apart h]
  | cons f fields ih =>
    obtain ⟨k, w⟩ := f
    rw [setField]
    split
    · next hk =>
      obtain rfl : name = k := beq_iff_eq.mp hk
      rw [findField_cons_of_apart h, findField_cons_of_apart h]
    · split
      · rw [findField_cons_of_apart h]
      · rw [findField, findField, ih]

/-- A key is answered by the lower layer if the names of the upper one do not lead to it. -/
theorem find?_layer_of_apart {upper : Settings} (h : ∀ f ∈ upper.fields, Apart f.1 key.toList)
    (lower : Settings) : (upper.layer lower).find? key = lower.find? key := by
  obtain ⟨upper⟩ := upper
  obtain ⟨lower⟩ := lower
  show findField (mergeFields upper lower) key.toList = findField lower key.toList
  induction upper generalizing lower with
  | nil => rw [mergeFields]
  | cons f upper ih =>
    obtain ⟨hf, hupper⟩ := List.forall_mem_cons.mp h
    rw [mergeFields, ih hupper, findField_setField hf]

def Flat (fields : List (String × Value)) : Prop := ∀ f ∈ fields, ∀ sub, f.2 ≠ .map sub

theorem mergeValue_of_ne {v : Value} (h : ∀ sub, v ≠ .map sub) (old : Option Value) :
    mergeValue v old = v := by
  cases v with
  | map sub => exact absurd rfl (h sub)
  | _ => rw [mergeValue]; exact nofun

theorem mergeFields_of_flat {upper : List (String × Value)} (h : Flat upper)
    (lower : List (String × Value)) : mergeFields upper lower = overlay lower upper := by
  induction upper generalizing lower with
  | nil => rw [mergeFields]; rfl
  | cons f upper ih =>
    obtain ⟨hf, hupper⟩ := List.forall_mem_cons.mp h
    rw [mergeFields, mergeValue_of_ne hf, ih hupper]
    rfl

/-- A key without dots is answered by the upper layer, or else by the lower one. -/
theorem find?_layer {upper : Settings} (hflat : Flat upper.fields) (hordered : Ordered upper.fields)
    (hdot : '.' ∉ key.toList) (lower : Settings) :
    (upper.layer lower).find? key = (field? upper.fields key).or (lower.find? key) := by
  rw [find?_of_no_dot hdot, find?_of_no_dot hdot, layer, mergeFields_of_flat hflat,
    Value.field?_overlay, hordered.last?_eq]

end Pagesmith.Settings
