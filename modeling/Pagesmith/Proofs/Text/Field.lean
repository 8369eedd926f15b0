import Mathlib.Tactic
import Pagesmith.Proofs.Text.Basic
import Pagesmith.Text.Blank

/-!
# Words of a text

A text is cut into words at its white space, so the words of two texts with a blank between them are
those of the one and then those of the other.

* `fields_append_cons`: words on the two sides of a blank.
* `fields_append`: words of a text and of one that starts with a blank.
* `fields_trim`: words of a trimmed text.
-/

namespace Pagesmith.Text

variable {c : Char} {p : Char → Bool}

theorem splitWhere_cons_of_pos (hc : p c = true) (s : List Char) :
    splitWhere p (c :: s) = ([], (splitWhere p s).1 :: (splitWhere p s).2) :=
  if_pos hc

theorem splitWhere_cons_of_neg (hc : p c = false) (s : List Char) :
    splitWhere p (c :: s) = (c :: (splitWhere p s).1, (splitWhere p s).2) :=
  if_neg (by simp [hc])

theorem splitWhere_append_cons (hc : p c = true) (x y : List Char) :
    splitWhere p (x ++ c :: y) = ((splitWhere p x).1,
      (splitWhere p x).2 ++ (splitWhere p y).1 :: (splitWhere p y).2) := by
  induction x with
  | nil => exact splitWhere_cons_of_pos hc y
  | cons d x ih =>
    rw [List.cons_append]
    cases hd : p d with
    | true => rw [splitWhere_cons_of_pos hd, splitWhere_cons_of_pos hd, ih]; rfl
    | false => rw [splitWhere_cons_of_neg hd, splitWhere_cons_of_neg hd, ih]

theorem fields_eq (s : List Char) :
    fields s = ((splitWhere isBlank s).1 :: (splitWhere isBlank s).2).filter (!·.isEmpty) := rfl

theorem fields_nil : fields [] = [] := rfl

theorem fields_append_cons (hc : isBlank c = true) (x y : List Char) :
    fields (x ++ c :: y) = fields x ++ fields y := by
  rw [fields_eq, splitWhere_append_cons hc, ← List.cons_append, List.filter_append]
  rfl

theorem fields_append (x : List Char) {y : List Char}
    (hy : ∀ c, y.head? = some c → isBlank c = true) : fields (x ++ y) = fields x ++ fields y := by
  cases y with
  | nil => rw [List.append_nil, fields_nil, List.append_nil]
  | cons c y =>
    have hcons : fields (c :: y) = fields y := fields_append_cons (hy c rfl) [] y
    rw [fields_append_cons (hy c rfl), hcons]

theorem fields_blank {gap : List Char} (hgap : ∀ c ∈ gap, isBlank c = true) (s : List Char) :
    fields (gap ++ s) = fields s := by
  induction gap with
  | nil => rfl
  | cons c gap ih =>
    rw [List.forall_mem_cons] at hgap
    have hcons : fields (c :: (gap ++ s)) = fields (gap ++ s) :=
      fields_append_cons hgap.1 [] (gap ++ s)
    rw [List.cons_append, hcons, ih hgap.2]

theorem fields_trim (s : List Char) : fields (trim s) = fields s := by
  obtain ⟨l, r, hl, hr, hs⟩ := exists_eq_trim s
  have hnone : fields r = [] := by
    have hblank := fields_blank hr []
    rwa [List.append_nil] at hblank
  have hhead : ∀ c, r.head? = some c → isBlank c = true :=
    fun c hc => hr c (List.mem_of_mem_head? hc)
  conv_rhs => rw [hs, List.append_assoc, fields_blank hl, fields_append _ hhead, hnone]
  exact (List.append_nil _).symm

/-- Which white space stands between two texts makes no difference to the words. -/
theorem fields_gap {gap : List Char} (hne : gap ≠ []) (hgap : ∀ c ∈ gap, isBlank c = true)
    (x y : List Char) : fields (trim (x ++ gap ++ y)) = fields x ++ fields y := by
  obtain ⟨c, gap, rfl⟩ := List.exists_cons_of_ne_nil hne
  rw [List.forall_mem_cons] at hgap
  rw [fields_trim, List.append_assoc, List.cons_append, fields_append_cons hgap.1,
    fields_blank hgap.2]

end Pagesmith.Text
