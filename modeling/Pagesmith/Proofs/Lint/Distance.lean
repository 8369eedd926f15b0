import Mathlib.Order.Bounds.Basic
import Mathlib.Tactic
import Pagesmith.Lint.Suggestion

/-!
# The edit distance

Distances are computed row by row.  A row holds the distances of what is read of one list from all
beginnings of the other, and the next row needs nothing else.  The last entry of the last row is the
least number of edits that turn the one list into the other.

The recursion that the rows follow takes bytes from the ends of the lists, and the one that is
compared with edits takes them from the front.  They agree since edits of lists are edits of the
reversed lists.

* `Edit`, `Edits`: one edit, and some edits one after the other.
* `levenshtein`: the recursion over insertions, deletions and substitutions.
* `distanceRow_eq`: what a row holds.
* `isLeast_levenshtein`: the recursion gives the least number of edits.
* `editDistance_isLeast`: the edit distance does.
-/

namespace Pagesmith.Lint

open Pagesmith.Text

/-! ### Edits -/

/-- A byte of an alphabet is put into a list, a byte is taken out, or one of the alphabet takes the
place of another. -/
inductive Edit (alphabet : Set Nat) : List Nat → List Nat → Prop where
  | insertion (u v : List Nat) {y : Nat} : y ∈ alphabet → Edit alphabet (u ++ v) (u ++ y :: v)
  | deletion (u v : List Nat) (x : Nat) : Edit alphabet (u ++ x :: v) (u ++ v)
  | substitution (u v : List Nat) (x : Nat) {y : Nat} :
      y ∈ alphabet → Edit alphabet (u ++ x :: v) (u ++ y :: v)

inductive Edits (alphabet : Set Nat) : Nat → List Nat → List Nat → Prop where
  | refl (a : List Nat) : Edits alphabet 0 a a
  | cons {n : Nat} {a b c : List Nat} :
      Edit alphabet a b → Edits alphabet n b c → Edits alphabet (n + 1) a c

section

variable {alphabet : Set Nat} {m n : Nat} {a b c : List Nat}

theorem Edit.cons (x : Nat) (h : Edit alphabet a b) : Edit alphabet (x :: a) (x :: b) := by
  cases h with
  | insertion u v hy => exact .insertion (x :: u) v hy
  | deletion u v y => exact .deletion (x :: u) v y
  | substitution u v y hz => exact .substitution (x :: u) v y hz

theorem Edit.reverse (h : Edit alphabet a b) : Edit alphabet a.reverse b.reverse := by
  cases h with
  | insertion u v hy => simpa using Edit.insertion v.reverse u.reverse hy
  | deletion u v x => simpa using Edit.deletion v.reverse u.reverse x
  | substitution u v x hy => simpa using Edit.substitution v.reverse u.reverse x hy

theorem Edit.length_le (h : Edit alphabet a b) :
    a.length ≤ b.length + 1 ∧ b.length ≤ a.length + 1 := by
  cases h <;> simp only [List.length_append, List.length_cons] <;> omega

theorem Edits.behind (x : Nat) (h : Edits alphabet n a b) :
    Edits alphabet n (x :: a) (x :: b) := by
  induction h with
  | refl a => exact .refl (x :: a)
  | cons hedit _ ih => exact .cons (hedit.cons x) ih

theorem Edits.reverse (h : Edits alphabet n a b) : Edits alphabet n a.reverse b.reverse := by
  induction h with
  | refl a => exact .refl a.reverse
  | cons hedit _ ih => exact .cons hedit.reverse ih

theorem Edits.trans (h : Edits alphabet m a b) (h' : Edits alphabet n b c) :
    Edits alphabet (m + n) a c := by
  induction h with
  | refl a => rwa [Nat.zero_add]
  | @cons k a d b hedit _ ih =>
    rw [Nat.add_right_comm]
    exact .cons hedit (ih h')

theorem edits_zero_iff (alphabet : Set Nat) : Edits alphabet 0 a b ↔ a = b := by
  constructor
  · rintro ⟨⟩
    rfl
  · rintro rfl
    exact .refl a

theorem Edits.length_le (h : Edits alphabet n a b) :
    a.length ≤ b.length + n ∧ b.length ≤ a.length + n := by
  induction h with
  | refl a => simp
  | cons hedit _ ih =>
    have hone := hedit.length_le
    omega

end

/-! ### The recursion -/

/-- The least cost of turning a list into another, by what becomes of their first bytes. -/
def levenshtein : List Nat → List Nat → Nat
  | [], b => b.length
  | x :: a, [] => (x :: a).length
  | x :: a, y :: b =>
    min (min (levenshtein a (y :: b) + 1) (levenshtein (x :: a) b + 1))
      (levenshtein a b + if x = y then 0 else 1)
termination_by a b => a.length + b.length
decreasing_by all_goals simp only [List.length_cons]; omega

theorem levenshtein_nil_left (b : List Nat) : levenshtein [] b = b.length := by
  rw [levenshtein]

theorem levenshtein_nil_right (a : List Nat) : levenshtein a [] = a.length := by
  cases a <;> rw [levenshtein]

theorem levenshtein_cons (x y : Nat) (a b : List Nat) :
    levenshtein (x :: a) (y :: b) =
      min (min (levenshtein a (y :: b) + 1) (levenshtein (x :: a) b + 1))
        (levenshtein a b + if x = y then 0 else 1) := by
  rw [levenshtein]

theorem levenshtein_comm (a b : List Nat) : levenshtein a b = levenshtein b a := by
  fun_induction levenshtein a b with
  | case1 b => rw [levenshtein_nil_right]
  | case2 x a => rw [levenshtein_nil_left]
  | case3 x a y b ihdel ihins ihsub =>
    rw [levenshtein_cons, ihdel, ihins, ihsub, min_comm (levenshtein (y :: b) a + 1)]
    simp only [eq_comm]

theorem levenshtein_self (a : List Nat) : levenshtein a a = 0 := by
  induction a with
  | nil => exact levenshtein_nil_left []
  | cons x a ih => simp [levenshtein_cons, ih]

theorem levenshtein_le_max (a b : List Nat) : levenshtein a b ≤ max a.length b.length := by
  fun_induction levenshtein a b with
  | case1 b => exact le_max_right _ _
  | case2 x a => exact le_max_left _ _
  | case3 x a y b ihdel ihins ihsub =>
    have hcost : (if x = y then 0 else 1) ≤ 1 := by split <;> omega
    simp only [List.length_cons] at *
    omega

/-! ### One edit changes the cost by at most one -/

theorem levenshtein_cons_left_le (x : Nat) (a b : List Nat) :
    levenshtein (x :: a) b ≤ levenshtein a b + 1 := by
  cases b with
  | nil => simp [levenshtein_nil_right]
  | cons y b =>
    rw [levenshtein_cons]
    omega

theorem levenshtein_cons_right_le (y : Nat) (a b : List Nat) :
    levenshtein a (y :: b) ≤ levenshtein a b + 1 := by
  rw [levenshtein_comm a, levenshtein_comm a]
  exact levenshtein_cons_left_le y b a

theorem levenshtein_le_cons_left (x : Nat) (a b : List Nat) :
    levenshtein a b ≤ levenshtein (x :: a) b + 1 := by
  induction b with
  | nil =>
    rw [levenshtein_nil_right, levenshtein_nil_right, List.length_cons]
    omega
  | cons y b ih =>
    have hins := levenshtein_cons_right_le y a b
    rw [levenshtein_cons]
    omega

theorem levenshtein_substitution (x y : Nat) (a b : List Nat) :
    levenshtein (x :: a) b ≤ levenshtein (y :: a) b + 1 := by
  induction b with
  | nil => simp [levenshtein_nil_right]
  | cons z b ih =>
    have hcost : (if x = z then 0 else 1) ≤ 1 := by split <;> omega
    rw [levenshtein_cons, levenshtein_cons]
    omega

/-- What two lists cost apart from each other, they cost behind one byte as well. -/
theorem levenshtein_behind {a a' : List Nat}
    (h : ∀ b, levenshtein a b ≤ levenshtein a' b + 1) (x : Nat) (b : List Nat) :
    levenshtein (x :: a) b ≤ levenshtein (x :: a') b + 1 := by
  induction b with
  | nil =>
    have hnil := h []
    simp only [levenshtein_nil_right, List.length_cons] at hnil ⊢
    omega
  | cons y b ih =>
    have hdel := h (y :: b)
    have hsub := h b
    rw [levenshtein_cons, levenshtein_cons]
    omega

/-- **One edit changes the cost by at most one.** -/
theorem levenshtein_le_of_edit {alphabet : Set Nat} {a a' : List Nat} (h : Edit alphabet a a')
    (b : List Nat) : levenshtein a b ≤ levenshtein a' b + 1 := by
  -- the edit is at the front of the lists behind what they begin with
  cases h with
  | @insertion u v y hy =>
    induction u generalizing b with
    | nil => exact levenshtein_le_cons_left y v b
    | cons w u ih => exact levenshtein_behind ih w b
  | deletion u v x =>
    induction u generalizing b with
    | nil => exact levenshtein_cons_left_le x v b
    | cons w u ih => exact levenshtein_behind ih w b
  | @substitution u v x y hy =>
    induction u generalizing b with
    | nil => exact levenshtein_substitution x y v b
    | cons w u ih => exact levenshtein_behind ih w b

theorem levenshtein_le_of_edits {alphabet : Set Nat} {n : Nat} {a b : List Nat}
    (h : Edits alphabet n a b) : levenshtein a b ≤ n := by
  induction h with
  | refl a => exact (levenshtein_self a).le
  | @cons n a d b hedit _ ih =>
    have hone := levenshtein_le_of_edit hedit b
    omega

/-! ### Edits that reach the cost -/

theorem edits_from_nil {alphabet : Set Nat} {b : List Nat} (hb : ∀ y ∈ b, y ∈ alphabet) :
    Edits alphabet b.length [] b := by
  induction b with
  | nil => exact .refl []
  | cons y b ih =>
    have hrest := ih fun z hz => hb z (List.mem_cons_of_mem y hz)
    exact .cons (.insertion [] [] (hb y List.mem_cons_self)) (hrest.behind y)

theorem edits_to_nil (alphabet : Set Nat) (a : List Nat) : Edits alphabet a.length a [] := by
  induction a with
  | nil => exact .refl []
  | cons x a ih => exact .cons (.deletion [] a x) ih

theorem edits_levenshtein {alphabet : Set Nat} (a b : List Nat) (hb : ∀ y ∈ b, y ∈ alphabet) :
    Edits alphabet (levenshtein a b) a b := by
  fun_induction levenshtein a b with
  | case1 b => exact edits_from_nil hb
  | case2 x a => exact edits_to_nil alphabet (x :: a)
  | case3 x a y b ihdel ihins ihsub =>
    have hy := hb y List.mem_cons_self
    have hrest : ∀ z ∈ b, z ∈ alphabet := fun z hz => hb z (List.mem_cons_of_mem y hz)
    have hdel : Edits alphabet (levenshtein a (y :: b) + 1) (x :: a) (y :: b) :=
      .cons (.deletion [] a x) (ihdel hb)
    have hins : Edits alphabet (levenshtein (x :: a) b + 1) (x :: a) (y :: b) :=
      .cons (.insertion [] (x :: a) hy) ((ihins hrest).behind y)
    have hsub : Edits alphabet (levenshtein a b + if x = y then 0 else 1) (x :: a) (y :: b) := by
      split
      · next heq =>
        subst heq
        exact (ihsub hrest).behind x
      · exact .cons (.substitution [] a x hy) ((ihsub hrest).behind y)
    -- the least of the three costs is one of them
    rcases min_choice (min (levenshtein a (y :: b) + 1) (levenshtein (x :: a) b + 1))
      (levenshtein a b + if x = y then 0 else 1) with hmin | hmin
    · rw [hmin]
      rcases min_choice (levenshtein a (y :: b) + 1) (levenshtein (x :: a) b + 1) with hmin | hmin
      · rwa [hmin]
      · rwa [hmin]
    · rwa [hmin]

theorem isLeast_levenshtein {alphabet : Set Nat} (a b : List Nat) (hb : ∀ y ∈ b, y ∈ alphabet) :
    IsLeast {n | Edits alphabet n a b} (levenshtein a b) :=
  ⟨edits_levenshtein a b hb, fun _ => levenshtein_le_of_edits⟩

theorem edits_univ (a b : List Nat) : Edits Set.univ (levenshtein a b) a b :=
  edits_levenshtein a b fun y _ => Set.mem_univ y

theorem levenshtein_reverse (a b : List Nat) :
    levenshtein a.reverse b.reverse = levenshtein a b := by
  have hle : ∀ a b : List Nat, levenshtein a.reverse b.reverse ≤ levenshtein a b := fun a b =>
    levenshtein_le_of_edits (edits_univ a b).reverse
  have hback := hle a.reverse b.reverse
  rw [List.reverse_reverse, List.reverse_reverse] at hback
  exact le_antisymm (hle a b) hback

/-! ### Rows -/

/-- The values of a function at the beginnings of a list, the shortest first.  Each beginning stands
in reverse behind the bytes that are read, and `read` is before all of them. -/
def valuesFrom (f : List Nat → Nat) (read : List Nat) : List Nat → List Nat
  | [] => [f read]
  | y :: ys => f read :: valuesFrom f (y :: read) ys

theorem valuesFrom_eq_cons (f : List Nat → Nat) (read ys : List Nat) :
    valuesFrom f read ys = f read :: (valuesFrom f read ys).tail := by
  cases ys <;> rfl

theorem getLast?_valuesFrom (f : List Nat → Nat) (read ys : List Nat) :
    (valuesFrom f read ys).getLast? = some (f (ys.reverse ++ read)) := by
  induction ys generalizing read with
  | nil => rfl
  | cons y ys ih =>
    rw [valuesFrom, List.getLast?_cons, ih]
    simp

theorem range'_eq_valuesFrom (read ys : List Nat) :
    List.range' read.length (ys.length + 1) = valuesFrom (levenshtein []) read ys := by
  induction ys generalizing read with
  | nil => rw [valuesFrom, levenshtein_nil_left]; rfl
  | cons y ys ih =>
    have hread := ih (y :: read)
    rw [List.length_cons] at hread
    rw [valuesFrom, levenshtein_nil_left, ← hread, List.length_cons, List.range'_succ]

/-- What is behind the first entry of a row, if it was right so far. -/
theorem rowFrom_valuesFrom (x : Nat) (a read ys : List Nat) :
    rowFrom x (levenshtein (x :: a) read) ys (valuesFrom (levenshtein a) read ys)
      = (valuesFrom (levenshtein (x :: a)) read ys).tail := by
  induction ys generalizing read with
  | nil => rfl
  | cons y ys ih =>
    have hnext := ih (y :: read)
    rw [valuesFrom_eq_cons (levenshtein a)] at hnext
    rw [valuesFrom, valuesFrom, List.tail_cons, valuesFrom_eq_cons (levenshtein a), rowFrom,
      ← levenshtein_cons, hnext, ← valuesFrom_eq_cons]

theorem nextRow_valuesFrom (x : Nat) (a b : List Nat) :
    nextRow x b (valuesFrom (levenshtein a) [] b) = valuesFrom (levenshtein (x :: a)) [] b := by
  have hfirst : levenshtein (x :: a) [] = levenshtein a [] + 1 := by
    rw [levenshtein_nil_right, levenshtein_nil_right, List.length_cons]
  have hrest := rowFrom_valuesFrom x a [] b
  rw [valuesFrom_eq_cons (levenshtein a), hfirst] at hrest
  rw [valuesFrom_eq_cons, nextRow, hrest, ← hfirst, ← valuesFrom_eq_cons]

/-- **What a row holds**: the distances of a list from all beginnings of the other one. -/
theorem distanceRow_eq (a b : List Nat) :
    distanceRow a b = valuesFrom (levenshtein a.reverse) [] b := by
  induction a using List.reverseRecOn with
  | nil =>
    rw [distanceRow, List.foldl_nil, List.range_eq_range', List.reverse_nil]
    exact range'_eq_valuesFrom [] b
  | append_singleton a x ih =>
    rw [distanceRow] at ih ⊢
    rw [List.foldl_append, ih, List.foldl_cons, List.foldl_nil, nextRow_valuesFrom,
      List.reverse_append]
    rfl

theorem editDistance_eq_levenshtein (a b : List Nat) : editDistance a b = levenshtein a b := by
  rw [editDistance, distanceRow_eq, getLast?_valuesFrom, Option.getD_some, List.append_nil,
    levenshtein_reverse]

/-! ### The distance -/

/-- **The edit distance is the least number of edits**, over any alphabet that has the bytes of the
second list, and it is given by the recursion over insertions, deletions and substitutions.  So it
is zero for equal lists only, it is symmetric, a way over a third list is not shorter, and it is
between the difference of the lengths and the larger length. -/
theorem editDistance_isLeast (a b c : List Nat) (alphabet : Set Nat)
    (hb : ∀ y ∈ b, y ∈ alphabet) :
    IsLeast {n | Edits alphabet n a b} (editDistance a b) ∧
    editDistance a b = levenshtein a b ∧
    (editDistance a b = 0 ↔ a = b) ∧
    editDistance a b = editDistance b a ∧
    editDistance a c ≤ editDistance a b + editDistance b c ∧
    ((a.length : Int) - b.length).natAbs ≤ editDistance a b ∧
    editDistance a b ≤ max a.length b.length := by
  refine ⟨?_, editDistance_eq_levenshtein a b, ?_⟩
  · rw [editDistance_eq_levenshtein]
    exact isLeast_levenshtein a b hb
  · simp only [editDistance_eq_levenshtein]
    refine ⟨⟨fun hzero => ?_, ?_⟩, levenshtein_comm a b, ?_, ?_, levenshtein_le_max a b⟩
    · rw [← edits_zero_iff Set.univ, ← hzero]
      exact edits_univ a b
    · rintro rfl
      exact levenshtein_self a
    · exact levenshtein_le_of_edits ((edits_univ a b).trans (edits_univ b c))
    · have hlength := (edits_univ a b).length_le
      omega

/-- Two substitutions and an insertion, with bytes for an alphabet. -/
theorem editDistance_isLeast_kitten :
    let a := encode "kitten".toList
    let b := encode "sitting".toList
    let bytes : Set Nat := {y | y < 256}
    (∀ y ∈ b, y ∈ bytes) ∧ IsLeast {n | Edits bytes n a b} 3 ∧
      editDistance a (encode "bitten".toList) ≤ 3 + editDistance b (encode "bitten".toList) := by
  intro a b bytes
  have hb : ∀ y ∈ b, y ∈ bytes := by decide
  have hthree : editDistance a b = 3 := by decide
  have h := editDistance_isLeast a b (encode "bitten".toList) bytes hb
  rw [hthree] at h
  exact ⟨hb, h.1, h.2.2.2.2.1⟩

end Pagesmith.Lint
