import Mathlib.Data.List.Infix
import Mathlib.Tactic.Common
import Pagesmith.Proofs.Lint.Limits

/-!
# The earliest issues

Limits are applied by counting what was kept so far.  Which issues they keep can be said without the
counting: an issue is kept if few enough of those before it are of its kind, whether these were kept
or not.  The limit on texts does not look at the issues that the limit on linters has dropped.

* `selected`, `selected_selected`: selections by what stands before, and one after another.
* `countKey_keepFirst`: of each key as many issues are kept as there are, up to the limit.
* `limitBy_eq_selected`: a limit selects by what stands before an issue.
* `limitIssues_earliest`: what both limits keep.
-/

namespace Pagesmith.Report

/-! ### Selecting by what stands before -/

section Selected

variable {α : Type}

/-- The members of a list that pass a test on the members before them and on themselves. -/
def selected (test : List α → α → Bool) (l : List α) : List α :=
  (l.zipIdx.filter fun x => test (l.take x.2) x.1).map Prod.fst

theorem selected_nil (test : List α → α → Bool) : selected test [] = [] := rfl

theorem selected_concat (test : List α → α → Bool) (l : List α) (a : α) :
    selected test (l ++ [a]) = selected test l ++ if test l a then [a] else [] := by
  have hbefore : l.zipIdx.filter (fun x => test ((l ++ [a]).take x.2) x.1)
      = l.zipIdx.filter fun x => test (l.take x.2) x.1 := by
    refine List.filter_congr fun x hx => ?_
    have hlt : x.2 < l.length := by simpa using List.snd_lt_add_of_mem_zipIdx hx
    rw [List.take_append_of_le_length hlt.le]
  rw [selected, List.zipIdx_append, List.filter_append, hbefore, List.map_append, selected]
  congr 1
  cases htest : test l a <;> simp [htest]

/-- One selection after another: the second test sees what the first one has picked. -/
theorem selected_selected (first second : List α → α → Bool) (l : List α) :
    selected second (selected first l) =
      selected (fun before a => first before a && second (selected first before) a) l := by
  induction l using List.reverseRecOn with
  | nil => rfl
  | append_singleton l a ih =>
    rw [selected_concat, selected_concat, ← ih]
    cases first l a with
    | true => exact selected_concat second (selected first l) a
    | false => rw [if_neg Bool.false_ne_true, List.append_nil]; exact (List.append_nil _).symm

theorem length_selected_add (test : List α → α → Bool) (l : List α) :
    (selected test l).length + (selected (fun before a => !test before a) l).length
      = l.length := by
  induction l using List.reverseRecOn with
  | nil => rfl
  | append_singleton l a ih =>
    rw [selected_concat, selected_concat, List.length_append, List.length_append,
      List.length_append, ← ih]
    cases test l a <;> simp <;> omega

end Selected

/-! ### One limit -/

section LimitBy

variable {κ : Type} [DecidableEq κ] (key : Issue → κ)

def countKey (k : κ) (issues : List Issue) : Nat := issues.countP fun i => key i = k

theorem countKey_nil (k : κ) : countKey key k [] = 0 := rfl

theorem countKey_append (k : κ) (a b : List Issue) :
    countKey key k (a ++ b) = countKey key k a + countKey key k b := List.countP_append

theorem countKey_singleton (k : κ) (i : Issue) :
    countKey key k [i] = if key i = k then 1 else 0 := by
  simp [countKey, List.countP_cons]

/-- Whether fewer than `most` of the issues before an issue have its key; yes, if the limit is not
positive. -/
def isWithin (most : Int) (before : List Issue) (i : Issue) : Bool :=
  decide (most ≤ 0 ∨ (countKey key (key i) before : Int) < most)

theorem keepFirst_concat (most : Nat) (seen : List κ) (issues : List Issue) (i : Issue) :
    keepFirst key most seen (issues ++ [i]) = keepFirst key most seen issues ++
      if seen.count (key i) + countKey key (key i) (keepFirst key most seen issues) < most
      then [i] else [] := by
  induction issues generalizing seen with
  | nil => rfl
  | cons j issues ih =>
    rw [List.cons_append, keepFirst, keepFirst]
    split
    · have hcount : (key j :: seen).count (key i)
            + countKey key (key i) (keepFirst key most (key j :: seen) issues)
          = seen.count (key i)
            + countKey key (key i) (j :: keepFirst key most (key j :: seen) issues) := by
        rw [List.count_cons, countKey, countKey, List.countP_cons]
        simp only [beq_iff_eq, decide_eq_true_eq]
        omega
      rw [ih, hcount, List.cons_append]
    · exact ih seen

theorem countKey_keepFirst (most : Nat) (k : κ) (issues : List Issue) :
    countKey key k (keepFirst key most [] issues) = min most (countKey key k issues) := by
  induction issues using List.reverseRecOn with
  | nil => simp [keepFirst, countKey]
  | append_singleton issues i ih =>
    rw [keepFirst_concat, List.count_nil, Nat.zero_add, countKey_append, countKey_append, ih,
      countKey_singleton]
    by_cases hk : key i = k
    · rw [hk, ih, if_pos rfl]
      split
      · rw [countKey_singleton, if_pos hk]
        omega
      · rw [countKey_nil]
        omega
    · rw [if_neg hk]
      split
      · rw [countKey_singleton, if_neg hk]
        rfl
      · rfl

/-- **A limit selects the issues that have few enough of their key before them.** -/
theorem limitBy_eq_selected (most : Int) (issues : List Issue) :
    limitBy key most issues = selected (isWithin key most) issues := by
  induction issues using List.reverseRecOn with
  | nil => simp [limitBy, keepFirst, selected_nil]
  | append_singleton issues i ih =>
    rw [selected_concat, ← ih, limitBy, limitBy, isWithin]
    by_cases hmost : most ≤ 0
    · rw [if_pos hmost, if_pos hmost, if_pos (by simp [hmost])]
    · rw [if_neg hmost, if_neg hmost, keepFirst_concat, List.count_nil, Nat.zero_add,
        countKey_keepFirst]
      congr 1
      refine if_congr ?_ rfl rfl
      rw [decide_eq_true_iff]
      omega

theorem countKey_limitBy_le {most : Int} (h : 0 < most) (k : κ) (issues : List Issue) :
    (countKey key k (limitBy key most issues) : Int) ≤ most := by
  rw [limitBy, if_neg (by omega), countKey_keepFirst]
  omega

theorem limitBy_eq_self {most : Int} {issues : List Issue}
    (h : 0 < most → ∀ k, (countKey key k issues : Int) ≤ most) :
    limitBy key most issues = issues := by
  rw [limitBy_eq_selected]
  induction issues using List.reverseRecOn with
  | nil => exact selected_nil _
  | append_singleton issues i ih =>
    have hlast : ∀ k, countKey key k (issues ++ [i])
        = countKey key k issues + if key i = k then 1 else 0 := by
      intro k
      rw [countKey_append, countKey_singleton]
    have hwithin : isWithin key most issues i = true := by
      rw [isWithin, decide_eq_true_iff]
      by_cases hmost : 0 < most
      · have hle := h hmost (key i)
        rw [hlast, if_pos rfl] at hle
        omega
      · omega
    rw [selected_concat, if_pos hwithin, ih]
    intro hmost k
    have hle := h hmost k
    rw [hlast] at hle
    omega

end LimitBy

/-! ### Both limits -/

def isEarly (perLinter same : Int) (before : List Issue) (i : Issue) : Bool :=
  isWithin Issue.linter perLinter before i
    && isWithin Issue.text same (selected (isWithin Issue.linter perLinter) before) i

theorem fst_limitIssues (perLinter same : Int) (issues : List Issue) :
    (limitIssues perLinter same issues).1 = selected (isEarly perLinter same) issues := by
  rw [limitIssues, limitBy_eq_selected Issue.text, limitBy_eq_selected Issue.linter]
  exact selected_selected _ _ issues

theorem countKey_limitIssues_le (perLinter same : Int) (issues : List Issue) :
    (0 < perLinter → ∀ linter,
      (countKey Issue.linter linter (limitIssues perLinter same issues).1 : Int) ≤ perLinter) ∧
    (0 < same → ∀ text,
      (countKey Issue.text text (limitIssues perLinter same issues).1 : Int) ≤ same) := by
  refine ⟨fun hpos linter => ?_, fun hpos text => ?_⟩
  · -- the second limit only drops issues
    have hle := (limitBy_sublist Issue.text same (limitBy Issue.linter perLinter issues)).countP_le
      (p := fun i => i.linter = linter)
    have hfirst := countKey_limitBy_le Issue.linter hpos linter issues
    exact Int.le_trans (Int.ofNat_le.mpr hle) hfirst
  · exact countKey_limitBy_le Issue.text hpos text _

/-- **Limits keep exactly the earliest issues.**  An issue is kept if and only if fewer than
`perLinter` issues before it are of its linter, and fewer than `same` of those before it that the
first limit keeps have its text; a limit that is not positive does not count.  The kept issues are
in their order, and the others are counted.  No linter and no text exceeds its limit, so limits
applied again drop nothing. -/
theorem limitIssues_earliest (perLinter same : Int) (issues : List Issue) :
    (limitIssues perLinter same issues).1 = selected (isEarly perLinter same) issues ∧
      (limitIssues perLinter same issues).1.Sublist issues ∧
      (limitIssues perLinter same issues).2
        = (selected (fun before i => !isEarly perLinter same before i) issues).length ∧
      (0 < perLinter → ∀ linter,
        (countKey Issue.linter linter (limitIssues perLinter same issues).1 : Int) ≤ perLinter) ∧
      (0 < same → ∀ text,
        (countKey Issue.text text (limitIssues perLinter same issues).1 : Int) ≤ same) ∧
      limitIssues perLinter same (limitIssues perLinter same issues).1
        = ((limitIssues perLinter same issues).1, 0) := by
  obtain ⟨hlinter, htext⟩ := countKey_limitIssues_le perLinter same issues
  refine ⟨fst_limitIssues perLinter same issues, limitIssues_sublist perLinter same issues, ?_,
    hlinter, htext, ?_⟩
  · have hadd := length_limitIssues_add perLinter same issues
    have hsplit := length_selected_add (isEarly perLinter same) issues
    rw [fst_limitIssues] at hadd
    omega
  · rw [limitIssues, limitBy_eq_self Issue.linter hlinter, limitBy_eq_self Issue.text htext,
      Int.sub_self]

end Pagesmith.Report
