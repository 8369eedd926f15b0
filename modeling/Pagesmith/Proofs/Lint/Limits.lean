import Pagesmith.Lint.Check
import Pagesmith.Lint.Verdict

/-!
# Limits and the verdict

Limits say how many issues of a check are listed.  What they leave out is counted, and the errors
and the coverage are those of all issues, so a check with limits passes exactly if it passes without
them.

* `limitIssues_sublist`, `length_limitIssues_add`: limits drop issues and count them.
* `Shortened`: a result that lists some of the issues of another one and counts the others.
* `Shortened.exitCode_eq`: both have the same verdict.
* `lint_cases`: a check with limits fails as the one without them does, or is that one, limited.
-/

namespace Pagesmith.Report

/-! ### What limits keep -/

section LimitBy

variable {κ : Type} [DecidableEq κ] (key : Issue → κ)

theorem keepFirst_sublist (most : Nat) (seen : List κ) (issues : List Issue) :
    (keepFirst key most seen issues).Sublist issues := by
  induction issues generalizing seen with
  | nil => exact .slnil
  | cons i is ih =>
    rw [keepFirst]
    split
    · exact (ih (key i :: seen)).cons_cons i
    · exact (ih seen).cons i

theorem limitBy_sublist (most : Int) (issues : List Issue) :
    (limitBy key most issues).Sublist issues := by
  rw [limitBy]
  split
  · exact .refl issues
  · exact keepFirst_sublist key most.toNat [] issues

theorem limitBy_of_nonpos {most : Int} (h : most ≤ 0) (issues : List Issue) :
    limitBy key most issues = issues := if_pos h

end LimitBy

theorem limitIssues_sublist (perLinter same : Int) (issues : List Issue) :
    (limitIssues perLinter same issues).1.Sublist issues :=
  (limitBy_sublist Issue.text same _).trans (limitBy_sublist Issue.linter perLinter issues)

theorem length_limitIssues_add (perLinter same : Int) (issues : List Issue) :
    ((limitIssues perLinter same issues).1.length : Int) + (limitIssues perLinter same issues).2 =
      issues.length := by
  simp only [limitIssues]
  omega

theorem limitIssues_of_nonpos {perLinter same : Int} (hlinter : perLinter ≤ 0) (hsame : same ≤ 0)
    (issues : List Issue) : limitIssues perLinter same issues = (issues, 0) := by
  rw [limitIssues, limitBy_of_nonpos Issue.linter hlinter, limitBy_of_nonpos Issue.text hsame,
    Int.sub_self]

end Pagesmith.Report

namespace Pagesmith.Lint

open Pagesmith.Report

/-! ### Shortened results -/

/-- A result that lists some of the issues of a complete one, in their order, and counts the others.
Everything else is the same. -/
structure Shortened (r full : Result) : Prop where
  complete : full.truncated = 0
  rest_eq : r = { full with issues := r.issues, truncated := r.truncated }
  sublist : r.issues.Sublist full.issues
  length_add : (r.issues.length : Int) + r.truncated = full.issues.length

theorem shortened_limited (config : LintConfig) {full : Result} (h : full.truncated = 0) :
    Shortened (limited config full) full where
  complete := h
  rest_eq := rfl
  sublist := limitIssues_sublist config.maxPerLinter config.maxSame full.issues
  length_add := length_limitIssues_add config.maxPerLinter config.maxSame full.issues

theorem limited_of_nonpos {config : LintConfig} (hlinter : config.maxPerLinter ≤ 0)
    (hsame : config.maxSame ≤ 0) {full : Result} (h : full.truncated = 0) :
    limited config full = full := by
  rw [limited, limitIssues_of_nonpos hlinter hsame]
  cases full
  cases h
  rfl

theorem hasIssues_iff {r : Result} :
    hasIssues r = true ↔ 0 < r.issues.length ∨ 0 < r.truncated := by
  rw [hasIssues, Bool.or_eq_true, decide_eq_true_iff, List.length_pos_iff]
  simp

namespace Shortened

variable {r full : Result} (h : Shortened r full)

include h

theorem errors_eq : r.errors = full.errors := by
  rw [h.rest_eq]

theorem coverage_eq : r.coverage = full.coverage := by
  rw [h.rest_eq]

theorem hasIssues_eq : hasIssues r = hasIssues full := by
  rw [Bool.eq_iff_iff, hasIssues_iff, hasIssues_iff, h.complete]
  have hadd := h.length_add
  -- a sublist is not longer, so the number of those left out is not negative
  have hle := h.sublist.length_le
  omega

theorem isBelow_eq (threshold : Float) : isBelow threshold r = isBelow threshold full := by
  rw [isBelow, isBelow, h.hasIssues_eq, h.coverage_eq]

theorem exitCode_eq (strict : Bool) (threshold : Float) :
    exitCode strict threshold r = exitCode strict threshold full := by
  rw [exitCode, exitCode, h.hasIssues_eq, h.isBelow_eq, h.errors_eq]

theorem verdictNote_eq (strict : Bool) (threshold : Float) :
    verdictNote strict threshold r = verdictNote strict threshold full := by
  rw [verdictNote, verdictNote, h.isBelow_eq, h.coverage_eq]

end Shortened

/-! ### Checks with limits -/

def LintConfig.unlimited (config : LintConfig) : LintConfig :=
  { config with maxPerLinter := 0, maxSame := 0 }

def Searchable (config : LintConfig) (t : FileTree) : Prop :=
  (t.discover config.complete.sourceDir config.complete.pages).isOk ∧
    (t.discover config.complete.sourceDir config.complete.styles).isOk

/-- The findings of a check are the same with and without limits, which come last. -/
theorem lint_cases (config : LintConfig) (t : FileTree) :
    (¬ Searchable config t ∧
      ∃ e, lint config t = .error e ∧ lint config.unlimited t = .error e) ∨
    ∃ full, full.truncated = 0 ∧ lint config t = .ok (limited config full) ∧
      lint config.unlimited t = .ok full := by
  have hpages : t.discover config.unlimited.complete.sourceDir config.unlimited.complete.pages =
    t.discover config.complete.sourceDir config.complete.pages := rfl
  have hstyles : t.discover config.unlimited.complete.sourceDir config.unlimited.complete.styles =
    t.discover config.complete.sourceDir config.complete.styles := rfl
  rw [Searchable, lint, lint, survey, survey, hpages, hstyles]
  cases t.discover config.complete.sourceDir config.complete.pages with
  | error e => exact .inl ⟨nofun, .pages e, rfl, rfl⟩
  | ok found =>
    cases t.discover config.complete.sourceDir config.complete.styles with
    | error e => exact .inl ⟨nofun, .styles e, rfl, rfl⟩
    | ok styles =>
      refine .inr ⟨_, rfl, rfl, congrArg Except.ok ?_⟩
      exact limited_of_nonpos (Int.le_refl 0) (Int.le_refl 0) rfl

/-- **Limits never change the verdict**, whatever they are.  A check with limits cannot be run
exactly if the one without them cannot, for the same reason.  Otherwise its result is that of the
check without them, shortened, and the exit code and what is said about it are the same. -/
theorem lint_verdict_unlimited (config : LintConfig) (t : FileTree) :
    (¬ Searchable config t ∧
      ∃ e, lint config t = .error e ∧ lint config.unlimited t = .error e) ∨
    ∃ r full, lint config t = .ok r ∧ lint config.unlimited t = .ok full ∧ Shortened r full ∧
      (config.maxPerLinter ≤ 0 → config.maxSame ≤ 0 → r = full) ∧
      ∀ strict threshold,
        exitCode strict threshold r = exitCode strict threshold full ∧
        verdictNote strict threshold r = verdictNote strict threshold full := by
  rcases lint_cases config t with hfails | ⟨full, hcomplete, hlimited, hfull⟩
  · exact .inl hfails
  · have hshort := shortened_limited config hcomplete
    refine .inr ⟨limited config full, full, hlimited, hfull, hshort, fun hlinter hsame => ?_,
      fun strict threshold => ?_⟩
    · exact limited_of_nonpos hlinter hsame hcomplete
    · exact ⟨hshort.exitCode_eq strict threshold, hshort.verdictNote_eq strict threshold⟩

end Pagesmith.Lint
