import Pagesmith.Proofs.Page.Decomposition

/-!
# Templates without their expressions

The markup that is checked is a template without its expressions.  Leaving the expressions out is
local: it can be done on the two sides of any place that is not inside an open brace.

* `staticOf`: a text without its expressions.
* `staticOf_span`, `staticOf_literal`: how an expression and a literal text become.
* `staticOf_append`: the two sides of a place.
-/

namespace Pagesmith.Page

open Pagesmith.Text

def staticOf (s : List Char) : List Char := Template.static ⟨segmentsFrom [] s⟩

theorem static_compile (tags : TagTable) (text : List Char) :
    (Template.compile tags text).static = staticOf (tags.replaced text) := rfl

theorem static_append (a b : List Segment) :
    Template.static ⟨a ++ b⟩ = Template.static ⟨a⟩ ++ Template.static ⟨b⟩ := List.flatMap_append

theorem static_literalSegment (s : List Char) : Template.static ⟨literalSegment s⟩ = s := by
  cases s with
  | nil => rfl
  | cons c s => exact List.append_nil _

/-- What a text starts with: a character that opens no brace, a span, or a brace that is never
closed. -/
theorem brace_cases (c : Char) (s : List Char) :
    c ≠ '\x7b' ∨ (∃ inner rest, c :: s = span inner ++ rest ∧ '\x7d' ∉ inner) ∨
      c = '\x7b' ∧ '\x7d' ∉ s := by
  by_cases hc : c = '\x7b'
  · subst hc
    by_cases hs : '\x7d' ∈ s
    · obtain ⟨inner, rest, rfl, hinner⟩ := List.eq_append_cons_of_mem hs
      exact .inr (.inl ⟨inner, rest, by simp [span], hinner⟩)
    · exact .inr (.inr ⟨rfl, hs⟩)
  · exact .inl hc

theorem segmentsFrom_open {s : List Char} (hs : '\x7d' ∉ s) (before : List Char) :
    segmentsFrom before ('\x7b' :: s) = literalSegment (before.reverse ++ '\x7b' :: s) := by
  have hdrop : s.dropWhile (· != '\x7d') = [] :=
    List.dropWhile_eq_nil_iff.mpr fun c hc => bne_iff_ne.mpr (ne_of_mem_of_not_mem hc hs)
  rw [segmentsFrom, if_pos rfl]
  split
  · rfl
  · next hcons => rw [hdrop] at hcons; cases hcons

theorem static_cons_expr (source raw : List Char) (segments : List Segment) :
    Template.static ⟨.expr source raw :: segments⟩
      = raw.filter (· == '\n') ++ Template.static ⟨segments⟩ := rfl

theorem filter_span (inner : List Char) :
    (span inner).filter (· == '\n') = inner.filter (· == '\n') := by
  simp [span]

/-- Literal text that was read before stays. -/
theorem static_segmentsFrom (before s : List Char) :
    Template.static ⟨segmentsFrom before s⟩ = before.reverse ++ staticOf s := by
  induction hlen : s.length using Nat.strongRecOn generalizing s before with
  | ind len ih =>
    cases s with
    | nil =>
      rw [staticOf, segmentsFrom, segmentsFrom, static_literalSegment, static_literalSegment]
      exact (List.append_nil _).symm
    | cons c s =>
      rcases brace_cases c s with hc | ⟨inner, rest, heq, hinner⟩ | ⟨rfl, hs⟩
      · have hshort : s.length < len := by
          rw [← hlen]
          exact Nat.lt_succ_self _
        rw [staticOf, segmentsFrom, if_neg hc, segmentsFrom, if_neg hc, ih _ hshort _ _ rfl,
          ih _ hshort _ _ rfl]
        simp
      · have hshort : rest.length < len := by
          rw [← hlen, heq, List.length_append, span, List.length_cons]
          omega
        rw [heq, staticOf, segmentsFrom_span hinner, segmentsFrom_span hinner]
        split
        · rw [ih _ hshort _ _ rfl, ih _ hshort _ _ rfl]
          simp
        · rw [static_append, static_append, static_literalSegment, static_literalSegment]
          rfl
      · rw [staticOf, segmentsFrom_open hs, segmentsFrom_open hs, static_literalSegment,
          static_literalSegment]
        rfl

theorem staticOf_nil : staticOf [] = [] := by
  rw [staticOf, segmentsFrom]
  rfl

theorem staticOf_cons {c : Char} (hc : c ≠ '\x7b') (s : List Char) :
    staticOf (c :: s) = c :: staticOf s := by
  rw [staticOf, segmentsFrom, if_neg hc, static_segmentsFrom]
  rfl

theorem staticOf_span {inner : List Char} (hinner : '\x7d' ∉ inner) (hblank : trim inner ≠ [])
    (s : List Char) : staticOf (span inner ++ s) = inner.filter (· == '\n') ++ staticOf s := by
  rw [staticOf, segmentsFrom_span hinner, if_neg hblank, static_append, static_literalSegment,
    static_cons_expr, filter_span]
  rfl

theorem staticOf_blank {inner : List Char} (hinner : '\x7d' ∉ inner) (hblank : trim inner = [])
    (s : List Char) : staticOf (span inner ++ s) = span inner ++ staticOf s := by
  rw [staticOf, segmentsFrom_span hinner, if_pos hblank, static_segmentsFrom]
  simp

theorem staticOf_literal {s : List Char} (hs : '\x7b' ∉ s) (t : List Char) :
    staticOf (s ++ t) = s ++ staticOf t := by
  induction s with
  | nil => rfl
  | cons c s ih =>
    rw [List.mem_cons, not_or] at hs
    rw [List.cons_append, staticOf_cons (Ne.symm hs.1), ih hs.2, List.cons_append]

/-- **Expressions are left out on the two sides of a place** that is not inside an open brace. -/
theorem staticOf_append {s : List Char} (hs : ¬ LeavesOpen s) (t : List Char) :
    staticOf (s ++ t) = staticOf s ++ staticOf t := by
  induction hlen : s.length using Nat.strongRecOn generalizing s with
  | ind len ih =>
    cases s with
    | nil => rw [staticOf_nil]; rfl
    | cons c s =>
      rcases brace_cases c s with hc | ⟨inner, rest, heq, hinner⟩ | ⟨rfl, hopen⟩
      · have hrest : ¬ LeavesOpen s := fun h => hs (h.append_left [c])
        rw [List.cons_append, staticOf_cons hc, staticOf_cons hc,
          ih s.length (by rw [← hlen]; exact Nat.lt_succ_self _) hrest rfl, List.cons_append]
      · rw [heq] at hs hlen ⊢
        have hrest : ¬ LeavesOpen rest := fun h => hs (h.append_left _)
        have hshort : rest.length < len := by
          rw [← hlen, List.length_append, span, List.length_cons]
          omega
        rw [List.append_assoc]
        by_cases hblank : trim inner = []
        · rw [staticOf_blank hinner hblank, staticOf_blank hinner hblank, ih _ hshort hrest rfl,
            List.append_assoc]
        · rw [staticOf_span hinner hblank, staticOf_span hinner hblank, ih _ hshort hrest rfl,
            List.append_assoc]
      · exact absurd ⟨[], s, rfl, hopen⟩ hs

end Pagesmith.Page
