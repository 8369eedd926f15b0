import Mathlib.Data.List.Chain
import Mathlib.Data.List.TakeWhile
import Mathlib.Tactic.Common
import Pagesmith.Page.Template
import Pagesmith.Proofs.Text.Basic

/-!
# The decomposition of a template

A compiled template is a list of literal texts and expressions.  What an expression is can be said
without reading the text from the left: it is a span in braces without a closing brace inside that
is not blank, no literal has such a span, and none opens a brace that an expression behind it would
close.  There is one way to cut a text like that, and it is the one that is compiled.

The reading keeps the literal text since the last expression.  That text is `Calm`: the spans in it
are blank, and it leaves no brace open.  So a span that ends at the next closing brace starts at the
next opening one.

* `Decomposes`: a text cut into literals and expressions.
* `Calm.concat`, `Calm.append_span`: the literal text goes on calm.
* `decomposes_segmentsFrom`: the segments are a decomposition.
* `segmentsFrom_span`, `segmentsFrom_literal`: how a span and a literal text are read.
* `segmentsFrom_flatMap_raw`: a decomposition is read as itself.
* `compile_eq_iff`: the compiled template is the only decomposition.
-/

namespace Pagesmith.Page

open Pagesmith.Text

variable {inner rest s : List Char} {c : Char}

/-! ### Spans -/

def span (inner : List Char) : List Char := '\x7b' :: (inner ++ ['\x7d'])

/-- Every span of a text that ends at the first closing brace behind its start is blank. -/
def BlankSpans (s : List Char) : Prop :=
  ∀ inner, '\x7d' ∉ inner → span inner <:+: s → trim inner = []

/-- A brace is opened behind the last closing brace of the text. -/
def LeavesOpen (s : List Char) : Prop :=
  ∃ before after, s = before ++ '\x7b' :: after ∧ '\x7d' ∉ after

structure Calm (s : List Char) : Prop where
  blank : BlankSpans s
  closed : ¬ LeavesOpen s

theorem BlankSpans.of_infix {t : List Char} (h : BlankSpans t) (hs : s <:+: t) : BlankSpans s :=
  fun inner hinner hspan => h inner hinner (hspan.trans hs)

theorem LeavesOpen.append_left (h : LeavesOpen s) (t : List Char) : LeavesOpen (t ++ s) := by
  obtain ⟨before, after, rfl, hafter⟩ := h
  exact ⟨t ++ before, after, by simp, hafter⟩

theorem calm_nil : Calm [] := by
  refine ⟨fun inner _ hspan => ?_, ?_⟩
  · cases List.infix_nil.mp hspan
  · rintro ⟨before, after, h, -⟩
    cases before <;> cases h

theorem not_mem_of_blank (h : trim inner = []) : '\x7b' ∉ inner :=
  fun hmem => trim_ne_nil hmem rfl h

/-! ### The literal text goes on -/

theorem span_infix_concat (h : span inner <:+: s ++ [c]) :
    span inner <:+: s ∨ c = '\x7d' ∧ ∃ before, s = before ++ '\x7b' :: inner := by
  obtain ⟨before, after, h⟩ := h
  rcases List.eq_nil_or_concat after with rfl | ⟨after, d, rfl⟩
  · rw [span, List.append_nil, ← List.cons_append, ← List.append_assoc] at h
    obtain ⟨hs, hc⟩ := List.append_inj' h rfl
    exact Or.inr ⟨(List.singleton_inj.mp hc).symm, before, hs.symm⟩
  · rw [List.concat_eq_append, ← List.append_assoc] at h
    obtain ⟨hs, -⟩ := List.append_inj' h rfl
    exact Or.inl ⟨before, after, hs⟩

/-- What the last character of a text that leaves a brace open can be. -/
theorem LeavesOpen.of_concat (h : LeavesOpen (s ++ [c])) :
    c = '\x7b' ∨ c ≠ '\x7d' ∧ LeavesOpen s := by
  obtain ⟨before, after, heq, hafter⟩ := h
  rcases List.eq_nil_or_concat after with rfl | ⟨after, d, rfl⟩
  · exact Or.inl (List.singleton_inj.mp (List.append_inj' heq rfl).2)
  · rw [List.concat_eq_append, ← List.cons_append, ← List.append_assoc] at heq
    rw [List.concat_eq_append, List.mem_append, not_or, List.mem_singleton] at hafter
    obtain ⟨hs, hd⟩ := List.append_inj' heq rfl
    obtain rfl := List.singleton_inj.mp hd
    exact Or.inr ⟨Ne.symm hafter.2, before, after, hs, hafter.1⟩

theorem Calm.concat (h : Calm s) (hc : c ≠ '\x7b') : Calm (s ++ [c]) := by
  refine ⟨fun inner hinner hspan => ?_, ?_⟩
  · rcases span_infix_concat hspan with hspan | ⟨-, before, rfl⟩
    · exact h.blank inner hinner hspan
    · exact absurd ⟨before, inner, rfl, hinner⟩ h.closed
  · intro hopen
    exact hopen.of_concat.elim hc fun hs => h.closed hs.2

/-- A brace that is never closed adds no span. -/
theorem Calm.blankSpans_append {t : List Char} (h : Calm s) (ht : '\x7d' ∉ t) :
    BlankSpans (s ++ t) := by
  induction t using List.reverseRecOn with
  | nil =>
    rw [List.append_nil]
    exact h.blank
  | append_singleton t c ih =>
    intro inner hinner hspan
    rw [← List.append_assoc] at hspan
    rcases span_infix_concat hspan with hspan | ⟨rfl, -⟩
    · exact ih (fun hmem => ht (List.mem_append_left [c] hmem)) inner hinner hspan
    · exact absurd (List.mem_append_right t List.mem_cons_self) ht

theorem Calm.append_span (h : Calm s) (hinner : '\x7d' ∉ inner) (hblank : trim inner = []) :
    Calm (s ++ span inner) := by
  have hopen : '\x7d' ∉ '\x7b' :: inner := by simp [hinner]
  have heq : s ++ span inner = (s ++ '\x7b' :: inner) ++ ['\x7d'] := by simp [span]
  rw [heq]
  refine ⟨fun inner' hinner' hspan => ?_, ?_⟩
  · rcases span_infix_concat hspan with hspan | ⟨-, before, hbefore⟩
    · exact h.blankSpans_append hopen inner' hinner' hspan
    · -- a span that ends at the last brace starts where that one was opened
      rcases List.append_eq_append_iff.mp hbefore with ⟨gap, rfl, hgap⟩ | ⟨gap, rfl, hgap⟩
      · cases gap with
        | nil => exact (List.cons.inj hgap).2 ▸ hblank
        | cons d gap =>
          obtain ⟨-, rfl⟩ := List.cons.inj hgap
          exact absurd (List.mem_append_right gap List.mem_cons_self) (not_mem_of_blank hblank)
      · cases gap with
        | nil => exact (List.cons.inj hgap).2 ▸ hblank
        | cons d gap =>
          obtain ⟨rfl, rfl⟩ := List.cons.inj hgap
          refine absurd ⟨before, gap, rfl, fun hmem => hinner' ?_⟩ h.closed
          exact List.mem_append_left _ hmem
  · intro hopen
    exact hopen.of_concat.elim (by decide) fun hs => hs.1 rfl

/-! ### Decompositions -/

def Segment.raw : Segment → List Char
  | .text s => s
  | .expr _ raw => raw

/-- What a segment has to be: a literal text is not empty and has blank spans only, an expression is
the trimmed text of a span. -/
def Segment.Proper : Segment → Prop
  | .text s => s ≠ [] ∧ BlankSpans s
  | .expr source raw =>
    ∃ inner, '\x7d' ∉ inner ∧ raw = span inner ∧ source = trim inner ∧ source ≠ []

/-- Which segment may follow another: two literal texts are never adjacent, and one before an
expression leaves no brace open. -/
def Segment.Meets : Segment → Segment → Prop
  | .text _, .text _ => False
  | .text s, .expr _ _ => ¬ LeavesOpen s
  | .expr _ _, _ => True

structure Decomposes (text : List Char) (segments : List Segment) : Prop where
  covers : segments.flatMap Segment.raw = text
  proper : ∀ segment ∈ segments, segment.Proper
  meets : segments.IsChain Segment.Meets

theorem literalSegment_of_ne_nil (h : s ≠ []) : literalSegment s = [.text s] := by
  cases s with
  | nil => contradiction
  | cons c s => rfl

theorem decomposes_literal (h : BlankSpans s) : Decomposes s (literalSegment s) := by
  by_cases hs : s = []
  · subst hs
    exact ⟨rfl, List.forall_mem_nil _, .nil⟩
  · rw [literalSegment_of_ne_nil hs]
    exact ⟨List.append_nil s, List.forall_mem_singleton.mpr ⟨hs, h⟩, .singleton _⟩

theorem Decomposes.cons_expr {segments : List Segment} (hs : Calm s) (hinner : '\x7d' ∉ inner)
    (hne : trim inner ≠ []) (h : Decomposes rest segments) :
    Decomposes (s ++ (span inner ++ rest))
      (literalSegment s ++ .expr (trim inner) (span inner) :: segments) := by
  have hexpr : (Segment.expr (trim inner) (span inner)).Proper := ⟨inner, hinner, rfl, rfl, hne⟩
  have hchain : (Segment.expr (trim inner) (span inner) :: segments).IsChain Segment.Meets := by
    cases segments with
    | nil => exact .singleton _
    | cons next segments => exact .cons_cons trivial h.meets
  have htail : Decomposes (span inner ++ rest) (.expr (trim inner) (span inner) :: segments) := by
    refine ⟨?_, List.forall_mem_cons.mpr ⟨hexpr, h.proper⟩, hchain⟩
    rw [List.flatMap_cons, h.covers]
    rfl
  by_cases hnil : s = []
  · subst hnil
    exact htail
  · rw [literalSegment_of_ne_nil hnil, List.singleton_append]
    refine ⟨?_, List.forall_mem_cons.mpr ⟨⟨hnil, hs.blank⟩, htail.proper⟩,
      .cons_cons hs.closed htail.meets⟩
    rw [List.flatMap_cons, htail.covers]
    rfl

theorem takeWhile_append_close {cs : List Char} {close : Char}
    (h : cs.dropWhile (· != '\x7d') = close :: rest) :
    close = '\x7d' ∧ '\x7d' ∉ cs.takeWhile (· != '\x7d') ∧
      cs = cs.takeWhile (· != '\x7d') ++ '\x7d' :: rest := by
  have hclose : close = '\x7d' := by
    have := List.head?_dropWhile_not (· != '\x7d') cs
    rw [h] at this
    simpa using this
  subst hclose
  refine ⟨rfl, fun hmem => ?_, ?_⟩
  · simpa using List.mem_takeWhile_imp hmem
  · rw [← h, List.takeWhile_append_dropWhile]

/-- **The segments of a text are a decomposition of it.** -/
theorem decomposes_segmentsFrom (before s : List Char) (h : Calm before.reverse) :
    Decomposes (before.reverse ++ s) (segmentsFrom before s) := by
  fun_induction segmentsFrom before s with
  | case1 before =>
    rw [List.append_nil]
    exact decomposes_literal h.blank
  | case2 before cs hopen =>
    have hnone : '\x7d' ∉ cs := fun hmem => by
      simpa using List.dropWhile_eq_nil_iff.mp hopen _ hmem
    exact decomposes_literal (h.blankSpans_append (by simp [hnone]))
  | case3 before cs close rest hdrop _ inner hblank ih =>
    obtain ⟨rfl, hinner, hcs⟩ := takeWhile_append_close hdrop
    have hcalm := ih (by simpa [span] using h.append_span hinner hblank)
    rw [hcs]
    simpa using hcalm
  | case4 before cs close rest hdrop _ inner hne ih =>
    obtain ⟨rfl, hinner, hcs⟩ := takeWhile_append_close hdrop
    have hcalm := (ih calm_nil).cons_expr h hinner hne
    rw [hcs]
    simpa [span] using hcalm
  | case5 before c cs hc ih =>
    have hcalm := ih (by simpa using h.concat hc)
    simpa using hcalm

/-! ### Reading a decomposition -/

theorem dropWhile_append_close (h : '\x7d' ∉ inner) (rest : List Char) :
    (inner ++ '\x7d' :: rest).dropWhile (· != '\x7d') = '\x7d' :: rest ∧
      (inner ++ '\x7d' :: rest).takeWhile (· != '\x7d') = inner := by
  have hall : ∀ c ∈ inner, (c != '\x7d') = true := fun c hc =>
    bne_iff_ne.mpr (ne_of_mem_of_not_mem hc h)
  constructor
  · rw [List.dropWhile_append_of_pos hall, List.dropWhile_cons_of_neg (by decide)]
  · rw [List.takeWhile_append_of_pos hall, List.takeWhile_cons_of_neg (by decide), List.append_nil]

theorem segmentsFrom_span (hinner : '\x7d' ∉ inner) (before rest : List Char) :
    segmentsFrom before (span inner ++ rest) =
      if trim inner = [] then segmentsFrom ((span inner).reverse ++ before) rest
      else literalSegment before.reverse
        ++ .expr (trim inner) (span inner) :: segmentsFrom [] rest := by
  obtain ⟨hdrop, htake⟩ := dropWhile_append_close hinner rest
  have heq : span inner ++ rest = '\x7b' :: (inner ++ '\x7d' :: rest) := by simp [span]
  rw [heq, segmentsFrom, if_pos rfl]
  split
  · next hnil => rw [hdrop] at hnil; cases hnil
  · next close after hcons =>
    rw [hdrop] at hcons
    obtain ⟨rfl, rfl⟩ := List.cons.inj hcons
    rw [htake]
    simp [span]

/-- What a text with blank spans starts with: a character that opens no brace, a blank span, or a
brace that is never closed. -/
theorem BlankSpans.cases (h : BlankSpans (c :: s)) :
    c ≠ '\x7b' ∨ (∃ inner rest, c :: s = span inner ++ rest ∧ '\x7d' ∉ inner ∧ trim inner = []) ∨
      c = '\x7b' ∧ '\x7d' ∉ s := by
  by_cases hc : c = '\x7b'
  · subst hc
    by_cases hs : '\x7d' ∈ s
    · obtain ⟨inner, rest, rfl, hinner⟩ := List.eq_append_cons_of_mem hs
      have hspan : '\x7b' :: (inner ++ '\x7d' :: rest) = span inner ++ rest := by simp [span]
      refine Or.inr (Or.inl ⟨inner, rest, hspan, hinner, h inner hinner ?_⟩)
      exact hspan ▸ (List.prefix_append _ rest).isInfix
    · exact Or.inr (Or.inr ⟨rfl, hs⟩)
  · exact Or.inl hc

/-- **A text with blank spans is literal text** if it leaves no brace open or nothing follows it. -/
theorem segmentsFrom_literal (h : BlankSpans s) (hrest : LeavesOpen s → rest = [])
    (before : List Char) :
    segmentsFrom before (s ++ rest) = segmentsFrom (s.reverse ++ before) rest := by
  induction hlen : s.length using Nat.strongRecOn generalizing s before with
  | ind len ih =>
    cases s with
    | nil => rfl
    | cons c s =>
      rcases h.cases with hc | ⟨inner, tail, heq, hinner, hblank⟩ | ⟨rfl, hs⟩
      · have hs : BlankSpans s := h.of_infix (List.suffix_cons c s).isInfix
        rw [List.cons_append, segmentsFrom, if_neg hc,
          ih s.length ?_ hs (fun hopen => hrest (hopen.append_left [c])) (c :: before) rfl]
        · simp
        · rw [← hlen, List.length_cons]
          omega
      · rw [heq] at h hrest hlen ⊢
        have htail : BlankSpans tail := h.of_infix (List.suffix_append _ tail).isInfix
        rw [List.append_assoc, segmentsFrom_span hinner, if_pos hblank,
          ih tail.length ?_ htail (fun hopen => hrest (hopen.append_left _)) _ rfl]
        · simp
        · rw [← hlen, List.length_append, span, List.length_cons]
          omega
      · -- the brace is never closed, so all that follows is literal text
        obtain rfl := hrest ⟨[], s, rfl, hs⟩
        have hdrop : s.dropWhile (· != '\x7d') = [] :=
          List.dropWhile_eq_nil_iff.mpr fun c hc => bne_iff_ne.mpr (ne_of_mem_of_not_mem hc hs)
        rw [List.append_nil, segmentsFrom, segmentsFrom, if_pos rfl]
        split
        · simp
        · next hcons => rw [hdrop] at hcons; cases hcons

theorem segmentsFrom_flatMap_raw : ∀ segments : List Segment, (∀ seg ∈ segments, seg.Proper) →
    segments.IsChain Segment.Meets → segmentsFrom [] (segments.flatMap Segment.raw) = segments
  | [], _, _ => by
    rw [List.flatMap_nil, segmentsFrom]
    rfl
  | .expr source raw :: rest, hproper, hmeets => by
    obtain ⟨⟨inner, hinner, rfl, rfl, hne⟩, hrest⟩ := List.forall_mem_cons.mp hproper
    rw [List.flatMap_cons, Segment.raw, segmentsFrom_span hinner, if_neg hne,
      segmentsFrom_flatMap_raw rest hrest hmeets.tail]
    rfl
  | [.text s], hproper, _ => by
    obtain ⟨⟨hne, hblank⟩, -⟩ := List.forall_mem_cons.mp hproper
    rw [List.flatMap_cons, List.flatMap_nil, Segment.raw, segmentsFrom_literal hblank fun _ => rfl,
      segmentsFrom, List.append_nil, List.reverse_reverse, literalSegment_of_ne_nil hne]
  | .text s :: .text t :: rest, _, hmeets => (List.isChain_cons_cons.mp hmeets).1.elim
  | .text s :: .expr source raw :: rest, hproper, hmeets => by
    obtain ⟨⟨hs, hblank⟩, hproper⟩ := List.forall_mem_cons.mp hproper
    obtain ⟨⟨inner, hinner, rfl, rfl, hne⟩, hrest⟩ := List.forall_mem_cons.mp hproper
    obtain ⟨hclosed, hmeets⟩ := List.isChain_cons_cons.mp hmeets
    rw [List.flatMap_cons, List.flatMap_cons, Segment.raw, Segment.raw,
      segmentsFrom_literal hblank fun hopen => absurd hopen hclosed, segmentsFrom_span hinner,
      if_neg hne, segmentsFrom_flatMap_raw rest hrest hmeets.tail, List.append_nil,
      List.reverse_reverse, literalSegment_of_ne_nil hs]
    rfl

/-- **A template compiles to the one decomposition of its text.**  The segments of the compiled
template cover the text with its markers replaced.  Each expression is the trimmed text of a span in
braces that is not blank, and each literal text is not empty.  No two literal texts are adjacent, no
literal text has a span that could be an expression, and none before an expression leaves a brace
open.  No other list of segments is like that. -/
theorem compile_eq_iff (tags : TagTable) (text : List Char) (segments : List Segment) :
    (Template.compile tags text).segments = segments ↔
      Decomposes (tags.replaced text) segments := by
  constructor
  · rintro rfl
    exact decomposes_segmentsFrom [] _ calm_nil
  · rintro ⟨hcovers, hproper, hmeets⟩
    rw [Template.compile, ← hcovers]
    exact segmentsFrom_flatMap_raw segments hproper hmeets

/-- Blank braces stay in the literal text, and an expression takes in the braces opened before
it. -/
example : (Template.compile [] "a\x7b \x7d\x7b\x7bb \x7d\x7d\x7bc".toList).segments
    = [.text "a\x7b \x7d".toList, .expr "\x7bb".toList "\x7b\x7bb \x7d".toList,
      .text "\x7d\x7bc".toList] := by
  decide +kernel

end Pagesmith.Page
