import Mathlib.Data.Bool.AllAny
import Mathlib.Tactic
import Pagesmith.Proofs.Marker.Pass
import Pagesmith.Proofs.Page.Static

/-!
# Lines of a template

The markup that is checked is the template with its markers replaced and its expressions left out.
Neither changes the lines: an expression leaves its line breaks behind, and a class attribute has
those of its marker.  The brackets of the markup are brackets of the template as well, so a tag of
the markup is found in the template again.

* `KeepsLines`: a text with characters left out and others put in.
* `KeepsLines.split`: a bracket is found again.
* `keepsLines_compile`: the checked markup keeps the lines of its template.
-/

namespace Pagesmith.Page

open Pagesmith.Text

/-- The characters that are not put into a text: line breaks and brackets. -/
def frameChars : List Char := ['\n', '<', '>']

/-- `KeepsLines s t`: the text `t` is `s` without some characters that break no line, and with some
that neither break a line nor are brackets. -/
inductive KeepsLines : List Char → List Char → Prop where
  | nil : KeepsLines [] []
  | same (c : Char) {s t : List Char} : KeepsLines s t → KeepsLines (c :: s) (c :: t)
  | removed {c : Char} {s t : List Char} : c ≠ '\n' → KeepsLines s t → KeepsLines (c :: s) t
  | added {c : Char} {s t : List Char} : c ∉ frameChars → KeepsLines s t → KeepsLines s (c :: t)

namespace KeepsLines

variable {s t u : List Char}

theorem refl (s : List Char) : KeepsLines s s := by
  induction s with
  | nil => exact .nil
  | cons c s ih => exact .same c ih

theorem append {s' t' : List Char} (h : KeepsLines s t) (h' : KeepsLines s' t') :
    KeepsLines (s ++ s') (t ++ t') := by
  induction h with
  | nil => exact h'
  | same c _ ih => exact .same c ih
  | removed hc _ ih => exact .removed hc ih
  | added hc _ ih => exact .added hc ih

theorem of_added (ht : ∀ c ∈ t, c ∉ frameChars) : KeepsLines [] t := by
  induction t with
  | nil => exact .nil
  | cons c t ih =>
    rw [List.forall_mem_cons] at ht
    exact .added ht.1 (ih ht.2)

/-- Only the line breaks are left of a text. -/
theorem of_filter (s : List Char) : KeepsLines s (s.filter (· == '\n')) := by
  induction s with
  | nil => exact .nil
  | cons c s ih =>
    by_cases hc : c = '\n'
    · rw [List.filter_cons_of_pos (by simpa using hc)]
      exact .same c ih
    · rw [List.filter_cons_of_neg (by simpa using hc)]
      exact .removed hc ih

/-- What becomes of the first character of a text. -/
theorem cons_cases {c : Char} (h : KeepsLines (c :: s) t) :
    ∃ new rest, t = new ++ rest ∧ (∀ d ∈ new, d ∉ frameChars) ∧
      ((∃ rest', rest = c :: rest' ∧ KeepsLines s rest') ∨ c ≠ '\n' ∧ KeepsLines s rest) := by
  induction t with
  | nil =>
    cases h with
    | removed hc hs => exact ⟨[], [], rfl, by simp, .inr ⟨hc, hs⟩⟩
  | cons d t ih =>
    cases h with
    | same _ hs => exact ⟨[], _, rfl, by simp, .inl ⟨t, rfl, hs⟩⟩
    | removed hc hs => exact ⟨[], _, rfl, by simp, .inr ⟨hc, hs⟩⟩
    | added hd hs =>
      obtain ⟨new, rest, rfl, hnew, hrest⟩ := ih hs
      exact ⟨d :: new, rest, rfl, List.forall_mem_cons.mpr ⟨hd, hnew⟩, hrest⟩

theorem trans (h : KeepsLines s t) (h' : KeepsLines t u) : KeepsLines s u := by
  induction h generalizing u with
  | nil => exact h'
  | same c _ ih =>
    obtain ⟨new, rest, rfl, hnew, ⟨rest', rfl, hs⟩ | ⟨hc, hs⟩⟩ := h'.cons_cases
    · exact (of_added hnew).append (.same c (ih hs))
    · exact (of_added hnew).append (.removed hc (ih hs))
  | removed hc _ ih => exact .removed hc (ih h')
  | added hc _ ih =>
    obtain ⟨new, rest, rfl, hnew, ⟨rest', rfl, hs⟩ | ⟨-, hs⟩⟩ := h'.cons_cases
    · exact (of_added hnew).append (.added hc (ih hs))
    · exact (of_added hnew).append (ih hs)

theorem count_eq (h : KeepsLines s t) : t.count '\n' = s.count '\n' := by
  induction h with
  | nil => rfl
  | same c _ ih => rw [List.count_cons, List.count_cons, ih]
  | removed hc _ ih => rw [List.count_cons_of_ne hc, ih]
  | added hc _ ih =>
    rw [List.count_cons_of_ne (fun heq => hc (by rw [heq]; decide)), ih]

/-- **A bracket or a line break is found again**, between what became of the two sides. -/
theorem split {c : Char} (hc : c ∈ frameChars) {a b : List Char} (h : KeepsLines s (a ++ c :: b)) :
    ∃ x y, s = x ++ c :: y ∧ KeepsLines x a ∧ KeepsLines y b := by
  generalize ht : a ++ c :: b = t at h
  induction h generalizing a with
  | nil => cases a <;> cases ht
  | @same d s t hs ih =>
    cases a with
    | nil =>
      obtain ⟨rfl, rfl⟩ := List.cons.inj ht
      exact ⟨[], s, rfl, .nil, hs⟩
    | cons e a =>
      obtain ⟨rfl, htail⟩ := List.cons.inj ht
      obtain ⟨x, y, rfl, hx, hy⟩ := ih htail
      exact ⟨e :: x, y, rfl, .same e hx, hy⟩
  | @removed d s t hd hs ih =>
    obtain ⟨x, y, rfl, hx, hy⟩ := ih ht
    exact ⟨d :: x, y, rfl, .removed hd hx, hy⟩
  | @added d s t hd hs ih =>
    cases a with
    | nil =>
      obtain ⟨rfl, -⟩ := List.cons.inj ht
      exact absurd hc hd
    | cons e a =>
      obtain ⟨rfl, htail⟩ := List.cons.inj ht
      obtain ⟨x, y, rfl, hx, hy⟩ := ih htail
      exact ⟨x, y, rfl, .added hd hx, hy⟩

end KeepsLines

/-! ### Markers and expressions -/

/-- The name of a marker is kept in the class attribute, whatever characters it has. -/
theorem keepsLines_classText (name : List Char) : KeepsLines ('@' :: name) (classText name) := by
  have hstart : KeepsLines ['@'] ['c', 'l', 'a', 's', 's', '=', '"'] :=
    .removed (by decide) (.of_added (List.all_iff_forall_prop.mp rfl))
  have hend : KeepsLines [] ['"'] := .of_added (List.all_iff_forall_prop.mp rfl)
  simpa [classText] using hstart.append ((KeepsLines.refl name).append hend)

theorem keepsLines_replaceAll (name s : List Char) :
    KeepsLines s (replaceAll ('@' :: name) (classText name) s) := by
  induction hlen : s.length using Nat.strongRecOn generalizing s with
  | ind len ih =>
    cases s with
    | nil => exact .nil
    | cons c s =>
      rw [List.length_cons] at hlen
      by_cases h : '@' :: name <+: c :: s
      · obtain ⟨rfl, r, rfl⟩ := List.cons_prefix_cons.mp h
        rw [replaceAll_of_start (List.prefix_append name r), List.drop_left, ← List.cons_append]
        refine (keepsLines_classText name).append (ih r.length ?_ r rfl)
        rw [← hlen, List.length_append]
        omega
      · rw [replaceAll_of_not_start h]
        exact .same c (ih s.length (by omega) s rfl)

theorem keepsLines_replaced (names : List String) (s : List Char) :
    KeepsLines s ((TagTable.ofPresets names).replaced s) := by
  rw [ofPresets_eq]
  induction orderedKeys names generalizing s with
  | nil => exact .refl s
  | cons key keys ih =>
    rw [replaced_cons]
    exact (keepsLines_replaceAll key.toList s).trans (ih _)

theorem bracket_not_mem_replaced (names : List String) {s : List Char} (hs : '<' ∉ s) :
    '<' ∉ (TagTable.ofPresets names).replaced s := by
  intro hmem
  obtain ⟨a, b, hsplit⟩ := List.append_of_mem hmem
  have hkeeps := keepsLines_replaced names s
  rw [hsplit] at hkeeps
  obtain ⟨u, v, rfl, -, -⟩ := hkeeps.split (by decide)
  simp at hs

theorem keepsLines_static (segments : List Segment) :
    KeepsLines (segments.flatMap Segment.raw) (Template.static ⟨segments⟩) := by
  induction segments with
  | nil => exact .nil
  | cons segment segments ih =>
    cases segment with
    | text s => exact (KeepsLines.refl s).append ih
    | expr source raw => exact (KeepsLines.of_filter raw).append ih

theorem keepsLines_staticOf (s : List Char) : KeepsLines s (staticOf s) := by
  have hcovers := (decomposes_segmentsFrom [] s calm_nil).covers
  rw [List.reverse_nil, List.nil_append] at hcovers
  have hstatic := keepsLines_static (segmentsFrom [] s)
  rwa [hcovers] at hstatic

theorem keepsLines_compile (names : List String) (region : List Char) :
    KeepsLines region (Template.compile (.ofPresets names) region).static := by
  rw [static_compile]
  exact (keepsLines_replaced names region).trans (keepsLines_staticOf _)

end Pagesmith.Page
