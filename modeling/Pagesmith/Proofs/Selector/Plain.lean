import Pagesmith.Proofs.Css.Plain
import Pagesmith.Proofs.Text.Basic
import Pagesmith.Style.Selector
import Pagesmith.Style.Stats

/-!
# Plain selectors

A rule whose name and keys are identifiers has selectors of one shape: names, the first behind a
point or a colon and the others behind a colon or a space.  Nesting keeps that shape.

* `PlainSelector`: a selector of that shape.
* `PlainSelector.nested`, `PlainSelector.variant`: nesting keeps it.
* `selectorClasses`: the classes of a selector.
* `PlainSelector.exists_tokens`: the tokens of such a selector and the classes found in them.
-/

namespace Pagesmith.Style

open Pagesmith.Css

variable {xs : List Segment} {key name parent rest : List Char}

/-! ### Nesting without lists -/

theorem nestChars_eq (hp : ',' ∉ parent) (hpt : Text.trim parent = parent) (hk : ',' ∉ key)
    (hkt : Text.trim key = key) (hcolon : key.head? ≠ some ':') :
    nestChars parent key = nestPart parent key := by
  rw [nestChars]
  simp only [if_neg hcolon, selectorParts, Text.split_of_not_mem hp, Text.split_of_not_mem hk,
    List.map_cons, List.map_nil, hpt, hkt, List.flatMap_cons, List.flatMap_nil, List.append_nil,
    Text.join]

theorem nestPart_ampersand {tail : List Char} (h : '&' ∉ tail) :
    nestPart parent ('&' :: tail) = parent ++ tail := by
  rw [nestPart, Text.contains_singleton, if_pos (by simp), Text.replaceAll_cons h]

theorem nestPart_descendant (hp : parent ≠ []) (h : '&' ∉ key) :
    nestPart parent key = parent ++ ' ' :: key := by
  rw [nestPart, Text.contains_singleton, if_neg (by simpa using h), if_neg (by simpa using hp)]

/-! ### Names behind separators -/

abbrev Segment := Char × List Char

def segmentsText (xs : List Segment) : List Char := xs.flatMap fun x => x.1 :: x.2

/-- A selector of names: the first behind a point or a colon, the others behind a colon or a
space. -/
def PlainSelector (selector : String) : Prop :=
  ∃ (x : Segment) (xs : List Segment), selector.toList = segmentsText (x :: xs) ∧
    x.1 ∈ ['.', ':'] ∧ (∀ y ∈ xs, y.1 ∈ [':', ' ']) ∧ ∀ y ∈ x :: xs, isIdentifier y.2 = true

theorem segmentsText_cons (x : Segment) (xs : List Segment) :
    segmentsText (x :: xs) = x.1 :: x.2 ++ segmentsText xs := List.flatMap_cons

theorem segmentsText_append (xs ys : List Segment) :
    segmentsText (xs ++ ys) = segmentsText xs ++ segmentsText ys := List.flatMap_append

theorem getLast?_segmentsText (x : Segment) (xs : List Segment)
    (h : ∀ y ∈ x :: xs, isIdentifier y.2 = true) :
    ∃ c, (segmentsText (x :: xs)).getLast? = some c ∧ isWordChar c = true := by
  induction xs generalizing x with
  | nil =>
    have hx := h x List.mem_cons_self
    refine ⟨x.2.getLast (identifier_ne_nil hx), ?_,
      isWordChar_of_mem_identifier hx (List.getLast_mem _)⟩
    rw [segmentsText_cons, segmentsText, List.flatMap_nil, List.append_nil,
      List.getLast?_cons_of_ne_nil (identifier_ne_nil hx), List.getLast?_eq_some_getLast]
  | cons y ys ih =>
    obtain ⟨c, hc, hw⟩ := ih y fun z hz => h z (List.mem_cons_of_mem x hz)
    refine ⟨c, ?_, hw⟩
    rw [segmentsText_cons, List.getLast?_append, hc]
    rfl

theorem exists_segmentsText_append {tail : List Char} (ht : ∀ c ∈ tail, isWordChar c = true)
    (x : Segment) (xs : List Segment) (h : ∀ y ∈ x :: xs, isIdentifier y.2 = true) :
    ∃ (x' : Segment) (xs' : List Segment),
      segmentsText (x :: xs) ++ tail = segmentsText (x' :: xs') ∧ x'.1 = x.1 ∧
        xs'.map Prod.fst = xs.map Prod.fst ∧ ∀ y ∈ x' :: xs', isIdentifier y.2 = true := by
  induction xs generalizing x with
  | nil =>
    refine ⟨(x.1, x.2 ++ tail), [], ?_, rfl, rfl, ?_⟩
    · simp [segmentsText]
    · intro y hy
      rw [List.mem_singleton.mp hy]
      exact identifier_append (h x List.mem_cons_self) ht
  | cons y ys ih =>
    obtain ⟨y', ys', htext, hy, hys, hall⟩ := ih y fun z hz => h z (List.mem_cons_of_mem x hz)
    refine ⟨x, y' :: ys', ?_, rfl, by rw [List.map_cons, List.map_cons, hy, hys], ?_⟩
    · rw [segmentsText_cons, List.append_assoc, htext, ← segmentsText_cons]
    · intro z hz
      rcases List.mem_cons.mp hz with rfl | hz
      · exact h z List.mem_cons_self
      · exact hall z hz

/-! ### Plain selectors -/

theorem trim_of_isWordChar {s : List Char} (h : ∀ c ∈ s, isWordChar c = true) : Text.trim s = s :=
  Text.trim_eq_self (fun c hc => isBlank_of_isWordChar (h c (List.mem_of_head? hc)))
    (fun c hc => isBlank_of_isWordChar (h c (List.mem_of_getLast? hc)))

namespace PlainSelector

variable {selector : String}

theorem ruleSelector {name : String} (h : isIdentifier name.toList = true) :
    PlainSelector (ruleSelector name) := by
  have hsel : Style.ruleSelector name = "." ++ name := by
    rw [Style.ruleSelector]
    cases hn : name.toList with
    | nil => rw [hn] at h; cases h
    | cons c cs =>
      rw [hn, isIdentifier_cons] at h
      have hne : ∀ d, Text.isLetter d = false → (c == d) = false :=
        fun d hd => beq_false_of_ne (ne_of_class h.1 hd)
      simp only [hne '.' (by decide), hne '#' (by decide), hne ':' (by decide), hne '[' (by decide),
        hne '*' (by decide), hne '&' (by decide), Bool.or_false, Bool.false_eq_true, if_false]
  refine ⟨('.', name.toList), [], ?_, by simp, by simp, by simpa using h⟩
  rw [hsel, String.toList_append]
  simp [segmentsText]

theorem ne_nil (h : PlainSelector selector) : selector.toList ≠ [] := by
  obtain ⟨x, xs, htext, -⟩ := h
  rw [htext, segmentsText_cons]
  exact List.cons_ne_nil _ _

theorem comma_not_mem (h : PlainSelector selector) : ',' ∉ selector.toList := by
  obtain ⟨x, xs, htext, hx, hxs, hid⟩ := h
  rw [htext, segmentsText, List.mem_flatMap]
  rintro ⟨y, hy, hm⟩
  rcases List.mem_cons.mp hm with hc | hm
  · rcases List.mem_cons.mp hy with rfl | hy
    · exact absurd (hc ▸ hx) (by decide)
    · exact absurd (hc ▸ hxs y hy) (by decide)
  · exact not_mem_identifier (hid y hy) (by decide) hm

theorem trim_eq (h : PlainSelector selector) : Text.trim selector.toList = selector.toList := by
  obtain ⟨x, xs, htext, hx, -, hid⟩ := h
  refine Text.trim_eq_self (fun c hc => ?_) (fun c hc => ?_)
  · rw [htext, segmentsText_cons] at hc
    obtain rfl := Option.some.inj hc
    simp only [List.mem_cons, List.not_mem_nil, or_false] at hx
    rcases hx with hx | hx <;> rw [hx] <;> decide
  · obtain ⟨d, hd, hw⟩ := getLast?_segmentsText x xs hid
    rw [htext, hd] at hc
    rw [← Option.some.inj hc]
    exact isBlank_of_isWordChar hw

theorem nestSelector_eq (h : PlainSelector selector) (hcomma : ',' ∉ key)
    (htrim : Text.trim key = key) (hcolon : key.head? ≠ some ':') :
    (nestSelector selector (String.ofList key)).toList = nestPart selector.toList key := by
  rw [nestSelector, String.toList_ofList, String.toList_ofList,
    nestChars_eq h.comma_not_mem h.trim_eq hcomma htrim hcolon]

theorem concat (h : PlainSelector selector) {c : Char} (hc : c ∈ [':', ' '])
    (hn : isIdentifier name = true) {result : String}
    (hr : result.toList = selector.toList ++ c :: name) : PlainSelector result := by
  obtain ⟨x, xs, htext, hx, hxs, hid⟩ := h
  refine ⟨x, xs ++ [(c, name)], ?_, hx, ?_, ?_⟩
  · rw [hr, htext, ← List.cons_append, segmentsText_append]
    simp [segmentsText]
  · intro y hy
    rcases List.mem_append.mp hy with hy | hy
    · exact hxs y hy
    · rw [List.mem_singleton.mp hy]
      exact hc
  · intro y hy
    rw [← List.cons_append, List.mem_append] at hy
    rcases hy with hy | hy
    · exact hid y hy
    · rw [List.mem_singleton.mp hy]
      exact hn

theorem nested (h : PlainSelector selector) {key : String} (hk : isIdentifier key.toList = true) :
    PlainSelector (nestSelector selector key) := by
  have htrim : Text.trim key.toList = key.toList :=
    trim_of_isWordChar fun _ => isWordChar_of_mem_identifier hk
  refine h.concat (c := ' ') (by decide) hk ?_
  rw [← nestPart_descendant h.ne_nil (not_mem_identifier hk (by decide)),
    ← h.nestSelector_eq (not_mem_identifier hk (by decide)) htrim, String.ofList_toList]
  intro hc
  exact not_mem_identifier hk (by decide) (List.mem_of_head? hc)

theorem variant (h : PlainSelector selector) {mark key : String} (hm : mark ∈ ["&:", "&--"])
    (hk : isIdentifier key.toList = true) :
    PlainSelector (nestSelector selector (mark ++ key)) := by
  -- the ampersand in front stands for the selector itself
  have hnest : ∀ lead : List Char, mark.toList = '&' :: lead → (∀ c ∈ lead, c = ':' ∨ c = '-') →
      (nestSelector selector (mark ++ key)).toList = selector.toList ++ (lead ++ key.toList) := by
    intro lead hlead hc
    have hnot : ∀ d, isWordChar d = false → d ≠ ':' → d ∉ lead ++ key.toList := by
      intro d hd hcolon hmem
      rcases List.mem_append.mp hmem with hmem | hmem
      · rcases hc d hmem with rfl | rfl
        · exact hcolon rfl
        · exact absurd hd (by decide)
      · exact not_mem_identifier hk hd hmem
    have htrim : Text.trim ('&' :: (lead ++ key.toList)) = '&' :: (lead ++ key.toList) := by
      refine Text.trim_eq_self (fun c hc => ?_) (fun c hc => ?_)
      · rw [← Option.some.inj hc]
        decide
      · rw [← List.cons_append, List.getLast?_append,
          List.getLast?_eq_some_getLast (identifier_ne_nil hk)] at hc
        rw [← Option.some.inj hc]
        exact isBlank_of_isWordChar (isWordChar_of_mem_identifier hk (List.getLast_mem _))
    have hcomma : ',' ∉ '&' :: (lead ++ key.toList) := by
      rw [List.mem_cons, not_or]
      exact ⟨by decide, hnot ',' (by decide) (by decide)⟩
    have heq := h.nestSelector_eq hcomma htrim (by simp)
    rw [nestPart_ampersand (hnot '&' (by decide) (by decide)), ← List.cons_append, ← hlead,
      ← String.toList_append, String.ofList_toList] at heq
    exact heq
  simp only [List.mem_cons, List.not_mem_nil, or_false] at hm
  rcases hm with rfl | rfl
  · exact h.concat (c := ':') (by decide) hk (hnest [':'] rfl (by simp))
  · have htext := hnest ['-', '-'] rfl (by simp)
    obtain ⟨x, xs, hsel, hx, hxs, hid⟩ := h
    have hword : ∀ c ∈ ['-', '-'] ++ key.toList, isWordChar c = true := by
      intro c hc
      rcases List.mem_append.mp hc with hc | hc
      · simp only [List.mem_cons, List.not_mem_nil, or_false, or_self] at hc
        rw [hc]
        decide
      · exact isWordChar_of_mem_identifier hk hc
    obtain ⟨x', xs', happ, hx', hxs', hid'⟩ := exists_segmentsText_append hword x xs hid
    refine ⟨x', xs', by rw [htext, hsel, happ], hx' ▸ hx, fun y hy => ?_, hid'⟩
    have hy' : y.1 ∈ xs.map Prod.fst := hxs' ▸ List.mem_map_of_mem hy
    obtain ⟨z, hz, hzy⟩ := List.mem_map.mp hy'
    exact hzy ▸ hxs z hz

end PlainSelector

/-! ### Classes and tokens -/

/-- The classes of a selector: the names directly behind a point. -/
def selectorClasses : List Char → List String
  | [] => []
  | c :: cs =>
    if c = '.' then String.ofList (cs.takeWhile isName) :: selectorClasses cs
    else selectorClasses cs

def separatorToken (c : Char) : Token :=
  ⟨if c = '.' then .delim else if c = ':' then .colon else .whitespace, [c]⟩

def segmentTokens (xs : List Segment) : List Token :=
  xs.flatMap fun x => [separatorToken x.1, ⟨.ident, x.2⟩]

theorem breaks_segmentsText (hxs : ∀ y ∈ xs, y.1 ∈ [':', ' ']) (hr : Breaks rest) :
    Breaks (segmentsText xs ++ rest) := by
  cases xs with
  | nil => exact hr
  | cons y ys =>
    refine ⟨y.1, y.2 ++ segmentsText ys ++ rest, by rw [segmentsText_cons]; rfl, ?_⟩
    have hy := hxs y List.mem_cons_self
    simp only [List.mem_cons, List.not_mem_nil, or_false] at hy ⊢
    tauto

theorem tokens_segment {c : Char} (hc : c ∈ ['.', ':', ' ']) (hn : isIdentifier name = true)
    (hr : Breaks rest) :
    tokens (c :: name ++ rest) = separatorToken c :: ⟨.ident, name⟩ :: tokens rest := by
  rw [← tokens_identifier hn hr]
  cases name with
  | nil => cases hn
  | cons d ds =>
    have hd : Text.isLetter d = true := (isIdentifier_cons.mp hn).1
    simp only [List.mem_cons, List.not_mem_nil, or_false] at hc
    rcases hc with rfl | rfl | rfl
    · exact tokens_point hd _
    · exact tokens_colon _
    · have hspace : isSpace d = false :=
        isSpace_of_isSoft (isSoft_of_isWordChar (isWordChar_of_isLetter hd))
          (ne_of_class hd (by decide))
      rw [List.cons_append, tokens_blank (by decide), List.cons_append,
        List.takeWhile_cons_of_neg (by simp [hspace]),
        List.dropWhile_cons_of_neg (by simp [hspace])]
      rfl

theorem tokens_segments (hxs : ∀ y ∈ xs, y.1 ∈ [':', ' ']) (hid : ∀ y ∈ xs, isIdentifier y.2 = true)
    (hr : Breaks rest) : tokens (segmentsText xs ++ rest) = segmentTokens xs ++ tokens rest := by
  induction xs with
  | nil => rfl
  | cons y ys ih =>
    have hys : ∀ z ∈ ys, z.1 ∈ [':', ' '] := fun z hz => hxs z (List.mem_cons_of_mem y hz)
    rw [segmentsText_cons, List.append_assoc,
      tokens_segment (List.mem_cons_of_mem _ (hxs y List.mem_cons_self)) (hid y List.mem_cons_self)
        (breaks_segmentsText hys hr),
      ih hys fun z hz => hid z (List.mem_cons_of_mem y hz)]
    rfl

theorem selectorClasses_append (h : '.' ∉ name) (tail : List Char) :
    selectorClasses (name ++ tail) = selectorClasses tail := by
  induction name with
  | nil => rfl
  | cons c cs ih =>
    rw [List.mem_cons, not_or] at h
    rw [List.cons_append, selectorClasses, if_neg (Ne.symm h.1), ih h.2]

theorem point_not_mem_segmentsText (hxs : ∀ y ∈ xs, y.1 ∈ [':', ' '])
    (hid : ∀ y ∈ xs, isIdentifier y.2 = true) : '.' ∉ segmentsText xs := by
  rw [segmentsText, List.mem_flatMap]
  rintro ⟨y, hy, hm⟩
  rcases List.mem_cons.mp hm with hc | hm
  · exact absurd (hc ▸ hxs y hy) (by decide)
  · exact not_mem_identifier (hid y hy) (by decide) hm

def leadingClass (x : Segment) : List String := if x.1 = '.' then [String.ofList x.2] else []

theorem selectorClasses_segments {x : Segment} (hxs : ∀ y ∈ xs, y.1 ∈ [':', ' '])
    (hid : ∀ y ∈ x :: xs, isIdentifier y.2 = true) :
    selectorClasses (segmentsText (x :: xs)) = leadingClass x := by
  have hx := hid x List.mem_cons_self
  have hid' : ∀ y ∈ xs, isIdentifier y.2 = true := fun y hy => hid y (List.mem_cons_of_mem x hy)
  have hnone : selectorClasses (x.2 ++ segmentsText xs) = [] := by
    rw [selectorClasses_append (not_mem_identifier hx (by decide)),
      ← List.append_nil (segmentsText xs),
      selectorClasses_append (point_not_mem_segmentsText hxs hid')]
    rfl
  have hname : (x.2 ++ segmentsText xs).takeWhile isName = x.2 := by
    rw [List.takeWhile_append_of_pos fun c hc =>
      isName_of_isWordChar (isWordChar_of_mem_identifier hx hc)]
    cases xs with
    | nil => exact List.append_nil _
    | cons y ys =>
      have hy : isName y.1 = false := by
        have hsep := hxs y List.mem_cons_self
        simp only [List.mem_cons, List.not_mem_nil, or_false] at hsep
        rcases hsep with hsep | hsep <;> rw [hsep] <;> decide
      rw [segmentsText_cons, List.cons_append, List.takeWhile_cons_of_neg (by simp [hy]),
        List.append_nil]
  rw [segmentsText_cons, List.cons_append, selectorClasses, hname, hnone]
  rfl

theorem classNames_cons {t : Token} (h : t ≠ ⟨.delim, ['.']⟩) (ts : List Token) :
    classNames (t :: ts) = classNames ts := by
  rw [classNames]
  rintro name rest rfl
  exact absurd rfl h

theorem classNames_segments (hxs : ∀ y ∈ xs, y.1 ∈ [':', ' ']) (tail : List Token) :
    classNames (segmentTokens xs ++ tail) = classNames tail := by
  induction xs with
  | nil => rfl
  | cons y ys ih =>
    have htoken : separatorToken y.1 ≠ ⟨.delim, ['.']⟩ := by
      have hsep := hxs y List.mem_cons_self
      simp only [List.mem_cons, List.not_mem_nil, or_false] at hsep
      rcases hsep with hsep | hsep <;> rw [hsep] <;> decide
    show classNames (separatorToken y.1 :: ⟨.ident, y.2⟩ :: (segmentTokens ys ++ tail)) = _
    rw [classNames_cons htoken, classNames_cons (by simp),
      ih fun z hz => hxs z (List.mem_cons_of_mem y hz)]

/-- **The tokens of a plain selector** are its separators and names, and the classes in them are
those of the selector. -/
theorem PlainSelector.exists_tokens {selector : String} (h : PlainSelector selector)
    (hr : Breaks rest) :
    ∃ xs : List Segment, (∀ y ∈ xs, y.1 ∈ ['.', ':', ' ']) ∧
      tokens (selector.toList ++ rest) = segmentTokens xs ++ tokens rest ∧
      ∀ tail, classNames (segmentTokens xs ++ tail)
        = selectorClasses selector.toList ++ classNames tail := by
  obtain ⟨x, xs, htext, hx, hxs, hid⟩ := h
  have hx' : x.1 ∈ ['.', ':', ' '] := by
    simp only [List.mem_cons, List.not_mem_nil, or_false] at hx ⊢
    tauto
  refine ⟨x :: xs, fun y hy => ?_, ?_, fun tail => ?_⟩
  · rcases List.mem_cons.mp hy with rfl | hy
    · exact hx'
    · exact List.mem_cons_of_mem _ (hxs y hy)
  · rw [htext, segmentsText_cons, List.append_assoc,
      tokens_segment hx' (hid x List.mem_cons_self) (breaks_segmentsText hxs hr),
      tokens_segments hxs (fun y hy => hid y (List.mem_cons_of_mem x hy)) hr]
    rfl
  · rw [htext, selectorClasses_segments hxs hid]
    show classNames (separatorToken x.1 :: ⟨.ident, x.2⟩ :: (segmentTokens xs ++ tail)) = _
    by_cases hpoint : x.1 = '.'
    · rw [leadingClass, if_pos hpoint, hpoint, ← classNames_segments hxs tail]
      rfl
    · rw [classNames_cons, classNames_cons (by simp), classNames_segments hxs, leadingClass,
        if_neg hpoint]
      · rfl
      · intro heq
        exact hpoint (List.cons.inj (Token.mk.inj heq).2).1

end Pagesmith.Style
