import Mathlib.Data.List.Infix
import Pagesmith.Text.Basic

/-!
# Trimming, cutting, replacing and nesting

What the operations on texts do where there is nothing for them to do: a text without white space
at its ends is trimmed already, one without the separator is one piece, and one without the
searched character keeps all of its characters.  What trimming and cutting leave are characters of
the text.  `Nested` says of a list with opening and closing marks that they are balanced.
-/

namespace Pagesmith.Text

variable {after before blank s sep : List Char}

/-! ### Trimming -/

theorem trimStart_append (hb : ∀ c ∈ blank, isBlank c = true) (s : List Char) :
    trimStart (blank ++ s) = trimStart s := List.dropWhile_append_of_pos hb

theorem trim_append_left (hb : ∀ c ∈ blank, isBlank c = true) (s : List Char) :
    trim (blank ++ s) = trim s := by
  rw [trim, trimStart_append hb, trim]

theorem trimEnd_concat {c : Char} (hc : isBlank c = false) (s : List Char) :
    trimEnd (s ++ [c]) = s ++ [c] := by
  induction s with
  | nil => simp [trimEnd, hc]
  | cons d s ih =>
    rw [List.cons_append, trimEnd, ih]
    split
    · next h => simp at h
    · rfl

theorem trim_eq_self (hhead : ∀ c, s.head? = some c → isBlank c = false)
    (hlast : ∀ c, s.getLast? = some c → isBlank c = false) : trim s = s := by
  have hstart : trimStart s = s := by
    cases s with
    | nil => rfl
    | cons c s => rw [trimStart, List.dropWhile_cons_of_neg (by simp [hhead c rfl])]
  rw [trim, hstart]
  rcases List.eq_nil_or_concat' s with rfl | ⟨t, c, rfl⟩
  · rfl
  · exact trimEnd_concat (hlast c (by simp)) t

theorem trimEnd_of_blank (hb : ∀ c ∈ blank, isBlank c = true) : trimEnd blank = [] := by
  induction blank with
  | nil => rfl
  | cons c blank ih =>
    rw [trimEnd, ih fun d hd => hb d (List.mem_cons_of_mem c hd)]
    exact if_pos (hb c List.mem_cons_self)

theorem trimEnd_append (hb : ∀ c ∈ blank, isBlank c = true) (s : List Char) :
    trimEnd (s ++ blank) = trimEnd s := by
  induction s with
  | nil => exact trimEnd_of_blank hb
  | cons d s ih => rw [List.cons_append, trimEnd, ih, trimEnd]

theorem trim_append_right (hb : ∀ c ∈ blank, isBlank c = true) (s : List Char) :
    trim (s ++ blank) = trim s := by
  rw [trim, trimStart, List.dropWhile_append, trim, trimStart]
  split
  · next h =>
    rw [List.isEmpty_iff.mp h]
    exact trimEnd_of_blank fun c hc => hb c ((List.dropWhile_sublist _).subset hc)
  · exact trimEnd_append hb _

theorem mem_of_mem_trimEnd {c : Char} (h : c ∈ trimEnd s) : c ∈ s := by
  induction s with
  | nil => exact h
  | cons d s ih =>
    rw [trimEnd] at h
    split at h
    · split at h
      · cases h
      · exact List.mem_cons.mpr (Or.inl (List.mem_singleton.mp h))
    · rcases List.mem_cons.mp h with rfl | h
      · exact List.mem_cons_self
      · exact List.mem_cons_of_mem d (ih h)

theorem mem_of_mem_trim {c : Char} (h : c ∈ trim s) : c ∈ s :=
  (List.dropWhile_sublist _).subset (mem_of_mem_trimEnd h)

theorem trimEnd_ne_nil {c : Char} (hc : c ∈ s) (hb : isBlank c = false) : trimEnd s ≠ [] := by
  induction s with
  | nil => cases hc
  | cons d s ih =>
    rw [trimEnd]
    split
    · next hnil =>
      rcases List.mem_cons.mp hc with rfl | hc
      · simp [hb]
      · exact absurd hnil (ih hc)
    · exact List.cons_ne_nil _ _

theorem mem_trimStart {c : Char} (hc : c ∈ s) (hb : isBlank c = false) : c ∈ trimStart s := by
  rw [← List.takeWhile_append_dropWhile (p := isBlank) (l := s), List.mem_append] at hc
  refine hc.resolve_left fun h => ?_
  have := List.all_eq_true.mp List.all_takeWhile c h
  rw [hb] at this
  cases this

/-- A text with a character that is no white space does not vanish when it is trimmed. -/
theorem trim_ne_nil {c : Char} (hc : c ∈ s) (hb : isBlank c = false) :
    trim s ≠ [] := trimEnd_ne_nil (mem_trimStart hc hb) hb

theorem isBlank_of_getLast?_trim {c : Char} (h : (trim s).getLast? = some c) :
    isBlank c = false := by
  rw [trim] at h
  generalize trimStart s = s at h
  induction s with
  | nil => cases h
  | cons d s ih =>
    rw [trimEnd] at h
    split at h
    · split at h
      · cases h
      · next hd =>
        obtain rfl := Option.some.inj h
        exact Bool.eq_false_iff.mpr hd
    · next hne => exact ih (by rwa [List.getLast?_cons_of_ne_nil hne] at h)

theorem isBlank_of_head?_trim {c : Char} (h : (trim s).head? = some c) : isBlank c = false := by
  have hstart := List.head?_dropWhile_not isBlank s
  rw [trim, trimStart] at h
  cases hs : s.dropWhile isBlank with
  | nil =>
    rw [hs] at h
    cases h
  | cons d t =>
    rw [hs] at h hstart
    rw [trimEnd] at h
    split at h
    · split at h
      · cases h
      · exact Option.some.inj h ▸ hstart
    · exact Option.some.inj h ▸ hstart

theorem isBlank_of_trimStart {c : Char} (h : trimStart s = s) (hc : s.head? = some c) :
    isBlank c = false := by
  have hhead := List.head?_dropWhile_not isBlank s
  rw [show s.dropWhile isBlank = s from h, hc] at hhead
  exact hhead

theorem trim_trim (s : List Char) : trim (trim s) = trim s :=
  trim_eq_self (fun _ => isBlank_of_head?_trim) (fun _ => isBlank_of_getLast?_trim)

theorem head?_trim {c : Char} (h : s.head? = some c) (hc : isBlank c = false) :
    (trim s).head? = some c := by
  obtain ⟨r, rfl⟩ := List.head?_eq_some_iff.mp h
  rw [trim, trimStart, List.dropWhile_cons_of_neg (by simp [hc]), trimEnd]
  split
  · rw [if_neg (by simp [hc])]
    rfl
  · rfl

theorem trimEnd_isPrefix (s : List Char) : trimEnd s <+: s := by
  induction s with
  | nil => exact List.prefix_refl _
  | cons c s ih =>
    rw [trimEnd]
    split
    · split
      · exact List.nil_prefix
      · exact List.cons_prefix_cons.mpr ⟨rfl, List.nil_prefix⟩
    · exact List.cons_prefix_cons.mpr ⟨rfl, ih⟩

theorem exists_eq_trimEnd (s : List Char) :
    ∃ r, (∀ c ∈ r, isBlank c = true) ∧ s = trimEnd s ++ r := by
  induction s with
  | nil => exact ⟨[], nofun, rfl⟩
  | cons c s ih =>
    obtain ⟨r, hr, hs⟩ := ih
    rw [trimEnd]
    split
    · next hnil =>
      rw [hnil, List.nil_append] at hs
      split
      · next hc => exact ⟨c :: s, List.forall_mem_cons.mpr ⟨hc, hs ▸ hr⟩, rfl⟩
      · exact ⟨s, hs ▸ hr, rfl⟩
    · exact ⟨r, hr, congrArg (c :: ·) hs⟩

theorem exists_eq_trim (s : List Char) :
    ∃ l r, (∀ c ∈ l, isBlank c = true) ∧ (∀ c ∈ r, isBlank c = true) ∧ s = l ++ trim s ++ r := by
  obtain ⟨r, hr, hs⟩ := exists_eq_trimEnd (trimStart s)
  refine ⟨s.takeWhile isBlank, r, List.all_eq_true.mp List.all_takeWhile, hr, ?_⟩
  rw [trim, List.append_assoc, ← hs]
  exact List.takeWhile_append_dropWhile.symm

theorem trimEnd_cons {c : Char} (hc : isBlank c = false) (s : List Char) :
    trimEnd (c :: s) = c :: trimEnd s := by
  rw [trimEnd]
  split
  · next h => rw [if_neg (by simp [hc]), h]
  · rfl

theorem mem_trim {c : Char} (hc : c ∈ s) (hb : isBlank c = false) : c ∈ trim s := by
  rw [trim]
  have hstart := mem_trimStart hc hb
  generalize trimStart s = t at hstart
  induction t with
  | nil => exact hstart
  | cons d t ih =>
    rcases List.mem_cons.mp hstart with rfl | hmem
    · rw [trimEnd_cons hb]
      exact List.mem_cons_self
    · have := ih hmem
      rw [trimEnd]
      split
      · next h => rw [h] at this; cases this
      · exact List.mem_cons_of_mem d this

theorem length_trim_le (s : List Char) : (trim s).length ≤ s.length :=
  Nat.le_trans (trimEnd_isPrefix _).length_le (List.dropWhile_sublist _).length_le

theorem trim_isPrefix {t : List Char} (ht : trim t = t) (h : s <+: t) : trim s <+: t := by
  cases s with
  | nil => exact List.nil_prefix
  | cons c s =>
    obtain ⟨r, rfl⟩ := h
    have hc : isBlank c = false := isBlank_of_head?_trim (s := c :: s ++ r) (by rw [ht]; rfl)
    rw [trim, trimStart, List.dropWhile_cons_of_neg (by simp [hc])]
    exact (trimEnd_isPrefix _).trans (List.prefix_append _ _)

/-! ### Cutting -/

theorem dropTrailing_isPrefix (p s : List Char) : dropTrailing p s <+: s := by
  rw [dropTrailing]
  split
  · exact List.take_prefix _ _
  · exact List.prefix_refl s

theorem dropTrailing_concat (c : Char) (s : List Char) : dropTrailing [c] (s ++ [c]) = s := by
  have hsuffix : [c].isSuffixOf (s ++ [c]) = true :=
    List.isSuffixOf_iff_suffix.mpr (List.suffix_append s [c])
  rw [dropTrailing, if_pos hsuffix, List.length_append]
  simp

theorem mem_dropTrailing {c d : Char} (h : c ≠ d) (hc : c ∈ s) : c ∈ dropTrailing [d] s := by
  by_cases hd : [d] <:+ s
  · obtain ⟨t, rfl⟩ := hd
    rw [dropTrailing_concat]
    simpa [h] using hc
  · rwa [dropTrailing, if_neg (by rwa [List.isSuffixOf_iff_suffix])]

theorem dropTrailing_of_not_mem {c : Char} (h : c ∉ s) : dropTrailing [c] s = s := by
  rw [dropTrailing, if_neg]
  intro hsuffix
  exact h ((List.isSuffixOf_iff_suffix.mp hsuffix).subset (List.mem_singleton_self c))

theorem mem_of_mem_cut (h : cut sep s = some (before, after)) {c : Char} (hc : c ∈ after) :
    c ∈ s := by
  induction s generalizing before after with
  | nil =>
    rw [cut] at h
    split at h
    · obtain ⟨-, rfl⟩ := Prod.mk.inj (Option.some.inj h)
      exact hc
    · cases h
  | cons d s ih =>
    rw [cut] at h
    split at h
    · obtain ⟨-, rfl⟩ := Prod.mk.inj (Option.some.inj h)
      exact List.mem_of_mem_drop hc
    · obtain ⟨⟨b, a⟩, hcut, heq⟩ := Option.map_eq_some_iff.mp h
      obtain ⟨-, rfl⟩ := Prod.mk.inj heq
      exact List.mem_cons_of_mem d (ih hcut hc)

/-- What a text starts with, up to a character that it does not hold, is in the text before that
character. -/
theorem prefix_of_append_cons {c : Char} {w r : List Char} (hc : c ∉ w) (h : w <+: s ++ c :: r) :
    w <+: s := by
  rcases List.prefix_or_prefix_of_prefix h (List.prefix_append s (c :: r)) with hw | ⟨x, rfl⟩
  · exact hw
  · have hx : x <+: c :: r := (List.prefix_append_right_inj s).mp h
    cases x with
    | nil => simp
    | cons d x =>
      obtain ⟨rfl, -⟩ := List.cons_prefix_cons.mp hx
      simp at hc

/-- A text is cut at the first occurrence of a separator whose first character does not come back
in it. -/
theorem cut_append {c : Char} {w : List Char} (hc : c ∉ w) (hs : ¬ c :: w <:+: s) (r : List Char) :
    cut (c :: w) (s ++ c :: w ++ r) = some (s, r) := by
  induction s with
  | nil =>
    have hprefix : (c :: w).isPrefixOf (c :: w ++ r) = true :=
      List.isPrefixOf_iff_prefix.mpr (List.prefix_append _ _)
    rw [List.nil_append, List.cons_append, cut, ← List.cons_append, if_pos hprefix,
      List.drop_left]
  | cons d s ih =>
    have hprefix : (c :: w).isPrefixOf (d :: (s ++ c :: w ++ r)) ≠ true := by
      intro h
      obtain ⟨rfl, htail⟩ := List.cons_prefix_cons.mp (List.isPrefixOf_iff_prefix.mp h)
      rw [List.append_assoc, List.cons_append] at htail
      have hw := prefix_of_append_cons hc htail
      exact hs (List.cons_prefix_cons.mpr ⟨rfl, hw⟩).isInfix
    have hinner : ¬ c :: w <:+: s := fun h => hs (h.trans (List.suffix_cons d s).isInfix)
    rw [List.cons_append, List.cons_append, cut, if_neg hprefix, ih hinner]
    rfl

/-- A text is the part before a separator, the separator and the part behind it. -/
theorem eq_of_cut (h : cut sep s = some (before, after)) : s = before ++ sep ++ after := by
  induction s generalizing before after with
  | nil =>
    rw [cut] at h
    split at h
    · next hsep =>
      obtain ⟨rfl, rfl⟩ := Prod.mk.inj (Option.some.inj h)
      simp [List.isEmpty_iff.mp hsep]
    · cases h
  | cons d s ih =>
    rw [cut] at h
    split at h
    · next hsep =>
      obtain ⟨rfl, rfl⟩ := Prod.mk.inj (Option.some.inj h)
      rw [List.nil_append]
      exact (List.prefix_iff_eq_append.mp (List.isPrefixOf_iff_prefix.mp hsep)).symm
    · obtain ⟨⟨b, a⟩, hcut, heq⟩ := Option.map_eq_some_iff.mp h
      obtain ⟨rfl, rfl⟩ := Prod.mk.inj heq
      rw [List.cons_append, List.cons_append, ← ih hcut]

theorem cut_eq_none_iff (hsep : sep ≠ []) : cut sep s = none ↔ ¬ sep <:+: s := by
  induction s with
  | nil => simp [cut, hsep]
  | cons d s ih =>
    rw [cut, List.infix_cons_iff, not_or, ← ih, ← List.isPrefixOf_iff_prefix]
    split <;> simp_all

theorem exists_cut (hsep : sep ≠ []) (h : sep <:+: s) :
    ∃ before after, cut sep s = some (before, after) := by
  obtain ⟨p, hp⟩ := Option.ne_none_iff_exists'.mp fun hnone => (cut_eq_none_iff hsep).mp hnone h
  exact ⟨p.1, p.2, hp⟩

theorem not_infix_of_cut (hsep : sep ≠ []) (h : cut sep s = some (before, after)) :
    ¬ sep <:+: before := by
  induction s generalizing before after with
  | nil => simp [cut, hsep] at h
  | cons d s ih =>
    have hsplit := eq_of_cut h
    rw [cut] at h
    split at h
    · obtain ⟨rfl, -⟩ := Prod.mk.inj (Option.some.inj h)
      simpa using hsep
    · next hfirst =>
      obtain ⟨⟨b, a⟩, hcut, heq⟩ := Option.map_eq_some_iff.mp h
      obtain ⟨rfl, rfl⟩ := Prod.mk.inj heq
      rw [List.infix_cons_iff, not_or]
      refine ⟨fun hprefix => hfirst ?_, ih hcut⟩
      rw [List.isPrefixOf_iff_prefix, hsplit, List.append_assoc]
      exact hprefix.trans (List.prefix_append _ _)

/-! ### Single characters -/

theorem isPrefixOf_singleton (c d : Char) (s : List Char) :
    [c].isPrefixOf (d :: s) = (c == d) := by
  simp [List.isPrefixOf]

theorem cut_append_cons {c : Char} (h : c ∉ s) (r : List Char) :
    cut [c] (s ++ c :: r) = some (s, r) := by
  induction s with
  | nil => rw [List.nil_append, cut, isPrefixOf_singleton, beq_self_eq_true]; rfl
  | cons d s ih =>
    rw [List.mem_cons, not_or] at h
    rw [List.cons_append, cut, isPrefixOf_singleton, beq_false_of_ne h.1, ih h.2]
    rfl

theorem splitFrom_of_not_mem {c : Char} (h : c ∉ s) : splitFrom [c] 0 s = (s, []) := by
  induction s with
  | nil => rfl
  | cons d s ih =>
    rw [List.mem_cons, not_or] at h
    rw [splitFrom, isPrefixOf_singleton, beq_false_of_ne h.1, ih h.2]
    rfl

theorem split_of_not_mem {c : Char} (h : c ∉ s) : split [c] s = [s] := by
  rw [split, splitFrom_of_not_mem h]

theorem split_ne_nil (sep s : List Char) : split sep s ≠ [] := by
  rw [split]
  exact List.cons_ne_nil _ _

theorem split_cons_self (c : Char) (s : List Char) : split [c] (c :: s) = [] :: split [c] s := by
  rw [split, splitFrom, isPrefixOf_singleton, beq_self_eq_true]
  rfl

theorem split_cons_of_ne {c d : Char} (h : c ≠ d) (s : List Char) :
    split [c] (d :: s) = (split [c] s).modifyHead (d :: ·) := by
  rw [split, splitFrom, isPrefixOf_singleton, beq_false_of_ne h]
  rfl

/-- A text with a separator in it has the pieces before it and those behind it. -/
theorem split_append_cons (c : Char) (s r : List Char) :
    split [c] (s ++ c :: r) = split [c] s ++ split [c] r := by
  induction s with
  | nil => exact split_cons_self c r
  | cons d s ih =>
    by_cases h : c = d
    · rw [h, List.cons_append, split_cons_self, split_cons_self, ← h, ih, List.cons_append]
    · rw [List.cons_append, split_cons_of_ne h, split_cons_of_ne h, ih]
      obtain ⟨x, xs, hx⟩ := List.exists_cons_of_ne_nil (split_ne_nil [c] s)
      rw [hx]
      rfl

theorem not_mem_of_mem_split {c : Char} {x : List Char} (h : x ∈ split [c] s) : c ∉ x := by
  induction s generalizing x with
  | nil =>
    obtain rfl := List.mem_singleton.mp h
    simp
  | cons d s ih =>
    by_cases hd : c = d
    · rw [← hd, split_cons_self] at h
      rcases List.mem_cons.mp h with rfl | h
      · simp
      · exact ih h
    · rw [split_cons_of_ne hd] at h
      obtain ⟨y, ys, hy⟩ := List.exists_cons_of_ne_nil (split_ne_nil [c] s)
      rw [hy] at h ih
      rcases List.mem_cons.mp h with rfl | h
      · simpa [hd] using ih List.mem_cons_self
      · exact ih (List.mem_cons_of_mem y h)

theorem contains_singleton (c : Char) (s : List Char) : contains [c] s = s.contains c := by
  rw [contains]
  induction s with
  | nil => rfl
  | cons d s ih =>
    rw [cut, isPrefixOf_singleton, List.contains_cons]
    by_cases h : c = d
    · simp [h]
    · rw [beq_false_of_ne h, Bool.false_or, ← ih]
      simp

theorem replaceFrom_of_not_mem {c : Char} {new : List Char} (h : c ∉ s) :
    replaceFrom [c] new 0 s = s := by
  induction s with
  | nil => rfl
  | cons d s ih =>
    rw [List.mem_cons, not_or] at h
    rw [replaceFrom, isPrefixOf_singleton, beq_false_of_ne h.1, ih h.2]
    rfl

theorem replaceAll_eq_replaceFrom {old : List Char} (h : old ≠ []) (new s : List Char) :
    replaceAll old new s = replaceFrom old new 0 s := by
  rw [replaceAll, if_neg (by rwa [List.isEmpty_iff])]

theorem replaceAll_singleton (c : Char) (new s : List Char) :
    replaceAll [c] new s = s.flatMap fun d => if d = c then new else [d] := by
  rw [replaceAll_eq_replaceFrom (List.cons_ne_nil c [])]
  induction s with
  | nil => rfl
  | cons d s ih =>
    rw [replaceFrom, isPrefixOf_singleton, List.flatMap_cons]
    by_cases h : d = c
    · rw [if_pos h, h, beq_self_eq_true, if_pos rfl, ← ih]
      rfl
    · rw [if_neg h, beq_false_of_ne (Ne.symm h), ← ih]
      rfl

theorem replaceAll_cons {c : Char} (h : c ∉ s) (new : List Char) :
    replaceAll [c] new (c :: s) = new ++ s := by
  rw [replaceAll_eq_replaceFrom (List.cons_ne_nil c []), replaceFrom, isPrefixOf_singleton,
    beq_self_eq_true, if_pos rfl]
  exact congrArg (new ++ ·) (replaceFrom_of_not_mem h)

section Replace

variable (c : Char) (new : List Char)

theorem replaceAll_append (s t : List Char) :
    replaceAll [c] new (s ++ t) = replaceAll [c] new s ++ replaceAll [c] new t := by
  simp only [replaceAll_singleton, List.flatMap_append]

theorem replaceAll_of_not_mem (h : c ∉ s) : replaceAll [c] new s = s :=
  (replaceAll_eq_replaceFrom (List.cons_ne_nil c []) new s).trans (replaceFrom_of_not_mem h)

theorem replaceAll_replaceAll (old s : List Char) :
    replaceAll [c] new (replaceAll [c] old s) = replaceAll [c] (replaceAll [c] new old) s := by
  simp only [replaceAll_singleton, List.flatMap_assoc]
  refine List.flatMap_congr fun d _ => ?_
  by_cases h : d = c
  · rw [if_pos h, if_pos h]
  · rw [if_neg h, if_neg h, List.flatMap_singleton, if_neg h]

theorem mem_replaceAll {d : Char} :
    d ∈ replaceAll [c] new s ↔ (c ∈ s ∧ d ∈ new) ∨ (d ≠ c ∧ d ∈ s) := by
  rw [replaceAll_singleton, List.mem_flatMap]
  constructor
  · rintro ⟨e, he, hd⟩
    by_cases h : e = c
    · rw [if_pos h] at hd
      exact .inl ⟨h ▸ he, hd⟩
    · rw [if_neg h, List.mem_singleton] at hd
      exact .inr ⟨hd ▸ h, hd ▸ he⟩
  · rintro (⟨hc, hd⟩ | ⟨hne, hd⟩)
    · exact ⟨c, hc, by rwa [if_pos rfl]⟩
    · exact ⟨d, hd, by rw [if_neg hne, List.mem_singleton]⟩

variable {new}

theorem replaceAll_ne_nil (hnew : new ≠ []) (h : c ∈ s) : replaceAll [c] new s ≠ [] := by
  obtain ⟨d, hd⟩ := List.exists_mem_of_ne_nil new hnew
  exact List.ne_nil_of_mem ((mem_replaceAll c new).mpr (.inl ⟨h, hd⟩))

/-- The first character of a text after a replacement is its own, or that of what was put in. -/
theorem head?_replaceAll (hnew : new ≠ []) (s : List Char) :
    (replaceAll [c] new s).head? = s.head?.bind fun d => if d = c then new.head? else some d := by
  rw [replaceAll_singleton]
  cases s with
  | nil => rfl
  | cons d s =>
    rw [List.flatMap_cons, List.head?_cons, Option.bind_some]
    split
    · rw [List.head?_append_of_ne_nil _ hnew]
    · rfl

theorem getLast?_replaceAll (hnew : new ≠ []) (s : List Char) :
    (replaceAll [c] new s).getLast? =
      s.getLast?.bind fun d => if d = c then new.getLast? else some d := by
  rw [replaceAll_singleton]
  rcases List.eq_nil_or_concat' s with rfl | ⟨s, d, rfl⟩
  · rfl
  · rw [List.flatMap_append, List.flatMap_singleton, List.getLast?_concat, Option.bind_some]
    split
    · rw [List.getLast?_append_of_ne_nil _ hnew]
    · rw [List.getLast?_concat]

end Replace

/-! ### Joining -/

theorem join_eq_intercalate (sep : List Char) (pieces : List (List Char)) :
    join sep pieces = sep.intercalate pieces := by
  induction pieces with
  | nil => rfl
  | cons p ps ih =>
    cases ps with
    | nil => exact List.intercalate_singleton.symm
    | cons q qs => rw [join, ih, List.intercalate_cons_cons]; simp

/-! ### Nesting -/

/-- The list stands inside `d` pairs of marks and closes them: each mark that it opens is closed in
it, and none is closed that is not open. -/
structure Nested {α : Type} (opens closes : α → Bool) (d : Nat) (s : List α) : Prop where
  countP_eq : s.countP closes = s.countP opens + d
  countP_le : ∀ a ∈ s.inits, a.countP closes ≤ a.countP opens + d

namespace Nested

variable {α : Type} {opens closes : α → Bool} {d : Nat} {a b : List α}

instance (s : List α) : Decidable (Nested opens closes d s) :=
  decidable_of_iff (s.countP closes = s.countP opens + d ∧
      ∀ a ∈ s.inits, a.countP closes ≤ a.countP opens + d)
    ⟨fun h => ⟨h.1, h.2⟩, fun h => ⟨h.1, h.2⟩⟩

theorem append_right (h : Nested opens closes d (a ++ b)) :
    Nested opens closes (d + a.countP opens - a.countP closes) b := by
  have ha := h.countP_le a ((List.mem_inits _ _).mpr (List.prefix_append a b))
  refine ⟨?_, fun c hc => ?_⟩
  · have := h.countP_eq
    rw [List.countP_append, List.countP_append] at this
    omega
  · have hac := h.countP_le (a ++ c)
      ((List.mem_inits _ _).mpr ((List.prefix_append_right_inj a).mpr ((List.mem_inits _ _).mp hc)))
    rw [List.countP_append, List.countP_append] at hac
    omega

/-- What stands before the list without marks makes no difference. -/
theorem append_left (h : Nested opens closes d b) (hopens : a.countP opens = 0)
    (hcloses : a.countP closes = 0) : Nested opens closes d (a ++ b) := by
  have hcount : ∀ c, (a ++ c).countP closes = c.countP closes ∧
      (a ++ c).countP opens = c.countP opens := by
    intro c
    rw [List.countP_append, List.countP_append, hopens, hcloses, Nat.zero_add, Nat.zero_add]
    exact ⟨rfl, rfl⟩
  refine ⟨?_, fun c hc => ?_⟩
  · rw [(hcount b).1, (hcount b).2, h.countP_eq]
  · have hc := (List.mem_inits _ _).mp hc
    rcases List.prefix_or_prefix_of_prefix hc (List.prefix_append a b) with hca | ⟨x, rfl⟩
    · exact Nat.le_trans (hcloses ▸ hca.sublist.countP_le) (Nat.zero_le _)
    · rw [(hcount x).1, (hcount x).2]
      exact h.countP_le x ((List.mem_inits _ _).mpr ((List.prefix_append_right_inj a).mp hc))

theorem exists_mem (h : Nested opens closes (d + 1) b) : ∃ x ∈ b, closes x = true := by
  rw [← List.countP_pos_iff, h.countP_eq]
  omega

end Nested

end Pagesmith.Text
