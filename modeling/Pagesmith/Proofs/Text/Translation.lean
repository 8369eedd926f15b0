import Pagesmith.Proofs.Text.Position

/-!
# Positions in a part and in the whole

A position in a part of a text is one in the whole text if the lines before the part are added, and
on the first line of the part the bytes before it on that line.  This is exact for every offset in
the part, also for one inside a character.

A position is known from its offset and the offset from its position: it is what the lines before it
have, with their breaks, and the column on its line.  The proof goes over the lines of a text, and
the text behind a line break is a part of the text.

* `length_takeWhile_encode`: the bytes before a place on its line.
* `atOffset_append`: positions in a part of a text.
* `locate_eq_iff`: which occurrence of a part is located.
* `lineStart`: where a line starts.
* `exists_atOffset_eq`: the offset of a position.
* `atOffset_inWhole`: translation of positions.
-/

namespace Pagesmith.Text

variable {y : List Nat} {l part s : List Char}

/-! ### Columns -/

theorem encode_concat (s : List Char) (c : Char) :
    encode (s ++ [c]) = encode s ++ encodeChar c := by
  rw [encode_append]
  exact congrArg _ (List.append_nil _)

theorem not_mem_encodeChar {c : Char} (h : c ≠ '\n') : '\n'.toNat ∉ encodeChar c :=
  List.count_eq_zero.mp (by rw [count_encodeChar, if_neg h])

theorem takeWhile_reverse_append {x : List Nat} (h : '\n'.toNat ∉ y) :
    (x ++ y).reverse.takeWhile (· != '\n'.toNat)
      = y.reverse ++ x.reverse.takeWhile (· != '\n'.toNat) := by
  rw [List.reverse_append, List.takeWhile_append_of_pos]
  intro b hb
  rw [bne_iff_ne]
  rintro rfl
  exact h (List.mem_reverse.mp hb)

theorem takeWhile_reverse_break (x : List Nat) (h : '\n'.toNat ∉ y) :
    (x ++ '\n'.toNat :: y).reverse.takeWhile (· != '\n'.toNat) = y.reverse := by
  rw [← List.singleton_append, ← List.append_assoc, takeWhile_reverse_append h,
    List.reverse_append, List.reverse_singleton, List.singleton_append,
    List.takeWhile_cons_of_neg (by simp), List.append_nil]

theorem exists_last_break (h : '\n'.toNat ∈ y) :
    ∃ u v, y = u ++ '\n'.toNat :: v ∧ '\n'.toNat ∉ v := by
  obtain ⟨v, u, hy, hv⟩ := List.eq_append_cons_of_mem (List.mem_reverse.mpr h)
  refine ⟨u.reverse, v.reverse, ?_, by simpa using hv⟩
  rw [← List.reverse_reverse y, hy]
  simp

/-- **The bytes before a place on its line** are those of the characters. -/
theorem length_takeWhile_encode (s : List Char) :
    ((encode s).reverse.takeWhile (· != '\n'.toNat)).length
      = byteSize (s.reverse.takeWhile (· != '\n')) := by
  induction s using List.reverseRecOn with
  | nil => rfl
  | append_singleton s c ih =>
    have hreverse : (s ++ [c]).reverse = c :: s.reverse := by simp
    rw [encode_concat, hreverse]
    by_cases hc : c = '\n'
    · subst hc
      have hbytes : encodeChar '\n' = '\n'.toNat :: [] := rfl
      rw [hbytes, takeWhile_reverse_break _ List.not_mem_nil, List.takeWhile_cons_of_neg (by simp)]
      rfl
    · rw [takeWhile_reverse_append (not_mem_encodeChar hc), List.length_append, ih,
        List.length_reverse, length_encodeChar, List.takeWhile_cons_of_pos (by simpa using hc),
        byteSize_cons]

/-! ### Parts of a text -/

theorem after_of_not_mem (h : '\n'.toNat ∉ y) : Position.after y = ⟨1, y.length + 1⟩ := by
  have hall := takeWhile_reverse_append (x := []) h
  rw [List.nil_append, List.reverse_nil, List.takeWhile_nil, List.append_nil] at hall
  rw [Position.after, hall, List.length_reverse, List.count_eq_zero.mpr h]
  rfl

theorem after_append (before : List Char) (y : List Nat) :
    Position.after (encode before ++ y) = (Origin.after before).inWhole (Position.after y) := by
  have hline : ((encode before ++ y).count '\n'.toNat : Int) + 1
      = (Position.after y).line + (Origin.after before).line := by
    rw [List.count_append, count_encode, Origin.line_after]
    simp only [Position.after]
    omega
  have hcolumn : (((encode before ++ y).reverse.takeWhile (· != '\n'.toNat)).length : Int) + 1
      = ((Origin.after before).inWhole (Position.after y)).column := by
    by_cases hbreak : '\n'.toNat ∈ y
    · obtain ⟨u, v, rfl, hv⟩ := exists_last_break hbreak
      have hmore : (Position.after (u ++ '\n'.toNat :: v)).line ≠ 1 := by
        have hcount := List.count_pos_iff.mpr hbreak
        simp only [Position.after]
        omega
      have hcolumn : ((Origin.after before).inWhole (Position.after (u ++ '\n'.toNat :: v))).column
          = (Position.after (u ++ '\n'.toNat :: v)).column := if_neg hmore
      rw [hcolumn, Position.after, ← List.append_assoc, takeWhile_reverse_break _ hv,
        takeWhile_reverse_break _ hv]
    · -- the first line of the second piece goes on with the last line of the first one
      rw [takeWhile_reverse_append hbreak, List.length_append, length_takeWhile_encode,
        after_of_not_mem hbreak, List.length_reverse]
      simp only [Origin.inWhole, if_true, Origin.after]
      omega
  exact congrArg₂ Position.mk hline hcolumn

/-- **Positions in a part of a text**, by what is before the part. -/
theorem atOffset_append (before region after : List Char) {i : Nat} (hi : i ≤ byteSize region) :
    Position.atOffset (before ++ region ++ after) (byteSize before + i)
      = (Origin.after before).inWhole (Position.atOffset region i) := by
  rw [← length_encode] at hi
  rw [Position.atOffset, Position.atOffset, ← after_append, encode_append, encode_append,
    List.append_assoc, ← length_encode before, List.take_length_add_append,
    List.take_append_of_le_length hi]

theorem FirstAt.locate_eq {first : List Char} (h : FirstAt first part s) :
    Origin.locate s part = Origin.after first := by
  by_cases hpart : part = []
  · subst hpart
    have hnil : first = [] := List.length_eq_zero_iff.mp (Nat.le_zero.mp (h.least [] (by simp)))
    rw [hnil]
    cases s <;> rfl
  · obtain ⟨first', h', hlocate⟩ := exists_firstAt hpart h.isInfix
    rw [hlocate, h.unique h']

theorem exists_firstAt_of_prefix {before : List Char} (h : before ++ part <+: s) :
    ∃ first, FirstAt first part s := by
  by_cases hpart : part = []
  · subst hpart
    exact ⟨[], by simp, fun _ _ => Nat.zero_le _⟩
  · have hinfix := (List.suffix_append before part).isInfix.trans h.isInfix
    obtain ⟨first, hfirst, -⟩ := exists_firstAt hpart hinfix
    exact ⟨first, hfirst⟩

/-- **A part is located at an occurrence if and only if this is the first one.** -/
theorem locate_eq_iff {before : List Char} (h : before ++ part <+: s) :
    Origin.locate s part = Origin.after before ↔ FirstAt before part s := by
  refine ⟨fun hlocate => ?_, FirstAt.locate_eq⟩
  obtain ⟨first, hfirst⟩ := exists_firstAt_of_prefix h
  have hsame : first = before :=
    Origin.after_inj ((List.prefix_append _ _).trans hfirst.occurs)
      ((List.prefix_append _ _).trans h) (hfirst.locate_eq.symm.trans hlocate)
  exact hsame ▸ hfirst

/-! ### Lines -/

/-- The bytes before a line of a text, counted from zero: those of the lines before it, with their
line breaks. -/
def lineStart (s : List Char) (line : Nat) : Nat :=
  (((split ['\n'] s).take line).map fun l => byteSize l + 1).sum

theorem lineStart_zero (s : List Char) : lineStart s 0 = 0 := by
  rw [lineStart, List.take_zero, List.map_nil, List.sum_nil]

theorem split_break (hl : '\n' ∉ l) (r : List Char) :
    split ['\n'] (l ++ '\n' :: r) = l :: split ['\n'] r := by
  rw [split_append_cons, split_of_not_mem hl, List.singleton_append]

theorem lineStart_break (hl : '\n' ∉ l) (r : List Char) (line : Nat) :
    lineStart (l ++ '\n' :: r) (line + 1) = byteSize l + 1 + lineStart r line := by
  rw [lineStart, split_break hl, List.take_succ_cons, List.map_cons, List.sum_cons]
  rfl

theorem atOffset_of_not_mem (hl : '\n' ∉ l) (r : List Char) {offset : Nat}
    (h : offset ≤ byteSize l) :
    Position.atOffset (l ++ r) offset = ⟨1, offset + 1⟩ := by
  rw [← length_encode] at h
  have hbreak : '\n'.toNat ∉ (encode l).take offset := by
    intro hmem
    rw [← List.count_eq_zero, ← count_encode, List.count_eq_zero] at hl
    exact hl (List.mem_of_mem_take hmem)
  rw [Position.atOffset, encode_append, List.take_append_of_le_length h, after_of_not_mem hbreak,
    List.length_take_of_le h]

theorem origin_after_break (hl : '\n' ∉ l) : Origin.after (l ++ ['\n']) = ⟨1, 0⟩ := by
  have hcount : countChar '\n' (l ++ ['\n']) = 1 := by
    rw [countChar_eq_count, List.count_append, List.count_eq_zero.mpr hl]
    rfl
  rw [Origin.after, hcount, List.reverse_append, List.reverse_singleton, List.singleton_append,
    List.takeWhile_cons_of_neg (by simp)]
  rfl

/-- **The offset of a position**: the line is there, and the offset is where it starts with the
column added. -/
theorem exists_atOffset_eq (s : List Char) {offset : Nat} (h : offset ≤ byteSize s) :
    ∃ (line column : Nat) (text : List Char), Position.atOffset s offset = ⟨line + 1, column + 1⟩ ∧
      (split ['\n'] s)[line]? = some text ∧ column ≤ byteSize text ∧
      offset = lineStart s line + column := by
  -- over the lines: the text behind the first line break is a part of the text
  induction hn : s.length using Nat.strong_induction_on generalizing s offset with
  | _ n ih =>
    by_cases hbreak : '\n' ∈ s
    · obtain ⟨l, r, rfl, hl⟩ := List.eq_append_cons_of_mem hbreak
      by_cases hfirst : offset ≤ byteSize l
      · refine ⟨0, offset, l, by simpa using atOffset_of_not_mem hl _ hfirst, ?_, hfirst, ?_⟩
        · rw [split_break hl]
          rfl
        · rw [lineStart_zero, Nat.zero_add]
      · have hline : byteSize (l ++ ['\n']) = byteSize l + 1 := byteSize_append l ['\n']
        have hsize : byteSize (l ++ '\n' :: r) = byteSize (l ++ ['\n']) + byteSize r := by
          rw [← byteSize_append, List.append_assoc, List.singleton_append]
        obtain ⟨i, rfl⟩ : ∃ i, offset = byteSize (l ++ ['\n']) + i :=
          Nat.exists_eq_add_of_le (by omega)
        have hi : i ≤ byteSize r := by omega
        obtain ⟨line, column, text, hposition, htext, hcolumn, hoffset⟩ :=
          ih r.length (by rw [← hn, List.length_append, List.length_cons]; omega) r hi rfl
        refine ⟨line + 1, column, text, ?_, ?_, hcolumn, ?_⟩
        · have hwhole := atOffset_append (l ++ ['\n']) r [] hi
          rw [List.append_nil, List.append_assoc, List.singleton_append, hposition,
            origin_after_break hl] at hwhole
          rw [hwhole, Origin.inWhole]
          simp
        · rw [split_break hl, List.getElem?_cons_succ, htext]
        · rw [lineStart_break hl, hline, hoffset, ← Nat.add_assoc]
    · refine ⟨0, offset, s, ?_, ?_, h, ?_⟩
      · have hposition := atOffset_of_not_mem hbreak [] h
        rw [List.append_nil] at hposition
        simpa using hposition
      · rw [split_of_not_mem hbreak]
        rfl
      · rw [lineStart_zero, Nat.zero_add]

/-! ### Translation -/

/-- **Positions in a part of a text are translated exactly.**  The position of an offset in the part
is one in the whole by the origin of what is before the part, which is the line and the column where
that ends.  The part is located there if and only if this is its first occurrence.  And an offset is
known from its position: it is where the line starts with the column added, both counted from
zero. -/
theorem atOffset_inWhole (before region after : List Char) (i : Nat) (hi : i ≤ byteSize region) :
    let source := before ++ region ++ after
    let origin := Origin.after before
    Position.atOffset source (byteSize before + i)
        = origin.inWhole (Position.atOffset region i) ∧
    Position.atOffset source (byteSize before) = ⟨origin.line + 1, origin.column + 1⟩ ∧
    (Origin.locate source region = origin ↔ FirstAt before region source) ∧
    (∀ offset ≤ byteSize source, ∃ (line column : Nat) (text : List Char),
      Position.atOffset source offset = ⟨line + 1, column + 1⟩ ∧
      (split ['\n'] source)[line]? = some text ∧ column ≤ byteSize text ∧
      offset = lineStart source line + column) ∧
    ∀ offset ≤ byteSize source, ∀ offset' ≤ byteSize source,
      Position.atOffset source offset = Position.atOffset source offset' → offset = offset' := by
  intro source origin
  refine ⟨atOffset_append before region after hi, ?_, locate_eq_iff (List.prefix_append _ _),
    fun offset => exists_atOffset_eq source, fun offset h offset' h' heq => ?_⟩
  · have hstart := atOffset_append before region after (Nat.zero_le _)
    rw [Nat.add_zero] at hstart
    rw [hstart]
    simp [Origin.inWhole, Position.atOffset, Position.after, origin, add_comm]
  · obtain ⟨line, column, -, hposition, -, -, hoffset⟩ := exists_atOffset_eq source h
    obtain ⟨line', column', -, hposition', -, -, hoffset'⟩ := exists_atOffset_eq source h'
    rw [hposition, hposition', Position.mk.injEq] at heq
    have hline : line = line' := by omega
    have hcolumn : column = column' := by omega
    rw [hoffset, hoffset', hline, hcolumn]

/-- A part that starts on the second line of a text, behind a character of two bytes: the column of
an offset on its first line counts these. -/
theorem atOffset_inWhole_second :
    let before := "a\né".toList
    let region := "b\nc".toList
    let source := before ++ region ++ "d".toList
    1 ≤ byteSize region ∧ Position.atOffset region 1 = ⟨1, 2⟩ ∧
      Position.atOffset source (byteSize before + 1) = ⟨2, 4⟩ ∧
      Position.atOffset source (byteSize before + 1)
        = (Origin.after before).inWhole (Position.atOffset region 1) := by
  intro before region source
  have hi : 1 ≤ byteSize region := by decide
  exact ⟨hi, by decide, by decide, (atOffset_inWhole before region "d".toList 1 hi).1⟩

end Pagesmith.Text
