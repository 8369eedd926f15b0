import Mathlib.Tactic
import Pagesmith.Proofs.Text.Basic
import Pagesmith.Text.Position

/-!
# Lines of positions

The line of a position counts the line breaks among the bytes before it.  A line break is one byte,
and no other character has that byte, so these are the line breaks among the characters.

* `count_encode`: the line breaks among bytes and among characters.
* `line_atOffset`: an offset inside a part of a text is on a line of that part.
* `line_atOffset_of_char`: an offset inside a character is on the line of that character.
* `Origin.after_inj`: different parts before one text have different origins.
* `exists_firstAt`: a part is located where it first occurs.
-/

namespace Pagesmith.Text

variable {first part s x : List Char} {offset : Nat}

/-! ### Bytes -/

theorem countChar_eq_count (c : Char) (s : List Char) : countChar c s = s.count c := by
  have hfrom : ∀ n, s.foldl (fun n d => if d == c then n + 1 else n) n = n + s.count c := by
    induction s with
    | nil => intro n; rfl
    | cons d s ih =>
      intro n
      rw [List.foldl_cons, ih, List.count_cons]
      split <;> omega
  exact (hfrom 0).trans (Nat.zero_add _)

theorem byteSize_eq_sum (s : List Char) : byteSize s = (s.map Char.utf8Size).sum := by
  have hfrom : ∀ n, s.foldl (fun n c => n + c.utf8Size) n = n + (s.map Char.utf8Size).sum := by
    induction s with
    | nil => intro n; rfl
    | cons d s ih =>
      intro n
      rw [List.foldl_cons, ih, List.map_cons, List.sum_cons]
      omega
  exact (hfrom 0).trans (Nat.zero_add _)

theorem byteSize_cons (c : Char) (s : List Char) : byteSize (c :: s) = c.utf8Size + byteSize s := by
  rw [byteSize_eq_sum, byteSize_eq_sum, List.map_cons, List.sum_cons]

theorem byteSize_append (s t : List Char) : byteSize (s ++ t) = byteSize s + byteSize t := by
  rw [byteSize_eq_sum, byteSize_eq_sum, byteSize_eq_sum, List.map_append, List.sum_append]

theorem byteSize_pos (h : s ≠ []) : 0 < byteSize s := by
  obtain ⟨c, s, rfl⟩ := List.exists_cons_of_ne_nil h
  have hc := c.utf8Size_pos
  rw [byteSize_eq_sum, List.map_cons, List.sum_cons]
  omega

theorem eq_of_byteSize_eq {y : List Char} (hx : x <+: s) (hy : y <+: s)
    (h : byteSize x = byteSize y) : x = y := by
  have hlonger : ∀ {x y : List Char}, x <+: y → byteSize x = byteSize y → x = y := by
    rintro x _ ⟨d, rfl⟩ h
    by_contra hd
    have hpos := byteSize_pos (s := d) fun hnil => hd (by rw [hnil, List.append_nil])
    rw [byteSize_append] at h
    omega
  rcases List.prefix_or_prefix_of_prefix hx hy with hxy | hyx
  · exact hlonger hxy h
  · exact (hlonger hyx h.symm).symm

theorem length_encodeChar (c : Char) : (encodeChar c).length = c.utf8Size := by
  have hval : c.val.toNat = c.toNat := rfl
  unfold encodeChar Char.utf8Size
  simp only [UInt32.le_iff_toNat_le, hval, UInt32.toNat_ofNatLT]
  split_ifs <;> simp only [List.length_cons, List.length_nil] <;> omega

theorem length_encode (s : List Char) : (encode s).length = byteSize s := by
  rw [encode, List.length_flatMap, byteSize_eq_sum]
  simp only [length_encodeChar]

theorem encode_append (s t : List Char) : encode (s ++ t) = encode s ++ encode t :=
  List.flatMap_append

theorem count_encodeChar (c : Char) :
    (encodeChar c).count '\n'.toNat = if c = '\n' then 1 else 0 := by
  have hc : c = '\n' ↔ c.toNat = 10 := by
    constructor
    · rintro rfl
      rfl
    · intro h
      rw [← Char.ofNat_toNat c, h]
  have hten : '\n'.toNat = 10 := rfl
  rw [hten]
  unfold encodeChar
  simp only [hc]
  split_ifs <;> simp only [List.count_cons, List.count_nil, beq_iff_eq] <;> split_ifs <;> omega

/-- The line breaks among the bytes of a text are those among its characters. -/
theorem count_encode (s : List Char) : (encode s).count '\n'.toNat = s.count '\n' := by
  induction s with
  | nil => rfl
  | cons c s ih =>
    have hcons : encode (c :: s) = encodeChar c ++ encode s := List.flatMap_cons
    rw [hcons, List.count_append, ih, count_encodeChar, List.count_cons]
    simp only [beq_iff_eq]
    omega

/-! ### Offsets -/

theorem line_atOffset_eq (s : List Char) (offset : Nat) :
    (Position.atOffset s offset).line = ((encode s).take offset).count '\n'.toNat + 1 := rfl

theorem line_atOffset {a b : List Char} (hlow : byteSize a ≤ offset)
    (hhigh : offset ≤ byteSize (a ++ b)) (c : List Char) :
    (a.count '\n' : Int) < (Position.atOffset (a ++ b ++ c) offset).line ∧
      (Position.atOffset (a ++ b ++ c) offset).line ≤ (a ++ b).count '\n' + 1 := by
  rw [line_atOffset_eq, ← count_encode a, ← count_encode (a ++ b)]
  rw [← length_encode] at hlow hhigh
  have hstart : encode a <+: (encode (a ++ b ++ c)).take offset := by
    rw [List.prefix_take_iff, List.append_assoc, encode_append]
    exact ⟨List.prefix_append _ _, hlow⟩
  have hend : (encode (a ++ b ++ c)).take offset <+: encode (a ++ b) := by
    rw [encode_append (a ++ b), List.take_append_of_le_length hhigh]
    exact List.take_prefix _ _
  have hmore := hstart.sublist.count_le '\n'.toNat
  have hless := hend.sublist.count_le '\n'.toNat
  omega

/-- The line of a byte is that of its character: a line break has one byte. -/
theorem line_atOffset_of_char {a : List Char} {c : Char} (hlow : byteSize a ≤ offset)
    (hhigh : offset < byteSize (a ++ [c])) (b : List Char) :
    (Position.atOffset (a ++ c :: b) offset).line = a.count '\n' + 1 := by
  rw [byteSize_append, byteSize_cons] at hhigh
  have hnil : byteSize [] = 0 := rfl
  by_cases hc : c = '\n'
  · have hone : c.utf8Size = 1 := by rw [hc]; rfl
    have hlines := line_atOffset hlow (b := []) (by rw [List.append_nil]; omega) (c :: b)
    rw [List.append_nil] at hlines
    omega
  · have hbreak : [c].count '\n' = 0 := List.count_eq_zero.mpr (by simpa using Ne.symm hc)
    have hlines := line_atOffset hlow (b := [c])
      (by rw [byteSize_append, byteSize_cons]; omega) b
    rw [List.append_assoc, List.singleton_append, List.count_append, hbreak] at hlines
    omega

theorem line_atOffset_of_le (h : byteSize s ≤ offset) :
    (Position.atOffset s offset).line = s.count '\n' + 1 := by
  rw [line_atOffset_eq, List.take_of_length_le (by rwa [length_encode]), count_encode]

/-! ### Origins -/

theorem Origin.line_after (before : List Char) : (Origin.after before).line = before.count '\n' :=
  countChar_eq_count '\n' before

/-- **What stands before a part of a text is known from the origin of the part.** -/
theorem Origin.after_inj {y : List Char} (hx : x <+: s) (hy : y <+: s)
    (h : Origin.after x = Origin.after y) : x = y := by
  have hlonger : ∀ {x y : List Char}, x <+: y → Origin.after x = Origin.after y → x = y := by
    rintro x _ ⟨d, rfl⟩ h
    by_contra hd
    have hd : d ≠ [] := fun hnil => hd (by rw [hnil, List.append_nil])
    have hline := congrArg Origin.line h
    rw [line_after, line_after, List.count_append] at hline
    have hbreak : '\n' ∉ d := List.count_eq_zero.mp (by omega)
    -- on one line, more characters make more bytes
    have hcolumn : byteSize (x.reverse.takeWhile (· != '\n'))
        = byteSize ((x ++ d).reverse.takeWhile (· != '\n')) := congrArg Origin.column h
    have hstop : ∀ c ∈ d.reverse, (c != '\n') = true := by
      intro c hc
      rw [bne_iff_ne]
      rintro rfl
      exact hbreak (List.mem_reverse.mp hc)
    rw [List.reverse_append, List.takeWhile_append_of_pos hstop, byteSize_append] at hcolumn
    have hpos := byteSize_pos (s := d.reverse) (by simpa using hd)
    omega
  rcases List.prefix_or_prefix_of_prefix hx hy with hxy | hyx
  · exact hlonger hxy h
  · exact (hlonger hyx h.symm).symm

/-- `FirstAt first part s`: the text `first` stands before the first occurrence of a part. -/
structure FirstAt (first part s : List Char) : Prop where
  occurs : first ++ part <+: s
  least : ∀ x, x ++ part <+: s → first.length ≤ x.length

theorem length_le_of_cut {rest : List Char} (hcut : cut part s = some (first, rest))
    (hx : x ++ part <+: s) : first.length ≤ x.length := by
  induction s generalizing first x with
  | nil =>
    rw [cut] at hcut
    split at hcut
    · obtain ⟨rfl, -⟩ := Prod.mk.inj (Option.some.inj hcut)
      exact Nat.zero_le _
    · cases hcut
  | cons c s ih =>
    rw [cut] at hcut
    split at hcut
    · obtain ⟨rfl, -⟩ := Prod.mk.inj (Option.some.inj hcut)
      exact Nat.zero_le _
    · next hnot =>
      obtain ⟨⟨before, after⟩, hnext, heq⟩ := Option.map_eq_some_iff.mp hcut
      obtain ⟨rfl, rfl⟩ := Prod.mk.inj heq
      cases x with
      | nil => exact absurd (List.isPrefixOf_iff_prefix.mpr hx) hnot
      | cons d x => exact Nat.succ_le_succ (ih hnext (List.cons_prefix_cons.mp hx).2)

theorem exists_firstAt (hpart : part ≠ []) (h : part <:+: s) :
    ∃ first, FirstAt first part s ∧ Origin.locate s part = Origin.after first := by
  obtain ⟨first, rest, hcut⟩ := exists_cut hpart h
  refine ⟨first, ⟨?_, fun x => length_le_of_cut hcut⟩, ?_⟩
  · have hsplit := eq_of_cut hcut
    exact ⟨rest, hsplit.symm⟩
  · rw [Origin.locate, hcut]

theorem FirstAt.eq_iff {lead : List Char} (hfirst : FirstAt first part s) (h : lead ++ part <+: s) :
    first = lead ↔ ∀ x, x ++ part <+: s → lead.length ≤ x.length := by
  constructor
  · rintro rfl
    exact hfirst.least
  · intro hleast
    have hlen := Nat.le_antisymm (hfirst.least lead h) (hleast first hfirst.occurs)
    exact (List.prefix_of_prefix_length_le ((List.prefix_append _ _).trans hfirst.occurs)
      ((List.prefix_append _ _).trans h) hlen.le).eq_of_length hlen

theorem FirstAt.unique {first' : List Char} (h : FirstAt first part s)
    (h' : FirstAt first' part s) :
    first = first' :=
  (h.eq_iff h'.occurs).mpr h'.least

theorem FirstAt.isInfix (h : FirstAt first part s) : part <:+: s :=
  (List.suffix_append first part).isInfix.trans h.occurs.isInfix

theorem indexOfBytes?_eq_none_iff (hpart : part ≠ []) :
    indexOfBytes? part s = none ↔ ¬ part <:+: s := by
  rw [indexOfBytes?, Option.map_eq_none_iff, cut_eq_none_iff hpart]

theorem exists_firstAt_of_indexOfBytes? {i : Nat} (h : indexOfBytes? part s = some i) :
    ∃ first, FirstAt first part s ∧ i = byteSize first := by
  obtain ⟨⟨first, rest⟩, hcut, rfl⟩ := Option.map_eq_some_iff.mp h
  exact ⟨first, ⟨⟨rest, (eq_of_cut hcut).symm⟩, fun x => length_le_of_cut hcut⟩, rfl⟩

end Pagesmith.Text
