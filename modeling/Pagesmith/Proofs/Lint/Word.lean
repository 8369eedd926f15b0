import Pagesmith.Proofs.Lint.Column
import Pagesmith.Proofs.Page.Reference
import Pagesmith.Proofs.Text.Byte

/-!
# The first whole word

A name is a whole word of a text if white space or an end of the text is on both sides of it.  The
search goes over the characters of the text, and its answer counts bytes; it is the least byte
offset at which the bytes of the name are a whole word among the bytes of the text.  For white space
is one byte, so a character ends before the name, and from there on bytes are read as characters.

A search can as well jump from one occurrence of the name to the next: it looks for the name behind
an offset, and if what it finds is no whole word it looks again one byte further on.  As a name has
at least one byte, it never looks behind the end of the text, and it ends with the same answer.

* `TokenAt`: the bytes of a name as a whole word.
* `tokenAt_encode_iff`: whole words among bytes and among characters.
* `look`, `Search`: one look behind an offset, and a search that looks again.
* `look_cases`: what one look finds.
* `exists_search`: a search ends.
* `tokenOffset?_isLeast`: the first whole word.
-/

namespace Pagesmith.Lint

open Pagesmith.Page (encode_ne_nil offsetOf?_le)
open Pagesmith.Text

variable {name s : List Nat} {b i offset : Nat} {text : List Char}

/-! ### Whole words among bytes -/

def isSpaceByte (b : Nat) : Bool :=
  b == ' '.toNat || b == '\t'.toNat || b == '\n'.toNat || b == '\r'.toNat

/-- Bytes of a text at an offset are a name, with the start of the text or white space before it,
and the end of the text or white space behind it. -/
structure TokenAt (s name : List Nat) (i : Nat) : Prop where
  occurs : name <+: s.drop i
  starts : i = 0 ∨ ∃ b, s[i - 1]? = some b ∧ isSpaceByte b = true
  ends : i + name.length = s.length ∨ ∃ b, s[i + name.length]? = some b ∧ isSpaceByte b = true

theorem exists_split_of_prefix_drop (hname : name ≠ []) (h : name <+: s.drop i) :
    ∃ x y, s = x ++ name ++ y ∧ x.length = i := by
  obtain ⟨y, hy⟩ := h
  have hpos := List.length_pos_iff.mpr hname
  have hlength := congrArg List.length hy
  rw [List.length_append, List.length_drop] at hlength
  refine ⟨s.take i, y, ?_, List.length_take_of_le (by omega)⟩
  rw [List.append_assoc, hy, List.take_append_drop]

theorem tokenAt_append (x name y : List Nat) :
    TokenAt (x ++ name ++ y) name x.length ↔
      (∀ b, x.getLast? = some b → isSpaceByte b = true) ∧
        ∀ b, y.head? = some b → isSpaceByte b = true := by
  have hoccurs : name <+: (x ++ name ++ y).drop x.length := by
    rw [List.append_assoc, List.drop_left]
    exact List.prefix_append name y
  have hlast : 0 < x.length → (x ++ name ++ y)[x.length - 1]? = x.getLast? := by
    intro hpos
    rw [List.append_assoc, List.getElem?_append_left (by omega), List.getLast?_eq_getElem?]
  have hhead : (x ++ name ++ y)[x.length + name.length]? = y.head? := by
    rw [← List.length_append, List.getElem?_append_right le_rfl, Nat.sub_self,
      List.head?_eq_getElem?]
  constructor
  · rintro ⟨-, hstarts, hends⟩
    refine ⟨fun b hb => ?_, fun b hb => ?_⟩
    · rcases hstarts with hzero | ⟨d, hd, hspace⟩
      · rw [List.length_eq_zero_iff.mp hzero] at hb
        cases hb
      · rw [hlast (List.length_pos_iff.mpr (by rintro rfl; cases hb)), hb] at hd
        exact Option.some.inj hd ▸ hspace
    · rcases hends with hend | ⟨d, hd, hspace⟩
      · rw [List.length_append, List.length_append] at hend
        rw [List.length_eq_zero_iff.mp (by omega : y.length = 0)] at hb
        cases hb
      · rw [hhead, hb] at hd
        exact Option.some.inj hd ▸ hspace
  · rintro ⟨hstarts, hends⟩
    refine ⟨hoccurs, ?_, ?_⟩
    · cases hx : x.getLast? with
      | none => exact .inl (by rw [List.getLast?_eq_none_iff.mp hx, List.length_nil])
      | some b =>
        have hpos : 0 < x.length := List.length_pos_iff.mpr (by rintro rfl; cases hx)
        exact .inr ⟨b, (hlast hpos).trans hx, hstarts b hx⟩
    · cases hy : y.head? with
      | none =>
        obtain rfl := List.head?_eq_none_iff.mp hy
        exact .inl (by rw [List.append_nil, List.length_append])
      | some b => exact .inr ⟨b, hhead.trans hy, hends b hy⟩

theorem lt_of_isSpaceByte (h : isSpaceByte b = true) : b < 0x80 := by
  simp only [isSpaceByte, Bool.or_eq_true, beq_iff_eq] at h
  rcases h with ((rfl | rfl) | rfl) | rfl <;> decide

theorem isWordSpace_eq (c : Char) : isWordSpace c = isSpaceByte c.toNat := by
  have hchar : ∀ d : Char, (c == d) = (c.toNat == d.toNat) := by
    intro d
    rw [Bool.eq_iff_iff, beq_iff_eq, beq_iff_eq]
    refine ⟨congrArg Char.toNat, fun heq => ?_⟩
    rw [← Char.ofNat_toNat c, heq, Char.ofNat_toNat]
  rw [isWordSpace, hchar, hchar, hchar, hchar]
  rfl

theorem isSpaceByte_of_mem {c : Char} (h : b ∈ encodeChar c) : isSpaceByte b = isWordSpace c := by
  rw [isWordSpace_eq]
  by_cases hc : c.toNat < 0x80
  · rw [encodeChar_of_lt hc, List.mem_singleton] at h
    rw [h]
  · -- white space is below 0x80, and neither the character nor any of its bytes is
    have hno : ∀ n, 0x80 ≤ n → isSpaceByte n = false := fun n hn =>
      Bool.eq_false_iff.mpr fun hspace => not_lt.mpr hn (lt_of_isSpaceByte hspace)
    rw [hno b (le_of_mem_encodeChar h hc), hno _ (not_lt.mp hc)]

theorem isWordEnd_iff_of_mem {c : Char} (hb : b ∈ encodeChar c) :
    isWordEnd (some c) = true ↔ ∀ x, some b = some x → isSpaceByte x = true := by
  rw [isWordEnd, ← isSpaceByte_of_mem hb]
  exact ⟨fun h x hx => Option.some.inj hx ▸ h, fun h => h b rfl⟩

theorem isWordEnd_getLast?_iff (before : List Char) :
    isWordEnd before.getLast? = true ↔
      ∀ b, (encode before).getLast? = some b → isSpaceByte b = true := by
  cases before using List.reverseRecOn with
  | nil => simp [isWordEnd, encode]
  | append_singleton before c =>
    obtain ⟨b, hb⟩ := Option.isSome_iff_exists.mp
      (List.getLast?_isSome.mpr (encodeChar_ne_nil c))
    rw [List.getLast?_concat, encode_append, encode_cons, encode_nil, List.append_nil,
      List.getLast?_append_of_ne_nil _ (encodeChar_ne_nil c), hb]
    exact isWordEnd_iff_of_mem (List.mem_of_getLast? hb)

theorem isWordEnd_head?_iff (after : List Char) :
    isWordEnd after.head? = true ↔
      ∀ b, (encode after).head? = some b → isSpaceByte b = true := by
  cases after with
  | nil => simp [isWordEnd, encode]
  | cons c after =>
    obtain ⟨b, hb⟩ := Option.isSome_iff_exists.mp
      (List.isSome_head?.mpr (encodeChar_ne_nil c))
    rw [List.head?_cons, encode_cons, List.head?_append_of_ne_nil _ (encodeChar_ne_nil c), hb]
    exact isWordEnd_iff_of_mem (List.mem_of_head? hb)

theorem tokenAt_encode_iff {name : List Char} (hname : name ≠ []) :
    TokenAt (encode text) (encode name) i ↔
      ∃ before, WordAt text name before ∧ byteSize before = i := by
  constructor
  · intro h
    obtain ⟨x, y, hbytes, rfl⟩ := exists_split_of_prefix_drop (encode_ne_nil hname) h.occurs
    rw [hbytes, tokenAt_append] at h
    -- a character ends before the name, for white space is before it
    rw [List.append_assoc] at hbytes
    obtain ⟨before, rest, rfl, rfl, hrest⟩ :=
      exists_boundary hbytes fun b hb => lt_of_isSpaceByte (h.1 b hb)
    obtain ⟨after, rfl⟩ := encode_prefix_iff.mp ⟨y, hrest.symm⟩
    rw [encode_append, List.append_cancel_left_eq] at hrest
    subst hrest
    refine ⟨before, ⟨after, (List.append_assoc _ _ _).symm, ?_, ?_⟩, (length_encode before).symm⟩
    · exact (isWordEnd_getLast?_iff before).mpr h.1
    · exact (isWordEnd_head?_iff after).mpr h.2
  · rintro ⟨before, ⟨after, rfl, hbefore, hafter⟩, rfl⟩
    rw [encode_append, encode_append, ← length_encode, tokenAt_append]
    exact ⟨(isWordEnd_getLast?_iff before).mp hbefore, (isWordEnd_head?_iff after).mp hafter⟩

theorem FirstWordAt.isLeast {name before : List Char} (hname : name ≠ [])
    (h : FirstWordAt text name before) :
    IsLeast {i | TokenAt (encode text) (encode name) i} (byteSize before) := by
  refine ⟨(tokenAt_encode_iff hname).mpr ⟨before, h.word, rfl⟩, fun j hj => ?_⟩
  obtain ⟨x, hx, rfl⟩ := (tokenAt_encode_iff hname).mp hj
  obtain ⟨d, rfl⟩ := List.prefix_of_prefix_length_le
    ((List.prefix_append _ _).trans h.word.isPrefix) ((List.prefix_append _ _).trans hx.isPrefix)
    (h.least x hx)
  rw [byteSize_append]
  exact Nat.le_add_right _ _

/-! ### Looking again -/

theorem offsetOf?_eq_none_iff {p : List Nat} (hp : p ≠ []) :
    offsetOf? p s = none ↔ ∀ i, ¬ p <+: s.drop i := by
  induction s with
  | nil => simp [offsetOf?, hp]
  | cons b s ih =>
    rw [offsetOf?]
    split
    · next h => simpa using ⟨0, List.isPrefixOf_iff_prefix.mp h⟩
    · next h =>
      rw [Option.map_eq_none_iff, ih]
      constructor
      · rintro hnone (_ | i)
        · exact fun hprefix => h (List.isPrefixOf_iff_prefix.mpr hprefix)
        · exact hnone i
      · exact fun hnone i => hnone (i + 1)

theorem isLeast_of_offsetOf? {p : List Nat} {k : Nat} (h : offsetOf? p s = some k) :
    IsLeast {i | p <+: s.drop i} k := by
  induction s generalizing k with
  | nil =>
    rw [offsetOf?] at h
    split at h
    · next hp =>
      obtain rfl := Option.some.inj h
      rw [List.isEmpty_iff.mp hp]
      exact ⟨List.nil_prefix, fun _ _ => Nat.zero_le _⟩
    · cases h
  | cons b s ih =>
    rw [offsetOf?] at h
    split at h
    · next hp =>
      obtain rfl := Option.some.inj h
      exact ⟨List.isPrefixOf_iff_prefix.mp hp, fun _ _ => Nat.zero_le _⟩
    · next hp =>
      obtain ⟨j, hj, rfl⟩ := Option.map_eq_some_iff.mp h
      refine ⟨(ih hj).1, ?_⟩
      rintro (_ | i) hi
      · exact absurd (List.isPrefixOf_iff_prefix.mpr hi) hp
      · exact Nat.succ_le_succ ((ih hj).2 hi)

/-- What one look behind an offset comes to: a whole word, no occurrence, an occurrence that is no
whole word, or an access outside the text. -/
inductive Look where
  | found (i : Nat)
  | absent
  | again (offset : Nat)
  | outside

def look (s name : List Nat) (offset : Nat) : Look :=
  if s.length < offset then .outside
  else
    match offsetOf? name (s.drop offset) with
    | none => .absent
    | some k =>
      let i := offset + k
      let starts := if i = 0 then some true else s[i - 1]?.map isSpaceByte
      let ends :=
        if i + name.length = s.length then some true else s[i + name.length]?.map isSpaceByte
      match starts, ends with
      | some true, some true => .found i
      | some _, some _ => .again (i + 1)
      | _, _ => .outside

/-- A search that looks again one byte behind each occurrence that is no whole word.  It ends with
the offset of a whole word or with none, and never outside the text. -/
inductive Search (s name : List Nat) : Nat → Option Nat → Prop where
  | found {offset i : Nat} : look s name offset = .found i → Search s name offset (some i)
  | absent {offset : Nat} : look s name offset = .absent → Search s name offset none
  | again {offset next : Nat} {r : Option Nat} :
      look s name offset = .again next → Search s name next r → Search s name offset r

theorem Search.unique {r r' : Option Nat} (h : Search s name offset r)
    (h' : Search s name offset r') : r = r' := by
  induction h with
  | found hlook =>
    cases h' with
    | found hlook' => rw [Look.found.inj (hlook.symm.trans hlook')]
    | absent hlook' => cases hlook.symm.trans hlook'
    | again hlook' _ => cases hlook.symm.trans hlook'
  | absent hlook =>
    cases h' with
    | found hlook' => cases hlook.symm.trans hlook'
    | absent _ => rfl
    | again hlook' _ => cases hlook.symm.trans hlook'
  | again hlook _ ih =>
    cases h' with
    | found hlook' => cases hlook.symm.trans hlook'
    | absent hlook' => cases hlook.symm.trans hlook'
    | again hlook' hnext =>
      obtain rfl := Look.again.inj (hlook.symm.trans hlook')
      exact ih hnext

/-- A side of a name is free or not, if its byte is there unless the text ends. -/
theorem exists_free_side {atEnd : Prop} [Decidable atEnd] (h : ¬ atEnd → i < s.length) :
    ∃ b, (if atEnd then some true else s[i]?.map isSpaceByte) = some b ∧
      (b = true ↔ atEnd ∨ ∃ x, s[i]? = some x ∧ isSpaceByte x = true) := by
  by_cases hend : atEnd
  · exact ⟨true, if_pos hend, by simp [hend]⟩
  · have hi := h hend
    exact ⟨isSpaceByte s[i], by simp [hend, hi], by simp [hend, hi]⟩

/-- **What one look finds**: nothing, if the name does not occur behind the offset, else its first
occurrence there, if this is a whole word, and else the place behind the start of it. -/
theorem look_cases (hname : name ≠ []) (hoffset : offset ≤ s.length) :
    look s name offset = .absent ∧ (∀ i, offset ≤ i → ¬ name <+: s.drop i) ∨
    ∃ i, offset ≤ i ∧ i < s.length ∧ (∀ j, offset ≤ j → j < i → ¬ name <+: s.drop j) ∧
      (look s name offset = .found i ∧ TokenAt s name i ∨
        look s name offset = .again (i + 1) ∧ ¬ TokenAt s name i) := by
  rw [look, if_neg (not_lt.mpr hoffset)]
  cases hfind : offsetOf? name (s.drop offset) with
  | none =>
    refine .inl ⟨rfl, fun i hi hprefix => ?_⟩
    obtain ⟨k, rfl⟩ := Nat.exists_eq_add_of_le hi
    rw [← List.drop_drop] at hprefix
    exact (offsetOf?_eq_none_iff hname).mp hfind k hprefix
  | some k =>
    have hpos := List.length_pos_iff.mpr hname
    have hle := offsetOf?_le hfind
    obtain ⟨hoccurs, hleast⟩ := isLeast_of_offsetOf? hfind
    have hoccurs : name <+: s.drop (offset + k) := List.drop_drop ▸ hoccurs
    rw [List.length_drop] at hle
    refine .inr ⟨offset + k, Nat.le_add_right _ _, by omega, fun j hj hlt hprefix => ?_, ?_⟩
    · obtain ⟨m, rfl⟩ := Nat.exists_eq_add_of_le hj
      rw [← List.drop_drop] at hprefix
      have hkm := hleast hprefix
      omega
    · -- both bytes are there, for the name has at least one byte and is inside the text
      obtain ⟨b, hb, hstarts⟩ := exists_free_side (s := s) (i := offset + k - 1)
        fun hzero : ¬ offset + k = 0 => by omega
      obtain ⟨e, he, hends⟩ := exists_free_side (s := s) (i := offset + k + name.length)
        fun hend : ¬ offset + k + name.length = s.length => by omega
      simp only [hb, he]
      cases b with
      | false => exact .inr ⟨by cases e <;> rfl, fun h => by simpa using hstarts.mpr h.starts⟩
      | true =>
        cases e with
        | false => exact .inr ⟨rfl, fun h => by simpa using hends.mpr h.ends⟩
        | true => exact .inl ⟨rfl, hoccurs, hstarts.mp rfl, hends.mp rfl⟩

/-- **A search ends**, and with the first whole word behind its offset. -/
theorem exists_search (hname : name ≠ []) (hoffset : offset ≤ s.length) :
    ∃ r, Search s name offset r ∧
      (∀ i, r = some i → TokenAt s name i) ∧
      ∀ j, offset ≤ j → TokenAt s name j → ∃ i, r = some i ∧ i ≤ j := by
  -- each further look starts nearer to the end of the text
  induction hn : s.length - offset using Nat.strong_induction_on generalizing offset with
  | _ n ih =>
    rcases look_cases hname hoffset with
      ⟨hlook, hnone⟩ | ⟨i, hle, hlt, hfirst, ⟨hlook, htoken⟩ | ⟨hlook, htoken⟩⟩
    · exact ⟨none, .absent hlook, by simp, fun j hj hat => absurd hat.occurs (hnone j hj)⟩
    · refine ⟨some i, .found hlook, fun k hk => Option.some.inj hk ▸ htoken, fun j hj hat => ?_⟩
      refine ⟨i, rfl, ?_⟩
      by_contra hji
      exact hfirst j hj (by omega) hat.occurs
    · obtain ⟨r, hsearch, hat, hleast⟩ := ih (s.length - (i + 1)) (by omega) (by omega) rfl
      refine ⟨r, .again hlook hsearch, hat, fun j hj hj' => hleast j ?_ hj'⟩
      -- neither an offset before the occurrence nor that of the occurrence is one of a whole word
      by_contra hji
      rcases Nat.lt_or_eq_of_le (by omega : j ≤ i) with hlt | rfl
      · exact hfirst j hj hlt hj'.occurs
      · exact htoken hj'

/-! ### The first whole word -/

theorem tokenOffset?_eq_some_iff {name : List Char} (hname : name ≠ []) :
    tokenOffset? text name = some i ↔ IsLeast {i | TokenAt (encode text) (encode name) i} i := by
  constructor
  · intro h
    obtain ⟨before, hword, rfl⟩ := exists_of_tokenOffset? hname h
    exact hword.isLeast hname
  · intro h
    obtain ⟨before, hword, -⟩ := (tokenAt_encode_iff hname).mp h.1
    cases htoken : tokenOffset? text name with
    | none => exact absurd hword ((tokenOffset?_eq_none_iff hname text).mp htoken before)
    | some k =>
      obtain ⟨least, hleast, rfl⟩ := exists_of_tokenOffset? hname htoken
      rw [(hleast.isLeast hname).unique h]

theorem tokenOffset?_eq_none_iff_tokenAt {name : List Char} (hname : name ≠ []) :
    tokenOffset? text name = none ↔ ∀ i, ¬ TokenAt (encode text) (encode name) i := by
  rw [tokenOffset?_eq_none_iff hname]
  constructor
  · intro h i hi
    obtain ⟨before, hword, -⟩ := (tokenAt_encode_iff hname).mp hi
    exact h before hword
  · exact fun h before hword => h _ ((tokenAt_encode_iff hname).mpr ⟨before, hword, rfl⟩)

/-- **The first whole word.** The search for a name gives the least byte offset at which the name is
a whole word of the text, and none if and only if there is no such offset.  A search that looks
again one byte behind each occurrence that is no whole word ends with the same answer, and all bytes
that it reads are there. -/
theorem tokenOffset?_isLeast (text name : List Char) (hname : name ≠ []) :
    (∀ i, tokenOffset? text name = some i ↔
      IsLeast {i | TokenAt (encode text) (encode name) i} i) ∧
    (tokenOffset? text name = none ↔ ∀ i, ¬ TokenAt (encode text) (encode name) i) ∧
    ∀ r, Search (encode text) (encode name) 0 r ↔ r = tokenOffset? text name := by
  obtain ⟨r, hsearch, hat, hleast⟩ :=
    exists_search (encode_ne_nil hname) (Nat.zero_le (encode text).length)
  have hr : r = tokenOffset? text name := by
    cases r with
    | none =>
      refine ((tokenOffset?_eq_none_iff_tokenAt hname).mpr fun i hi => ?_).symm
      obtain ⟨k, hk, -⟩ := hleast i (Nat.zero_le i) hi
      cases hk
    | some i =>
      refine ((tokenOffset?_eq_some_iff hname).mpr ⟨hat i rfl, fun j hj => ?_⟩).symm
      obtain ⟨k, hk, hkj⟩ := hleast j (Nat.zero_le j) hj
      exact Option.some.inj hk ▸ hkj
  refine ⟨fun i => tokenOffset?_eq_some_iff hname, tokenOffset?_eq_none_iff_tokenAt hname,
    fun r' => ⟨fun h => h.unique (hr ▸ hsearch), ?_⟩⟩
  rintro rfl
  exact hr ▸ hsearch

/-- The name occurs twice inside longer words, and these occurrences overlap; then it is a word. -/
theorem tokenOffset?_isLeast_third :
    let text := "aaa\taa".toList
    let name := "aa".toList
    name ≠ [] ∧ tokenOffset? text name = some 4 ∧
      IsLeast {i | TokenAt (encode text) (encode name) i} 4 ∧
      Search (encode text) (encode name) 0 (some 4) := by
  intro text name
  have hname : name ≠ [] := by decide
  have hfour : tokenOffset? text name = some 4 := by decide
  obtain ⟨hsome, -, hsearch⟩ := tokenOffset?_isLeast text name hname
  exact ⟨hname, hfour, (hsome 4).mp hfour, (hsearch _).mpr hfour.symm⟩

end Pagesmith.Lint
