import Mathlib.Data.List.Chain
import Pagesmith.Proofs.Css.Boundary

/-!
# Tokens of plain text

Text made of letters, digits, hyphens and a few marks falls into tokens that neither open nor close
a block nor end a declaration, whatever follows it, as long as it is followed by a character that
stops a name and a number.  No length of the tokenizer reaches past such text; the tokens then
follow from those lengths.

* `tokens_identifier`, `tokens_customName`, `tokens_atKeyword`: a name is one token.
* `tokens_blank`: white space is one token.
* `tokens_soft`: the tokens of soft text are inert.
-/

namespace Pagesmith.Css

open Pagesmith.Text

variable {c d : Char} {cs name : List Char} {m : Kind × Nat}

/-! ### Characters -/

def isWordChar (c : Char) : Bool := isLetter c || isDigit c || c == '-'

def isIdentifier : List Char → Bool
  | [] => false
  | c :: cs => isLetter c && cs.all isWordChar

def isSoft (c : Char) : Bool :=
  isWordChar c || [' ', ',', '.', '(', ')', ':'].contains c

/-- Text after which a name or a number cannot go on. -/
def Breaks (rest : List Char) : Prop :=
  ∃ c tail, rest = c :: tail ∧ c ∈ [' ', ':', ';', '\x7b']

/-- Text before which soft text ends: it does not go on with white space either. -/
def Stops (rest : List Char) : Prop :=
  ∃ c tail, rest = c :: tail ∧ c ∈ [':', ';', '\x7b']

theorem isDigit_of_isLetter (h : isLetter c = true) : isDigit c = false := by
  rw [Bool.eq_false_iff]
  intro hd
  simp only [isLetter, isDigit, Bool.or_eq_true, Bool.and_eq_true, decide_eq_true_eq, Char.le_def,
    UInt32.le_iff_toNat_le] at h hd
  have h9 : ('9' : Char).val.toNat = 57 := rfl
  have ha : ('a' : Char).val.toNat = 97 := rfl
  have hA : ('A' : Char).val.toNat = 65 := rfl
  omega

theorem isSpace_of_isSoft (h : isSoft c = true) (hc : c ≠ ' ') : isSpace c = false := by
  simp only [isSpace, Bool.or_eq_false_iff, beq_eq_false_iff_ne]
  exact ⟨⟨⟨⟨hc, ne_of_class h (by decide)⟩, ne_of_class h (by decide)⟩,
    ne_of_class h (by decide)⟩, ne_of_class h (by decide)⟩

theorem isSoft_of_isWordChar (h : isWordChar c = true) : isSoft c = true := by
  rw [isSoft, h, Bool.true_or]

theorem isWordChar_of_isLetter (h : isLetter c = true) : isWordChar c = true := by
  rw [isWordChar, h, Bool.true_or, Bool.true_or]

theorem isNameStart_of_isLetter (h : isLetter c = true) : isNameStart c = true := by
  rw [isNameStart, h, Bool.true_or, Bool.true_or]

theorem isName_of_isWordChar (h : isWordChar c = true) : isName c = true := by
  simp only [isWordChar, isName, isNameStart, Bool.or_eq_true] at h ⊢
  tauto

theorem isIdentifier_cons :
    isIdentifier (c :: cs) = true ↔ isLetter c = true ∧ ∀ d ∈ cs, isWordChar d = true := by
  rw [isIdentifier, Bool.and_eq_true, List.all_eq_true]

theorem isWordChar_of_mem_identifier {s : List Char} (h : isIdentifier s = true) (hc : c ∈ s) :
    isWordChar c = true := by
  cases s with
  | nil => cases hc
  | cons d s =>
    rw [isIdentifier_cons] at h
    rcases List.mem_cons.mp hc with rfl | hc
    · exact isWordChar_of_isLetter h.1
    · exact h.2 c hc

theorem toNat_of_isWordChar (h : isWordChar c = true) : 45 ≤ c.toNat ∧ c.toNat ≤ 122 := by
  simp only [isWordChar, isLetter, isDigit, Bool.or_eq_true, Bool.and_eq_true,
    decide_eq_true_eq, beq_iff_eq, Char.le_def, UInt32.le_iff_toNat_le] at h
  rcases h with ((h | h) | h) | rfl
  · change 97 ≤ c.toNat ∧ c.toNat ≤ 122 at h
    omega
  · change 65 ≤ c.toNat ∧ c.toNat ≤ 90 at h
    omega
  · change 48 ≤ c.toNat ∧ c.toNat ≤ 57 at h
    omega
  · decide

theorem isBlank_of_isWordChar (h : isWordChar c = true) : isBlank c = false := by
  have hn := toNat_of_isWordChar h
  simp only [isBlank, Bool.or_eq_false_iff, Bool.and_eq_false_iff, beq_eq_false_iff_ne,
    decide_eq_false_iff_not]
  omega

theorem identifier_ne_nil {s : List Char} (h : isIdentifier s = true) : s ≠ [] := by
  rintro rfl
  cases h

theorem identifier_append {s tail : List Char} (hs : isIdentifier s = true)
    (ht : ∀ c ∈ tail, isWordChar c = true) : isIdentifier (s ++ tail) = true := by
  cases s with
  | nil => cases hs
  | cons c s =>
    rw [isIdentifier_cons] at hs
    rw [List.cons_append, isIdentifier_cons]
    exact ⟨hs.1, fun d hd => (List.mem_append.mp hd).elim (hs.2 d) (ht d)⟩

theorem not_mem_identifier {s : List Char} (h : isIdentifier s = true) (hc : isWordChar c = false) :
    c ∉ s :=
  fun hm => ne_of_class (isWordChar_of_mem_identifier h hm) hc rfl

/-! ### Lengths -/

section Lengths

variable {s rest : List Char}

theorem nameLength_of_breaks (h : Breaks rest) : nameLength rest = 0 := by
  obtain ⟨c, tail, rfl, hc⟩ := h
  simp only [List.mem_cons, List.not_mem_nil, or_false] at hc
  rcases hc with rfl | rfl | rfl | rfl <;> rfl

theorem nameLength_append (hs : ∀ c ∈ s, isName c = true) (h : Breaks rest) :
    nameLength (s ++ rest) = s.length := by
  induction s with
  | nil => exact nameLength_of_breaks h
  | cons c s ih =>
    rw [List.cons_append, nameLength, nameLengthFrom, if_pos (hs c List.mem_cons_self),
      ← nameLength, ih fun d hd => hs d (List.mem_cons_of_mem c hd), List.length_cons, Nat.add_comm]

theorem bareIdentLength_identifier (hs : isIdentifier s = true) (h : Breaks rest) :
    bareIdentLength (s ++ rest) = s.length := by
  cases s with
  | nil => cases hs
  | cons c cs =>
    rw [isIdentifier_cons] at hs
    rw [List.cons_append, bareIdentLength, if_pos (isNameStart_of_isLetter hs.1),
      nameLength_append (fun d hd => isName_of_isWordChar (hs.2 d hd)) h, List.length_cons,
      Nat.add_comm]

theorem identLength_identifier (hs : isIdentifier s = true) (h : Breaks rest) :
    identLength (s ++ rest) = s.length := by
  rw [← bareIdentLength_identifier hs h]
  cases s with
  | nil => cases hs
  | cons c cs =>
    rw [isIdentifier_cons] at hs
    exact identLength_cons (ne_of_class hs.1 (by decide)) _

theorem isStop_of_mem (hc : c ∈ [':', ';', '\x7b']) : isStop c = true ∧ isSpace c = false := by
  simp only [List.mem_cons, List.not_mem_nil, or_false] at hc
  rcases hc with rfl | rfl | rfl <;> exact ⟨rfl, rfl⟩

theorem Stops.cons_of_append_eq (hr : Stops rest) (hc : c ∉ [':', ';', '\x7b']) {tail : List Char}
    (h : s ++ rest = c :: tail) : ∃ t, s = c :: t ∧ tail = t ++ rest := by
  cases s with
  | nil =>
    obtain ⟨d, tail', rfl, hd⟩ := hr
    obtain ⟨rfl, -⟩ := List.cons.inj h
    exact absurd hd hc
  | cons d t =>
    obtain ⟨rfl, rfl⟩ := List.cons.inj h
    exact ⟨t, rfl, rfl⟩

variable (hs : ∀ c ∈ s, isSoft c = true) (hr : Stops rest)

include hs in
theorem soft_drop (n : Nat) : ∀ c ∈ s.drop n, isSoft c = true :=
  fun c hc => hs c (List.mem_of_mem_drop hc)

include hr in
theorem spaceLength_le : spaceLength (s ++ rest) ≤ s.length := by
  obtain ⟨c, tail, rfl, hc⟩ := hr
  rw [spaceLength_stop (isStop_of_mem hc).2]
  exact spaceLength_le_length s

include hr in
theorem numberLength_le : numberLength (s ++ rest) ≤ s.length := by
  obtain ⟨c, tail, rfl, hc⟩ := hr
  rw [numberLength_stop (isStop_of_mem hc).1]
  exact numberLength_le_length s

include hs hr in
theorem identLength_le : identLength (s ++ rest) ≤ s.length := by
  obtain ⟨c, tail, rfl, hc⟩ := hr
  rcases identLength_settles (isStop_of_mem hc).1 s with ⟨hle, heq⟩ | ⟨hback, -⟩
  · rw [heq]
    exact hle
  · exact absurd (hs _ hback) (by decide)

end Lengths

/-! ### Inert tokens -/

/-- The kinds of tokens that neither open or close a block, nor end a declaration, nor announce an
at-rule. -/
def Kind.isInert : Kind → Bool
  | .whitespace | .ident | .function | .number | .dimension | .customName | .colon | .comma
  | .leftParen | .rightParen | .delim => true
  | _ => false

def Token.Inert (t : Token) : Prop :=
  t.kind.isInert = true ∧ (t.kind = .function → eqFold t.text "var(".toList = false)

/-- A measure within `s` of an inert token. -/
def Mild (s : List Char) (m : Kind × Nat) : Prop := m.2 ≤ s.length ∧ Token.Inert ⟨m.1, s.take m.2⟩

theorem Mild.of_kind {s : List Char} {kind : Kind} {n : Nat} (hn : n ≤ s.length)
    (hk : kind.isInert = true) (hf : kind ≠ .function) : Mild s (kind, n) :=
  ⟨hn, hk, fun h => absurd h hf⟩

/-- No opening parenthesis makes an address or a reference to a custom property of the name before
it: what stands before it is not the last letter of `url` or `var`. -/
def Calm (s : List Char) : Prop :=
  s.IsChain fun a b => b = '(' → a ∉ ['l', 'L', 'r', 'R']

instance (s : List Char) : Decidable (Calm s) := inferInstanceAs (Decidable (s.IsChain _))

theorem Calm.drop {s : List Char} (h : Calm s) (n : Nat) : Calm (s.drop n) := List.IsChain.drop h n

theorem lowerAscii_eq_or (h : lowerAscii c = d) :
    c = d ∨ ∃ n, 65 ≤ n ∧ n < 91 ∧ c = Char.ofNat n ∧ d = Char.ofNat (n + 32) := by
  rw [lowerAscii] at h
  split at h
  · next hc =>
    simp only [Bool.and_eq_true, decide_eq_true_eq, Char.le_def, UInt32.le_iff_toNat_le] at hc
    exact Or.inr ⟨c.toNat, hc.1, Nat.lt_succ_of_le hc.2, (Char.ofNat_toNat c).symm, h.symm⟩
  · exact Or.inl h

theorem mem_of_lowerAscii (h : lowerAscii c = d) (hd : d ∈ ['l', 'r']) :
    c ∈ ['l', 'L', 'r', 'R'] := by
  rcases lowerAscii_eq_or h with rfl | ⟨n, hlo, hhi, rfl, rfl⟩
  · simp only [List.mem_cons, List.not_mem_nil, or_false] at hd ⊢
    tauto
  · revert n
    decide

/-- A name of three letters before an opening parenthesis does not end in an `l` or an `r`. -/
theorem Calm.fold_take_ne {s : List Char} (h : Calm s) {n : Nat} {t : List Char}
    (ht : s.drop n = '(' :: t) {a b : Char} (hd : d ∈ ['l', 'r']) :
    (s.take n).map lowerAscii ≠ [a, b, d] := by
  intro heq
  obtain ⟨x, xs, hx, -, hxs⟩ := List.map_eq_cons_iff.mp heq
  obtain ⟨y, ys, rfl, -, hys⟩ := List.map_eq_cons_iff.mp hxs
  obtain ⟨z, zs, rfl, hz, hzs⟩ := List.map_eq_cons_iff.mp hys
  obtain rfl := List.map_eq_nil_iff.mp hzs
  have hs : s = x :: y :: z :: '(' :: t := by
    rw [← List.take_append_drop n s, hx, ht]
    rfl
  have hchain := h.drop 2
  rw [hs] at hchain
  exact (List.isChain_cons_cons.mp hchain).1 rfl (mem_of_lowerAscii hz hd)

section Measures

variable {s rest : List Char} (hs : ∀ c ∈ s, isSoft c = true) (hr : Stops rest)

include hs hr in
theorem numericMeasure_mild (h : numericMeasure (s ++ rest) = some m) : Mild s m := by
  have hn : numberLength (s ++ rest) ≤ s.length := numberLength_le hr
  unfold numericMeasure at h
  split at h
  · cases h
  · split at h
    · next tail heq =>
      rw [List.drop_append_of_le_length hn] at heq
      obtain ⟨t, ht, -⟩ := hr.cons_of_append_eq (by decide) heq
      exact absurd (hs '%' (List.mem_of_mem_drop (ht ▸ List.mem_cons_self))) (by decide)
    · have hm := identLength_le (soft_drop hs (numberLength (s ++ rest))) hr
      rw [← List.drop_append_of_le_length hn, List.length_drop] at hm
      split at h
      · obtain rfl := Option.some.inj h
        exact .of_kind hn rfl (by decide)
      · obtain rfl := Option.some.inj h
        exact .of_kind (by omega) rfl (by decide)

include hs hr in
theorem identlikeMeasure_mild (hcalm : Calm s) (h : identlikeMeasure (s ++ rest) = some m) :
    Mild s m := by
  have hn : identLength (s ++ rest) ≤ s.length := identLength_le hs hr
  unfold identlikeMeasure at h
  split at h
  · cases h
  · split at h
    · next tail heq =>
      rw [List.drop_append_of_le_length hn] at heq
      obtain ⟨t, ht, -⟩ := hr.cons_of_append_eq (by decide) heq
      have hlen := congrArg List.length ht
      rw [List.length_drop, List.length_cons] at hlen
      have hfilter : ((s ++ rest).take (identLength (s ++ rest))).filter (· != '\\')
          = s.take (identLength (s ++ rest)) := by
        rw [List.take_append_of_le_length hn, List.filter_eq_self]
        intro c hc
        exact bne_iff_ne.mpr (ne_of_class (hs c (List.mem_of_mem_take hc)) (by decide))
      have hurl : eqFold (s.take (identLength (s ++ rest))) ['u', 'r', 'l'] = false := by
        rw [eqFold, beq_eq_false_iff_ne]
        exact hcalm.fold_take_ne ht (by decide)
      rw [hfilter, hurl] at h
      obtain rfl := Option.some.inj h
      refine ⟨by simp only; omega, rfl, fun _ => ?_⟩
      have htake : s.take (identLength (s ++ rest) + 1)
          = s.take (identLength (s ++ rest)) ++ ['('] := by
        rw [List.take_add, ht]
        rfl
      simp only [htake]
      rw [eqFold, beq_eq_false_iff_ne, List.map_append]
      intro heq
      have hvar : "var(".toList.map lowerAscii = ['v', 'a', 'r'] ++ ['('].map lowerAscii := rfl
      rw [hvar] at heq
      exact hcalm.fold_take_ne ht (by decide) (List.append_cancel_right heq)
    · obtain rfl := Option.some.inj h
      exact .of_kind hn rfl (by decide)

include hs hr in
theorem hyphenMeasure_mild (hcalm : Calm s) (h : hyphenMeasure (s ++ rest) = some m) :
    Mild s m := by
  unfold hyphenMeasure at h
  split at h
  · next heq =>
    obtain rfl := Option.some.inj h
    exact numericMeasure_mild hs hr heq
  · split at h
    · next heq =>
      obtain rfl := Option.some.inj h
      exact identlikeMeasure_mild hs hr hcalm heq
    · split at h
      · next heq =>
        obtain ⟨t₁, rfl, h₁⟩ := hr.cons_of_append_eq (by decide) heq
        obtain ⟨t₂, rfl, h₂⟩ := hr.cons_of_append_eq (by decide) h₁.symm
        obtain ⟨t₃, rfl, h₃⟩ := hr.cons_of_append_eq (by decide) h₂.symm
        exact absurd (hs '>' (by simp)) (by decide)
      · next heq =>
        obtain ⟨t₁, rfl, h₁⟩ := hr.cons_of_append_eq (by decide) heq
        obtain ⟨t₂, rfl, rfl⟩ := hr.cons_of_append_eq (by decide) h₁.symm
        have hn := identLength_le (fun d hd => hs d (List.mem_cons_of_mem _ hd)) hr
        rw [List.cons_append] at hn
        split at h
        · cases h
        · obtain rfl := Option.some.inj h
          exact .of_kind (by simp only [List.length_cons] at hn ⊢; omega) rfl (by decide)
      · cases h

end Measures

/-- Soft text starts with an inert token that does not reach past it. -/
theorem measure?_mild {rest : List Char} (hs : ∀ d ∈ c :: cs, isSoft d = true)
    (hcalm : Calm (c :: cs)) (hr : Stops rest) (h : measure? c (cs ++ rest) = some m) :
    Mild (c :: cs) m := by
  have hc : isSoft c = true := hs c List.mem_cons_self
  have hrange : rangeLength (cs ++ rest) = 0 := by
    unfold rangeLength
    split
    · next heq =>
      obtain ⟨t, rfl, -⟩ := hr.cons_of_append_eq (by decide) heq
      exact absurd (hs '+' (by simp)) (by decide)
    · rfl
  unfold measure? at h
  simp only [hrange, ← List.cons_append] at h
  split at h
  · have hn : spaceLength (cs ++ rest) ≤ cs.length := spaceLength_le hr
    obtain rfl := Option.some.inj h
    exact .of_kind (by rw [List.length_cons]; omega) rfl (by decide)
  · split at h
    case h_1 | h_3 | h_4 | h_5 =>
      obtain rfl := Option.some.inj h
      exact .of_kind (by simp) rfl (by decide)
    case h_13 => exact numericMeasure_mild hs hr h
    case h_15 => exact hyphenMeasure_mild hs hr hcalm h
    case h_24 | h_25 => exact identlikeMeasure_mild hs hr hcalm h
    case h_27 =>
      split at h
      · next heq =>
        obtain rfl := Option.some.inj h
        exact numericMeasure_mild hs hr heq
      · exact identlikeMeasure_mild hs hr hcalm h
    -- the other characters are not soft
    all_goals exact absurd hc (by decide)

theorem measure_mild {rest : List Char} (hs : ∀ d ∈ c :: cs, isSoft d = true)
    (hcalm : Calm (c :: cs)) (hr : Stops rest) :
    (Token.measure c (cs ++ rest)).2 ≤ cs.length ∧
      Token.Inert ⟨(Token.measure c (cs ++ rest)).1,
        c :: cs.take (Token.measure c (cs ++ rest)).2⟩ := by
  rw [Token.measure]
  cases hm : measure? c (cs ++ rest) with
  | none => exact ⟨Nat.zero_le _, rfl, fun h => by cases h⟩
  | some m =>
    obtain ⟨kind, n⟩ := m
    obtain ⟨hn, hk, hf⟩ := measure?_mild hs hcalm hr hm
    rw [List.length_cons] at hn
    refine ⟨by simp only; omega, hk, ?_⟩
    cases n with
    | zero => simp [eqFold]
    | succ n => exact hf

/-! ### Tokens -/

structure SoftText (s : List Char) : Prop where
  soft : ∀ c ∈ s, isSoft c = true
  calm : Calm s

instance (s : List Char) : Decidable (SoftText s) :=
  decidable_of_iff (s.all isSoft = true ∧ Calm s)
    ⟨fun h => ⟨List.all_eq_true.mp h.1, h.2⟩, fun h => ⟨List.all_eq_true.mpr h.soft, h.calm⟩⟩

namespace SoftText

theorem drop {s : List Char} (h : SoftText s) (n : Nat) : SoftText (s.drop n) :=
  ⟨soft_drop h.soft n, h.calm.drop n⟩

theorem append {s t : List Char} (hs : SoftText s) (ht : SoftText t) (h : t.head? ≠ some '(') :
    SoftText (s ++ t) := by
  refine ⟨fun c hc => (List.mem_append.mp hc).elim (hs.soft c) (ht.soft c), ?_⟩
  refine List.IsChain.append hs.calm ht.calm fun a _ b hb heq => ?_
  exact absurd (heq ▸ hb) h

theorem blank_cons {s : List Char} (h : SoftText s) : SoftText (' ' :: s) := by
  refine ⟨fun c hc => ?_, List.IsChain.cons h.calm fun _ _ _ => by decide⟩
  rcases List.mem_cons.mp hc with rfl | hc
  · rfl
  · exact h.soft c hc

theorem of_words {s : List Char} (h : ∀ c ∈ s, isWordChar c = true ∨ c = ' ') : SoftText s := by
  induction s with
  | nil => exact ⟨by simp, List.IsChain.nil⟩
  | cons c s ih =>
    have hs := ih fun d hd => h d (List.mem_cons_of_mem c hd)
    refine ⟨fun d hd => ?_, List.IsChain.cons hs.calm fun d hd heq => ?_⟩
    · rcases h d hd with hw | rfl
      · exact isSoft_of_isWordChar hw
      · rfl
    · rcases h d (List.mem_cons_of_mem c (List.mem_of_head? hd)) with hw | rfl
      · exact absurd hw (heq ▸ by decide)
      · cases heq

end SoftText

/-- **The tokens of soft text are inert,** and what follows it is read from its own beginning. -/
theorem tokens_soft {s rest : List Char} (hs : SoftText s) (hr : Stops rest) :
    ∃ ts, tokens (s ++ rest) = ts ++ tokens rest ∧ ∀ t ∈ ts, t.Inert := by
  -- each token takes a part of the text, and the part behind it is soft text again
  induction hlen : s.length using Nat.strongRecOn generalizing s with
  | ind len ih =>
    cases s with
    | nil => exact ⟨[], rfl, by simp⟩
    | cons c cs =>
      obtain ⟨hn, hinert⟩ := measure_mild hs.soft hs.calm hr
      generalize hm : Token.measure c (cs ++ rest) = m at hn hinert
      have hc : c ≠ '\x00' := ne_of_class (hs.soft c List.mem_cons_self) (by decide)
      have hdrop : SoftText (cs.drop m.2) := hs.drop (m.2 + 1)
      obtain ⟨ts, hts, hall⟩ := ih (cs.drop m.2).length
        (by rw [← hlen, List.length_drop, List.length_cons]; omega) hdrop rfl
      refine ⟨⟨m.1, c :: cs.take m.2⟩ :: ts, ?_, ?_⟩
      · rw [List.cons_append, tokens, if_neg hc, hm, List.take_append_of_le_length hn,
          List.drop_append_of_le_length hn, hts, List.cons_append]
      · intro t ht
        rcases List.mem_cons.mp ht with rfl | ht
        · exact hinert
        · exact hall t ht

theorem tokens_nil : tokens [] = [] := by
  rw [tokens]

theorem tokens_cons (hc : c ≠ '\x00') (t : List Char) :
    tokens (c :: t) = ⟨(Token.measure c t).1, c :: t.take (Token.measure c t).2⟩
      :: tokens (t.drop (Token.measure c t).2) := by
  rw [tokens, if_neg hc]

/-- The first token of a text, where its kind and its further characters are known. -/
theorem tokens_of_measure? (body : List Char) {rest : List Char} {kind : Kind} (hc : c ≠ '\x00')
    (h : measure? c (body ++ rest) = some (kind, body.length + 1)) :
    tokens (c :: body ++ rest) = ⟨kind, c :: body⟩ :: tokens rest := by
  have hm : Token.measure c (body ++ rest) = (kind, body.length) := by
    rw [Token.measure, h]
    rfl
  rw [List.cons_append, tokens_cons hc, hm, List.take_left, List.drop_left]

theorem tokens_colon (cs : List Char) : tokens (':' :: cs) = ⟨.colon, [':']⟩ :: tokens cs :=
  tokens_of_measure? [] (by decide) rfl

theorem tokens_semicolon (cs : List Char) :
    tokens (';' :: cs) = ⟨.semicolon, [';']⟩ :: tokens cs :=
  tokens_of_measure? [] (by decide) rfl

theorem tokens_leftBrace (cs : List Char) :
    tokens ('\x7b' :: cs) = ⟨.leftBrace, ['\x7b']⟩ :: tokens cs :=
  tokens_of_measure? [] (by decide) rfl

theorem tokens_rightBrace (cs : List Char) :
    tokens ('\x7d' :: cs) = ⟨.rightBrace, ['\x7d']⟩ :: tokens cs :=
  tokens_of_measure? [] (by decide) rfl

theorem Breaks.head_ne {rest : List Char} (h : Breaks rest) (hc : c ∉ [' ', ':', ';', '\x7b'])
    (tail : List Char) : rest ≠ c :: tail := by
  obtain ⟨d, tail', rfl, hd⟩ := h
  rintro heq
  obtain ⟨rfl, -⟩ := List.cons.inj heq
  exact hc hd

theorem numberLength_of_isLetter (hc : isLetter c = true) (cs : List Char) :
    numberLength (c :: cs) = 0 := by
  have hsign : signLength (c :: cs) = 0 := by
    simp [signLength, ne_of_class hc (d := '+') (by decide), ne_of_class hc (d := '-') (by decide)]
  have hdigits : digitsLength (c :: cs) = 0 := by simp [digitsLength, isDigit_of_isLetter hc]
  simp only [numberLength, hsign, hdigits, List.drop_zero, Nat.zero_add]
  split
  · next heq => exact absurd (List.cons.inj heq).1 (ne_of_class hc (by decide))
  · rfl

theorem measure?_of_isLetter (hc : isLetter c = true) (hplus : ∀ tail, cs ≠ '+' :: tail) :
    measure? c cs = identlikeMeasure (c :: cs) := by
  have hsoft : isSoft c = true := isSoft_of_isWordChar (isWordChar_of_isLetter hc)
  have hspace : isSpace c = false := isSpace_of_isSoft hsoft (ne_of_class hc (by decide))
  have hrange : rangeLength cs = 0 := by
    unfold rangeLength
    split
    · exact absurd rfl (hplus _)
    · rfl
  have hnum : numericMeasure (c :: cs) = none := by
    unfold numericMeasure
    rw [numberLength_of_isLetter hc]
    rfl
  unfold measure?
  rw [hspace]
  simp only [Bool.false_eq_true, if_false, hrange, hnum]
  split
  all_goals first | rfl | exact absurd hc (by decide)

theorem identlikeMeasure_identifier {rest : List Char} (hn : isIdentifier name = true)
    (hr : Breaks rest) : identlikeMeasure (name ++ rest) = some (.ident, name.length) := by
  cases name with
  | nil => cases hn
  | cons c cs =>
    unfold identlikeMeasure
    rw [identLength_identifier hn hr]
    split
    · next h => cases h
    · rw [List.drop_left]
      split
      · exact absurd rfl (hr.head_ne (by decide) _)
      · rfl

theorem tokens_identifier {rest : List Char} (hn : isIdentifier name = true) (hr : Breaks rest) :
    tokens (name ++ rest) = ⟨.ident, name⟩ :: tokens rest := by
  have hm := identlikeMeasure_identifier hn hr
  cases name with
  | nil => cases hn
  | cons c cs =>
    rw [isIdentifier_cons] at hn
    refine tokens_of_measure? _ (ne_of_class hn.1 (by decide)) ?_
    rw [measure?_of_isLetter hn.1, ← List.cons_append, hm, List.length_cons]
    intro tail heq
    cases cs with
    | nil => exact hr.head_ne (by decide) tail heq
    | cons d ds =>
      obtain ⟨rfl, -⟩ := List.cons.inj heq
      exact absurd (hn.2 '+' List.mem_cons_self) (by decide)

theorem tokens_customName {rest : List Char} (hn : isIdentifier name = true) (hr : Breaks rest) :
    tokens ('-' :: '-' :: name ++ rest) = ⟨.customName, '-' :: '-' :: name⟩ :: tokens rest := by
  have hlen : identLength ('-' :: (name ++ rest)) = name.length + 1 := by
    rw [identLength, bareIdentLength_identifier hn hr]
    cases name with
    | nil => cases hn
    | cons c cs => rfl
  have hm : measure? '-' ('-' :: name ++ rest) = some (.customName, name.length + 1 + 1) := by
    show hyphenMeasure ('-' :: '-' :: (name ++ rest)) = _
    cases name with
    | nil => cases hn
    | cons c cs =>
      rw [isIdentifier_cons] at hn
      have hnum : numericMeasure ('-' :: '-' :: (c :: cs ++ rest)) = none := rfl
      have hident : identlikeMeasure ('-' :: '-' :: (c :: cs ++ rest)) = none := rfl
      unfold hyphenMeasure
      rw [hnum, hident]
      simp only
      split
      · next heq => exact absurd (by simpa using heq : c = '>' ∧ _).1 (ne_of_class hn.1 (by decide))
      · next heq =>
        obtain rfl : c :: cs ++ rest = _ := by simpa using heq
        rw [hlen]
        rfl
      · next h => exact absurd rfl (h _)
  exact tokens_of_measure? _ (by decide) hm

theorem tokens_atKeyword {rest : List Char} (hn : isIdentifier name = true) (hr : Breaks rest) :
    tokens ('@' :: name ++ rest) = ⟨.atKeyword, '@' :: name⟩ :: tokens rest := by
  refine tokens_of_measure? _ (by decide) ?_
  have hlen := identLength_identifier hn hr
  cases name with
  | nil => cases hn
  | cons c cs =>
    rw [List.length_cons, List.cons_append] at hlen
    simp [measure?, isSpace, hlen, Nat.add_comm]

theorem tokens_point (hc : isLetter c = true) (cs : List Char) :
    tokens ('.' :: c :: cs) = ⟨.delim, ['.']⟩ :: tokens (c :: cs) := by
  have hsign : signLength ('.' :: c :: cs) = 0 := rfl
  have hwhole : digitsLength ('.' :: c :: cs) = 0 := rfl
  have hdigits : digitsLength (c :: cs) = 0 := by simp [digitsLength, isDigit_of_isLetter hc]
  have hlen : numberLength ('.' :: c :: cs) = 0 := by
    simp [numberLength, hsign, hwhole, hdigits]
  have hnum : numericMeasure ('.' :: c :: cs) = none := by simp [numericMeasure, hlen]
  have hm : Token.measure '.' (c :: cs) = (.delim, 0) := by
    simp [Token.measure, measure?, isSpace, hnum]
  rw [tokens_cons (by decide), hm]
  rfl

theorem tokens_blank (hc : isSpace c = true) (cs : List Char) :
    tokens (c :: cs) =
      ⟨.whitespace, c :: cs.takeWhile isSpace⟩ :: tokens (cs.dropWhile isSpace) := by
  have hm : measure? c (cs.takeWhile isSpace ++ cs.dropWhile isSpace)
      = some (.whitespace, (cs.takeWhile isSpace).length + 1) := by
    rw [List.takeWhile_append_dropWhile]
    unfold measure?
    rw [if_pos hc, spaceLength, Nat.add_comm]
  have htokens := tokens_of_measure? _ (ne_of_class hc (by decide)) hm
  rwa [List.cons_append, List.takeWhile_append_dropWhile] at htokens

/-- White space before a text makes no difference to what passes over a token of white space. -/
theorem tokens_blank_append {α : Type} {f : List Token → α}
    (hf : ∀ blank ts, (∀ c ∈ blank, isSpace c = true) → f (⟨.whitespace, blank⟩ :: ts) = f ts)
    {blank : List Char} (hb : ∀ c ∈ blank, isSpace c = true) (s : List Char) :
    f (tokens (blank ++ s)) = f (tokens s) := by
  have hdrop : ∀ s, f (tokens s) = f (tokens (s.dropWhile isSpace)) := by
    intro s
    cases s with
    | nil => rfl
    | cons c s =>
      by_cases hc : isSpace c = true
      · rw [tokens_blank hc, List.dropWhile_cons_of_pos hc, hf]
        exact List.forall_mem_cons.mpr ⟨hc, List.all_eq_true.mp List.all_takeWhile⟩
      · rw [List.dropWhile_cons_of_neg hc]
  rw [hdrop, List.dropWhile_append_of_pos hb, ← hdrop]

end Pagesmith.Css
