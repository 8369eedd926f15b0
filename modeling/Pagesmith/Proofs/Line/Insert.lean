import Mathlib.Tactic
import Pagesmith.Proofs.Line.Break
import Pagesmith.Proofs.Tree.Inert
import Pagesmith.Proofs.Tree.Print

/-!
# Lines put into a body

A text with a line break behind it may be put between any two lines of any body, without a change to
the tree, exactly if the line break is read as one and the lines of the text have no effect.  If a
token takes the line break in, or a parenthesis is open before it, then a key behind it is lost.

* `key_isPrefix`: a key stands at the start of its line.
* `LineState.Fits`: what the reader knows is no longer than what it has read.
* `not_prefix_of_not_endsInBreak`: how a key is lost.
* `Harmless`: a line that may stand anywhere; `harmless_iff`: which lines may.
-/

namespace Pagesmith.Style

open Pagesmith.Css Pagesmith.Text

variable {s y : List Char} {t : Token} {m : Nat}

/-! ### Keys and the start of a line -/

theorem key_isPrefix {line : Line} (hline : trim line = line) {k : String}
    (h : (Line.action line).key? = some k) : k.toList <+: line := by
  rw [Line.action] at h
  split at h
  · cases h
  · split at h
    · have hkey : blockKey line <+: line := by
        refine trim_isPrefix hline ((dropTrailing_isPrefix _ _).trans ?_)
        exact trim_isPrefix hline (dropTrailing_isPrefix _ _)
      split at h
      · cases h
      · obtain rfl := Option.some.inj h
        rwa [String.toList_ofList]
    · split at h
      · cases h
      · split at h
        · next key value hdecl =>
          obtain rfl : key = k := Option.some.inj h
          rw [declaration?] at hdecl
          split at hdecl
          · cases hdecl
          · next left right hcut =>
            dsimp only at hdecl
            split at hdecl
            · cases hdecl
            · obtain ⟨rfl, -⟩ := Prod.mk.inj (Option.some.inj hdecl)
              rw [String.toList_ofList]
              refine trim_isPrefix hline ?_
              rw [eq_of_cut hcut, List.append_assoc]
              exact List.prefix_append _ _
        · cases h

theorem flush_eq (current : List Char) : flush current = [] ∨ flush current = [trim current] := by
  rw [flush]
  split
  · exact Or.inl rfl
  · exact Or.inr rfl

theorem mem_flush {current : List Char} {line : Line} (h : line ∈ flush current) :
    line = trim current := by
  rcases flush_eq current with hflush | hflush <;> rw [hflush] at h
  · cases h
  · exact List.mem_singleton.mp h

/-! ### The reader's state -/

theorem text_subset_of_mem_tokens (ht : t ∈ tokens s) : t.text ⊆ s := by
  obtain ⟨ts, us, htokens⟩ := List.append_of_mem ht
  rw [List.append_cons] at htokens
  obtain ⟨r, rfl, -⟩ := tokens_eq_append htokens
  intro c hc
  simp [hc]

theorem paren_mem_of_mem_tokens (ht : t ∈ tokens s)
    (hkind : t.kind = .function ∨ t.kind = .leftParen) : '(' ∈ t.text := by
  obtain ⟨ts, us, htokens⟩ := List.append_of_mem ht
  obtain ⟨r, -, hr⟩ := tokens_eq_append htokens
  obtain ⟨c, a, rest, -, -, rfl, -, hlen⟩ := tokens_eq_cons hr
  have hfound := measure_found c (a ++ rest)
  have htake : (a ++ rest).take (Token.measure c (a ++ rest)).2 = a := by
    refine List.IsPrefix.eq_of_length (List.prefix_of_prefix_length_le (List.take_prefix _ _)
      (List.prefix_append a rest) ?_) ?_ <;> rw [List.length_take, hlen]
  generalize Token.measure c (a ++ rest) = m at hkind hfound htake
  cases hfound with
  | blank | comment => simp at hkind
  | fence h =>
    rcases hkind with rfl | rfl
    · simp at h
    · obtain rfl : c = '(' := by simpa using h
      exact List.mem_cons_self
  | function h => exact htake ▸ h
  | plain h =>
    dsimp only at hkind
    rcases hkind with rfl | rfl <;> cases h

def GoesOn (t : Token) : Prop :=
  t.kind.fence? = none ∧ (t.text.any fun c => c == '\r' || c == '\n') = false

theorem goesOn_of_mem_tokens (ht : t ∈ tokens s)
    (htext : ∀ c ∈ t.text, [';', '\x7b', '\x7d', '\r', '\n'].contains c = false) : GoesOn t := by
  refine ⟨?_, List.any_eq_false.mpr fun c hc hbreak => ?_⟩
  · cases hfence : t.kind.fence? with
    | none => rfl
    | some m =>
      have hm := htext m (by rw [text_of_fence ht hfence]; exact List.mem_cons_self)
      generalize t.kind = kind at hfence
      cases kind
      case semicolon | leftBrace | rightBrace => cases hfence; cases hm
      all_goals cases hfence
  · have := htext c hc
    simp only [Bool.or_eq_true, beq_iff_eq] at hbreak
    rcases hbreak with rfl | rfl <;> cases this

namespace LineState

/-- The lines are trimmed and, like the one being read, no longer than `n`; a parenthesis that is
open stands in the line being read. -/
structure Fits (n : Nat) (st : LineState) : Prop where
  lines : ∀ line ∈ st.lines, trim line = line ∧ line.length ≤ n
  current : st.current.length ≤ n
  parens : st.parens ≠ 0 → ∃ c ∈ st.current, isBlank c = false

namespace Fits

variable {n : Nat} {st : LineState}

theorem flush {current : List Char} (h : current.length ≤ n) :
    ∀ line ∈ Style.flush current, trim line = line ∧ line.length ≤ n := by
  intro line hline
  obtain rfl := mem_flush hline
  exact ⟨trim_trim current, Nat.le_trans (length_trim_le current) h⟩

theorem finish (h : st.Fits n) : ∀ line ∈ st.finish, trim line = line ∧ line.length ≤ n :=
  List.forall_mem_append.mpr ⟨h.lines, flush h.current⟩

theorem mono (h : st.Fits n) (hm : n ≤ m) : st.Fits m :=
  ⟨fun line hline => ⟨(h.lines line hline).1, Nat.le_trans (h.lines line hline).2 hm⟩,
    Nat.le_trans h.current hm, h.parens⟩

theorem extend (h : st.Fits n) {text : List Char} {p : Nat} (hm : text.length ≤ m)
    (hp : p ≠ 0 → st.parens ≠ 0 ∨ '(' ∈ text) : (st.extend text p).Fits (n + m) := by
  refine ⟨(h.mono (Nat.le_add_right n m)).lines, ?_, fun hparens => ?_⟩
  · rw [LineState.extend, List.length_append]
    exact Nat.add_le_add h.current hm
  · rcases hp hparens with hst | htext
    · obtain ⟨c, hc, hblank⟩ := h.parens hst
      exact ⟨c, List.mem_append_left text hc, hblank⟩
    · exact ⟨'(', List.mem_append_right _ htext, rfl⟩

theorem endLine (h : st.Fits n) {text : List Char} (hm : text.length ≤ m) :
    (st.endLine text).Fits (n + m) := by
  refine ⟨List.forall_mem_append.mpr ⟨(h.mono (Nat.le_add_right n m)).lines, flush ?_⟩,
    Nat.zero_le _, fun hparens => absurd rfl hparens⟩
  rw [List.length_append]
  exact Nat.add_le_add h.current hm

theorem step (h : st.Fits n) (ht : t ∈ tokens s) : (st.step t).Fits (n + t.text.length) := by
  have hpos : 1 ≤ t.text.length := List.length_pos_iff.mpr (text_ne_nil_of_mem ht)
  have hparen := paren_mem_of_mem_tokens ht
  have hplain : (st.extend t.text st.parens).Fits (n + t.text.length) :=
    h.extend (Nat.le_refl _) Or.inl
  obtain ⟨kind, text⟩ := t
  cases kind
  case comment => exact h.mono (Nat.le_add_right _ _)
  case whitespace =>
    rw [LineState.step]
    dsimp only
    split
    · split
      · exact h.endLine (Nat.zero_le _)
      · exact h.extend hpos Or.inl
    · exact hplain
  case function => exact h.extend (Nat.le_refl _) fun _ => Or.inr (hparen (Or.inl rfl))
  case leftParen => exact h.extend (Nat.le_refl _) fun _ => Or.inr (hparen (Or.inr rfl))
  case rightParen =>
    exact h.extend (Nat.le_refl _) fun hp => Or.inl fun hzero => hp (by rw [hzero])
  case semicolon =>
    rw [LineState.step]
    dsimp only
    split
    · exact h.endLine (Nat.le_refl _)
    · exact hplain
  case leftBrace => exact h.endLine (Nat.le_refl _)
  case rightBrace =>
    have hclose : trim closeLine = closeLine ∧ closeLine.length ≤ n + text.length :=
      ⟨rfl, Nat.le_add_left_of_le hpos⟩
    have hend : (st.endLine []).Fits (n + text.length) := h.endLine (Nat.zero_le _)
    have hlines := hend.lines
    rw [LineState.endLine, List.append_nil] at hlines
    exact ⟨List.forall_mem_append.mpr ⟨hlines, List.forall_mem_singleton.mpr hclose⟩,
      Nat.zero_le _, fun hparens => absurd rfl hparens⟩
  all_goals exact hplain

/-- **No line is longer than the tokens it has been read from.** -/
theorem run (h : st.Fits n) (ts : List Token) (hts : ∀ t ∈ ts, ∃ s, t ∈ tokens s) :
    (st.run ts).Fits (n + (ts.flatMap Token.text).length) := by
  induction ts generalizing st n with
  | nil => exact h
  | cons t ts ih =>
    obtain ⟨⟨s, ht⟩, hts⟩ := List.forall_mem_cons.mp hts
    have := ih (h.step ht) hts
    rwa [Nat.add_assoc, ← List.length_append, ← List.flatMap_cons] at this

end Fits

theorem fits_start : start.Fits 0 :=
  ⟨List.forall_mem_nil _, Nat.le_refl 0, fun h => absurd rfl h⟩

theorem step_goesOn (st : LineState) (hfence : t.kind.fence? = none)
    (hblank : t.kind = .whitespace → (t.text.any fun c => c == '\r' || c == '\n') = false) :
    ∃ q p, st.step t = ⟨st.lines, st.current ++ q, p⟩ ∧ (t.kind ≠ .comment → q = t.text) ∧
      q ⊆ t.text := by
  obtain ⟨kind, text⟩ := t
  cases kind
  case comment =>
    exact ⟨[], st.parens, by rw [List.append_nil]; rfl, fun h => absurd rfl h, List.nil_subset _⟩
  case whitespace =>
    refine ⟨text, st.parens, ?_, fun _ => rfl, List.Subset.refl _⟩
    rw [step]
    dsimp only
    rw [hblank rfl]
    rfl
  case semicolon | leftBrace | rightBrace => cases hfence
  all_goals exact ⟨text, _, rfl, fun _ => rfl, List.Subset.refl _⟩

/-- **Tokens that end no line are a part of the one being read.** -/
theorem run_goesOn (st : LineState) {ts : List Token} (hts : ∀ t ∈ ts, GoesOn t) :
    ∃ q p, st.run ts = ⟨st.lines, st.current ++ q, p⟩ ∧ q ⊆ ts.flatMap Token.text := by
  induction ts generalizing st with
  | nil => exact ⟨[], st.parens, by rw [List.append_nil]; rfl, List.nil_subset _⟩
  | cons t ts ih =>
    obtain ⟨⟨hfence, hbreak⟩, hts⟩ := List.forall_mem_cons.mp hts
    obtain ⟨q, p, hstep, -, hq⟩ := st.step_goesOn hfence fun _ => hbreak
    obtain ⟨q', p', hrun, hq'⟩ := ih (st.step t) hts
    have hcons : st.run (t :: ts) = (st.step t).run ts := rfl
    refine ⟨q ++ q', p', by rw [hcons, hrun, hstep, List.append_assoc], ?_⟩
    rw [List.flatMap_cons]
    exact List.append_subset.mpr ⟨List.subset_append_of_subset_left _ hq,
      List.subset_append_of_subset_right _ hq'⟩

theorem run_tokens_goesOn (st : LineState) {z : List Char}
    (hz : ∀ c ∈ z, [';', '\x7b', '\x7d', '\r', '\n'].contains c = false) :
    ∃ q p, st.run (tokens z) = ⟨st.lines, st.current ++ q, p⟩ := by
  have hts : ∀ t ∈ tokens z, GoesOn t := fun t ht =>
    goesOn_of_mem_tokens ht fun c hc => hz c (text_subset_of_mem_tokens ht hc)
  obtain ⟨q, p, hrun, -⟩ := st.run_goesOn hts
  exact ⟨q, p, hrun⟩

end LineState

/-! ### A line break that is not read as one -/

/-- The line break behind a text is read as white space outside parentheses. -/
def EndsInBreak (s : List Char) : Prop :=
  ∃ ts blank, s = ts.flatMap Token.text ++ blank ∧ (∀ c ∈ blank, isSpace c = true) ∧
    tokens (s ++ ['\n']) = ts ++ [⟨.whitespace, blank ++ ['\n']⟩] ∧
    (LineState.start.run ts).parens = 0

theorem not_prefix_trim {r k : List Char} {b : Char} (hs : ∃ c ∈ s, isBlank c = false)
    (hk : s.length < k.length) (hb : b ∉ k) : ¬ k <+: trim (s ++ b :: r) := by
  intro h
  obtain ⟨c, hc, hblank⟩ := hs
  have hne : s.dropWhile isBlank ≠ [] := List.ne_nil_of_mem (mem_trimStart hc hblank)
  have hstart : trimStart (s ++ b :: r) = trimStart s ++ b :: r := by
    rw [trimStart, trimStart, List.dropWhile_append, if_neg (by simpa using hne)]
  have hstarts : k <+: trimStart s ++ b :: r := by
    rw [trim, hstart] at h
    exact h.trans (trimEnd_isPrefix _)
  have hle := (prefix_of_append_cons hb hstarts).length_le
  have hdrop : (trimStart s).length ≤ s.length := (List.dropWhile_sublist _).length_le
  omega

theorem commentLength_of_not_mem (h : '*' ∉ s) : commentLength s = s.length := by
  induction s with
  | nil => rfl
  | cons c s ih =>
    rw [List.mem_cons, not_or] at h
    rw [commentLength_cons fun hc => h.1 hc.1.symm, ih h.2, List.length_cons, Nat.add_comm]

/-- A comment that is open behind a mark takes all of a text that does not close it. -/
theorem commentLength_of_lt {r : List Char} {m : Char} (hm : m ≠ '*' ∧ m ≠ '/') (hr : '*' ∉ r)
    (h : s.length < commentLength (s ++ m :: r)) :
    commentLength (s ++ m :: r) = (s ++ m :: r).length := by
  induction s with
  | nil =>
    rw [List.nil_append, commentLength_of_not_mem]
    simpa [hm.1.symm] using hr
  | cons c s ih =>
    by_cases hclose : c = '*' ∧ (s ++ m :: r).head? = some '/'
    · obtain ⟨rfl, hhead⟩ := hclose
      cases s with
      | nil => exact absurd (Option.some.inj hhead) hm.2
      | cons d s =>
        obtain rfl : d = '/' := Option.some.inj hhead
        exact absurd h (by simp [commentLength])
    · rw [List.cons_append, commentLength_cons hclose, List.length_cons] at h
      rw [List.cons_append, commentLength_cons hclose, ih (by omega), List.length_cons,
        Nat.add_comm]

theorem tokens_newline {blank : List Char} (hb : ∀ c ∈ blank, isSpace c = true) (y : List Char) :
    tokens (blank ++ '\n' :: y)
      = ⟨.whitespace, blank ++ '\n' :: y.takeWhile isSpace⟩ :: tokens (y.dropWhile isSpace) := by
  have hnewline : isSpace '\n' = true := rfl
  cases blank with
  | nil => exact tokens_blank hnewline y
  | cons c blank =>
    obtain ⟨hc, hblank⟩ := List.forall_mem_cons.mp hb
    rw [List.cons_append, tokens_blank hc, List.takeWhile_append_of_pos hblank,
      List.dropWhile_append_of_pos hblank, List.takeWhile_cons_of_pos hnewline,
      List.dropWhile_cons_of_pos hnewline, List.cons_append]

/-- A token that takes a line break in is a part of the line being read, or a comment that takes
all that follows. -/
theorem LineState.run_taken (st : LineState) {c : Char} {a : List Char}
    (hc : c ≠ '\x00' ∧ isSpace c = false)
    (hpasses : a.length < (Token.measure c (a ++ '\n' :: y)).2)
    (hy : ∀ c ∈ y, [';', '\x7b', '\x7d', '\r', '\n'].contains c = false) (hstar : '*' ∉ y) :
    st.run (tokens (c :: (a ++ '\n' :: y))) = st ∨
      ∃ q p, st.run (tokens (c :: (a ++ '\n' :: y)))
        = ⟨st.lines, st.current ++ c :: a ++ '\n' :: q, p⟩ := by
  have hfound := measure_found c (a ++ '\n' :: y)
  obtain ⟨j, hj⟩ := Nat.exists_eq_add_of_lt hpasses
  rw [Nat.add_assoc] at hj
  rw [tokens_cons hc.1, hj, List.take_length_add_append, List.drop_length_add_append,
    List.take_succ_cons, List.drop_succ_cons]
  have hfence : (Token.measure c (a ++ '\n' :: y)).1.fence? = none := by
    cases hfence : (Token.measure c (a ++ '\n' :: y)).1.fence? with
    | none => rfl
    | some m =>
      rw [(measure_of_fence hfence).2] at hpasses
      cases hpasses
  generalize Token.measure c (a ++ '\n' :: y) = m at hfound hj hfence ⊢
  obtain ⟨kind, n⟩ := m
  dsimp only at hj hfence ⊢
  have hblank : kind ≠ .whitespace := by
    rintro rfl
    cases hfound with
    | blank hspace => rw [hc.2] at hspace; cases hspace
    | fence h => simp at h
    | plain h => cases h
  obtain ⟨q, p, hstep, hq, -⟩ := st.step_goesOn
    (t := ⟨kind, c :: (a ++ '\n' :: y.take j)⟩) hfence fun h => absurd h hblank
  by_cases hcomment : kind = .comment
  · subst hcomment
    left
    have hdrop : y.drop j = [] := by
      rw [List.drop_eq_nil_iff]
      cases hfound with
      | comment u _ hu =>
        cases a with
        | nil => exact absurd (List.cons.inj hu).1 (by decide)
        | cons d a =>
          rw [List.cons_append] at hu
          obtain ⟨-, rfl⟩ := List.cons.inj hu
          rw [List.length_cons] at hj
          have hall := commentLength_of_lt (s := a) (m := '\n') (by decide) hstar (by omega)
          rw [hall, List.length_append, List.length_cons] at hj
          omega
      | fence h => simp at h
      | plain h => cases h
    rw [hdrop, tokens_nil]
    rfl
  · right
    obtain ⟨q', p', hrun⟩ := LineState.run_tokens_goesOn ⟨st.lines, st.current ++ q, p⟩
      (z := y.drop j) fun d hd => hy d (List.mem_of_mem_drop hd)
    refine ⟨y.take j ++ q', p', ?_⟩
    rw [LineState.run, List.foldl_cons, hstep]
    refine hrun.trans ?_
    rw [hq hcomment]
    simp

/-- **Where the line break behind a text is not read as one, a key behind it is lost:** no line
starts with it, if it is longer than the text. -/
theorem not_prefix_of_not_endsInBreak {k : List Char} (hs : ¬ EndsInBreak s)
    (hlen : s.length < k.length) (hk : ' ' ∉ k ∧ '\n' ∉ k)
    (hy : ∀ c ∈ y, [';', '\x7b', '\x7d', '\r', '\n'].contains c = false) (hstar : '*' ∉ y) :
    ∀ line ∈ logicalLines (s ++ '\n' :: y), trim line = line ∧ ¬ k <+: line := by
  have hshort : ∀ {line : Line}, trim line = line ∧ line.length ≤ s.length →
      trim line = line ∧ ¬ k <+: line := by
    rintro line ⟨htrim, hle⟩
    refine ⟨htrim, fun h => ?_⟩
    have := h.length_le
    omega
  have hfits : ∀ {ts us : List Token}, tokens (s ++ '\n' :: y) = ts ++ us →
      (LineState.start.run ts).Fits (ts.flatMap Token.text).length := by
    intro ts us htokens
    have := LineState.fits_start.run ts fun t ht => ⟨_, htokens ▸ List.mem_append_left us ht⟩
    rwa [Nat.zero_add] at this
  -- what is left is that the last line starts with text before the line break
  have hlast : ∀ {lines : List Line} {p r : List Char} {b : Char},
      (∀ line ∈ lines, trim line = line ∧ line.length ≤ s.length) →
      (∃ c ∈ p, isBlank c = false) → p.length ≤ s.length → b ∉ k →
      ∀ line ∈ lines ++ flush (p ++ b :: r), trim line = line ∧ ¬ k <+: line := by
    intro lines p r b hlines hp hle hb line hline
    rcases List.mem_append.mp hline with hline | hline
    · exact hshort (hlines line hline)
    · obtain rfl := mem_flush hline
      exact ⟨trim_trim _, not_prefix_trim hp (by omega) hb⟩
  rw [logicalLines_eq_run]
  cases before_blank (m := '\n') rfl s with
  | stops ts hstarts h =>
    rw [h]
    have hst := (hfits ((h y).trans (List.append_nil ts).symm)).mono hstarts.length_le
    exact fun line hline => hshort (hst.finish line hline)
  | blank ts blank hsplit hblank h =>
    have hst := (hfits (h y)).mono (m := s.length) (by rw [hsplit, List.length_append]; omega)
    have hparens : (LineState.start.run ts).parens ≠ 0 := by
      intro hzero
      refine hs ⟨ts, blank, hsplit, hblank, ?_, hzero⟩
      rw [h, tokens_newline hblank, List.takeWhile_nil, List.dropWhile_nil, tokens_nil]
    rw [h, LineState.run_append, tokens_newline hblank]
    generalize LineState.start.run ts = st at hst hparens ⊢
    have hstep : st.step ⟨.whitespace, blank ++ '\n' :: y.takeWhile isSpace⟩
        = st.extend [' '] st.parens := by
      simp [LineState.step, hparens]
    obtain ⟨q, p, hrun⟩ := (st.extend [' '] st.parens).run_tokens_goesOn
      (z := y.dropWhile isSpace) fun c hc => hy c ((List.dropWhile_sublist _).subset hc)
    have hcons : st.run (⟨.whitespace, blank ++ '\n' :: y.takeWhile isSpace⟩
        :: tokens (y.dropWhile isSpace)) = ⟨st.lines, st.current ++ [' '] ++ q, p⟩ := by
      rw [LineState.run, List.foldl_cons, hstep]
      exact hrun
    rw [hcons]
    show ∀ line ∈ st.lines ++ flush (st.current ++ [' '] ++ q), _
    rw [List.append_assoc]
    exact hlast hst.lines (hst.parens hparens) hst.current hk.1
  | taken ts c a hsplit hc hopens hpasses h =>
    have hcurrent := (hfits (h y)).current
    have hlength : s.length = (ts.flatMap Token.text).length + (c :: a).length := by
      rw [hsplit, List.length_append]
    have hst := (hfits (h y)).mono (m := s.length) (by omega)
    rw [h, LineState.run_append]
    generalize LineState.start.run ts = st at hcurrent hst ⊢
    rcases st.run_taken hc (hpasses y) hy hstar with hrun | ⟨q, p, hrun⟩
    · rw [hrun]
      exact fun line hline => hshort (hst.finish line hline)
    · rw [hrun]
      obtain ⟨d, hd, hopen⟩ := List.any_eq_true.mp hopens
      have hblank : isBlank d = false := by
        simp only [opens, List.contains_eq_mem, List.mem_cons, List.not_mem_nil, or_false,
          decide_eq_true_eq] at hopen
        rcases hopen with rfl | rfl | rfl | rfl | rfl <;> rfl
      refine hlast hst.lines ⟨d, List.mem_append_right _ hd, hblank⟩ ?_ hk.2
      rw [List.length_append, hlength]
      omega

/-! ### Lines put into a body -/

/-- The body is cut at the start of a line: behind a line break outside parentheses and the white
space around it, or at its very start. -/
def LineStart (x y : List Char) : Prop :=
  x = [] ∨ ∃ ts blank us, x = ts.flatMap Token.text ++ blank ∧ tokens (x ++ y) = ts ++ us ∧
    (∀ c ∈ blank, isSpace c = true) ∧ (blank.any fun c => c == '\r' || c == '\n') = true ∧
    (LineState.start.run ts).parens = 0

theorem LineStart.endsLine {x : List Char} (h : LineStart x y) : EndsLine x := by
  rcases h with rfl | ⟨ts, blank, us, rfl, htokens, hblank, hbreak, hparens⟩
  · exact endsLine_nil
  · exact endsLine_newline htokens hblank hbreak hparens

theorem EndsInBreak.endsLine (h : EndsInBreak s) : EndsLine (s ++ ['\n']) := by
  obtain ⟨ts, blank, rfl, hblank, htokens, hparens⟩ := h
  rw [List.append_assoc] at htokens ⊢
  refine endsLine_newline (r := []) (by rw [List.append_nil]; exact htokens) ?_ ?_ hparens
  · exact List.forall_mem_append.mpr ⟨hblank, List.forall_mem_singleton.mpr rfl⟩
  · simp

theorem ofBody_insert {x : List Char} (hx : EndsLine x) (hs : EndsLine s)
    (hinert : Inert (logicalLines s)) (y : List Char) :
    Tree.ofBody (String.ofList (x ++ (s ++ y))) = Tree.ofBody (String.ofList (x ++ y)) := by
  rw [Tree.ofBody, Tree.ofBody, String.toList_ofList, String.toList_ofList, hx, hs, hx]
  show (Frames.start.run (logicalLines x ++ (logicalLines s ++ logicalLines y))).finish
    = (Frames.start.run (logicalLines x ++ logicalLines y)).finish
  rw [Frames.run_append, Frames.run_append, Frames.run_inert _ hinert, Frames.run_append]

section Probe

variable {k : String} (hk : isIdentifier k.toList = true)

include hk

theorem isKey_of_isIdentifier : IsKey k := by
  refine ⟨?_, fun c hc => ?_⟩
  · rintro rfl
    cases hk
  · show (isWordChar c || c == '_') = true
    rw [isWordChar_of_mem_identifier hk hc, Bool.true_or]

theorem action_probe : Line.action (k.toList ++ [':', ' ', 'v']) = .declare k "v" := by
  have hkey := isKey_of_isIdentifier hk
  have hbrace : ¬ ['\x7b'].isSuffixOf (k.toList ++ [':', ' ', 'v']) = true := by
    rw [List.isSuffixOf_iff_suffix]
    rintro ⟨t, ht⟩
    have hlast := congrArg List.getLast? ht
    rw [List.getLast?_concat, List.getLast?_append_of_ne_nil _ (by decide)] at hlast
    exact absurd hlast (by decide)
  have hcomment : ¬ ['/', '/'].isPrefixOf (k.toList ++ [':', ' ', 'v']) = true := by
    rw [List.isPrefixOf_iff_prefix]
    rintro ⟨t, ht⟩
    exact hkey.head_ne (c := '/') rfl _ (by rw [← ht]; rfl)
  have hdecl : declaration? (k.toList ++ [':', ' ', 'v']) = some (k, "v") := by
    rw [declaration?, cut_append_cons (hkey.not_mem rfl)]
    dsimp only
    rw [hkey.trim_eq, if_neg (by simp [hkey.toList_ne]; decide), String.ofList_toList]
    rfl
  rw [Line.action, if_neg (ne_closeLine hkey _), if_neg hbrace, if_neg hcomment, hdecl]

theorem logicalLines_probe :
    logicalLines (k.toList ++ [':', ' ', 'v']) = [k.toList ++ [':', ' ', 'v']] := by
  have hrest : tokens [':', ' ', 'v']
      = [⟨.colon, [':']⟩, ⟨.whitespace, [' ']⟩, ⟨.ident, ['v']⟩] := by
    cbv
  have htrim := trim_key (isKey_of_isIdentifier hk) [':', ' '] (c := 'v') rfl
  rw [logicalLines, tokens_identifier hk ⟨':', [' ', 'v'], rfl, by decide⟩, hrest]
  refine Eq.trans ?_ ((flush_of_trim htrim (by simp)).trans (by simp))
  show flush (((k.toList ++ [':']) ++ [' ']) ++ ['v']) = _
  simp

theorem tokens_opening (y : List Char) :
    tokens (k.toList ++ [' ', '\x7b', '\n'] ++ y)
      = [⟨.ident, k.toList⟩, ⟨.whitespace, [' ']⟩, ⟨.leftBrace, ['\x7b']⟩]
        ++ tokens ('\n' :: y) := by
  have hident : tokens (k.toList ++ ' ' :: '\x7b' :: '\n' :: y)
      = ⟨.ident, k.toList⟩ :: tokens (' ' :: '\x7b' :: '\n' :: y) :=
    tokens_identifier hk ⟨' ', _, rfl, by decide⟩
  rw [tokens_blank rfl, List.takeWhile_cons_of_neg (by decide),
    List.dropWhile_cons_of_neg (by decide), tokens_leftBrace] at hident
  simpa using hident

theorem lineStart_opening (y : List Char) : LineStart (k.toList ++ [' ', '\x7b', '\n']) y :=
  Or.inr ⟨_, ['\n'], _, by simp, tokens_opening hk y, List.forall_mem_singleton.mpr rfl, rfl, rfl⟩

theorem logicalLines_opening :
    logicalLines (k.toList ++ [' ', '\x7b', '\n']) = [k.toList ++ [' '] ++ ['\x7b']] := by
  have htokens := tokens_opening hk []
  have hnewline := tokens_blank (c := '\n') rfl []
  rw [List.append_nil] at htokens
  rw [List.takeWhile_nil, List.dropWhile_nil, tokens_nil] at hnewline
  rw [logicalLines, htokens, hnewline]
  have htrim := trim_key (isKey_of_isIdentifier hk) [' '] (c := '\x7b') rfl
  exact (congrArg (· ++ []) (flush_of_trim htrim (by simp))).trans (List.append_nil _)

end Probe

theorem logicalLines_fits (s : List Char) :
    ∀ line ∈ logicalLines s, trim line = line ∧ line.length ≤ s.length := by
  obtain ⟨r, hr, -⟩ := tokens_eq_append (List.append_nil (tokens s)).symm
  have hfits := LineState.fits_start.run (tokens s) fun t ht => ⟨s, ht⟩
  rw [logicalLines_eq_run]
  refine (hfits.mono ?_).finish
  conv_rhs => rw [hr, List.length_append]
  omega

/-- A key that is longer than a text, written behind it, is only found if the line break between
them is read as one. -/
theorem endsInBreak_of_ofLines_eq {k : String} (hk : isIdentifier k.toList = true)
    (hlen : s.length < k.toList.length)
    (h : Tree.ofLines (logicalLines (s ++ '\n' :: (k.toList ++ [':', ' ', 'v'])))
      = Tree.ofLines (logicalLines (k.toList ++ [':', ' ', 'v']))) : EndsInBreak s := by
  by_contra hnot
  have hmem : k ∈ (Tree.ofLines (logicalLines (k.toList ++ [':', ' ', 'v']))).keys := by
    rw [logicalLines_probe hk]
    show k ∈ (Frames.start.step (Line.action _)).finish.keys
    rw [action_probe hk]
    exact List.mem_singleton_self k
  rw [← h] at hmem
  obtain ⟨line, hline, haction⟩ := Tree.exists_of_mem_keys_ofLines hmem
  have hquiet : ∀ c ∈ k.toList ++ [':', ' ', 'v'],
      [';', '\x7b', '\x7d', '\r', '\n'].contains c = false :=
    List.forall_mem_append.mpr ⟨fun c hc =>
      not_contains_of_class (isWordChar_of_mem_identifier hk hc) rfl, by simp⟩
  have hstar : '*' ∉ k.toList ++ [':', ' ', 'v'] :=
    List.not_mem_append (not_mem_identifier hk rfl) (by decide)
  obtain ⟨htrim, hstarts⟩ := not_prefix_of_not_endsInBreak hnot hlen
    ⟨not_mem_identifier hk rfl, not_mem_identifier hk rfl⟩ hquiet hstar line hline
  exact hstarts (key_isPrefix htrim haction)

/-- A line of this text, put in at the start of any line of a body, does not change its tree. -/
def Harmless (s : List Char) : Prop :=
  ∀ x y, LineStart x y → Tree.ofBody (String.ofList (x ++ (s ++ '\n' :: y)))
    = Tree.ofBody (String.ofList (x ++ y))

/-- **Which lines may stand anywhere:** the line break behind the text is read as one, and its lines
have no effect. -/
theorem harmless_iff (s : List Char) :
    Harmless s ↔ EndsInBreak s ∧ Inert (logicalLines (s ++ ['\n'])) := by
  simp only [Harmless, Tree.ofBody, String.toList_ofList]
  constructor
  · intro h
    -- a key that is longer than the text
    obtain ⟨k, hk, hlen⟩ : ∃ k : String, isIdentifier k.toList = true ∧
        (s ++ ['\n']).length < k.toList.length := by
      refine ⟨String.ofList (List.replicate ((s ++ ['\n']).length + 1) 'a'), ?_, ?_⟩
      · rw [String.toList_ofList, List.replicate_succ, isIdentifier_cons]
        exact ⟨rfl, fun c hc => List.eq_of_mem_replicate hc ▸ rfl⟩
      · rw [String.toList_ofList, List.length_replicate]
        exact Nat.lt_succ_self _
    have hbreak : EndsInBreak s := by
      refine endsInBreak_of_ofLines_eq hk ?_ (h [] _ (Or.inl rfl))
      exact Nat.lt_of_le_of_lt (List.prefix_append s ['\n']).length_le hlen
    have hends := fun y => hbreak.endsLine y
    simp only [List.append_assoc, List.singleton_append] at hends
    have hb : isIdentifier "b".toList = true := rfl
    refine ⟨hbreak, inert_of_ofLines_eq (action_opening (isKey_of_isIdentifier hk) (Or.inl rfl))
      (action_probe hb) ?_ ?_ ?_ ?_ ?_⟩
    · rintro rfl
      simp at hlen
    · intro line hline haction
      obtain ⟨htrim, hle⟩ := logicalLines_fits _ line hline
      have := (key_isPrefix htrim haction).length_le
      omega
    · have hown := h [] [] (Or.inl rfl)
      rw [List.nil_append, List.append_nil, logicalLines_nil] at hown
      exact hown
    · have hbefore := h [] ("b".toList ++ [':', ' ', 'v']) (Or.inl rfl)
      rw [List.nil_append, List.nil_append, hends, logicalLines_probe hb] at hbefore
      exact hbefore
    · have hinside := h _ ("b".toList ++ [':', ' ', 'v']) (lineStart_opening hk _)
      rw [(lineStart_opening hk []).endsLine, (lineStart_opening hk []).endsLine, hends,
        logicalLines_opening hk, logicalLines_probe hb] at hinside
      exact hinside
  · rintro ⟨hbreak, hinert⟩ x y hx
    have hinsert := ofBody_insert hx.endsLine hbreak.endsLine hinert y
    simpa [Tree.ofBody] using hinsert

end Pagesmith.Style
