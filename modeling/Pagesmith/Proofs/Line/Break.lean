import Mathlib.Tactic
import Pagesmith.Proofs.Tree.Line
import Pagesmith.Style.Body

/-!
# Line breaks between logical lines

Behind a brace, and behind a semicolon outside parentheses, the reader of a body has just completed
a line.  It then knows nothing more about the text before: what follows is read as if it stood
alone, so white space there makes no difference.

* `LineState`: what the reader knows between two tokens; `linesFrom_eq_run`: it reads the lines.
* `EndsLine`: the lines of a text, and of what follows it, are read apart from each other.
* `endsLine_of_breakPoint`, `endsLine_newline`: where a line ends.
* `ofBody_line_breaks`: line breaks at such points do not change the tree of a body.
-/

namespace Pagesmith.Style

open Pagesmith.Css

variable {x : List Char}

/-! ### The reader, token by token -/

/-- What the reader knows between two tokens: the complete lines, the text of the line being read,
and the number of parentheses open in it. -/
structure LineState where
  lines : List Line
  current : List Char
  parens : Nat

namespace LineState

def start : LineState := ⟨[], [], 0⟩

def extend (st : LineState) (text : List Char) (parens : Nat) : LineState :=
  ⟨st.lines, st.current ++ text, parens⟩

def endLine (st : LineState) (text : List Char) : LineState :=
  ⟨st.lines ++ flush (st.current ++ text), [], 0⟩

def step (st : LineState) (t : Token) : LineState :=
  match t.kind with
  | .comment => st
  | .whitespace =>
    if t.text.any (fun c => c == '\r' || c == '\n') then
      if st.parens = 0 then st.endLine [] else st.extend [' '] st.parens
    else st.extend t.text st.parens
  | .function | .leftParen => st.extend t.text (st.parens + 1)
  | .rightParen => st.extend t.text (st.parens - 1)
  | .semicolon => if st.parens = 0 then st.endLine t.text else st.extend t.text st.parens
  | .leftBrace => st.endLine t.text
  | .rightBrace => ⟨st.lines ++ flush st.current ++ [closeLine], [], 0⟩
  | _ => st.extend t.text st.parens

def run (st : LineState) (ts : List Token) : LineState := ts.foldl step st

def finish (st : LineState) : List Line := st.lines ++ flush st.current

theorem run_append (st : LineState) (ts us : List Token) :
    st.run (ts ++ us) = (st.run ts).run us := List.foldl_append

end LineState

/-- **The reader goes token by token.** -/
theorem linesFrom_eq_run (st : LineState) (ts : List Token) :
    st.lines ++ linesFrom st.current st.parens ts = (st.run ts).finish := by
  induction ts generalizing st with
  | nil => rfl
  | cons t ts ih =>
    have hstep : st.lines ++ linesFrom st.current st.parens (t :: ts)
        = (st.step t).lines ++ linesFrom (st.step t).current (st.step t).parens ts := by
      obtain ⟨kind, text⟩ := t
      cases kind
      case whitespace =>
        rw [linesFrom_whitespace, LineState.step]
        dsimp only
        split
        · split <;> simp_all [LineState.endLine, LineState.extend]
        · rfl
      case semicolon =>
        rw [linesFrom, LineState.step]
        dsimp only
        split <;> simp_all [LineState.endLine, LineState.extend]
      case leftBrace | rightBrace => simp [linesFrom, LineState.step, LineState.endLine]
      all_goals rfl
    rw [hstep, ih]
    rfl

theorem logicalLines_eq_run (body : List Char) :
    logicalLines body = (LineState.start.run (tokens body)).finish :=
  linesFrom_eq_run .start (tokens body)

/-! ### Where a line ends -/

def EndsLine (x : List Char) : Prop :=
  ∀ y, logicalLines (x ++ y) = logicalLines x ++ logicalLines y

theorem logicalLines_nil : logicalLines [] = [] := by
  rw [logicalLines, tokens_nil]
  rfl

theorem endsLine_nil : EndsLine [] := fun y => by
  rw [List.nil_append, logicalLines_nil, List.nil_append]

/-- A text ends a line if the reader is then left with complete lines only. -/
theorem EndsLine.of_lines (lines : List Line)
    (h : ∀ y, logicalLines (x ++ y) = lines ++ logicalLines y) : EndsLine x := by
  have hx := h []
  rw [logicalLines_nil, List.append_nil, List.append_nil] at hx
  intro y
  rw [h, hx]

theorem logicalLines_blank {blank : List Char} (hb : ∀ c ∈ blank, isSpace c = true)
    (y : List Char) : logicalLines (blank ++ y) = logicalLines y := linesFrom_blank hb y

/-- The tokens of the text lead the reader to the end of a line. -/
theorem EndsLine.of_tokens (ts : List Token) (lines : List Line)
    (htokens : ∀ y, tokens (x ++ y) = ts ++ tokens y)
    (hrun : LineState.start.run ts = ⟨lines, [], 0⟩) : EndsLine x := by
  refine .of_lines lines fun y => ?_
  rw [logicalLines_eq_run, htokens, LineState.run_append, hrun]
  exact (linesFrom_eq_run ⟨lines, [], 0⟩ (tokens y)).symm

/-- The body is cut right behind a brace, or behind a semicolon at which no parenthesis is open. -/
def BreakPoint (x y : List Char) : Prop :=
  ∃ ts t us, tokens (x ++ y) = ts ++ t :: us ∧ ts.flatMap Token.text ++ t.text = x ∧
    (t.kind = .leftBrace ∨ t.kind = .rightBrace ∨
      t.kind = .semicolon ∧ (LineState.start.run ts).parens = 0)

/-- **A line ends behind a brace, and behind a semicolon outside parentheses.** -/
theorem endsLine_of_breakPoint {y : List Char} (h : BreakPoint x y) : EndsLine x := by
  obtain ⟨ts, t, us, htokens, rfl, hkind⟩ := h
  obtain ⟨m, hm⟩ : ∃ m, t.kind.fence? = some m := by
    rcases hkind with h | h | ⟨h, -⟩
    all_goals exact ⟨_, by rw [h]; rfl⟩
  have htext : t.text = [m] :=
    text_of_fence (htokens ▸ List.mem_append_right ts List.mem_cons_self) hm
  rw [htext, List.append_assoc, List.singleton_append] at htokens
  obtain ⟨hself, hts⟩ := SelfDelimiting.of_tokens (isMark_of_fence hm) htokens
  obtain ⟨kind, text⟩ := t
  obtain rfl : text = [m] := htext
  -- the tokens up to the mark do not depend on what follows it
  refine .of_tokens (ts ++ [⟨kind, [m]⟩]) ((LineState.start.run ts).step ⟨kind, [m]⟩).lines
    (fun z => ?_) ?_
  · rw [List.append_assoc, List.singleton_append, tokens_append (isMark_of_fence hm) hself, hts,
      List.append_assoc]
    rcases hkind with h | h | ⟨h, -⟩
    all_goals dsimp only at h; subst h; cases hm
    · rw [tokens_leftBrace]; rfl
    · rw [tokens_rightBrace]; rfl
    · rw [tokens_semicolon]; rfl
  · rw [LineState.run_append]
    generalize LineState.start.run ts = st at hkind ⊢
    show st.step ⟨kind, [m]⟩ = _
    rcases hkind with h | h | ⟨h, hparens⟩
    all_goals dsimp only at h; subst h; simp_all [LineState.step, LineState.endLine]

/-- **A line ends at a line break outside parentheses.** -/
theorem endsLine_newline {ts us : List Token} {blank r : List Char}
    (htokens : tokens (ts.flatMap Token.text ++ blank ++ r) = ts ++ us)
    (hblank : ∀ c ∈ blank, isSpace c = true)
    (hbreak : blank.any (fun c => c == '\r' || c == '\n') = true)
    (hparens : (LineState.start.run ts).parens = 0) :
    EndsLine (ts.flatMap Token.text ++ blank) := by
  cases blank with
  | nil => cases hbreak
  | cons m blank =>
    have hm : isSpace m = true := hblank m List.mem_cons_self
    have hmark : isMark m = true := by
      simp only [isSpace, Bool.or_eq_true, beq_iff_eq] at hm
      rcases hm with (((rfl | rfl) | rfl) | rfl) | rfl <;> rfl
    rw [List.append_assoc] at htokens
    obtain ⟨hself, hts⟩ := SelfDelimiting.of_tokens hmark htokens
    refine .of_lines (LineState.start.run ts).finish fun y => ?_
    have hspace : ∀ c ∈ y.takeWhile isSpace, isSpace c = true :=
      List.all_eq_true.mp List.all_takeWhile
    have hany : (m :: (blank ++ y).takeWhile isSpace).any (fun c => c == '\r' || c == '\n')
        = true := by
      rw [List.takeWhile_append_of_pos fun c hc => hblank c (List.mem_cons_of_mem m hc),
        ← List.cons_append, List.any_append, hbreak, Bool.true_or]
    have hrest : (blank ++ y).dropWhile isSpace = y.dropWhile isSpace :=
      List.dropWhile_append_of_pos fun c hc => hblank c (List.mem_cons_of_mem m hc)
    have hlines : logicalLines y = logicalLines (y.dropWhile isSpace) := by
      conv_lhs => rw [← List.takeWhile_append_dropWhile (p := isSpace) (l := y)]
      exact logicalLines_blank hspace _
    rw [logicalLines_eq_run, List.append_assoc, List.cons_append, tokens_append hmark hself, hts,
      tokens_blank hm, hrest, LineState.run_append, ← linesFrom_eq_run, hparens,
      linesFrom_whitespace, if_pos hany, if_pos rfl, hlines, ← List.append_assoc]
    rfl

/-! ### Bodies -/

/-- A body behind `x`, and the same body with line breaks at some of its break points. -/
inductive Broken : List Char → List Char → List Char → Prop where
  | refl (x y : List Char) : Broken x y y
  | insert {x : List Char} (piece : List Char) {y z : List Char} (h : BreakPoint (x ++ piece) y)
      (hrest : Broken (x ++ piece) y z) : Broken x (piece ++ y) (piece ++ '\n' :: z)

theorem logicalLines_newline (h : EndsLine x) (y : List Char) :
    logicalLines (x ++ '\n' :: y) = logicalLines (x ++ y) := by
  have hblank : logicalLines (['\n'] ++ y) = logicalLines y :=
    logicalLines_blank (List.forall_mem_singleton.mpr rfl) y
  rw [List.singleton_append] at hblank
  rw [h, h, hblank]

theorem Broken.logicalLines_eq {y z : List Char} (h : Broken x y z) :
    logicalLines (x ++ z) = logicalLines (x ++ y) := by
  induction h with
  | refl x y => rfl
  | @insert x piece y z hpoint _ ih =>
    rw [← List.append_assoc, ← List.append_assoc,
      logicalLines_newline (endsLine_of_breakPoint hpoint), ih]

/-- **A body on one line reads like the same body on many.**  A line break right behind a brace, or
behind a semicolon outside parentheses, does not change the tree of the body, so bodies that differ
in such line breaks only have the same tree. -/
theorem ofBody_line_breaks :
    (∀ x y, BreakPoint x y →
      Tree.ofBody (String.ofList (x ++ '\n' :: y)) = Tree.ofBody (String.ofList (x ++ y))) ∧
    ∀ body b₁ b₂, Broken [] body b₁ → Broken [] body b₂ →
      Tree.ofBody (String.ofList b₁) = Tree.ofBody (String.ofList b₂) := by
  refine ⟨fun x y h => ?_, fun body b₁ b₂ h₁ h₂ => ?_⟩
  · rw [Tree.ofBody, Tree.ofBody, String.toList_ofList, String.toList_ofList,
      logicalLines_newline (endsLine_of_breakPoint h)]
  · have h := h₁.logicalLines_eq.trans h₂.logicalLines_eq.symm
    rw [Tree.ofBody, Tree.ofBody, String.toList_ofList, String.toList_ofList]
    exact congrArg Tree.ofLines h

/-- A semicolon inside parentheses is no place to break the body; behind a brace it does not matter
that a parenthesis is open before. -/
theorem ofBody_line_breaks_parens :
    let body := "a: f(1;2);b\x7bc: (\x7d d: e".toList
    let broken := "a: f(1;2);\nb\x7b\nc: (\x7d\n d: e".toList
    Broken [] body broken ∧
      Tree.ofBody (String.ofList broken) = Tree.ofBody (String.ofList body) := by
  intro body broken
  let ts : List Token :=
    [⟨.ident, ['a']⟩, ⟨.colon, [':']⟩, ⟨.whitespace, [' ']⟩, ⟨.function, ['f', '(']⟩,
      ⟨.number, ['1']⟩, ⟨.semicolon, [';']⟩, ⟨.number, ['2']⟩, ⟨.rightParen, [')']⟩,
      ⟨.semicolon, [';']⟩, ⟨.ident, ['b']⟩, ⟨.leftBrace, ['\x7b']⟩, ⟨.ident, ['c']⟩,
      ⟨.colon, [':']⟩, ⟨.whitespace, [' ']⟩, ⟨.leftParen, ['(']⟩, ⟨.rightBrace, ['\x7d']⟩,
      ⟨.whitespace, [' ']⟩, ⟨.ident, ['d']⟩, ⟨.colon, [':']⟩, ⟨.whitespace, [' ']⟩,
      ⟨.ident, ['e']⟩]
  have htokens : tokens body = ts := by
    simp only [body, ts]
    cbv
  have hsemicolon : BreakPoint "a: f(1;2);".toList "b\x7bc: (\x7d d: e".toList :=
    ⟨ts.take 8, ⟨.semicolon, [';']⟩, ts.drop 9, htokens, rfl, Or.inr (Or.inr ⟨rfl, rfl⟩)⟩
  have hopening : BreakPoint "a: f(1;2);b\x7b".toList "c: (\x7d d: e".toList :=
    ⟨ts.take 10, ⟨.leftBrace, ['\x7b']⟩, ts.drop 11, htokens, rfl, Or.inl rfl⟩
  have hclosing : BreakPoint "a: f(1;2);b\x7bc: (\x7d".toList " d: e".toList :=
    ⟨ts.take 15, ⟨.rightBrace, ['\x7d']⟩, ts.drop 16, htokens, rfl, Or.inr (Or.inl rfl)⟩
  have hbroken : Broken [] body broken :=
    .insert "a: f(1;2);".toList hsemicolon <| .insert "b\x7b".toList hopening <|
      .insert "c: (\x7d".toList hclosing (.refl _ _)
  exact ⟨hbroken, ofBody_line_breaks.2 body broken body hbroken (.refl _ _)⟩

end Pagesmith.Style
