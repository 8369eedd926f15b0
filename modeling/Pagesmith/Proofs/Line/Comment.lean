import Mathlib.Tactic
import Pagesmith.Proofs.Line.Insert

/-!
# Comment lines

A line that starts with `//` is skipped, but only once the tokens have been cut into lines, and only
if no block opens at its end.  So a comment line may stand between any two lines exactly if the line
break behind it is read as one, no brace ends its first logical line, and the logical lines behind
that one have no effect.

* `linesFrom_slashes`: the first logical line of a comment starts with `//`.
* `comment_of_isRemark`: plain comments.
* `harmless_comment_iff`: which comments may stand anywhere.
-/

namespace Pagesmith.Style

open Pagesmith.Css Pagesmith.Text

variable {s : List Char}

/-! ### Comments -/

def comment (text : List Char) : List Char := '/' :: '/' :: ' ' :: text

theorem flush_slashes (s : List Char) :
    ∃ line, flush ('/' :: '/' :: s) = [line] ∧ ['/', '/'] <+: line := by
  have htrim : trim ('/' :: '/' :: s) = '/' :: '/' :: trimEnd s := by
    rw [trim, trimStart, List.dropWhile_cons_of_neg (by decide), trimEnd_cons rfl,
      trimEnd_cons rfl]
  refine ⟨'/' :: '/' :: trimEnd s, ?_, List.prefix_append ['/', '/'] _⟩
  rw [flush, htrim]

theorem linesFrom_slashes (s : List Char) (p : Nat) (ts : List Token) :
    ∃ first rest, linesFrom ('/' :: '/' :: s) p ts = first :: rest ∧ ['/', '/'] <+: first := by
  have hflush : ∀ s lines, ∃ first rest, flush ('/' :: '/' :: s) ++ lines = first :: rest ∧
      ['/', '/'] <+: first := by
    intro s lines
    obtain ⟨line, hline, hstarts⟩ := flush_slashes s
    exact ⟨line, lines, by rw [hline]; rfl, hstarts⟩
  induction ts generalizing s p with
  | nil =>
    have := hflush s []
    rwa [List.append_nil] at this
  | cons t ts ih =>
    obtain ⟨kind, text⟩ := t
    cases kind
    case whitespace =>
      rw [linesFrom_whitespace]
      split
      · split
        · exact hflush _ _
        · exact ih _ _
      · exact ih _ _
    case semicolon =>
      rw [linesFrom]
      dsimp only
      split
      · exact hflush _ _
      · exact ih _ _
    case leftBrace | rightBrace => exact hflush _ _
    all_goals exact ih _ _

def slash : Token := ⟨.delim, ['/']⟩

theorem tokens_slashes (s : List Char) :
    tokens (comment s) = slash :: slash :: tokens (' ' :: s) := by
  have hslash : ∀ {d : Char}, d ≠ '*' → ∀ t, tokens ('/' :: d :: t) = slash :: tokens (d :: t) := by
    intro d hd t
    have hmeasure : Token.measure '/' (d :: t) = (.delim, 0) := by
      have : measure? '/' (d :: t) = none := if_neg (by simpa using hd)
      rw [Token.measure, this]
    rw [tokens_cons (by decide), hmeasure]
    rfl
  rw [comment, hslash (by decide), hslash (by decide)]

/-- A comment line has no effect if no block opens at its end and the lines behind it have none. -/
theorem inert_cons_comment {first : Line} (h : ['/', '/'] <+: first) (rest : List Line) :
    Inert (first :: rest) ↔ ¬ ['\x7b'] <:+ first ∧ Inert rest := by
  have hclose : (first == closeLine) = false := by
    rw [beq_eq_false_iff_ne]
    rintro rfl
    exact absurd h (by decide)
  rw [Inert, droppedFrom_cons, Line.action, hclose, if_neg (by decide)]
  by_cases hbrace : ['\x7b'] <:+ first
  · have hkey : blockKey first ≠ [] := by
      have hmem : '/' ∈ first := h.subset List.mem_cons_self
      exact trim_ne_nil (mem_dropTrailing (by decide)
        (mem_trim (mem_dropTrailing (by decide) hmem) rfl)) rfl
    rw [if_pos (List.isSuffixOf_iff_suffix.mpr hbrace)]
    split
    · contradiction
    · simp [hbrace, Action.dropped]
  · rw [if_neg (by rwa [List.isSuffixOf_iff_suffix]), if_pos (List.isPrefixOf_iff_prefix.mpr h)]
    simp [hbrace, Inert, Action.dropped]

theorem logicalLines_comment (s : List Char) :
    ∃ first rest, logicalLines (comment s) = first :: rest ∧ ['/', '/'] <+: first := by
  rw [logicalLines, tokens_slashes]
  exact linesFrom_slashes [] 0 _

/-! ### Plain comments -/

/-- A character that has no meaning of its own in a comment line. -/
def isRemark (c : Char) : Bool :=
  !(['\x00', '\\', '"', '\'', '/', '(', ';', '\x7b', '\x7d', '\r', '\n'].contains c)

theorem flatMap_text_of_not_mem (h : '\x00' ∉ s) : (tokens s).flatMap Token.text = s := by
  obtain ⟨r, hr, hnil⟩ := tokens_eq_append (List.append_nil (tokens s)).symm
  cases r with
  | nil => rw [← List.append_nil ((tokens s).flatMap Token.text), ← hr]
  | cons c r =>
    have hc : c ≠ '\x00' := by
      rintro rfl
      exact h (hr ▸ List.mem_append_right _ List.mem_cons_self)
    rw [tokens_cons hc] at hnil
    cases hnil

theorem LineState.parens_run (st : LineState) (hst : st.parens = 0) {ts : List Token}
    (hts : ∀ t ∈ ts, t.kind ≠ .function ∧ t.kind ≠ .leftParen) : (st.run ts).parens = 0 := by
  induction ts generalizing st with
  | nil => exact hst
  | cons t ts ih =>
    obtain ⟨⟨hfunction, hparen⟩, hts⟩ := List.forall_mem_cons.mp hts
    refine ih (st.step t) ?_ hts
    obtain ⟨kind, text⟩ := t
    cases kind
    case function | leftParen => contradiction
    case rightParen => exact Nat.sub_eq_zero_of_le (hst ▸ Nat.zero_le 1)
    case whitespace =>
      rw [LineState.step]
      dsimp only
      rw [if_pos hst]
      split
      · rfl
      · exact hst
    case semicolon =>
      rw [LineState.step]
      dsimp only
      rw [if_pos hst]
      rfl
    case leftBrace | rightBrace => rfl
    all_goals exact hst

theorem class_of_isRemark {c : Char} (h : isRemark c = true) :
    c ≠ '\x00' ∧ opens c = false ∧ c ≠ '(' ∧
      [';', '\x7b', '\x7d', '\r', '\n'].contains c = false := by
  simp only [isRemark, List.contains_eq_mem, List.mem_cons, List.not_mem_nil, or_false,
    Bool.not_eq_true', decide_eq_false_iff_not, not_or] at h
  simp [opens, h]

/-- A plain text in front of a line break is cut into tokens up to the white space at its end. -/
theorem tokens_of_isRemark (h : ∀ c ∈ s, isRemark c = true) :
    ∃ ts blank, s = ts.flatMap Token.text ++ blank ∧ (∀ c ∈ blank, isSpace c = true) ∧
      tokens (s ++ ['\n']) = ts ++ [⟨.whitespace, blank ++ ['\n']⟩] := by
  cases before_blank (m := '\n') rfl s with
  | stops ts hstarts htokens =>
    have hcover : (tokens (s ++ ['\n'])).flatMap Token.text = s ++ ['\n'] :=
      flatMap_text_of_not_mem fun hmem => by
        rcases List.mem_append.mp hmem with hmem | hmem
        · exact (class_of_isRemark (h _ hmem)).1 rfl
        · exact absurd hmem (by decide)
    rw [htokens] at hcover
    have := hstarts.length_le
    rw [hcover, List.length_append] at this
    exact absurd this (by simp)
  | taken ts c a hsplit _ hopens =>
    obtain ⟨d, hd, hopen⟩ := List.any_eq_true.mp hopens
    have := (class_of_isRemark (h d (hsplit ▸ List.mem_append_right _ hd))).2.1
    rw [hopen] at this
    cases this
  | blank ts blank hsplit hspace htokens =>
    refine ⟨ts, blank, hsplit, hspace, ?_⟩
    rw [htokens, tokens_newline hspace, List.takeWhile_nil, List.dropWhile_nil, tokens_nil]

theorem goesOn_of_isRemark {t : Token} (ht : t ∈ tokens s) (h : ∀ c ∈ t.text, isRemark c = true) :
    GoesOn t ∧ t.kind ≠ .function ∧ t.kind ≠ .leftParen := by
  have hparen : '(' ∉ t.text := fun hc => (class_of_isRemark (h _ hc)).2.2.1 rfl
  exact ⟨goesOn_of_mem_tokens ht fun c hc => (class_of_isRemark (h c hc)).2.2.2,
    fun hkind => hparen (paren_mem_of_mem_tokens ht (Or.inl hkind)),
    fun hkind => hparen (paren_mem_of_mem_tokens ht (Or.inr hkind))⟩

/-- **A plain comment is one line, which ends at its line break.** -/
theorem comment_of_isRemark {text : List Char} (h : ∀ c ∈ text, isRemark c = true) :
    EndsInBreak (comment text) ∧
      ∃ first, logicalLines (comment text ++ ['\n']) = [first] ∧ ¬ ['\x7b'] <:+ first := by
  have hblank : ∀ c ∈ ' ' :: text, isRemark c = true := List.forall_mem_cons.mpr ⟨rfl, h⟩
  obtain ⟨ts, blank, hsplit, hspace, htokens⟩ := tokens_of_isRemark hblank
  have hremark : ∀ t ∈ ts, ∀ c ∈ t.text, isRemark c = true := fun t ht c hc =>
    hblank c (hsplit ▸ List.mem_append_left _ (List.mem_flatMap.mpr ⟨t, ht, hc⟩))
  have hplain : ∀ t ∈ slash :: slash :: ts,
      GoesOn t ∧ t.kind ≠ .function ∧ t.kind ≠ .leftParen := by
    have hslash : GoesOn slash ∧ slash.kind ≠ .function ∧ slash.kind ≠ .leftParen :=
      ⟨⟨rfl, rfl⟩, nofun, nofun⟩
    refine List.forall_mem_cons.mpr ⟨hslash, List.forall_mem_cons.mpr ⟨hslash, fun t ht => ?_⟩⟩
    exact goesOn_of_isRemark (htokens ▸ List.mem_append_left _ ht) (hremark t ht)
  have hall : tokens (comment text ++ ['\n'])
      = (slash :: slash :: ts) ++ [⟨.whitespace, blank ++ ['\n']⟩] := by
    have := tokens_slashes (text ++ ['\n'])
    rwa [← List.cons_append, htokens] at this
  have hparens : (LineState.start.run (slash :: slash :: ts)).parens = 0 :=
    LineState.start.parens_run rfl fun t ht => (hplain t ht).2
  refine ⟨⟨_, blank, by simp [comment, slash, hsplit], hspace, hall, hparens⟩, ?_⟩
  -- the run is one line `q`, which the line break ends
  obtain ⟨q, p, hrun, hq⟩ := LineState.start.run_goesOn fun t ht => (hplain t ht).1
  obtain rfl : p = 0 := by rw [hrun] at hparens; exact hparens
  have hlines : logicalLines (comment text ++ ['\n']) = flush q := by
    have hnil : flush [] = [] := rfl
    rw [logicalLines_eq_run, hall, LineState.run_append, hrun]
    simp [LineState.run, LineState.step, LineState.endLine, LineState.finish, LineState.start,
      hnil]
  refine ⟨trim q, ?_, fun hbrace => ?_⟩
  · obtain ⟨first, rest, hfirst, -⟩ := logicalLines_comment (text ++ ['\n'])
    have hcons : flush q = first :: rest := hlines.symm.trans hfirst
    rcases flush_eq q with hflush | hflush
    · rw [hflush] at hcons
      cases hcons
    · exact hlines.trans hflush
  · have hmem : '\x7b' ∈ q := mem_of_mem_trim (hbrace.subset List.mem_cons_self)
    obtain ⟨t, ht, hc⟩ := List.mem_flatMap.mp (hq hmem)
    rcases List.mem_cons.mp ht with rfl | ht
    · exact absurd hc (by decide)
    · rcases List.mem_cons.mp ht with rfl | ht
      · exact absurd hc (by decide)
      · exact absurd (hremark t ht _ hc) (by decide)

/-- **Which comment lines may stand anywhere:** the line break behind the comment is read as one, no
brace ends its first logical line, and the logical lines behind that one have no effect.  Plain
comments are of this kind. -/
theorem harmless_comment_iff (text : List Char) :
    (Harmless (comment text) ↔
      EndsInBreak (comment text) ∧ ∃ first rest,
        logicalLines (comment text ++ ['\n']) = first :: rest ∧ ¬ ['\x7b'] <:+ first ∧
          Inert rest) ∧
    ((∀ c ∈ text, isRemark c = true) → Harmless (comment text)) := by
  obtain ⟨first, rest, hlines, hstarts⟩ := logicalLines_comment (text ++ ['\n'])
  change logicalLines (comment text ++ ['\n']) = _ at hlines
  rw [harmless_iff, hlines, inert_cons_comment hstarts]
  refine ⟨and_congr_right fun _ => ⟨fun h => ⟨first, rest, rfl, h⟩, ?_⟩, fun htext => ?_⟩
  · rintro ⟨_, _, heq, h⟩
    obtain ⟨rfl, rfl⟩ := List.cons.inj heq
    exact h
  · obtain ⟨hbreak, line, hline, hbrace⟩ := comment_of_isRemark htext
    obtain ⟨rfl, rfl⟩ := List.cons.inj (hlines.symm.trans hline)
    exact ⟨hbreak, hbrace, rfl⟩

/-- A plain comment, and one that fills a dropped block. -/
theorem harmless_comment_todo :
    ((∀ c ∈ "todo: later".toList, isRemark c = true) ∧ Harmless (comment "todo: later".toList)) ∧
      Harmless (comment "off; \x7b a: b; \x7d".toList) := by
  have htodo : ∀ c ∈ "todo: later".toList, isRemark c = true := List.all_eq_true.mp rfl
  refine ⟨⟨htodo, (harmless_comment_iff _).2 htodo⟩, (harmless_comment_iff _).1.mpr ?_⟩
  let ts : List Token :=
    [slash, slash, ⟨.whitespace, [' ']⟩, ⟨.ident, "off".toList⟩, ⟨.semicolon, [';']⟩,
      ⟨.whitespace, [' ']⟩, ⟨.leftBrace, ['\x7b']⟩, ⟨.whitespace, [' ']⟩, ⟨.ident, ['a']⟩,
      ⟨.colon, [':']⟩, ⟨.whitespace, [' ']⟩, ⟨.ident, ['b']⟩, ⟨.semicolon, [';']⟩,
      ⟨.whitespace, [' ']⟩, ⟨.rightBrace, ['\x7d']⟩]
  have htokens : tokens (comment "off; \x7b a: b; \x7d".toList ++ ['\n'])
      = ts ++ [⟨.whitespace, ['\n']⟩] := by
    simp only [ts, slash]
    cbv
  have hlines : logicalLines (comment "off; \x7b a: b; \x7d".toList ++ ['\n'])
      = ["// off;".toList, ['\x7b'], "a: b;".toList, closeLine] := by
    rw [logicalLines, htokens]
    rfl
  exact ⟨⟨ts, [], rfl, List.forall_mem_nil _, htokens, rfl⟩, _, _, hlines, by decide, rfl⟩

/-- A brace at the end of a comment opens a block, and what follows is read into it. -/
theorem comment_opens_block :
    let x := "color: red\n".toList
    let y := "margin: 0".toList
    LineStart x y ∧
      Tree.ofBody (String.ofList (x ++ (comment "card \x7b".toList ++ '\n' :: y)))
        = [.literal "color" "red", .block "// card" [.literal "margin" "0"]] ∧
      Tree.ofBody (String.ofList (x ++ y)) = [.literal "color" "red", .literal "margin" "0"] := by
  intro x y
  let ts : List Token :=
    [⟨.ident, "color".toList⟩, ⟨.colon, [':']⟩, ⟨.whitespace, [' ']⟩, ⟨.ident, "red".toList⟩]
  have htokens : tokens (x ++ y) = ts ++ tokens ('\n' :: y) := by
    simp only [x, y, ts]
    cbv
  refine ⟨Or.inr ⟨ts, ['\n'], _, rfl, htokens, List.forall_mem_singleton.mpr rfl, rfl, rfl⟩, ?_, ?_⟩
  · simp only [x, y]
    cbv
  · simp only [x, y]
    cbv

end Pagesmith.Style
