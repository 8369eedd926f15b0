import Pagesmith.Proofs.Css.SelfDelimiting
import Pagesmith.Proofs.Text.Basic
import Pagesmith.Style.Line

/-!
# Lines of quiet text

Quiet text opens no string, escape or comment and ends no line.  If its parentheses are balanced it
is a part of one line, up to the semicolon or the opening brace behind it, however the tokenizer
groups it.  The reader counts fewer parentheses than there are, since an address takes its own and
all that it holds; it never counts more.

* `Parens`: balanced parentheses.
* `begins_quiet`: the first token of quiet text.
* `linesFrom_quiet`: quiet text is a part of one line.
* `linesFrom_blank`: white space before a line makes no difference.
-/

namespace Pagesmith.Style

open Pagesmith.Css

variable {d : Nat} {s : List Char}

/-! ### Quiet text -/

/-- A character that opens no string, escape or comment, and neither ends a line nor breaks it. -/
def isQuiet (c : Char) : Bool :=
  ' ' ≤ c && !(['"', '\'', '\\', '/', ';', '\x7b', '\x7d'].contains c)

abbrev Parens (d : Nat) (s : List Char) : Prop := Text.Nested (· == '(') (· == ')') d s

theorem Parens.append_right {a b : List Char} (h : Parens d (a ++ b)) :
    Parens (d + a.count '(' - a.count ')') b := Text.Nested.append_right h

inductive Part (t : Token) : Prop where
  | plain (hk : t.kind.isPlain = true) (h : t.text.count ')' ≤ t.text.count '(')
  | blank (hk : t.kind = .whitespace) (h : ∀ c ∈ t.text, c = ' ')
  | opening (hk : t.kind = .function ∨ t.kind = .leftParen) (h : t.text.count '(' = 1)
      (h' : t.text.count ')' = 0)
  | closing (hk : t.kind = .rightParen) (h : t.text = [')'])

def Begins (s rest : List Char) : Prop :=
  ∃ kind a b, s = a ++ b ∧ a ≠ [] ∧ Part ⟨kind, a⟩ ∧
    tokens (s ++ rest) = ⟨kind, a⟩ :: tokens (b ++ rest)

theorem Begins.append {w t rest : List Char} (h : Begins w (t ++ rest)) : Begins (w ++ t) rest := by
  obtain ⟨kind, a, b, rfl, ha, hpart, htokens⟩ := h
  exact ⟨kind, a, b ++ t, List.append_assoc a b t, ha, hpart, by simpa using htokens⟩

theorem eq_blank_of_isSpace {c : Char} (hc : isQuiet c = true) (hspace : isSpace c = true) :
    c = ' ' := by
  simp only [isSpace, Bool.or_eq_true, beq_iff_eq] at hspace
  rcases hspace with (((h | h) | h) | h) | h
  · exact h
  all_goals exact absurd h (ne_of_class hc rfl)

theorem begins_blank {m c : Char} (hm : isSpace m = false) (hs : ∀ d ∈ c :: s, isQuiet d = true)
    (hc : isSpace c = true) (r : List Char) : Begins (c :: s) (m :: r) := by
  refine ⟨.whitespace, c :: s.takeWhile isSpace, s.dropWhile isSpace, ?_, List.cons_ne_nil _ _,
    .blank rfl fun d hd => ?_, ?_⟩
  · rw [List.cons_append, List.takeWhile_append_dropWhile]
  · have hspace : isSpace d = true := by
      rcases List.mem_cons.mp hd with rfl | hd
      · exact hc
      · exact List.all_eq_true.mp List.all_takeWhile d hd
    refine eq_blank_of_isSpace (hs d ?_) hspace
    exact (List.cons_sublist_cons.mpr (List.takeWhile_sublist _)).subset hd
  · rw [List.cons_append, tokens_blank hc, takeWhile_append_of_neg hm, List.dropWhile_append]
    split
    · next h =>
      rw [List.isEmpty_iff.mp h, List.dropWhile_cons_of_neg (by simp [hm])]
      rfl
    · rfl

theorem begins_leftParen (s rest : List Char) : Begins ('(' :: s) rest :=
  ⟨.leftParen, ['('], s, rfl, List.cons_ne_nil _ _, .opening (Or.inr rfl) rfl rfl,
    tokens_of_measure? [] (by decide) rfl⟩

theorem begins_rightParen (s rest : List Char) : Begins (')' :: s) rest :=
  ⟨.rightParen, [')'], s, rfl, List.cons_ne_nil _ _, .closing rfl rfl,
    tokens_of_measure? [] (by decide) rfl⟩

def isSteady (c : Char) : Bool := isQuiet c && !(['(', ')'].contains c)

theorem count_steady {w : List Char} (hw : ∀ d ∈ w, isSteady d = true) {x : Char}
    (hx : isSteady x = false) : w.count x = 0 :=
  List.count_eq_zero.mpr fun hmem => ne_of_class (hw x hmem) hx rfl

section Word

variable {m c : Char} {w : List Char} (hw : ∀ d ∈ c :: w, isSteady d = true)
  (hspace : isSpace c = false)

include hw hspace in
theorem begins_of_endsAt (h : EndsAt Prod.snd m (Token.measure c) w) (r : List Char) :
    Begins (c :: w) (m :: r) := by
  have hc := hw c List.mem_cons_self
  have hsub : c :: w.take (Token.measure c w).2 ⊆ c :: w :=
    (List.cons_sublist_cons.mpr (List.take_sublist _ _)).subset
  refine ⟨(Token.measure c w).1, c :: w.take (Token.measure c w).2, w.drop (Token.measure c w).2,
    ?_, List.cons_ne_nil _ _, .plain ?_ ?_, h.tokens_cons (ne_of_class hc rfl) r⟩
  · rw [List.cons_append, List.take_append_drop]
  · rcases measure_plain hspace (not_contains_of_class hc rfl) (ne_of_class hc rfl) w with
      hplain | ⟨-, hmem⟩
    · exact hplain
    · exact absurd (hw _ (hsub hmem)) (by decide)
  · rw [count_steady (fun d hd => hw d (hsub hd)) rfl]
    exact Nat.zero_le _

include hw hspace in
theorem begins_word (hm : isStop m = true) (hparen : m ≠ '(') (r : List Char) :
    Begins (c :: w) (m :: r) := by
  rcases measure_word hm fun d hd => not_contains_of_class (hw d hd) rfl with h | ⟨h, -⟩ | ⟨h, -⟩
  · exact begins_of_endsAt hw hspace h r
  · rw [hspace] at h
    cases h
  · exact absurd h hparen

include hw hspace in
theorem begins_name (hs : ∀ x ∈ s, isQuiet x = true) (hn : Parens (d + 1) s) (rest : List Char) :
    Begins (c :: w ++ '(' :: s) rest := by
  have hopens : ∀ x ∈ c :: w, opens x = false := fun x hx => not_contains_of_class (hw x hx) rfl
  have hc0 : c ≠ '\x00' := ne_of_class (hw c List.mem_cons_self) rfl
  rcases measure_word (m := '(') rfl hopens with h | ⟨h, -⟩ | ⟨-, hlen, hmeasure⟩
  · exact (begins_of_endsAt hw hspace h (s ++ rest)).append
  · rw [hspace] at h
    cases h
  · have hmeasure := hmeasure (s ++ rest)
    rcases identlikeMeasure_paren hopens (List.cons_ne_nil c w) hlen (s ++ rest) with
      h | ⟨kind, hplain, h⟩
    · refine ⟨.function, c :: w ++ ['('], s, by simp, by simp, .opening (Or.inl rfl) ?_ ?_, ?_⟩
      · rw [List.count_append, count_steady hw rfl]
        rfl
      · rw [List.count_append, count_steady hw rfl]
        rfl
      · have hbody : measure? c (w ++ ['('] ++ (s ++ rest))
            = some (.function, (w ++ ['(']).length + 1) := by
          simpa using hmeasure.trans h
        simpa using tokens_of_measure? _ hc0 hbody
    · -- an address ends at the first closing parenthesis
      obtain ⟨x, hmem, hx⟩ := hn.exists_mem
      obtain rfl : x = ')' := beq_iff_eq.mp hx
      obtain ⟨inner, tail, rfl, hinner⟩ := List.eq_append_cons_of_mem hmem
      have hclosed : (addressMeasure (inner ++ ')' :: tail ++ rest)).2 = inner.length + 1 := by
        rw [List.append_assoc]
        refine addressMeasure_closed (fun x hx => ⟨fun h => hinner (h ▸ hx), ?_⟩)
          (fun x hx => ⟨?_, ?_⟩) _
        all_goals exact ne_of_class (hs x (List.mem_append_left _ hx)) rfl
      refine ⟨kind, c :: w ++ '(' :: inner ++ [')'], tail, by simp, by simp, .plain hplain ?_, ?_⟩
      · rw [List.count_append, List.count_append, count_steady hw rfl,
          List.count_cons_of_ne (by decide), List.count_eq_zero.mpr hinner, List.count_append,
          List.count_append, count_steady hw rfl, List.count_cons_self (a := '(')]
        show 0 + 0 + 1 ≤ 0 + (_ + 1) + 0
        omega
      · have hbody : measure? c (w ++ '(' :: inner ++ [')'] ++ (tail ++ rest))
            = some (kind, (w ++ '(' :: inner ++ [')']).length + 1) := by
          rw [hclosed] at h
          simpa [Nat.add_assoc, Nat.add_comm, Nat.add_left_comm] using hmeasure.trans h
        simpa using tokens_of_measure? _ hc0 hbody

end Word

theorem paren_of_isQuiet {x : Char} (hq : isQuiet x = true) (hx : isSteady x = false) :
    x = '(' ∨ x = ')' := by
  rw [isSteady, hq, Bool.true_and, Bool.not_eq_false', List.contains_eq_mem] at hx
  simpa using hx

/-- **Quiet text with balanced parentheses starts with a token that is a part of it.** -/
theorem begins_quiet {m c : Char} (hm : m = ';' ∨ m = '\x7b') (hs : ∀ x ∈ c :: s, isQuiet x = true)
    (hn : Parens d (c :: s)) (r : List Char) : Begins (c :: s) (m :: r) := by
  have hspace : isSpace m = false ∧ isStop m = true ∧ m ≠ '(' := by
    rcases hm with rfl | rfl <;> decide
  cases hc : isSpace c with
  | true => exact begins_blank hspace.1 hs hc r
  | false =>
    cases hsteady : isSteady c with
    | false =>
      rcases paren_of_isQuiet (hs c List.mem_cons_self) hsteady with rfl | rfl
      · exact begins_leftParen s _
      · exact begins_rightParen s _
    | true =>
      -- the word goes up to the first parenthesis
      have hsplit : c :: s = c :: s.takeWhile isSteady ++ s.dropWhile isSteady := by
        rw [List.cons_append, List.takeWhile_append_dropWhile]
      have hw : ∀ x ∈ c :: s.takeWhile isSteady, isSteady x = true := by
        intro x hx
        rcases List.mem_cons.mp hx with rfl | hx
        · exact hsteady
        · exact List.all_eq_true.mp List.all_takeWhile x hx
      have hhead := List.head?_dropWhile_not isSteady s
      generalize s.takeWhile isSteady = w at hsplit hw
      generalize s.dropWhile isSteady = t at hsplit hhead
      rw [hsplit] at hs hn ⊢
      cases t with
      | nil =>
        rw [List.append_nil]
        exact begins_word hw hc hspace.2.1 hspace.2.2 r
      | cons x t =>
        have hx : isSteady x = false := by simpa using hhead
        have hxq : isQuiet x = true := hs x (List.mem_append_right _ List.mem_cons_self)
        rcases paren_of_isQuiet hxq hx with rfl | rfl
        · have hn' := Parens.append_right (a := c :: w ++ ['(']) (b := t) (by simpa using hn)
          rw [List.count_append, List.count_append, count_steady hw rfl, count_steady hw rfl] at hn'
          exact begins_name hw hc (fun y hy => hs y (List.mem_append_right _
            (List.mem_cons_of_mem _ hy))) hn' _
        · exact (begins_word hw hc (m := ')') rfl (by decide) (t ++ m :: r)).append

/-! ### Lines -/

theorem linesFrom_whitespace (cur text : List Char) (p : Nat) (ts : List Token) :
    linesFrom cur p (⟨.whitespace, text⟩ :: ts) =
      if (text.any fun c => c == '\r' || c == '\n') = true then
        if p = 0 then flush cur ++ linesFrom [] 0 ts else linesFrom (cur ++ [' ']) p ts
      else linesFrom (cur ++ text) p ts := rfl

/-- How the reader goes on behind a token of quiet text: the count of parentheses stays within
what is open. -/
theorem Part.linesFrom {t : Token} (ht : Part t) {p : Nat} (hp : p ≤ d) :
    ∃ q ≤ d + t.text.count '(' - t.text.count ')',
      ∀ cur ts, Style.linesFrom cur p (t :: ts) = Style.linesFrom (cur ++ t.text) q ts := by
  obtain ⟨kind, text⟩ := t
  cases ht with
  | plain hk h =>
    refine ⟨p, by dsimp only at h ⊢; omega, fun cur ts => ?_⟩
    dsimp only at hk
    cases kind
    case whitespace | comment | function | leftParen | rightParen | semicolon | leftBrace
      | rightBrace => cases hk
    all_goals rfl
  | blank hk h =>
    dsimp only at hk h
    subst hk
    have hbreak : ¬ (text.any fun c => c == '\r' || c == '\n') = true := by
      rw [List.any_eq_true]
      rintro ⟨c, hc, hbreak⟩
      rw [h c hc] at hbreak
      cases hbreak
    have hclose : text.count ')' = 0 :=
      List.count_eq_zero.mpr fun hmem => absurd (h _ hmem) (by decide)
    refine ⟨p, by dsimp only; omega, fun cur ts => ?_⟩
    rw [linesFrom_whitespace, if_neg hbreak]
  | opening hk h h' =>
    refine ⟨p + 1, by dsimp only at h h' ⊢; omega, fun cur ts => ?_⟩
    dsimp only at hk
    rcases hk with rfl | rfl <;> rfl
  | closing hk h =>
    dsimp only at hk h
    subst hk h
    exact ⟨p - 1, by simp; omega, fun cur ts => rfl⟩

/-- **Quiet text is a part of one line,** which the semicolon or the opening brace behind it
ends. -/
theorem linesFrom_quiet {m : Char} (hm : m = ';' ∨ m = '\x7b') (hs : ∀ x ∈ s, isQuiet x = true)
    {p : Nat} (hn : Parens d s) (hp : p ≤ d) (cur r : List Char) :
    linesFrom cur p (tokens (s ++ m :: r))
      = flush (cur ++ s ++ [m]) ++ linesFrom [] 0 (tokens r) := by
  induction hlen : s.length using Nat.strongRecOn generalizing s d p cur with
  | ind len ih =>
    cases s with
    | nil =>
      obtain rfl : d = 0 := (Nat.zero_add d).symm.trans hn.countP_eq.symm
      obtain rfl : p = 0 := Nat.le_zero.mp hp
      rw [List.append_nil]
      rcases hm with rfl | rfl
      · rw [List.nil_append, tokens_semicolon]
        rfl
      · rw [List.nil_append, tokens_leftBrace]
        rfl
    | cons c s =>
      obtain ⟨kind, a, b, hab, ha, hpart, htokens⟩ := begins_quiet hm hs hn r
      obtain ⟨q, hq, hlines⟩ := hpart.linesFrom hp
      have hb : b.length < len := by
        rw [← hlen, hab, List.length_append]
        exact Nat.lt_add_of_pos_left (List.length_pos_iff.mpr ha)
      rw [hab] at hs hn
      rw [htokens, hlines, ih b.length hb (fun x hx => hs x (List.mem_append_right a hx))
        hn.append_right hq (cur ++ a) rfl, hab]
      simp only [List.append_assoc]

/-- White space before a line is dropped with it. -/
theorem linesFrom_append {blank : List Char} (hb : ∀ c ∈ blank, Text.isBlank c = true)
    (cur : List Char) (p : Nat) (ts : List Token) :
    linesFrom (blank ++ cur) p ts = linesFrom cur p ts := by
  have hflush : ∀ s, flush (blank ++ s) = flush s := fun s => by
    rw [flush, Text.trim_append_left hb, flush]
  induction ts generalizing cur p with
  | nil => exact hflush cur
  | cons t ts ih =>
    simp only [linesFrom, List.append_assoc, ih, hflush]

theorem isBlank_of_isSpace {c : Char} (h : isSpace c = true) : Text.isBlank c = true := by
  simp only [isSpace, Bool.or_eq_true, beq_iff_eq] at h
  rcases h with (((rfl | rfl) | rfl) | rfl) | rfl <;> rfl

theorem linesFrom_blank {blank : List Char} (hb : ∀ c ∈ blank, isSpace c = true)
    (s : List Char) : linesFrom [] 0 (tokens (blank ++ s)) = linesFrom [] 0 (tokens s) := by
  refine tokens_blank_append (f := linesFrom [] 0) ?_ hb s
  intro text ts htext
  have hpad := linesFrom_append (fun c hc => isBlank_of_isSpace (htext c hc)) [] 0 ts
  rw [List.append_nil] at hpad
  rw [linesFrom_whitespace]
  split
  · rfl
  · exact hpad

end Pagesmith.Style
