import Pagesmith.Proofs.Css.Measure
import Pagesmith.Proofs.Css.Plain

/-!
# Self-delimiting text

A text is self-delimiting before a mark if none of its tokens takes the mark in.  Whether it is
does not depend on what follows the mark, so the tokens of such a text and of what follows it are
read apart from each other.

* `tokens_append`: the tokens of a self-delimiting text and what follows it.
* `flatMap_text_tokens`: its tokens cover the text.
* `measure_found`: what a token can be; `text_of_fence`: the text of a brace or a semicolon.
* `isSpace_of_whitespace`, `comment_ends`: the text of white space and how a comment ends.
* `before_blank`: how white space behind a text is read.
-/

namespace Pagesmith.Css

variable {s : List Char} {t : Token} {ts us : List Token} {c : Char}

/-- A mark behind the text is read as a token of its own. -/
def SelfDelimiting (m : Char) (s : List Char) : Prop := tokens (s ++ [m]) = tokens s ++ tokens [m]

instance (m : Char) (s : List Char) : Decidable (SelfDelimiting m s) :=
  inferInstanceAs (Decidable (tokens (s ++ [m]) = tokens s ++ tokens [m]))

theorem EndsAt.tokens_cons {m : Char} (h : EndsAt Prod.snd m (Token.measure c) s) (hc : c ≠ '\x00')
    (r : List Char) :
    tokens (c :: s ++ m :: r) = ⟨(Token.measure c s).1, c :: s.take (Token.measure c s).2⟩
      :: tokens (s.drop (Token.measure c s).2 ++ m :: r) := by
  rw [List.cons_append, Css.tokens_cons hc, h.2 r, List.take_append_of_le_length h.1,
    List.drop_append_of_le_length h.1]

section SelfDelimiting

variable {m : Char} (hm : isMark m = true)

include hm in
theorem tokens_mark : ∃ t, tokens [m] = [t] := by
  have hm0 : m ≠ '\x00' := ne_of_class hm rfl
  rw [tokens_cons hm0, List.drop_nil, tokens_nil]
  exact ⟨_, rfl⟩

include hm in
/-- The first token of a self-delimiting text ends within it, and the rest is self-delimiting. -/
theorem SelfDelimiting.cons (h : SelfDelimiting m (c :: s)) :
    c ≠ '\x00' ∧ EndsAt Prod.snd m (Token.measure c) s ∧
      SelfDelimiting m (s.drop (Token.measure c s).2) := by
  obtain ⟨t, ht⟩ := tokens_mark hm
  rw [SelfDelimiting, ht] at h
  have hc : c ≠ '\x00' := by
    rintro rfl
    rw [List.cons_append, tokens, if_pos rfl] at h
    exact absurd h.symm (by simp)
  have hident := identlikeMeasure_settles (isStop_of_isMark hm) (s := c :: s) (Or.inl hm)
  have hsettles := measure_settles (isStop_of_isMark hm) hident
  rcases hsettles with hends | ⟨-, hpasses⟩
  · refine ⟨hc, hends, ?_⟩
    rw [hends.tokens_cons hc, tokens_cons hc, List.cons_append, ← ht] at h
    exact (List.cons.inj h).2
  · -- the token takes the mark in, so it is the last one
    have hlt : (s ++ [m]).length ≤ (Token.measure c (s ++ [m])).2 := by
      rw [List.length_append]
      exact hpasses []
    rw [List.cons_append, tokens_cons hc, List.drop_eq_nil_of_le hlt, tokens_cons hc,
      tokens_nil] at h
    have := congrArg List.length h
    rw [List.length_append] at this
    simp at this

include hm in
/-- **A self-delimiting text is read apart from what follows it.** -/
theorem tokens_append (h : SelfDelimiting m s) (r : List Char) :
    tokens (s ++ m :: r) = tokens s ++ tokens (m :: r) := by
  induction hlen : s.length using Nat.strongRecOn generalizing s with
  | ind len ih =>
    cases s with
    | nil =>
      rw [tokens_nil]
      rfl
    | cons c s =>
      obtain ⟨hc, hends, hrest⟩ := h.cons hm
      rw [hends.tokens_cons hc, tokens_cons hc, ih _ ?_ hrest rfl, List.cons_append]
      rw [← hlen, List.length_drop, List.length_cons]
      omega

include hm in
theorem flatMap_text_tokens (h : SelfDelimiting m s) : (tokens s).flatMap Token.text = s := by
  induction hlen : s.length using Nat.strongRecOn generalizing s with
  | ind len ih =>
    cases s with
    | nil =>
      rw [tokens_nil]
      rfl
    | cons c s =>
      obtain ⟨hc, -, hrest⟩ := h.cons hm
      rw [tokens_cons hc, List.flatMap_cons, ih _ ?_ hrest rfl, List.cons_append,
        List.take_append_drop]
      rw [← hlen, List.length_drop, List.length_cons]
      omega

end SelfDelimiting

/-! ### Tokens of a longer text -/

theorem tokens_eq_cons (h : tokens s = t :: us) :
    ∃ c a r, s = c :: (a ++ r) ∧ c ≠ '\x00' ∧ t = ⟨(Token.measure c (a ++ r)).1, c :: a⟩ ∧
      tokens r = us ∧ a.length = min (Token.measure c (a ++ r)).2 (a ++ r).length := by
  cases s with
  | nil =>
    rw [tokens_nil] at h
    cases h
  | cons c cs =>
    by_cases hc : c = '\x00'
    · rw [tokens, if_pos hc] at h
      cases h
    · rw [tokens_cons hc] at h
      obtain ⟨rfl, hus⟩ := List.cons.inj h
      refine ⟨c, cs.take (Token.measure c cs).2, cs.drop (Token.measure c cs).2, ?_, hc, ?_, hus,
        ?_⟩
      · rw [List.take_append_drop]
      · rw [List.take_append_drop]
      · rw [List.take_append_drop, List.length_take]

/-- **No character is lost:** the first tokens of a text cover the start of it, and the others are
those of the rest. -/
theorem tokens_eq_append (h : tokens s = ts ++ us) :
    ∃ r, s = ts.flatMap Token.text ++ r ∧ tokens r = us := by
  induction ts generalizing s with
  | nil => exact ⟨s, rfl, h⟩
  | cons t ts ih =>
    obtain ⟨c, a, cs, rfl, -, rfl, htail, -⟩ := tokens_eq_cons h
    obtain ⟨r, rfl, hus⟩ := ih htail
    exact ⟨r, by simp, hus⟩

/-- **Tokens before a mark make up a self-delimiting text.** -/
theorem SelfDelimiting.of_tokens {m : Char} (hm : isMark m = true) {r : List Char}
    (h : tokens (ts.flatMap Token.text ++ m :: r) = ts ++ us) :
    SelfDelimiting m (ts.flatMap Token.text) ∧ tokens (ts.flatMap Token.text) = ts := by
  induction ts with
  | nil => exact ⟨by rw [SelfDelimiting, List.flatMap_nil, tokens_nil]; rfl, tokens_nil⟩
  | cons t ts ih =>
    obtain ⟨c, a, cs, hcs, hc, rfl, htail, hlen⟩ := tokens_eq_cons h
    obtain rfl : ts.flatMap Token.text ++ m :: r = cs := by simpa using hcs
    obtain ⟨hself, htokens⟩ := ih htail
    replace hlen : (Token.measure c (a ++ (ts.flatMap Token.text ++ m :: r))).2 = a.length := by
      simp only [List.length_append, List.length_cons] at hlen
      omega
    rw [List.flatMap_cons]
    generalize ts.flatMap Token.text = s at *
    -- the token ends before the mark, so it does not depend on what follows the mark
    have hident := identlikeMeasure_settles (isStop_of_isMark hm) (s := c :: (a ++ s)) (Or.inl hm)
    rcases measure_settles (isStop_of_isMark hm) hident with hends | ⟨-, hpasses⟩
    · have hmeasure := hends.2 r
      rw [List.append_assoc] at hmeasure
      have hfirst : ∀ r', tokens (c :: (a ++ s ++ m :: r'))
          = ⟨(Token.measure c (a ++ (s ++ m :: r))).1, c :: a⟩ :: tokens (s ++ m :: r') := by
        intro r'
        rw [← List.cons_append, hends.tokens_cons hc, ← hmeasure, hlen, List.take_left,
          List.drop_left]
      have hwhole : tokens (c :: (a ++ s))
          = ⟨(Token.measure c (a ++ (s ++ m :: r))).1, c :: a⟩ :: tokens s := by
        rw [tokens_cons hc, ← hmeasure, hlen, List.take_left, List.drop_left]
      refine ⟨?_, by rw [List.cons_append, hwhole, htokens]⟩
      rw [SelfDelimiting] at hself ⊢
      rw [List.cons_append, List.cons_append, hfirst, hwhole, hself, List.cons_append]
    · have := hpasses r
      rw [List.append_assoc, hlen, List.length_append] at this
      omega

/-! ### Braces and semicolons -/

def Kind.fence? : Kind → Option Char
  | .semicolon => some ';'
  | .leftBrace => some '\x7b'
  | .rightBrace => some '\x7d'
  | _ => none

theorem isMark_of_fence {kind : Kind} {m : Char} (h : kind.fence? = some m) : isMark m = true := by
  cases kind
  case semicolon | leftBrace | rightBrace => cases h; rfl
  all_goals cases h

inductive Found (c : Char) (t : List Char) : Kind × Nat → Prop where
  | blank (hc : isSpace c = true) : Found c t (.whitespace, spaceLength t)
  | comment (u : List Char) (hc : c = '/') (ht : t = '*' :: u) :
      Found c t (.comment, 1 + commentLength u)
  | fence {kind : Kind} (h : (kind, c) ∈ [(.leftParen, '('), (.rightParen, ')'), (.semicolon, ';'),
      (.leftBrace, '\x7b'), (.rightBrace, '\x7d')]) : Found c t (kind, 0)
  | function {n : Nat} (h : '(' ∈ c :: t.take n) : Found c t (.function, n)
  | plain {kind : Kind} {n : Nat} (h : kind.isPlain = true) : Found c t (kind, n)

theorem measure_of_isSpace (hc : isSpace c = true) (t : List Char) :
    Token.measure c t = (.whitespace, spaceLength t) := by
  have hblank : measure? c t = some (.whitespace, 1 + spaceLength t) := if_pos hc
  rw [Token.measure, hblank]
  exact congrArg (Prod.mk Kind.whitespace) (Nat.add_sub_cancel_left 1 _)

theorem measure_found (c : Char) (t : List Char) : Found c t (Token.measure c t) := by
  by_cases hspace : isSpace c = true
  · exact measure_of_isSpace hspace t ▸ .blank hspace
  · by_cases hslash : c = '/'
    · subst hslash
      by_cases hstar : t.head? = some '*'
      · obtain ⟨u, rfl⟩ := List.head?_eq_some_iff.mp hstar
        have hcomment : Token.measure '/' ('*' :: u) = (.comment, 1 + commentLength u) := by
          have : measure? '/' ('*' :: u) = some (.comment, 2 + commentLength u) := rfl
          rw [Token.measure, this]
          exact congrArg (Prod.mk Kind.comment) (show 2 + commentLength u - 1 = _ by omega)
        exact hcomment ▸ .comment u rfl rfl
      · have hdelim : Token.measure '/' t = (.delim, 0) := by
          have : measure? '/' t = none := if_neg hstar
          rw [Token.measure, this]
        exact hdelim ▸ .plain rfl
    · by_cases hfence : isFence c = true
      · simp only [isFence, List.contains_eq_mem, List.mem_cons, List.not_mem_nil, or_false,
          decide_eq_true_eq] at hfence
        rcases hfence with rfl | rfl | rfl | rfl | rfl
        all_goals exact .fence (by decide)
      · have hplain := measure_plain (by simpa using hspace) (by simpa using hfence) hslash t
        generalize Token.measure c t = m at hplain ⊢
        obtain ⟨kind, n⟩ := m
        rcases hplain with h | ⟨rfl, h⟩
        · exact .plain h
        · exact .function h

theorem measure_of_fence {m : Char} {t : List Char} (h : (Token.measure c t).1.fence? = some m) :
    c = m ∧ (Token.measure c t).2 = 0 := by
  have hfound := measure_found c t
  generalize Token.measure c t = a at h hfound ⊢
  cases hfound with
  | blank | comment | function => cases h
  | fence hmem =>
    simp only [List.mem_cons, Prod.mk.injEq, List.not_mem_nil, or_false] at hmem
    rcases hmem with ⟨rfl, rfl⟩ | ⟨rfl, rfl⟩ | ⟨rfl, rfl⟩ | ⟨rfl, rfl⟩ | ⟨rfl, rfl⟩
    all_goals first | exact ⟨Option.some.inj h, rfl⟩ | cases h
  | @plain kind n hplain =>
    dsimp only at h
    cases kind
    case semicolon | leftBrace | rightBrace => cases hplain
    all_goals cases h

/-- **A brace or a semicolon is a token of one character.** -/
theorem text_of_fence (ht : t ∈ tokens s) {m : Char} (h : t.kind.fence? = some m) :
    t.text = [m] := by
  obtain ⟨ts, us, htokens⟩ := List.append_of_mem ht
  obtain ⟨r, -, hr⟩ := tokens_eq_append htokens
  obtain ⟨c, a, rest, -, -, rfl, -, hlen⟩ := tokens_eq_cons hr
  obtain ⟨rfl, hzero⟩ := measure_of_fence h
  rw [hzero, Nat.zero_min, List.length_eq_zero_iff] at hlen
  rw [hlen]

/-! ### White space and comments -/

theorem exists_measure_of_mem (h : tokens s = ts ++ t :: us) :
    ∃ c a r, t = ⟨(Token.measure c (a ++ r)).1, c :: a⟩ ∧ tokens r = us ∧
      a.length = min (Token.measure c (a ++ r)).2 (a ++ r).length := by
  obtain ⟨rest, -, hrest⟩ := tokens_eq_append h
  obtain ⟨c, a, r, -, -, ht, hr, hlen⟩ := tokens_eq_cons hrest
  exact ⟨c, a, r, ht, hr, hlen⟩

theorem text_ne_nil_of_mem (ht : t ∈ tokens s) : t.text ≠ [] := by
  obtain ⟨ts, us, htokens⟩ := List.append_of_mem ht
  obtain ⟨c, a, r, rfl, -, -⟩ := exists_measure_of_mem htokens
  exact List.cons_ne_nil c a

theorem isSpace_of_whitespace (ht : t ∈ tokens s) (h : t.kind = .whitespace) :
    ∀ c ∈ t.text, isSpace c = true := by
  obtain ⟨ts, us, htokens⟩ := List.append_of_mem ht
  obtain ⟨c, a, r, rfl, -, hlen⟩ := exists_measure_of_mem htokens
  dsimp only at h ⊢
  have hfound := measure_found c (a ++ r)
  generalize Token.measure c (a ++ r) = m at h hlen hfound
  cases hfound with
  | blank hc =>
    have hlength : a.length ≤ ((a ++ r).takeWhile isSpace).length := hlen ▸ Nat.min_le_left _ _
    have hstarts : a <+: (a ++ r).takeWhile isSpace :=
      List.prefix_of_prefix_length_le (List.prefix_append a r) (List.takeWhile_prefix _) hlength
    exact List.forall_mem_cons.mpr
      ⟨hc, fun d hd => List.all_eq_true.mp List.all_takeWhile d (hstarts.subset hd)⟩
  | comment | function => cases h
  | fence hmem =>
    dsimp only at h
    subst h
    simp at hmem
  | plain hplain =>
    dsimp only at h
    subst h
    cases hplain

theorem commentLength_lt (h : commentLength s < s.length) :
    ∃ a, s.take (commentLength s) = a ++ ['/'] := by
  fun_induction commentLength s with
  | case1 => simp at h
  | case2 => exact ⟨['*'], rfl⟩
  | case3 c s _ ih =>
    rw [List.length_cons] at h
    obtain ⟨a, ha⟩ := ih (by omega)
    refine ⟨c :: a, ?_⟩
    rw [Nat.add_comm, List.take_succ_cons, ha, List.cons_append]

theorem comment_ends (h : tokens s = ts ++ t :: us) (hus : us ≠ []) (hkind : t.kind = .comment) :
    ∃ a, t.text = a ++ ['/'] := by
  obtain ⟨c, a, r, rfl, hr, hlen⟩ := exists_measure_of_mem h
  have hrest : r ≠ [] := by
    rintro rfl
    exact hus (hr.symm.trans tokens_nil)
  have hlt : 0 < r.length := List.length_pos_iff.mpr hrest
  dsimp only at hkind ⊢
  have hfound := measure_found c (a ++ r)
  generalize Token.measure c (a ++ r) = m at hkind hlen hfound
  generalize hs : a ++ r = s at hlen hfound
  cases hfound with
  | blank | function => cases hkind
  | comment u hc hu =>
    subst hu
    have hlength := congrArg List.length hs
    rw [List.length_append, List.length_cons] at hlength
    rw [List.length_cons] at hlen
    dsimp only at hlen
    obtain ⟨b, hb⟩ := commentLength_lt (s := u) (by omega)
    have ha : a = ('*' :: u).take a.length := by rw [← hs, List.take_left]
    have hn : a.length = commentLength u + 1 := by omega
    refine ⟨c :: '*' :: b, ?_⟩
    rw [ha, hn, List.take_succ_cons, hb]
    rfl
  | fence hmem =>
    dsimp only at hkind
    subst hkind
    simp at hmem
  | plain hplain =>
    dsimp only at hkind
    subst hkind
    cases hplain

/-! ### White space behind a text -/

inductive Before (m : Char) (s : List Char) : Prop where
  /-- The reading stops before it. -/
  | stops (ts : List Token) (hs : ts.flatMap Token.text <+: s)
      (h : ∀ r, tokens (s ++ m :: r) = ts)
  /-- It goes on with the white space at the end of the text, if there is any. -/
  | blank (ts : List Token) (blank : List Char) (hs : s = ts.flatMap Token.text ++ blank)
      (hblank : ∀ c ∈ blank, isSpace c = true)
      (h : ∀ r, tokens (s ++ m :: r) = ts ++ tokens (blank ++ m :: r))
  /-- A token takes it in. -/
  | taken (ts : List Token) (c : Char) (a : List Char) (hs : s = ts.flatMap Token.text ++ c :: a)
      (hc : c ≠ '\x00' ∧ isSpace c = false) (hopens : (c :: a).any opens = true)
      (hpasses : Passes Prod.snd m (Token.measure c) a)
      (h : ∀ r, tokens (s ++ m :: r) = ts ++ tokens (c :: (a ++ m :: r)))

theorem Before.cons {m : Char} {u : List Char} (hu : u = t.text ++ s)
    (htokens : ∀ r, tokens (u ++ m :: r) = t :: tokens (s ++ m :: r)) (h : Before m s) :
    Before m u := by
  subst hu
  cases h with
  | stops ts hs h =>
    refine .stops (t :: ts) ?_ fun r => by rw [htokens, h]
    exact (List.prefix_append_right_inj t.text).mpr hs
  | blank ts blank hs hblank h =>
    exact .blank (t :: ts) blank (by simp [hs]) hblank fun r => by rw [htokens, h]; rfl
  | taken ts c a hs hc hopens hpasses h =>
    exact .taken (t :: ts) c a (by simp [hs]) hc hopens hpasses fun r => by rw [htokens, h]; rfl

theorem isSpace_of_spaceLength_lt {r : List Char} (h : s.length < spaceLength (s ++ r)) :
    ∀ c ∈ s, isSpace c = true := by
  have hstarts : s <+: (s ++ r).takeWhile isSpace :=
    List.prefix_of_prefix_length_le (List.prefix_append s r) (List.takeWhile_prefix _)
      (Nat.le_of_lt h)
  exact fun c hc => List.all_eq_true.mp List.all_takeWhile c (hstarts.subset hc)

/-- **How white space behind a text is read** does not depend on what follows it. -/
theorem before_blank {m : Char} (hm : isMark m = true) (s : List Char) : Before m s := by
  induction hlen : s.length using Nat.strongRecOn generalizing s with
  | ind len ih =>
    cases s with
    | nil => exact .blank [] [] rfl (List.forall_mem_nil _) fun r => rfl
    | cons c s =>
      by_cases hc : c = '\x00'
      · subst hc
        refine .stops [] (List.nil_prefix) fun r => ?_
        rw [List.cons_append, tokens, if_pos rfl]
      · have hident := identlikeMeasure_settles (isStop_of_isMark hm) (s := c :: s) (Or.inl hm)
        rcases measure_settles (isStop_of_isMark hm) hident with hends | ⟨hcause, hpasses⟩
        · refine Before.cons ?_ (hends.tokens_cons hc) (ih _ ?_ _ rfl)
          · rw [List.cons_append, List.take_append_drop]
          · rw [← hlen, List.length_drop, List.length_cons]
            omega
        · by_cases hspace : isSpace c = true
          · refine .blank [] (c :: s) rfl (List.forall_mem_cons.mpr ⟨hspace, ?_⟩) fun r => rfl
            have hlt := hpasses []
            rw [measure_of_isSpace hspace] at hlt
            exact isSpace_of_spaceLength_lt hlt
          · refine .taken [] c s rfl ⟨hc, by simpa using hspace⟩ ?_ hpasses fun r => rfl
            rcases hcause with h | h | ⟨h, -⟩
            · exact absurd h.1 hspace
            · exact h
            · rcases h with h | h | ⟨rfl, -⟩
              · exact List.any_eq_true.mpr ⟨_, h, rfl⟩
              · exact List.any_eq_true.mpr ⟨_, h, rfl⟩
              · cases hm

end Pagesmith.Css
