import Mathlib.Data.List.Find
import Pagesmith.Proofs.Css.Quoted

/-!
# The token before a mark

How a token is found depends on its first character alone, and there are few ways to find one.
So a mark that settles names, numbers, strings and addresses settles every token.

* `first`: the ways to find a token.
* `measure_settles`: a mark ends the token before it, or is a part of it, whatever follows.
-/

namespace Pagesmith.Css

open Pagesmith.Text

variable {s : List Char} {c : Char} {P : Prop}

/-! ### Names, functions and numbers -/

def taken (o : Option (Kind × Nat)) : Nat := (o.map Prod.snd).getD 0

theorem identlikeMeasure_eq (s : List Char) :
    identlikeMeasure s =
      if identLength s = 0 then none
      else if (s.drop (identLength s)).head? = some '(' then
        if eqFold ((s.take (identLength s)).filter (· != '\\')) ['u', 'r', 'l'] then
          some ((addressMeasure (s.drop (identLength s + 1))).1,
            identLength s + 1 + (addressMeasure (s.drop (identLength s + 1))).2)
        else some (.function, identLength s + 1)
      else some (.ident, identLength s) := by
  rw [identlikeMeasure]
  split
  · next h => rw [if_pos h]
  · next h =>
    rw [if_neg h]
    split
    · next rest hrest =>
      rw [← List.tail_drop, hrest]
      rfl
    · next hparen =>
      rw [if_neg]
      intro hhead
      obtain ⟨t, ht⟩ := List.head?_eq_some_iff.mp hhead
      exact hparen t ht

theorem identLength_le_taken (s : List Char) : identLength s ≤ taken (identlikeMeasure s) := by
  rw [identlikeMeasure_eq]
  split
  · next h => rw [h]; exact Nat.zero_le _
  · split
    · split
      · exact Nat.le_add_right_of_le (Nat.le_succ _)
      · exact Nat.le_succ _
    · exact Nat.le_refl _

section Names

variable {m : Char}

/-- A mark ends what starts like an identifier, unless it is escaped, stands in an address or is a
parenthesis right behind the name. -/
theorem identlikeMeasure_settles (hm : isStop m = true) (hparen : isMark m = true ∨ '(' ∉ s) :
    Settles ('\\' ∈ s ∨ '(' ∈ s ∨ m = '(' ∧ identLength s = s.length) taken m identlikeMeasure
      s := by
  have hs := identlikeMeasure_eq s
  have hr := fun r => identlikeMeasure_eq (s ++ m :: r)
  rcases identLength_settles hm s with ⟨hle, heq⟩ | ⟨hback, hlt⟩
  · rw [id] at hle
    simp only [heq, List.drop_append_of_le_length hle, List.take_append_of_le_length hle] at hr
    by_cases hn : identLength s = 0
    · simp only [if_pos hn] at hs hr
      exact Or.inl (.of_eq none (Nat.zero_le _) hs hr)
    · simp only [if_neg hn] at hs hr
      cases hdrop : s.drop (identLength s) with
      | nil =>
        have hlen := List.drop_eq_nil_iff.mp hdrop
        by_cases hm' : m = '('
        · refine Or.inr ⟨Or.inr (Or.inr ⟨hm', Nat.le_antisymm hle hlen⟩), fun r => ?_⟩
          rw [hr, hdrop, hm', List.nil_append, List.head?_cons, if_pos rfl]
          split
          · show s.length < identLength s + 1 + _
            omega
          · exact Nat.lt_succ_of_le hlen
        · simp only [hdrop, List.nil_append, List.head?_nil, List.head?_cons, Option.some.injEq,
            if_neg hm', reduceCtorEq, if_false] at hs hr
          exact Or.inl (.of_eq (some (.ident, identLength s)) hle hs hr)
      | cons d t =>
        have hlt : identLength s + 1 ≤ s.length := by
          have := congrArg List.length hdrop
          rw [List.length_drop, List.length_cons] at this
          omega
        have hmem : d ∈ s := List.mem_of_mem_drop (hdrop ▸ List.mem_cons_self)
        simp only [hdrop, List.cons_append, List.head?_cons, Option.some.injEq,
          List.drop_append_of_le_length hlt] at hs hr
        by_cases hd : d = '('
        · subst hd
          simp only [if_true] at hs hr
          have haddress := addressMeasure_settles (hparen.resolve_right (not_not_intro hmem))
            (s.drop (identLength s + 1))
          by_cases hurl :
              eqFold ((s.take (identLength s)).filter (· != '\\')) ['u', 'r', 'l'] = true
          · simp only [if_pos hurl] at hs hr
            exact haddress.of_drop (fun _ => Or.inr (Or.inl hmem))
              (fun a => some (a.1, identLength s + 1 + a.2)) (fun _ => rfl) hlt hs hr
          · simp only [if_neg hurl] at hs hr
            exact Or.inl (.of_eq (some (.function, identLength s + 1)) hlt hs hr)
        · simp only [if_neg hd] at hs hr
          exact Or.inl (.of_eq (some (.ident, identLength s)) hle hs hr)
  · exact Or.inr ⟨Or.inl hback, fun r => Nat.lt_of_lt_of_le (hlt r) (identLength_le_taken _)⟩

theorem numericMeasure_eq (s : List Char) :
    numericMeasure s =
      if numberLength s = 0 then none
      else if (s.drop (numberLength s)).head? = some '%' then some (.percentage, numberLength s + 1)
      else some (if identLength (s.drop (numberLength s)) = 0 then .number else .dimension,
        numberLength s + identLength (s.drop (numberLength s))) := by
  rw [numericMeasure]
  split
  · next h => rw [if_pos h]
  · next h =>
    rw [if_neg h]
    split
    · next rest hrest => rw [hrest]; rfl
    · next hpercent =>
      rw [if_neg]
      · split
        · next hzero => rw [if_pos hzero, hzero]; rfl
        · next hne => rw [if_neg hne]
      · intro hhead
        obtain ⟨t, ht⟩ := List.head?_eq_some_iff.mp hhead
        exact hpercent t ht

theorem numericMeasure_settles (hm : isStop m = true) (s : List Char) :
    Settles ('\\' ∈ s) taken m numericMeasure s := by
  have hs := numericMeasure_eq s
  have hr := fun r => numericMeasure_eq (s ++ m :: r)
  have hle := numberLength_le_length s
  simp only [numberLength_stop hm, List.drop_append_of_le_length hle] at hr
  generalize numberLength s = n at hs hr hle
  by_cases hn : n = 0
  · simp only [if_pos hn] at hs hr
    exact Or.inl (.of_eq _ (Nat.zero_le _) hs hr)
  · simp only [if_neg hn] at hs hr
    by_cases hhead : (s.drop n).head? = some '%'
    · obtain ⟨t, ht⟩ := List.head?_eq_some_iff.mp hhead
      have hlen := congrArg List.length ht
      rw [List.length_drop, List.length_cons] at hlen
      simp only [ht, List.cons_append, List.head?_cons, if_true] at hs hr
      exact Or.inl (.of_eq (some (.percentage, n + 1)) (show n + 1 ≤ s.length by omega) hs hr)
    · have hhead' : ∀ r, (s.drop n ++ m :: r).head? ≠ some '%' := by
        intro r
        cases hdrop : s.drop n with
        | nil => simpa using ne_of_class hm (d := '%') rfl
        | cons d t => simpa [hdrop] using hhead
      simp only [if_neg hhead, if_neg (hhead' _)] at hs hr
      exact (identLength_settles hm (s.drop n)).of_drop List.mem_of_mem_drop
        (fun k => some (if k = 0 then .number else .dimension, n + k)) (fun _ => rfl) hle hs hr

/-- A first reading that finds nothing leaves the text to a second one. -/
theorem Settles.or {Q : Prop} {f g : List Char → Option (Kind × Nat)} (hf : Settles P taken m f s)
    (hg : Settles Q taken m g s) :
    Settles ((P ∧ ∀ r, (f (s ++ m :: r)).or (g (s ++ m :: r)) = f (s ++ m :: r)) ∨
        Q ∧ ∀ r, (f (s ++ m :: r)).or (g (s ++ m :: r)) = g (s ++ m :: r)) taken m
      (fun t => (f t).or (g t)) s := by
  rcases hf with ⟨hle, heq⟩ | ⟨hP, hlt⟩
  · cases hfs : f s with
    | some a =>
      rw [hfs] at hle heq
      exact Or.inl (.of_eq (some a) hle (by simp only [hfs, Option.some_or]) fun r => by
        simp only [heq, Option.some_or])
    | none =>
      rw [hfs] at heq
      have hr : ∀ r, (f (s ++ m :: r)).or (g (s ++ m :: r)) = g (s ++ m :: r) := fun r => by
        simp only [heq, Option.none_or]
      rcases hg with hg | ⟨hQ, hlt⟩
      · exact Settles.of_eq (Or.inl hg) (by simp only [hfs, Option.none_or]) hr
      · exact Or.inr ⟨Or.inr ⟨hQ, hr⟩, fun r => by simpa only [hr] using hlt r⟩
  · have hr : ∀ r, (f (s ++ m :: r)).or (g (s ++ m :: r)) = f (s ++ m :: r) := by
      intro r
      have := hlt r
      cases hfs : f (s ++ m :: r) with
      | some a => rfl
      | none =>
        rw [hfs] at this
        cases this
    exact Or.inr ⟨Or.inl ⟨hP, hr⟩, fun r => by simpa only [hr] using hlt r⟩

def hyphensMeasure : List Char → Option (Kind × Nat)
  | '-' :: '-' :: cs =>
    if cs.head? = some '>' then some (.closeMarkup, 3)
    else if identLength ('-' :: cs) = 0 then none
    else some (.customName, identLength ('-' :: cs) + 1)
  | _ => none

theorem hyphensMeasure_of_ne (h : ∀ cs, s ≠ '-' :: '-' :: cs) : hyphensMeasure s = none := by
  unfold hyphensMeasure
  split
  · next cs => exact absurd rfl (h cs)
  · rfl

theorem hyphenMeasure_eq (s : List Char) :
    hyphenMeasure s = (numericMeasure s).or ((identlikeMeasure s).or (hyphensMeasure s)) := by
  unfold hyphenMeasure
  cases numericMeasure s with
  | some a => rfl
  | none =>
    cases identlikeMeasure s with
    | some a => rfl
    | none =>
      simp only [Option.none_or]
      split
      · rfl
      · next cs hcs =>
        rw [hyphensMeasure, if_neg fun hhead => ?_]
        · cases identLength ('-' :: cs) <;> rfl
        · obtain ⟨t, ht⟩ := List.head?_eq_some_iff.mp hhead
          exact hcs t (by rw [ht])
      · next hne => exact (hyphensMeasure_of_ne hne).symm

theorem hyphensMeasure_settles (hm : isStop m = true) (s : List Char) :
    Settles ('\\' ∈ s) taken m hyphensMeasure s := by
  by_cases hs : ∃ cs, s = '-' :: '-' :: cs
  · obtain ⟨cs, rfl⟩ := hs
    by_cases hhead : cs.head? = some '>'
    · obtain ⟨t, rfl⟩ := List.head?_eq_some_iff.mp hhead
      exact Or.inl (.of_eq (some (.closeMarkup, 3)) (by simp [taken]) rfl fun r => rfl)
    · have hhead' : ∀ r, (cs ++ m :: r).head? ≠ some '>' := by
        intro r
        cases cs with
        | nil => simpa using ne_of_class hm (d := '>') rfl
        | cons d t => exact hhead
      have hcons : ∀ t : List Char, t.head? ≠ some '>' → hyphensMeasure ('-' :: '-' :: t) =
          if identLength ('-' :: t) = 0 then none
          else some (.customName, identLength ('-' :: t) + 1) := fun t ht => if_neg ht
      rcases identLength_settles hm ('-' :: cs) with ⟨hle, heq⟩ | ⟨hmem, hlt⟩
      · refine Or.inl ⟨?_, fun r => ?_⟩
        · rw [hcons cs hhead]
          split
          · exact Nat.zero_le _
          · exact Nat.succ_le_succ hle
        · have := heq r
          rw [List.cons_append] at this
          rw [List.cons_append, List.cons_append, hcons _ (hhead' r), this, hcons cs hhead]
      · refine Or.inr ⟨List.mem_cons_of_mem _ hmem, fun r => ?_⟩
        have := hlt r
        rw [id, List.cons_append] at this
        rw [List.cons_append, List.cons_append, hcons _ (hhead' r), if_neg (by omega)]
        exact Nat.succ_lt_succ this
  · have hne : ∀ cs, s ≠ '-' :: '-' :: cs := fun cs h => hs ⟨cs, h⟩
    refine Or.inl (.of_eq none (Nat.zero_le _) (hyphensMeasure_of_ne hne) fun r =>
      hyphensMeasure_of_ne fun cs h => ?_)
    have hm' : m ≠ '-' := ne_of_class hm rfl
    rcases s with _ | ⟨c, _ | ⟨d, t⟩⟩
    · exact hm' (List.cons.inj h).1
    · exact hm' (List.cons.inj (List.cons.inj h).2).1
    · obtain ⟨rfl, htail⟩ := List.cons.inj h
      obtain ⟨rfl, -⟩ := List.cons.inj htail
      exact hne t rfl

end Names

/-! ### The ways to find a token -/

/-- The kinds of tokens that are a part of a name or a line and nothing else. -/
def Kind.isPlain (k : Kind) : Bool :=
  !([.whitespace, .comment, .function, .leftParen, .rightParen, .semicolon, .leftBrace,
    .rightBrace].contains k)

def isFence (c : Char) : Bool := ['(', ')', ';', '\x7b', '\x7d'].contains c

def fixedMeasure (table : List (List Char × Kind)) (t : List Char) : Option (Kind × Nat) :=
  (table.find? fun x => x.1.isPrefixOf t).map fun x => (x.2, x.1.length + 1)

theorem fixedMeasure_singleton (d : Char) (kind : Kind) (t : List Char) :
    fixedMeasure [([d], kind)] t = if t.head? = some d then some (kind, 2) else none := by
  cases t with
  | nil => rfl
  | cons x t =>
    by_cases h : d = x
    · simp [fixedMeasure, h]
    · simp [fixedMeasure, h, Ne.symm h]

inductive First (c : Char) : Prop where
  | blank (hc : isSpace c = true)
      (h : ∀ t, measure? c t = some (.whitespace, 1 + spaceLength t))
  | fixed (table : List (List Char × Kind))
      (htable : (table.all fun x => x.1.all fun d => !isStop d) = true)
      (hplain : (isFence c || table.all fun x => x.2.isPlain) = true)
      (h : ∀ t, measure? c t = fixedMeasure table t)
  | hash (h : ∀ t, measure? c t =
      if hashLength t = 0 then none else some (.hash, 1 + hashLength t))
  | keyword (h : ∀ t, measure? c t =
      if identLength t = 0 then none else some (.atKeyword, 1 + identLength t))
  | string (hc : c = '"' ∨ c = '\'') (h : ∀ t, measure? c t =
      some (if (stringLength c t).2 then .string else .badString, 1 + (stringLength c t).1))
  | comment (hc : c = '/') (h : ∀ t, measure? c t =
      if t.head? = some '*' then some (.comment, 2 + commentLength (t.drop 1)) else none)
  | numeric (h : ∀ t, measure? c t = numericMeasure (c :: t))
  | hyphen (h : ∀ t, measure? c t =
      (numericMeasure (c :: t)).or ((identlikeMeasure (c :: t)).or (hyphensMeasure (c :: t))))
  | range (h : ∀ t, measure? c t =
      if rangeLength t = 0 then identlikeMeasure (c :: t)
      else some (.unicodeRange, 1 + rangeLength t))
  | identlike (h : ∀ t, measure? c t = identlikeMeasure (c :: t))
  | other (h : ∀ t, measure? c t = (numericMeasure (c :: t)).or (identlikeMeasure (c :: t)))

/-- The first character says how its token is found. -/
theorem first (c : Char) : First c := by
  by_cases hspace : isSpace c = true
  · exact .blank hspace fun t => if_pos hspace
  by_cases hc : c ∈ [':', ';', ',', '(', ')', '[', ']', '\x7b', '\x7d', '$', '*', '^', '~', '<',
      '|', '#', '@', '"', '\'', '/', '.', '+', '-', 'u', 'U', '\\']
  · simp only [List.mem_cons, List.not_mem_nil, or_false] at hc
    rcases hc with rfl | rfl | rfl | rfl | rfl | rfl | rfl | rfl | rfl | rfl | rfl | rfl | rfl | rfl
      | rfl | rfl | rfl | rfl | rfl | rfl | rfl | rfl | rfl | rfl | rfl | rfl
    · exact .fixed [([], .colon)] rfl rfl fun t => rfl
    · exact .fixed [([], .semicolon)] rfl rfl fun t => rfl
    · exact .fixed [([], .comma)] rfl rfl fun t => rfl
    · exact .fixed [([], .leftParen)] rfl rfl fun t => rfl
    · exact .fixed [([], .rightParen)] rfl rfl fun t => rfl
    · exact .fixed [([], .leftBracket)] rfl rfl fun t => rfl
    · exact .fixed [([], .rightBracket)] rfl rfl fun t => rfl
    · exact .fixed [([], .leftBrace)] rfl rfl fun t => rfl
    · exact .fixed [([], .rightBrace)] rfl rfl fun t => rfl
    · exact .fixed [(['='], .matcher)] rfl rfl fun t => (fixedMeasure_singleton _ _ t).symm
    · exact .fixed [(['='], .matcher)] rfl rfl fun t => (fixedMeasure_singleton _ _ t).symm
    · exact .fixed [(['='], .matcher)] rfl rfl fun t => (fixedMeasure_singleton _ _ t).symm
    · exact .fixed [(['='], .matcher)] rfl rfl fun t => (fixedMeasure_singleton _ _ t).symm
    · refine .fixed [(['!', '-', '-'], .openMarkup)] rfl rfl fun t => ?_
      show (if ['!', '-', '-'].isPrefixOf t = true then _ else _) = _
      cases h : ['!', '-', '-'].isPrefixOf t <;> simp [fixedMeasure, h]
    · refine .fixed [(['='], .matcher), (['|'], .column)] rfl rfl fun t => ?_
      cases t with
      | nil => rfl
      | cons d t =>
        unfold measure?
        rw [if_neg hspace]
        by_cases heq : d = '='
        · subst heq
          rfl
        · by_cases hbar : d = '|'
          · subst hbar
            rfl
          · simp [fixedMeasure, heq, hbar, Ne.symm heq, Ne.symm hbar]
    · refine .hash fun t => ?_
      unfold measure?
      cases hashLength t <;> rfl
    · refine .keyword fun t => ?_
      unfold measure?
      cases identLength t <;> rfl
    · refine .string (Or.inl rfl) fun t => ?_
      unfold measure?
      obtain ⟨n, _ | _⟩ := stringLength '"' t <;> rfl
    · refine .string (Or.inr rfl) fun t => ?_
      unfold measure?
      obtain ⟨n, _ | _⟩ := stringLength '\'' t <;> rfl
    · exact .comment rfl fun t => rfl
    · exact .numeric fun t => rfl
    · exact .numeric fun t => rfl
    · exact .hyphen fun t => hyphenMeasure_eq ('-' :: t)
    · refine .range fun t => ?_
      unfold measure?
      cases rangeLength t <;> rfl
    · refine .range fun t => ?_
      unfold measure?
      cases rangeLength t <;> rfl
    · exact .identlike fun t => rfl
  · refine .other fun t => ?_
    unfold measure?
    rw [if_neg hspace]
    split
    all_goals try exact absurd (by decide) hc
    cases numericMeasure (c :: t) <;> rfl

/-! ### Marks -/

/-- The characters by which a token comes to hold arbitrary text. -/
def opens (c : Char) : Bool := ['\\', '"', '\'', '/', '('].contains c

section Measure

variable {m : Char}

theorem Settles.tail {f : List Char → Option (Kind × Nat)} (h : Settles P taken m f (c :: s)) :
    Settles P (fun o => taken o - 1) m (fun t => f (c :: t)) s := by
  rcases h with ⟨hle, heq⟩ | ⟨hP, hlt⟩
  · exact Or.inl ⟨Nat.sub_le_of_le_add hle, heq⟩
  · exact Or.inr ⟨hP, fun r => Nat.lt_sub_of_add_lt (hlt r)⟩

theorem isPrefixOf_stop (hm : isStop m = true) {p : List Char}
    (hp : (p.all fun d => !isStop d) = true) (s r : List Char) :
    p.isPrefixOf (s ++ m :: r) = p.isPrefixOf s := by
  induction p generalizing s with
  | nil => simp
  | cons d p ih =>
    rw [List.all_cons, Bool.and_eq_true, Bool.not_eq_true'] at hp
    cases s with
    | nil =>
      rw [List.nil_append, List.isPrefixOf_cons_cons, beq_false_of_ne (ne_of_class hm hp.1).symm]
      rfl
    | cons c s =>
      rw [List.cons_append, List.isPrefixOf_cons_cons, List.isPrefixOf_cons_cons, ih hp.2]

theorem fixedMeasure_endsAt (hm : isStop m = true) {table : List (List Char × Kind)}
    (htable : (table.all fun x => x.1.all fun d => !isStop d) = true) (s : List Char) :
    EndsAt (fun o => taken o - 1) m (fixedMeasure table) s := by
  refine ⟨?_, fun r => ?_⟩
  · rw [fixedMeasure]
    cases hfind : table.find? fun x => x.1.isPrefixOf s with
    | none => exact Nat.zero_le _
    | some x =>
      have := List.find?_some hfind
      exact (List.isPrefixOf_iff_prefix.mp this).length_le
  · rw [fixedMeasure, fixedMeasure]
    rw [List.find?_congr fun x hx => isPrefixOf_stop hm (List.all_eq_true.mp htable x hx) s r]

/-- **A mark settles every token,** if it settles those that start like an identifier. -/
theorem measure?_settles (hm : isStop m = true)
    (hident : Settles P taken m identlikeMeasure (c :: s)) :
    Settles (isSpace c = true ∧ isSpace m = true ∨ (c :: s).any opens = true ∨
        P ∧ ∀ r, measure? c (s ++ m :: r) = identlikeMeasure (c :: (s ++ m :: r)))
      (fun o => taken o - 1) m (measure? c) s := by
  have hopens : ∀ {d : Char}, opens d = true → d ∈ c :: s → (c :: s).any opens = true :=
    fun hd h => List.any_eq_true.mpr ⟨_, h, hd⟩
  have hback : '\\' ∈ c :: s → (c :: s).any opens = true := hopens rfl
  have hnumeric := (numericMeasure_settles hm (c :: s)).imp hback
  have hname : ∀ {f : List Char → Nat} (kind : Kind), Settles ('\\' ∈ s) id m f s →
      Settles ((c :: s).any opens = true) (fun o => taken o - 1) m
        (fun t => if f t = 0 then none else some (kind, 1 + f t)) s := by
    intro f kind h
    refine (h.map (fun k => if k = 0 then none else some (kind, 1 + k)) fun k => ?_).imp fun h =>
      hback (List.mem_cons_of_mem c h)
    split
    · next hk => rw [hk]; rfl
    · exact Nat.add_sub_cancel_left 1 k
  cases first c with
  | blank hc h =>
    rw [funext h]
    refine ((spaceLength_settles s).map (fun k => some (Kind.whitespace, 1 + k)) fun k => ?_).imp
      fun hspace => Or.inl ⟨hc, hspace⟩
    exact Nat.add_sub_cancel_left 1 k
  | fixed table htable _ h =>
    rw [funext h]
    exact Or.inl (fixedMeasure_endsAt hm htable s)
  | hash h =>
    rw [funext h]
    exact (hname .hash (nameLike_hashLength.settles hm (class_of_isStop hm rfl) s)).imp fun h =>
      Or.inr (Or.inl h)
  | keyword h =>
    rw [funext h]
    exact (hname .atKeyword (identLength_settles hm s)).imp fun h => Or.inr (Or.inl h)
  | string hc h =>
    rw [funext h]
    have hne : m ≠ c := by
      rcases hc with rfl | rfl
      · exact ne_of_class hm rfl
      · exact ne_of_class hm rfl
    refine ((stringLength_settles hm hne s).map
      (fun a => some (if a.2 then Kind.string else Kind.badString, 1 + a.1)) fun a =>
        Nat.add_sub_cancel_left 1 a.1).imp fun _ => Or.inr (Or.inl ?_)
    rcases hc with rfl | rfl
    · exact hopens rfl List.mem_cons_self
    · exact hopens rfl List.mem_cons_self
  | comment hc h =>
    by_cases hhead : s.head? = some '*'
    · obtain ⟨t, rfl⟩ := List.head?_eq_some_iff.mp hhead
      refine (commentLength_settles hm t).of_drop (n := 1) (fun _ => ?_)
        (fun k => some (Kind.comment, 2 + k)) (fun k => ?_) (Nat.le_add_left 1 _) (h _)
        fun r => h _
      · exact Or.inr (Or.inl (hopens (d := c) (hc ▸ rfl) List.mem_cons_self))
      · show 2 + k - 1 = 1 + k
        omega
    · refine Or.inl (.of_eq none (Nat.zero_le _) ?_ fun r => ?_)
      · rw [h, if_neg hhead]
      · rw [h, if_neg]
        cases s with
        | nil => simpa using ne_of_class hm (d := '*') rfl
        | cons d t => exact hhead
  | numeric h =>
    rw [funext h]
    exact hnumeric.tail.imp fun h => Or.inr (Or.inl h)
  | hyphen h =>
    refine ((hnumeric.or (hident.or (hyphensMeasure_settles hm (c :: s)))).tail.of_eq (h s)
      fun r => h _).imp ?_
    rintro (⟨h, -⟩ | ⟨⟨hP, hinner⟩ | ⟨h, -⟩, houter⟩)
    · exact Or.inr (Or.inl h)
    · exact Or.inr (Or.inr ⟨hP, fun r => (h _).trans ((houter r).trans (hinner r))⟩)
    · exact Or.inr (Or.inl (hback h))
  | range h =>
    by_cases hzero : rangeLength s = 0
    · have hs : measure? c s = identlikeMeasure (c :: s) := by rw [h, if_pos hzero]
      have hr : ∀ r, measure? c (s ++ m :: r) = identlikeMeasure (c :: (s ++ m :: r)) := fun r => by
        rw [h, rangeLength_stop hm, if_pos hzero]
      exact (hident.tail.of_eq hs hr).imp fun hP => Or.inr (Or.inr ⟨hP, hr⟩)
    · refine Or.inl (.of_eq (some (.unicodeRange, 1 + rangeLength s)) ?_ ?_ fun r => ?_)
      · exact (Nat.add_sub_cancel_left 1 _).trans_le (rangeLength_le_length s)
      · rw [h, if_neg hzero]
      · rw [h, rangeLength_stop hm, if_neg hzero]
  | identlike h =>
    exact (hident.tail.of_eq (h s) fun r => h _).imp fun hP => Or.inr (Or.inr ⟨hP, fun r => h _⟩)
  | other h =>
    refine ((hnumeric.or hident).tail.of_eq (h s) fun r => h _).imp ?_
    rintro (⟨h, -⟩ | ⟨hP, hr⟩)
    · exact Or.inr (Or.inl h)
    · exact Or.inr (Or.inr ⟨hP, fun r => (h _).trans (hr r)⟩)

theorem measure_eq (c : Char) (t : List Char) :
    Token.measure c t = ((measure? c t).map fun a => (a.1, a.2 - 1)).getD (.delim, 0) := by
  rw [Token.measure]
  cases measure? c t <;> rfl

theorem measure_settles (hm : isStop m = true)
    (hident : Settles P taken m identlikeMeasure (c :: s)) :
    Settles (isSpace c = true ∧ isSpace m = true ∨ (c :: s).any opens = true ∨
        P ∧ ∀ r, measure? c (s ++ m :: r) = identlikeMeasure (c :: (s ++ m :: r)))
      Prod.snd m (Token.measure c) s := by
  rw [funext (measure_eq c)]
  refine (measure?_settles hm hident).map
    (fun o => (o.map fun a => (a.1, a.2 - 1)).getD (Kind.delim, 0)) fun o => ?_
  cases o <;> rfl

/-- **A mark ends the token before it in a text that opens nothing,** but for a blank behind white
space and a parenthesis right behind a name. -/
theorem measure_word (hm : isStop m = true) (hs : ∀ d ∈ c :: s, opens d = false) :
    EndsAt Prod.snd m (Token.measure c) s ∨ isSpace c = true ∧ isSpace m = true ∨
      m = '(' ∧ identLength (c :: s) = (c :: s).length ∧
        ∀ r, measure? c (s ++ m :: r) = identlikeMeasure (c :: (s ++ m :: r)) := by
  have hnot : ∀ {d : Char}, opens d = true → d ∉ c :: s := fun hd hmem => by
    rw [hs _ hmem] at hd
    cases hd
  have hident := identlikeMeasure_settles hm (Or.inr (hnot (d := '(') rfl))
  rcases measure_settles hm hident with h | ⟨h | h | ⟨h, hmeasure⟩, -⟩
  · exact Or.inl h
  · exact Or.inr (Or.inl h)
  · obtain ⟨d, hd, hopens⟩ := List.any_eq_true.mp h
    exact absurd hd (hnot hopens)
  · rcases h with h | h | ⟨hparen, hlen⟩
    · exact absurd h (hnot rfl)
    · exact absurd h (hnot rfl)
    · exact Or.inr (Or.inr ⟨hparen, hlen, hmeasure⟩)

end Measure

/-! ### Kinds -/

/-- What is found in a text is a part of a name or a line, or a function with its parenthesis. -/
def Plainly (s : List Char) (o : Option (Kind × Nat)) : Prop :=
  ∀ a, o = some a → a.1.isPlain = true ∨ a.1 = .function ∧ '(' ∈ s.take a.2

theorem Plainly.of_kind {kind : Kind} (h : kind.isPlain = true) (n : Nat) :
    Plainly s (some (kind, n)) := by
  rintro _ ⟨⟩
  exact Or.inl h

theorem Plainly.none (s : List Char) : Plainly s none := nofun

theorem Plainly.or {o p : Option (Kind × Nat)} (ho : Plainly s o) (hp : Plainly s p) :
    Plainly s (o.or p) := by
  cases o with
  | none => exact hp
  | some a => exact ho

theorem closeAddress_isPlain (n : Nat) (s : List Char) : (closeAddress n s).1.isPlain = true := by
  rw [closeAddress_eq]
  split
  · rfl
  · split <;> rfl

theorem endAddress_isPlain (ok : Bool) (n : Nat) (s : List Char) :
    (endAddress ok n s).1.isPlain = true := by
  cases ok with
  | true => exact closeAddress_isPlain n s
  | false => rfl

theorem addressMeasure_isPlain (s : List Char) : (addressMeasure s).1.isPlain = true := by
  cases h : s.drop (spaceLength s) with
  | nil =>
    rw [addressMeasure]
    simp only [h]
    rfl
  | cons c t =>
    by_cases hc : c = '"' ∨ c = '\''
    · rw [addressMeasure_quoted h hc]
      exact endAddress_isPlain _ _ s
    · rw [addressMeasure_bare h hc]
      exact endAddress_isPlain _ _ s

theorem plainly_identlikeMeasure (s : List Char) : Plainly s (identlikeMeasure s) := by
  rw [identlikeMeasure_eq]
  split
  · exact .none s
  · split
    · next hparen =>
      split
      · exact .of_kind (addressMeasure_isPlain _) _
      · rintro _ ⟨⟩
        obtain ⟨t, ht⟩ := List.head?_eq_some_iff.mp hparen
        refine Or.inr ⟨rfl, ?_⟩
        simp only [List.take_add, ht]
        exact List.mem_append_right _ List.mem_cons_self
    · exact .of_kind rfl _

theorem plainly_numericMeasure (s : List Char) : Plainly s (numericMeasure s) := by
  rw [numericMeasure_eq]
  split
  · exact .none s
  · split
    · exact .of_kind rfl _
    · split
      · exact .of_kind rfl _
      · exact .of_kind rfl _

theorem plainly_hyphensMeasure (s : List Char) : Plainly s (hyphensMeasure s) := by
  unfold hyphensMeasure
  split
  · split
    · exact .of_kind rfl _
    · split
      · exact .none _
      · exact .of_kind rfl _
  · exact .none _

/-- A name with a parenthesis right behind it: a function, or what an address takes. -/
theorem identlikeMeasure_paren (hs : ∀ d ∈ s, opens d = false) (hne : s ≠ [])
    (hlen : identLength s = s.length) (r : List Char) :
    identlikeMeasure (s ++ '(' :: r) = some (.function, s.length + 1) ∨
      ∃ kind, kind.isPlain = true ∧
        identlikeMeasure (s ++ '(' :: r) = some (kind, s.length + 1 + (addressMeasure r).2) := by
  have hident : identLength (s ++ '(' :: r) = s.length := by
    rcases identLength_settles (m := '(') rfl s with ⟨-, heq⟩ | ⟨hback, -⟩
    · exact (heq r).trans hlen
    · exact absurd (hs _ hback) (by decide)
  have hdrop : (s ++ '(' :: r).drop (s.length + 1) = r := by
    rw [← List.drop_drop, List.drop_left]
    rfl
  rw [identlikeMeasure_eq, hident, if_neg (by simpa using hne), List.drop_left, List.head?_cons,
    if_pos rfl, hdrop]
  split
  · exact Or.inr ⟨_, addressMeasure_isPlain r, rfl⟩
  · exact Or.inl rfl

/-- **A token that starts with none of the fences** is a part of a name or a line, or a function
with its parenthesis. -/
theorem plainly_measure? (hspace : isSpace c = false) (hfence : isFence c = false)
    (hslash : c ≠ '/') (t : List Char) : Plainly (c :: t) (measure? c t) := by
  cases first c with
  | blank hc _ => exact absurd hc (by rw [hspace]; decide)
  | fixed table _ hplain h =>
    rw [h, fixedMeasure]
    rw [hfence, Bool.false_or, List.all_eq_true] at hplain
    cases hfind : table.find? fun x => x.1.isPrefixOf t with
    | none => exact .none _
    | some x => exact .of_kind (hplain x (List.mem_of_find?_eq_some hfind)) _
  | hash h =>
    rw [h]
    split
    · exact .none _
    · exact .of_kind rfl _
  | keyword h =>
    rw [h]
    split
    · exact .none _
    · exact .of_kind rfl _
  | string _ h =>
    rw [h]
    split
    · exact .of_kind rfl _
    · exact .of_kind rfl _
  | comment hc _ => exact absurd hc hslash
  | numeric h => exact h t ▸ plainly_numericMeasure _
  | hyphen h =>
    exact h t ▸ (plainly_numericMeasure _).or ((plainly_identlikeMeasure _).or
      (plainly_hyphensMeasure _))
  | range h =>
    rw [h]
    split
    · exact plainly_identlikeMeasure _
    · exact .of_kind rfl _
  | identlike h => exact h t ▸ plainly_identlikeMeasure _
  | other h => exact h t ▸ (plainly_numericMeasure _).or (plainly_identlikeMeasure _)

theorem measure_plain (hspace : isSpace c = false) (hfence : isFence c = false) (hslash : c ≠ '/')
    (t : List Char) :
    (Token.measure c t).1.isPlain = true ∨
      (Token.measure c t).1 = .function ∧ '(' ∈ c :: t.take (Token.measure c t).2 := by
  have hplain := plainly_measure? hspace hfence hslash t
  rw [measure_eq]
  cases hm : measure? c t with
  | none => exact Or.inl rfl
  | some a =>
    rcases hplain a hm with h | ⟨hkind, hmem⟩
    · exact Or.inl h
    · refine Or.inr ⟨hkind, ?_⟩
      cases hn : a.2 with
      | zero =>
        rw [hn] at hmem
        cases hmem
      | succ n =>
        rw [hn, List.take_succ_cons] at hmem
        simpa [hn] using hmem

end Pagesmith.Css
