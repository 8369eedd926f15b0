import Mathlib.Data.List.Basic
import Pagesmith.Css.Token

/-!
# Where a token ends

A brace, a parenthesis, a colon, a semicolon or white space ends a name or a number just as the end
of the text does, whatever follows it.  Only an escape takes such a mark into a name.

* `Settles`: a mark ends what is read before it, or is a part of it, whatever follows.
* `Scans.settles`: a scan settles at a mark if it does so at each character.
* `identLength_settles`: how a name settles.
-/

namespace Pagesmith.Css

open Pagesmith.Text

variable {p : Char → Bool} {c : Char} {P : Prop}

/-- The marks that no name and no number goes on with. -/
def isStop (m : Char) : Bool :=
  [' ', '\t', '\n', '\r', '\x0c', '(', ')', ':', ';', '\x7b', '\x7d'].contains m

theorem ne_of_class {d : Char} (hc : p c = true) (hd : p d = false) : c ≠ d := by
  rintro rfl
  rw [hc] at hd
  cases hd

theorem not_contains_of_class {l : List Char} (hc : p c = true)
    (hl : (l.all fun d => !p d) = true) :
    l.contains c = false := by
  rw [List.contains_eq_mem, decide_eq_false_iff_not]
  intro h
  have := List.all_eq_true.mp hl c h
  rw [hc] at this
  cases this

theorem class_of_isStop {m : Char} (hm : isStop m = true)
    (hp : [' ', '\t', '\n', '\r', '\x0c', '(', ')', ':', ';', '\x7b', '\x7d'].all
      (fun c => !p c) = true) : p m = false := by
  have := List.all_eq_true.mp hp m (by simpa [isStop] using hm)
  simpa using this

section Numbers

variable {m : Char} (hm : isStop m = true)

theorem takeWhile_append_of_neg (hp : p m = false) (s r : List Char) :
    (s ++ m :: r).takeWhile p = s.takeWhile p := by
  induction s with
  | nil => simp [hp]
  | cons c s ih => simp only [List.cons_append, List.takeWhile_cons, ih]

include hm in
theorem digitsLength_stop (s r : List Char) : digitsLength (s ++ m :: r) = digitsLength s := by
  rw [digitsLength, takeWhile_append_of_neg (class_of_isStop hm rfl), digitsLength]

theorem digitsLength_le_length (s : List Char) : digitsLength s ≤ s.length :=
  (List.takeWhile_sublist _).length_le

theorem spaceLength_stop (hspace : isSpace m = false) (s r : List Char) :
    spaceLength (s ++ m :: r) = spaceLength s := by
  rw [spaceLength, takeWhile_append_of_neg hspace, spaceLength]

theorem spaceLength_le_length (s : List Char) : spaceLength s ≤ s.length :=
  (List.takeWhile_sublist _).length_le

include hm in
theorem signLength_stop (s r : List Char) : signLength (s ++ m :: r) = signLength s := by
  cases s with
  | nil => exact if_neg (by simp [ne_of_class hm (d := '+') rfl, ne_of_class hm (d := '-') rfl])
  | cons c s => rfl

theorem signLength_le_length (s : List Char) : signLength s ≤ s.length := by
  cases s with
  | nil => exact Nat.le_refl 0
  | cons c s => rw [signLength]; split <;> simp

include hm in
theorem exponentLength_stop (s r : List Char) :
    exponentLength (s ++ m :: r) = exponentLength s := by
  cases s with
  | nil => exact if_neg (by simp [ne_of_class hm (d := 'e') rfl, ne_of_class hm (d := 'E') rfl])
  | cons c s =>
    simp only [List.cons_append, exponentLength, signLength_stop hm,
      List.drop_append_of_le_length (signLength_le_length s), digitsLength_stop hm]

theorem exponentLength_le_length (s : List Char) : exponentLength s ≤ s.length := by
  cases s with
  | nil => exact Nat.le_refl 0
  | cons c s =>
    have hsign := signLength_le_length s
    have hdigits := digitsLength_le_length (s.drop (signLength s))
    rw [List.length_drop] at hdigits
    rw [exponentLength]
    split
    · simp only [List.length_cons]
      split <;> omega
    · exact Nat.zero_le _

theorem lead_le_length (s : List Char) :
    signLength s + digitsLength (s.drop (signLength s)) ≤ s.length := by
  have hsign := signLength_le_length s
  have hdigits := digitsLength_le_length (s.drop (signLength s))
  rw [List.length_drop] at hdigits
  omega

include hm in
theorem numberLength_stop (s r : List Char) : numberLength (s ++ m :: r) = numberLength s := by
  simp only [numberLength, signLength_stop hm,
    List.drop_append_of_le_length (signLength_le_length s), digitsLength_stop hm,
    List.drop_append_of_le_length (lead_le_length s)]
  generalize s.drop _ = t
  cases t with
  | nil =>
    rw [List.nil_append]
    split
    · next heq => exact absurd (List.cons.inj heq).1 (ne_of_class hm rfl)
    · rw [show exponentLength (m :: r) = 0 from exponentLength_stop hm [] r]
      rfl
  | cons c t =>
    by_cases hc : c = '.'
    · subst hc
      have hd := digitsLength_le_length t
      simp only [List.cons_append, digitsLength_stop hm]
      generalize digitsLength t = n at hd
      cases n with
      | zero => rfl
      | succ d => simp only [List.drop_append_of_le_length hd, exponentLength_stop hm]
    · simp only [List.cons_append, List.cons.injEq, hc, false_and, imp_false, not_false_eq_true,
        implies_true]
      rw [← List.cons_append, exponentLength_stop hm]

theorem numberLength_le_length (s : List Char) : numberLength s ≤ s.length := by
  have hlead := lead_le_length s
  simp only [numberLength]
  split
  · next cs heq =>
    have hlen := congrArg List.length heq
    rw [List.length_drop, List.length_cons] at hlen
    have hd := digitsLength_le_length cs
    have he := exponentLength_le_length (cs.drop (digitsLength cs))
    rw [List.length_drop] at he
    split
    · split <;> omega
    · omega
  · split
    · exact Nat.zero_le _
    · have he := exponentLength_le_length
        (s.drop (signLength s + digitsLength (s.drop (signLength s))))
      rw [List.length_drop] at he
      omega

theorem runLength_stop (hp : p m = false) (k : Nat) (s r : List Char) :
    runLength p k (s ++ m :: r) = runLength p k s := by
  induction s generalizing k with
  | nil => cases k <;> simp [runLength, hp]
  | cons c s ih => cases k <;> simp [runLength, ih]

theorem runLength_le_length (p : Char → Bool) (k : Nat) (s : List Char) :
    runLength p k s ≤ s.length := by
  induction s generalizing k with
  | nil => cases k <;> simp [runLength]
  | cons c s ih =>
    cases k with
    | zero => simp [runLength]
    | succ k =>
      have := ih k
      rw [runLength, List.length_cons]
      split <;> omega

include hm in
theorem rangeLength_stop (s r : List Char) : rangeLength (s ++ m :: r) = rangeLength s := by
  cases s with
  | nil =>
    unfold rangeLength
    split
    · next heq => exact absurd (List.cons.inj heq).1 (ne_of_class hm rfl)
    · rfl
  | cons c s =>
    by_cases hc : c = '+'
    · subst hc
      have hhex : isHexDigit m = false := class_of_isStop hm rfl
      have hmark : (m == '?') = false := beq_false_of_ne (ne_of_class hm rfl)
      simp only [List.cons_append, rangeLength, runLength_stop hhex,
        List.drop_append_of_le_length (runLength_le_length isHexDigit 6 s)]
      generalize s.drop _ = t
      cases t with
      | nil =>
        rw [List.nil_append]
        split
        · next heq => exact absurd (List.cons.inj heq).1 (ne_of_class hm rfl)
        · next heq => exact absurd (List.cons.inj heq).1 (ne_of_class hm rfl)
        · rfl
      | cons d t =>
        by_cases hd : d = '-'
        · subst hd
          simp only [List.cons_append, runLength_stop hhex]
        · by_cases hq : d = '?'
          · subst hq
            simp only [List.cons_append, runLength_stop (p := (· == '?')) hmark]
          · simp only [List.cons_append, List.cons.injEq, hd, hq, false_and, imp_false,
              not_false_eq_true, implies_true]
    · simp only [List.cons_append, rangeLength, List.cons.injEq, hc, false_and, imp_false,
        not_false_eq_true, implies_true]

theorem rangeLength_le_length (s : List Char) : rangeLength s ≤ s.length := by
  cases s with
  | nil => exact Nat.le_refl 0
  | cons c s =>
    unfold rangeLength
    split
    · next cs heq =>
      obtain ⟨-, rfl⟩ := List.cons.inj heq
      have hfirst := runLength_le_length isHexDigit 6 s
      simp only [List.length_cons]
      split
      · next ds hds =>
        have hsecond := runLength_le_length isHexDigit 7 ds
        have hlen := congrArg List.length hds
        rw [List.length_drop, List.length_cons] at hlen
        split <;> omega
      · next ds hds =>
        have hmarks := runLength_le_length (· == '?') (6 - runLength isHexDigit 6 s) ds
        have hlen := congrArg List.length hds
        rw [List.length_drop, List.length_cons] at hlen
        split <;> omega
      · split <;> omega
    · exact Nat.zero_le _

end Numbers

/-! ### Reading before a mark -/

/-- `f` reads `s` before the mark `m` as if the text ended there, whatever follows the mark. -/
def EndsAt {α : Type} (reach : α → Nat) (m : Char) (f : List Char → α) (s : List Char) : Prop :=
  reach (f s) ≤ s.length ∧ ∀ r, f (s ++ m :: r) = f s

/-- `f` reads past the mark `m` behind `s`, whatever follows the mark. -/
def Passes {α : Type} (reach : α → Nat) (m : Char) (f : List Char → α) (s : List Char) : Prop :=
  ∀ r, s.length < reach (f (s ++ m :: r))

/-- The mark ends what `f` reads or, for a cause, is read over: what follows it does not count. -/
def Settles {α : Type} (cause : Prop) (reach : α → Nat) (m : Char) (f : List Char → α)
    (s : List Char) : Prop := EndsAt reach m f s ∨ cause ∧ Passes reach m f s

section Reading

variable {α β : Type} {m : Char} {ra : α → Nat} {rb : β → Nat} {f : List Char → α}
  {g : List Char → β} {s : List Char} {n : Nat}

/-- `f` passes over some characters and then reads as `g` does. -/
theorem Settles.of_drop {Q : Prop} (h : Settles P rb m g (s.drop n)) (hPQ : P → Q) (φ : β → α)
    (hφ : ∀ b, ra (φ b) = n + rb b) (hn : n ≤ s.length) (hs : f s = φ (g (s.drop n)))
    (hr : ∀ r, f (s ++ m :: r) = φ (g (s.drop n ++ m :: r))) : Settles Q ra m f s := by
  rcases h with ⟨hle, heq⟩ | ⟨hP, hlt⟩
  · refine Or.inl ⟨?_, fun r => by rw [hr, heq, hs]⟩
    rw [List.length_drop] at hle
    rw [hs, hφ]
    omega
  · refine Or.inr ⟨hPQ hP, fun r => ?_⟩
    have := hlt r
    rw [List.length_drop] at this
    rw [hr, hφ]
    omega

theorem Settles.map (h : Settles P rb m g s) (φ : β → α) (hφ : ∀ b, ra (φ b) = rb b) :
    Settles P ra m (fun t => φ (g t)) s :=
  Settles.of_drop (n := 0) h id φ (fun b => by rw [hφ, Nat.zero_add]) (Nat.zero_le _) rfl
    fun _ => rfl

theorem Settles.imp {Q : Prop} (h : Settles P ra m f s) (hPQ : P → Q) : Settles Q ra m f s :=
  h.imp_right fun ⟨hP, hpass⟩ => ⟨hPQ hP, hpass⟩

/-- `f` reads as another function does, before the mark and without it. -/
theorem Settles.of_eq {f' : List Char → α} (h : Settles P ra m f' s) (hs : f s = f' s)
    (hr : ∀ r, f (s ++ m :: r) = f' (s ++ m :: r)) : Settles P ra m f s := by
  rcases h with ⟨hle, heq⟩ | ⟨hP, hlt⟩
  · exact Or.inl ⟨hs ▸ hle, fun r => by rw [hr, heq, hs]⟩
  · exact Or.inr ⟨hP, fun r => by rw [hr]; exact hlt r⟩

/-- What takes at least so many characters passes over a mark before them. -/
theorem Settles.of_lt (hn : s.length < n) (hf : ∀ t, n ≤ ra (f t)) : Settles True ra m f s :=
  Or.inr ⟨trivial, fun _ => Nat.lt_of_lt_of_le hn (hf _)⟩

theorem EndsAt.of_eq (a : α) (ha : ra a ≤ s.length) (hs : f s = a) (hr : ∀ r, f (s ++ m :: r) = a) :
    EndsAt ra m f s := ⟨hs ▸ ha, fun r => by rw [hr, hs]⟩

end Reading

/-- Only white space goes on with white space. -/
theorem spaceLength_settles {m : Char} (s : List Char) :
    Settles (isSpace m = true) id m spaceLength s := by
  have hcons : ∀ c t, spaceLength (c :: t) = if isSpace c = true then 1 + spaceLength t else 0 := by
    intro c t
    rw [spaceLength, List.takeWhile_cons]
    split
    · rw [List.length_cons, Nat.add_comm, spaceLength]
    · rfl
  induction s with
  | nil =>
    cases hm : isSpace m with
    | true =>
      refine Or.inr ⟨rfl, fun r => ?_⟩
      rw [List.nil_append, hcons, if_pos hm]
      exact Nat.lt_add_right _ Nat.one_pos
    | false => exact Or.inl ⟨Nat.le_refl 0, spaceLength_stop hm []⟩
  | cons c s ih =>
    cases hc : isSpace c with
    | true =>
      exact ih.of_drop (n := 1) id (1 + ·) (fun _ => rfl) (Nat.le_add_left 1 _)
        (by rw [hcons, if_pos hc]; rfl) fun r => by rw [List.cons_append, hcons, if_pos hc]; rfl
    | false =>
      have hzero : ∀ t, spaceLength (c :: t) = 0 := fun t => by rw [hcons, hc]; rfl
      exact Or.inl (.of_eq 0 (Nat.zero_le _) (hzero s) fun r => hzero _)

/-! ### Scans -/

/-- A scan goes character by character, and can be told to pass over some of them. -/
structure Scans {α : Type} (reach : α → Nat) (more : α → α) (f : Nat → List Char → α) : Prop where
  reach_more (a : α) : reach (more a) = 1 + reach a
  skip (k : Nat) (c : Char) (cs : List Char) : f (k + 1) (c :: cs) = more (f k cs)

namespace Scans

variable {α : Type} {reach : α → Nat} {more : α → α} {f : Nat → List Char → α} {m : Char}

theorem min_le (hf : Scans reach more f) (k : Nat) (s : List Char) :
    min k s.length ≤ reach (f k s) := by
  induction s generalizing k with
  | nil => simp
  | cons c s ih =>
    cases k with
    | zero => simp
    | succ k =>
      have := ih k
      rw [hf.skip, hf.reach_more, List.length_cons]
      omega

/-- What a scan does at a character before a mark: it ends there, it goes on within the text, or it
passes over the mark. -/
inductive Step (P : List Char → Prop) (reach : α → Nat) (more : α → α) (f : Nat → List Char → α)
    (m c : Char) (s : List Char) : Prop where
  | ends (h : EndsAt reach m (f 0) (c :: s))
  | goes (e : Nat) (he : e ≤ s.length) (hs : f 0 (c :: s) = more (f e s))
      (hr : ∀ r, f 0 (c :: (s ++ m :: r)) = more (f e (s ++ m :: r)))
  | passes (hP : P (c :: s))
      (hr : ∀ r, ∃ e, s.length < e ∧ f 0 (c :: (s ++ m :: r)) = more (f e (s ++ m :: r)))

/-- **A scan settles at a mark** if it does so at the end of the text and at each character. -/
theorem settles (hf : Scans reach more f) {P : List Char → Prop}
    (hP : ∀ c s, P s → P (c :: s)) (hnil : Settles (P []) reach m (f 0) [])
    (hstep : ∀ c s, Step P reach more f m c s) (s : List Char) {k : Nat} (hk : k ≤ s.length) :
    Settles (P s) reach m (f k) s := by
  induction s generalizing k with
  | nil =>
    obtain rfl : k = 0 := Nat.le_zero.mp hk
    exact hnil
  | cons c s ih =>
    have hone : 1 ≤ (c :: s).length := Nat.le_add_left 1 _
    cases k with
    | succ k =>
      exact (ih (Nat.le_of_succ_le_succ hk)).of_drop (n := 1) (hP c s) more hf.reach_more hone
        (hf.skip k c s) fun r => hf.skip k c (s ++ m :: r)
    | zero =>
      cases hstep c s with
      | ends h => exact Or.inl h
      | goes e he hs hr => exact (ih he).of_drop (n := 1) (hP c s) more hf.reach_more hone hs hr
      | passes hcause hr =>
        refine Or.inr ⟨hcause, fun r => ?_⟩
        obtain ⟨e, he, heq⟩ := hr r
        have hmin := hf.min_le e (s ++ m :: r)
        rw [List.length_append, List.length_cons] at hmin
        rw [List.cons_append, heq, hf.reach_more, List.length_cons]
        omega

end Scans

/-! ### Names -/

section Names

variable {m : Char}

theorem escapeLength_cons (h : c ≠ '\\') (cs : List Char) : escapeLength (c :: cs) = 0 := by
  unfold escapeLength
  split
  · next heq => exact absurd (List.cons.inj heq).1 h
  · rfl

/-- An escape of two characters or more: up to six hexadecimal digits and one white space. -/
theorem escapeLength_digits (d : Char) (s : List Char) :
    escapeLength ('\\' :: d :: s) =
      if isNewline d then 0
      else if isHexDigit d then
        if (((d :: s).drop (1 + runLength isHexDigit 5 s)).head?.map isSpace).getD false then
          1 + runLength isHexDigit 5 s + 2
        else 1 + runLength isHexDigit 5 s + 1
      else 2 := by
  rw [escapeLength]
  split
  · rfl
  · split
    · dsimp only
      cases (d :: s).drop (1 + runLength isHexDigit 5 s) with
      | nil => rfl
      | cons x xs => rfl
    · rfl

variable (hm : isStop m = true)

include hm in
/-- A mark ends an escape, unless it stands behind the backslash or is the blank that goes with
hexadecimal digits. -/
theorem escapeLength_settles (s : List Char) :
    Settles (s.head? = some '\\') id m escapeLength s := by
  have hhex : isHexDigit m = false := class_of_isStop hm rfl
  cases s with
  | nil => exact Or.inl ⟨Nat.le_refl 0, fun r => escapeLength_cons (ne_of_class hm rfl) r⟩
  | cons c s =>
    by_cases hc : c = '\\'
    · subst hc
      cases s with
      | nil =>
        cases hnew : isNewline m with
        | true => exact Or.inl (.of_eq 0 (Nat.zero_le _) rfl fun r => by simp [escapeLength, hnew])
        | false => exact Or.inr ⟨rfl, fun r => by simp [escapeLength, hhex, hnew]⟩
      | cons d s =>
        have hdigits : 1 + runLength isHexDigit 5 s ≤ (d :: s).length := by
          have := runLength_le_length isHexDigit 5 s
          rw [List.length_cons]
          omega
        have hs := escapeLength_digits d s
        have hr := fun r => escapeLength_digits d (s ++ m :: r)
        simp only [← List.cons_append, runLength_stop hhex,
          List.drop_append_of_le_length hdigits] at hr
        generalize 1 + runLength isHexDigit 5 s = n at hs hr hdigits
        by_cases hnew : isNewline d = true
        · simp only [if_pos hnew] at hs hr
          exact Or.inl (.of_eq 0 (Nat.zero_le _) hs hr)
        · by_cases hhexd : isHexDigit d = true
          · simp only [if_neg hnew, if_pos hhexd] at hs hr
            cases hdrop : (d :: s).drop n with
            | nil =>
              have hle := List.drop_eq_nil_iff.mp hdrop
              simp only [hdrop, List.nil_append, List.head?_cons, Option.map_some,
                Option.getD_some] at hs hr
              cases hspace : isSpace m with
              | true =>
                refine Or.inr ⟨rfl, fun r => ?_⟩
                rw [hr, if_pos hspace, id, List.length_cons]
                omega
              | false =>
                simp only [hspace] at hr
                exact Or.inl (.of_eq (n + 1) (Nat.succ_le_succ hdigits) hs hr)
            | cons x xs =>
              have hlen := congrArg List.length hdrop
              rw [List.length_drop, List.length_cons (a := x)] at hlen
              simp only [hdrop, List.cons_append, List.head?_cons] at hs hr
              refine Or.inl (.of_eq _ ?_ hs hr)
              rw [id, List.length_cons]
              split <;> omega
          · simp only [if_neg hnew, if_neg hhexd] at hs hr
            exact Or.inl (.of_eq 2 (by simp) hs hr)
    · exact Or.inl (.of_eq 0 (Nat.zero_le _) (escapeLength_cons hc s) fun r =>
        escapeLength_cons hc (s ++ m :: r))

theorem Scans.Step.of_escape {α : Type} {reach : α → Nat} {more : α → α} {f : Nat → List Char → α}
    {s : List Char} {P : List Char → Prop} (hm : isStop m = true) (hP : c = '\\' → P (c :: s))
    (hzero : escapeLength (c :: s) = 0 → (∀ r, escapeLength (c :: (s ++ m :: r)) = 0) →
      Step P reach more f m c s) (hsucc : ∀ t, escapeLength (c :: t) ≠ 0 →
      f 0 (c :: t) = more (f (escapeLength (c :: t) - 1) t)) : Step P reach more f m c s := by
  rcases escapeLength_settles hm (c :: s) with ⟨hle, hesc⟩ | ⟨hback, hesc⟩
  · have hesc' : ∀ r, escapeLength (c :: (s ++ m :: r)) = escapeLength (c :: s) := hesc
    by_cases he : escapeLength (c :: s) = 0
    · exact hzero he fun r => (hesc' r).trans he
    · refine .goes (escapeLength (c :: s) - 1) ?_ (hsucc s he) fun r => ?_
      · rw [id, List.length_cons] at hle
        omega
      · rw [hsucc _ (by rw [hesc']; exact he), hesc']
  · refine .passes (hP (Option.some.inj hback)) fun r => ?_
    have hlen : (c :: s).length < escapeLength (c :: (s ++ m :: r)) := hesc r
    rw [List.length_cons] at hlen
    exact ⟨_, by omega, hsucc _ (by omega)⟩

theorem nameLengthFrom_zero_cons (hc : isName c = false) (cs : List Char) :
    nameLengthFrom 0 (c :: cs) =
      if escapeLength (c :: cs) = 0 then 0
      else 1 + nameLengthFrom (escapeLength (c :: cs) - 1) cs := by
  rw [nameLengthFrom, hc, if_neg (by decide)]
  cases escapeLength (c :: cs) with
  | zero => rfl
  | succ e => rfl

theorem scans_nameLengthFrom : Scans id (1 + ·) nameLengthFrom :=
  ⟨fun _ => rfl, fun k c cs => by rw [nameLengthFrom]⟩

include hm in
theorem nameLength_settles (s : List Char) : Settles ('\\' ∈ s) id m nameLength s := by
  refine scans_nameLengthFrom.settles (fun c _ => List.mem_cons_of_mem c) (Or.inl ?_)
    (fun c s => ?_) s (Nat.zero_le _)
  · refine .of_eq 0 (Nat.le_refl 0) rfl fun r => ?_
    rw [List.nil_append, nameLengthFrom_zero_cons (class_of_isStop hm rfl),
      if_pos (escapeLength_cons (ne_of_class hm rfl) r)]
  · cases hc : isName c with
    | true =>
      have hgo : ∀ t, nameLengthFrom 0 (c :: t) = 1 + nameLengthFrom 0 t := fun t => by
        rw [nameLengthFrom, if_pos hc]
      exact .goes 0 (Nat.zero_le _) (hgo s) fun r => hgo _
    | false =>
      refine .of_escape hm (fun h => h ▸ List.mem_cons_self) (fun he hr => .ends ?_) fun t ht => ?_
      · refine .of_eq 0 (Nat.zero_le _) ?_ fun r => ?_
        · rw [nameLengthFrom_zero_cons hc, if_pos he]
        · rw [List.cons_append, nameLengthFrom_zero_cons hc, if_pos (hr r)]
      · rw [nameLengthFrom_zero_cons hc, if_neg ht]

/-- What starts with a character of a class or with an escape, and goes on as a name. -/
structure NameLike (p : Char → Bool) (f : List Char → Nat) : Prop where
  nil : f [] = 0
  cons (c : Char) (cs : List Char) : f (c :: cs) =
    if p c = true then 1 + nameLength cs
    else if escapeLength (c :: cs) = 0 then 0
    else escapeLength (c :: cs) + nameLength ((c :: cs).drop (escapeLength (c :: cs)))

theorem nameLike_bareIdentLength : NameLike isNameStart bareIdentLength := by
  refine ⟨rfl, fun c cs => ?_⟩
  rw [bareIdentLength]
  split
  · rfl
  · split
    · next h => rw [if_pos h]
    · next h => rw [if_neg h]

theorem nameLike_hashLength : NameLike isName hashLength := by
  refine ⟨rfl, fun c cs => ?_⟩
  rw [hashLength]
  split
  · rfl
  · split
    · next h => rw [if_pos h]
    · next h => rw [if_neg h]

include hm in
theorem NameLike.settles {f : List Char → Nat} (hf : NameLike p f) (hp : p m = false)
    (s : List Char) : Settles ('\\' ∈ s) id m f s := by
  cases s with
  | nil =>
    refine Or.inl (.of_eq 0 (Nat.le_refl 0) hf.nil fun r => ?_)
    rw [List.nil_append, hf.cons, hp, if_neg (by decide),
      if_pos (escapeLength_cons (ne_of_class hm rfl) r)]
  | cons c s =>
    have hone : 1 ≤ (c :: s).length := Nat.le_add_left 1 _
    cases hc : p c with
    | true =>
      have hcons : ∀ t, f (c :: t) = 1 + nameLength t := fun t => by rw [hf.cons, if_pos hc]
      exact (nameLength_settles hm s).of_drop (n := 1) (List.mem_cons_of_mem c) (1 + ·)
        (fun _ => rfl) hone (hcons s) fun r => hcons _
    | false =>
      have hcons : ∀ t, f (c :: t) = if escapeLength (c :: t) = 0 then 0
          else escapeLength (c :: t) + nameLength ((c :: t).drop (escapeLength (c :: t))) := by
        intro t
        rw [hf.cons, hc, if_neg (by decide)]
      rcases escapeLength_settles hm (c :: s) with ⟨hle, hesc⟩ | ⟨hback, hesc⟩
      · have heq := fun r => hcons (s ++ m :: r)
        simp only [← List.cons_append, hesc] at heq
        rw [id] at hle
        by_cases he : escapeLength (c :: s) = 0
        · refine Or.inl (.of_eq 0 (Nat.zero_le _) ?_ fun r => ?_)
          · rw [hcons, if_pos he]
          · rw [heq, if_pos he]
        · -- the name goes on behind an escape
          refine (nameLength_settles hm _).of_drop List.mem_of_mem_drop (_ + ·) (fun _ => rfl) hle
            ?_ fun r => ?_
          · rw [hcons, if_neg he]
          · rw [heq, if_neg he, List.drop_append_of_le_length hle]
      · obtain rfl := Option.some.inj hback
        refine Or.inr ⟨List.mem_cons_self, fun r => ?_⟩
        have hlen := hesc r
        rw [id, List.cons_append] at hlen ⊢
        rw [hcons, if_neg (by omega)]
        omega

theorem identLength_cons (h : c ≠ '-') (cs : List Char) :
    identLength (c :: cs) = bareIdentLength (c :: cs) := by
  unfold identLength
  split
  · next heq => exact absurd (List.cons.inj heq).1 h
  · rfl

theorem identLength_hyphen (cs : List Char) :
    identLength ('-' :: cs) = if bareIdentLength cs = 0 then 0 else bareIdentLength cs + 1 := by
  rw [identLength]
  cases bareIdentLength cs with
  | zero => rfl
  | succ n => rfl

include hm in
theorem identLength_settles (s : List Char) : Settles ('\\' ∈ s) id m identLength s := by
  have hbare := nameLike_bareIdentLength.settles hm (class_of_isStop hm rfl)
  cases s with
  | nil => exact (hbare []).of_eq rfl fun r => identLength_cons (ne_of_class hm rfl) r
  | cons c s =>
    by_cases hc : c = '-'
    · subst hc
      rcases hbare s with ⟨hle, heq⟩ | ⟨hmem, hlt⟩
      · refine Or.inl ⟨?_, fun r => ?_⟩
        · rw [id] at hle ⊢
          rw [identLength_hyphen, List.length_cons]
          split <;> omega
        · rw [List.cons_append, identLength_hyphen, identLength_hyphen, heq]
      · refine Or.inr ⟨List.mem_cons_of_mem _ hmem, fun r => ?_⟩
        have := hlt r
        rw [id] at this ⊢
        rw [List.cons_append, identLength_hyphen, if_neg (by omega), List.length_cons]
        omega
    · exact (hbare (c :: s)).of_eq (identLength_cons hc s) fun r => identLength_cons hc _

end Names

end Pagesmith.Css
