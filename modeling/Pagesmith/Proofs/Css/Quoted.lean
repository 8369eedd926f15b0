import Pagesmith.Proofs.Css.Boundary

/-!
# Comments, strings and addresses

A mark ends these only where they end anyway; otherwise it is a part of them, whatever follows it,
and so is all that they hold.

* `commentLength_settles`, `stringLength_settles`, `addressMeasure_settles`: how they settle.
-/

namespace Pagesmith.Css

open Pagesmith.Text

variable {c : Char} {cs : List Char}

/-- The marks that end every token before them but those that hold arbitrary text. -/
def isMark (m : Char) : Bool :=
  [' ', '\t', '\n', '\r', '\x0c', ':', ';', '\x7b', '\x7d'].contains m

theorem isStop_of_isMark {m : Char} (hm : isMark m = true) : isStop m = true := by
  simp only [isMark, isStop, List.contains_eq_mem, decide_eq_true_eq, List.mem_cons,
    List.not_mem_nil, or_false] at hm ⊢
  tauto

section Quoted

variable {m : Char} (hm : isStop m = true)

/-! ### Comments and strings -/

theorem commentLength_cons (h : ¬ (c = '*' ∧ cs.head? = some '/')) :
    commentLength (c :: cs) = 1 + commentLength cs := by
  rw [commentLength]
  rintro tail rfl rfl
  exact h ⟨rfl, rfl⟩

include hm in
theorem commentLength_settles (s : List Char) : Settles True id m commentLength s := by
  induction s with
  | nil =>
    refine Or.inr ⟨trivial, fun r => ?_⟩
    rw [List.nil_append, commentLength_cons fun h => ne_of_class hm rfl h.1]
    exact Nat.lt_add_right _ Nat.one_pos
  | cons c s ih =>
    by_cases hclose : c = '*' ∧ s.head? = some '/'
    · obtain ⟨rfl, hhead⟩ := hclose
      obtain ⟨t, rfl⟩ := List.head?_eq_some_iff.mp hhead
      exact Or.inl (.of_eq 2 (by simp) rfl fun r => rfl)
    · refine ih.of_drop (n := 1) id (1 + ·) (fun _ => rfl) (by simp)
        (commentLength_cons hclose) fun r => commentLength_cons ?_
      rintro ⟨rfl, hhead⟩
      cases s with
      | nil => exact ne_of_class hm rfl (Option.some.inj hhead)
      | cons d s => exact hclose ⟨rfl, hhead⟩

theorem newlineLength_cons (h : ¬ (c = '\r' ∧ cs.head? = some '\n')) :
    newlineLength (c :: cs) = if isNewline c then 1 else 0 := by
  unfold newlineLength
  split
  · next heq =>
    obtain ⟨rfl, rfl⟩ := List.cons.inj heq
    exact absurd ⟨rfl, rfl⟩ h
  · next heq =>
    obtain ⟨rfl, rfl⟩ := List.cons.inj heq
    rfl
  · next heq => cases heq

theorem newlineLength_pos (hc : isNewline c = true) (cs : List Char) :
    0 < newlineLength (c :: cs) := by
  by_cases hcr : c = '\r' ∧ cs.head? = some '\n'
  · obtain ⟨rfl, hhead⟩ := hcr
    obtain ⟨t, rfl⟩ := List.head?_eq_some_iff.mp hhead
    exact Nat.two_pos
  · rw [newlineLength_cons hcr, if_pos hc]
    exact Nat.one_pos

theorem newlineLength_settles (s : List Char) :
    Settles (isNewline m = true) id m newlineLength s := by
  cases s with
  | nil =>
    cases hnew : isNewline m with
    | true => exact Or.inr ⟨rfl, fun r => newlineLength_pos hnew r⟩
    | false =>
      refine Or.inl (.of_eq 0 (Nat.le_refl 0) rfl fun r => ?_)
      rw [List.nil_append, newlineLength_cons fun h => ne_of_class (p := fun c => !isNewline c)
        (by simpa using hnew) (d := '\r') rfl h.1, hnew, if_neg (by decide)]
  | cons c s =>
    by_cases hcr : c = '\r' ∧ s.head? = some '\n'
    · obtain ⟨rfl, hhead⟩ := hcr
      obtain ⟨t, rfl⟩ := List.head?_eq_some_iff.mp hhead
      exact Or.inl (.of_eq 2 (by simp) rfl fun r => rfl)
    · by_cases hjoin : c = '\r' ∧ s = [] ∧ m = '\n'
      · obtain ⟨rfl, rfl, rfl⟩ := hjoin
        exact Or.inr ⟨rfl, fun r => Nat.one_lt_two⟩
      · refine Or.inl ⟨?_, fun r => ?_⟩
        · rw [newlineLength_cons hcr, id, List.length_cons]
          split <;> omega
        · rw [List.cons_append, newlineLength_cons hcr, newlineLength_cons]
          rintro ⟨rfl, hhead⟩
          cases s with
          | nil => exact hjoin ⟨rfl, rfl, Option.some.inj hhead⟩
          | cons d s => exact hcr ⟨rfl, hhead⟩

def more (r : Nat × Bool) : Nat × Bool := (1 + r.1, r.2)

theorem scans_stringLengthFrom (quote : Char) : Scans Prod.fst more (stringLengthFrom quote) :=
  ⟨fun _ => rfl, fun k c cs => by rw [stringLengthFrom]; rfl⟩

theorem stringLengthFrom_zero_cons (quote c : Char) (cs : List Char) :
    stringLengthFrom quote 0 (c :: cs) =
      if isNewline c then (1, false)
      else if c = quote then (1, true)
      else if c = '\\' then
        if escapeLength (c :: cs) = 0 then more (stringLengthFrom quote (newlineLength cs) cs)
        else more (stringLengthFrom quote (escapeLength (c :: cs) - 1) cs)
      else more (stringLengthFrom quote 0 cs) := by
  rw [stringLengthFrom]
  simp only [beq_iff_eq]
  cases escapeLength (c :: cs) <;> rfl

include hm in
theorem stringLength_settles {quote : Char} (hq : m ≠ quote) (s : List Char) :
    Settles True Prod.fst m (stringLength quote) s := by
  refine (scans_stringLengthFrom quote).settles (P := fun _ => True) (fun _ _ => id)
    (Or.inr ⟨trivial, fun r => ?_⟩) (fun c s => ?_) s (Nat.zero_le _)
  · have hback : m ≠ '\\' := ne_of_class hm rfl
    rw [List.nil_append, stringLengthFrom_zero_cons]
    cases isNewline m with
    | true => exact Nat.one_pos
    | false =>
      rw [if_neg (by decide), if_neg hq, if_neg hback]
      exact Nat.lt_add_right _ Nat.one_pos
  · by_cases hnew : isNewline c = true
    · refine .ends (.of_eq (1, false) (by simp) ?_ fun r => ?_)
      · rw [stringLengthFrom_zero_cons, if_pos hnew]
      · rw [List.cons_append, stringLengthFrom_zero_cons, if_pos hnew]
    · by_cases hc : c = quote
      · refine .ends (.of_eq (1, true) (by simp) ?_ fun r => ?_)
        · rw [stringLengthFrom_zero_cons, if_neg hnew, if_pos hc]
        · rw [List.cons_append, stringLengthFrom_zero_cons, if_neg hnew, if_pos hc]
      · by_cases hback : c = '\\'
        · have hcons : ∀ t, stringLengthFrom quote 0 (c :: t) =
              if escapeLength (c :: t) = 0 then more (stringLengthFrom quote (newlineLength t) t)
              else more (stringLengthFrom quote (escapeLength (c :: t) - 1) t) := by
            intro t
            rw [stringLengthFrom_zero_cons, if_neg hnew, if_neg hc, if_pos hback]
          refine .of_escape hm (fun _ => trivial) (fun he hr => ?_) fun t ht => ?_
          · -- the backslash joins two lines
            rcases newlineLength_settles s with ⟨hle, hline⟩ | ⟨-, hlt⟩
            · refine .goes (newlineLength s) hle ?_ fun r => ?_
              · rw [hcons, if_pos he]
              · rw [hcons, if_pos (hr r), hline]
            · exact .passes trivial fun r => ⟨newlineLength (s ++ m :: r), hlt r, by
                rw [hcons, if_pos (hr r)]⟩
          · rw [hcons, if_neg ht]
        · have hcons : ∀ t,
              stringLengthFrom quote 0 (c :: t) = more (stringLengthFrom quote 0 t) := by
            intro t
            rw [stringLengthFrom_zero_cons, if_neg hnew, if_neg hc, if_neg hback]
          exact .goes 0 (Nat.zero_le _) (hcons s) fun r => hcons _

end Quoted

/-! ### Addresses -/

section Addresses

variable {m : Char} (hm : isMark m = true)

theorem addressLengthFrom_zero_cons (c : Char) (cs : List Char) :
    addressLengthFrom 0 (c :: cs) =
      if c = ')' then (0, true)
      else if isAddressStop c then
        if escapeLength (c :: cs) = 0 then (0, false)
        else more (addressLengthFrom (escapeLength (c :: cs) - 1) cs)
      else more (addressLengthFrom 0 cs) := by
  rw [addressLengthFrom]
  simp only [beq_iff_eq]
  cases escapeLength (c :: cs) <;> rfl

theorem class_of_isMark {p : Char → Bool} {m : Char} (hm : isMark m = true)
    (hp : [' ', '\t', '\n', '\r', '\x0c', ':', ';', '\x7b', '\x7d'].all (fun c => !p c) = true) :
    p m = false := by
  have := List.all_eq_true.mp hp m (by simpa [isMark] using hm)
  simpa using this

/-- Whether a bare address that stopped before `t` is as it should be, and what it has taken: the
white space behind it counts. -/
def bareEnd (a : Nat × Bool) (t : List Char) : Bool × Nat :=
  if a.2 then (true, a.1)
  else if (t.head?.map isSpace).getD false then (true, a.1 + 1)
  else (false, a.1)

def bareFrom (skip : Nat) (s : List Char) : Bool × Nat :=
  bareEnd (addressLengthFrom skip s) (s.drop (addressLengthFrom skip s).1)

def bareMore (b : Bool × Nat) : Bool × Nat := (b.1, 1 + b.2)

theorem bareFrom_of_more {k e : Nat}
    (h : addressLengthFrom k (c :: cs) = more (addressLengthFrom e cs)) :
    bareFrom k (c :: cs) = bareMore (bareFrom e cs) := by
  have hdrop : (c :: cs).drop (more (addressLengthFrom e cs)).1
      = cs.drop (addressLengthFrom e cs).1 := by
    rw [more, Nat.add_comm, List.drop_succ_cons]
  rw [bareFrom, bareFrom, h, hdrop]
  obtain ⟨n, _ | _⟩ := addressLengthFrom e cs
  · simp only [bareEnd, more, bareMore, Bool.false_eq_true, if_false]
    split
    · rw [Nat.add_assoc]
    · rfl
  · rfl

theorem scans_bareFrom : Scans Prod.snd bareMore bareFrom :=
  ⟨fun _ => rfl, fun k c cs => bareFrom_of_more (by rw [addressLengthFrom]; rfl)⟩

theorem bareFrom_zero_cons (c : Char) (cs : List Char) :
    bareFrom 0 (c :: cs) =
      if c = ')' then (true, 0)
      else if isAddressStop c then
        if escapeLength (c :: cs) = 0 then if isSpace c then (true, 1) else (false, 0)
        else bareMore (bareFrom (escapeLength (c :: cs) - 1) cs)
      else bareMore (bareFrom 0 cs) := by
  have hcons := addressLengthFrom_zero_cons c cs
  by_cases hclose : c = ')'
  · simp only [if_pos hclose] at hcons ⊢
    rw [bareFrom, hcons]
    rfl
  · by_cases hstop : isAddressStop c = true
    · by_cases he : escapeLength (c :: cs) = 0
      · simp only [if_neg hclose, if_pos hstop, if_pos he] at hcons ⊢
        rw [bareFrom, hcons]
        rfl
      · simp only [if_neg hclose, if_pos hstop, if_neg he] at hcons ⊢
        exact bareFrom_of_more hcons
    · simp only [if_neg hclose, if_neg hstop] at hcons ⊢
      exact bareFrom_of_more hcons

include hm in
/-- A mark belongs to a bare address: it is a part of it, or white space that ends it. -/
theorem bareFrom_mark (r : List Char) : 0 < (bareFrom 0 (m :: r)).2 := by
  have hclose : m ≠ ')' := ne_of_class hm rfl
  have hspace : isAddressStop m = true → isSpace m = true := by
    simpa using class_of_isMark (p := fun c => isAddressStop c && !isSpace c) hm rfl
  have hesc : escapeLength (m :: r) = 0 := escapeLength_cons (ne_of_class hm rfl) r
  rw [bareFrom_zero_cons, if_neg hclose, if_pos hesc]
  split
  · next hstop =>
    rw [if_pos (hspace hstop)]
    exact Nat.one_pos
  · exact Nat.lt_add_right _ Nat.one_pos

include hm in
theorem bareFrom_settles (s : List Char) : Settles True Prod.snd m (bareFrom 0) s := by
  refine scans_bareFrom.settles (P := fun _ => True) (fun _ _ => id)
    (Or.inr ⟨trivial, bareFrom_mark hm⟩) (fun c s => ?_) s (Nat.zero_le _)
  by_cases hclose : c = ')'
  · refine .ends (.of_eq (true, 0) (Nat.zero_le _) ?_ fun r => ?_)
    · rw [bareFrom_zero_cons, if_pos hclose]
    · rw [List.cons_append, bareFrom_zero_cons, if_pos hclose]
  · by_cases hstop : isAddressStop c = true
    · have hcons : ∀ t, bareFrom 0 (c :: t) =
          if escapeLength (c :: t) = 0 then if isSpace c then (true, 1) else (false, 0)
          else bareMore (bareFrom (escapeLength (c :: t) - 1) t) := by
        intro t
        rw [bareFrom_zero_cons, if_neg hclose, if_pos hstop]
      refine .of_escape (isStop_of_isMark hm) (fun _ => trivial) (fun he hr => .ends ?_)
        fun t ht => ?_
      · refine .of_eq (if isSpace c then (true, 1) else (false, 0)) ?_ ?_ fun r => ?_
        · split <;> simp
        · rw [hcons, if_pos he]
        · rw [List.cons_append, hcons, if_pos (hr r)]
      · rw [hcons, if_neg ht]
    · have hcons : ∀ t, bareFrom 0 (c :: t) = bareMore (bareFrom 0 t) := by
        intro t
        rw [bareFrom_zero_cons, if_neg hclose, if_neg hstop]
      exact .goes 0 (Nat.zero_le _) (hcons s) fun r => hcons _

theorem scans_remnantLengthFrom : Scans id (1 + ·) remnantLengthFrom :=
  ⟨fun _ => rfl, fun k c cs => by rw [remnantLengthFrom]⟩

theorem remnantLengthFrom_zero_cons (c : Char) (cs : List Char) :
    remnantLengthFrom 0 (c :: cs) =
      if c = ')' then 1 else 1 + remnantLengthFrom (escapeLength (c :: cs) - 1) cs := by
  rw [remnantLengthFrom]
  simp only [beq_iff_eq]

include hm in
theorem remnantLengthFrom_settles (s : List Char) :
    Settles True id m (remnantLengthFrom 0) s := by
  refine scans_remnantLengthFrom.settles (P := fun _ => True) (fun _ _ => id)
    (Or.inr ⟨trivial, fun r => ?_⟩) (fun c s => ?_) s (Nat.zero_le _)
  · have hclose : m ≠ ')' := ne_of_class hm rfl
    rw [List.nil_append, remnantLengthFrom_zero_cons, if_neg hclose]
    exact Nat.lt_add_right _ Nat.one_pos
  · by_cases hclose : c = ')'
    · refine .ends (.of_eq 1 (by simp) ?_ fun r => ?_)
      · rw [remnantLengthFrom_zero_cons, if_pos hclose]
      · rw [List.cons_append, remnantLengthFrom_zero_cons, if_pos hclose]
    · have hcons : ∀ t, remnantLengthFrom 0 (c :: t)
          = 1 + remnantLengthFrom (escapeLength (c :: t) - 1) t := by
        intro t
        rw [remnantLengthFrom_zero_cons, if_neg hclose]
      refine .of_escape (isStop_of_isMark hm) (fun _ => trivial) (fun he hr => ?_)
        fun t _ => hcons t
      refine .goes 0 (Nat.zero_le _) ?_ fun r => ?_
      · rw [hcons, he]
      · rw [hcons, hr r]

theorem le_badAddress (n : Nat) (s : List Char) : n ≤ (badAddress n s).2 := Nat.le_add_right n _

theorem closeAddress_eq (n : Nat) (s : List Char) :
    closeAddress n s =
      if s.drop (n + spaceLength (s.drop n)) = [] then (.url, n + spaceLength (s.drop n))
      else if (s.drop (n + spaceLength (s.drop n))).head? = some ')' then
        (.url, n + spaceLength (s.drop n) + 1)
      else badAddress (n + spaceLength (s.drop n)) s := by
  simp only [closeAddress]
  generalize n + spaceLength (s.drop n) = k
  split
  · next h => rw [if_pos h]
  · next h => rw [h]; rfl
  · next hnil hclose =>
    rw [if_neg hnil, if_neg]
    intro h
    obtain ⟨t, ht⟩ := List.head?_eq_some_iff.mp h
    exact hclose t ht

theorem spaceLength_le_closeAddress (n : Nat) (s : List Char) :
    n + spaceLength (s.drop n) ≤ (closeAddress n s).2 := by
  rw [closeAddress_eq]
  split
  · exact Nat.le_refl _
  · split
    · exact Nat.le_succ _
    · exact le_badAddress _ _

theorem le_closeAddress (n : Nat) (s : List Char) : n ≤ (closeAddress n s).2 :=
  Nat.le_trans (Nat.le_add_right n _) (spaceLength_le_closeAddress n s)

include hm in
theorem badAddress_settles (n : Nat) (s : List Char) :
    Settles True Prod.snd m (badAddress n) s := by
  by_cases hn : n ≤ s.length
  · refine (remnantLengthFrom_settles hm (s.drop n)).of_drop id (fun k => (.badUrl, n + k))
      (fun _ => rfl) hn rfl fun r => ?_
    rw [badAddress, List.drop_append_of_le_length hn]
  · exact .of_lt (Nat.lt_of_not_le hn) (le_badAddress n)

include hm in
theorem closeAddress_settles (n : Nat) (s : List Char) :
    Settles True Prod.snd m (closeAddress n) s := by
  by_cases hn : n ≤ s.length
  · have hdrops : ∀ r, (s ++ m :: r).drop n = s.drop n ++ m :: r := fun r =>
      List.drop_append_of_le_length hn
    rcases spaceLength_settles (m := m) (s.drop n) with ⟨hspace, hlead⟩ | ⟨-, hlt⟩
    · have hk : n + spaceLength (s.drop n) ≤ s.length := by
        rw [id, List.length_drop] at hspace
        omega
      have hs := closeAddress_eq n s
      have hr := fun r => closeAddress_eq n (s ++ m :: r)
      simp only [hdrops, hlead] at hr
      generalize n + spaceLength (s.drop n) = k at hk hs hr
      simp only [List.drop_append_of_le_length hk] at hr
      cases hdrop : s.drop k with
      | nil =>
        -- the text ends with white space, and the mark breaks the address
        have hclose : m ≠ ')' := ne_of_class hm rfl
        refine Or.inr ⟨trivial, fun r => ?_⟩
        rw [hr, hdrop, List.nil_append, if_neg (List.cons_ne_nil _ _),
          if_neg (by simpa using hclose), badAddress, List.drop_append_of_le_length hk, hdrop,
          List.nil_append, remnantLengthFrom_zero_cons, if_neg hclose]
        have := List.drop_eq_nil_iff.mp hdrop
        dsimp only
        omega
      | cons c t =>
        have hlen := congrArg List.length hdrop
        rw [List.length_drop, List.length_cons] at hlen
        simp only [hdrop, List.cons_append, List.head?_cons, if_neg (List.cons_ne_nil _ _)] at hs hr
        by_cases hc : some c = some ')'
        · simp only [if_pos hc] at hs hr
          exact Or.inl (.of_eq _ (by dsimp only; omega) hs hr)
        · simp only [if_neg hc] at hs hr
          exact (badAddress_settles hm k s).of_eq hs hr
    · -- the mark is white space before the parenthesis
      refine Or.inr ⟨trivial, fun r => ?_⟩
      have hle := spaceLength_le_closeAddress n (s ++ m :: r)
      have hlt := hlt r
      rw [id, List.length_drop] at hlt
      rw [hdrops] at hle
      omega
  · exact .of_lt (Nat.lt_of_not_le hn) (le_closeAddress n)

/-- How an address ends that has taken `n` characters of `s`, if they are as they should be. -/
def endAddress (ok : Bool) (n : Nat) (s : List Char) : Kind × Nat :=
  if ok then closeAddress n s else badAddress n s

theorem le_endAddress (ok : Bool) (n : Nat) (s : List Char) : n ≤ (endAddress ok n s).2 := by
  cases ok with
  | true => exact le_closeAddress n s
  | false => exact le_badAddress n s

include hm in
theorem endAddress_settles (ok : Bool) (n : Nat) (s : List Char) :
    Settles True Prod.snd m (endAddress ok n) s := by
  cases ok with
  | true => exact closeAddress_settles hm n s
  | false => exact badAddress_settles hm n s

theorem addressMeasure_quoted {s : List Char} {t : List Char} (h : s.drop (spaceLength s) = c :: t)
    (hc : c = '"' ∨ c = '\'') :
    addressMeasure s =
      endAddress (stringLength c t).2 (spaceLength s + 1 + (stringLength c t).1) s := by
  rw [addressMeasure]
  simp only [h, Bool.or_eq_true, beq_iff_eq, if_pos hc]
  obtain ⟨n, _ | _⟩ := stringLength c t <;> rfl

theorem addressMeasure_bare {s : List Char} {t : List Char} (h : s.drop (spaceLength s) = c :: t)
    (hc : ¬ (c = '"' ∨ c = '\'')) :
    addressMeasure s =
      endAddress (bareFrom 0 (c :: t)).1 (spaceLength s + (bareFrom 0 (c :: t)).2) s := by
  rw [addressMeasure, bareFrom]
  simp only [h, Bool.or_eq_true, beq_iff_eq, if_neg hc]
  obtain ⟨n, _ | _⟩ := addressLengthFrom 0 (c :: t)
  · simp only [bareEnd, Bool.false_eq_true, if_false]
    split <;> rfl
  · rfl

theorem spaceLength_le_addressMeasure (s : List Char) : spaceLength s ≤ (addressMeasure s).2 := by
  cases hdrop : s.drop (spaceLength s) with
  | nil =>
    rw [addressMeasure]
    simp only [hdrop]
    exact Nat.le_refl _
  | cons c t =>
    by_cases hquote : c = '"' ∨ c = '\''
    · rw [addressMeasure_quoted hdrop hquote]
      exact Nat.le_trans (by omega) (le_endAddress _ _ _)
    · rw [addressMeasure_bare hdrop hquote]
      exact Nat.le_trans (Nat.le_add_right _ _) (le_endAddress _ _ _)

include hm in
theorem addressMeasure_settles (s : List Char) : Settles True Prod.snd m addressMeasure s := by
  rcases spaceLength_settles (m := m) s with ⟨hle, hlead⟩ | ⟨-, hlt⟩
  · have hdrops : ∀ r, (s ++ m :: r).drop (spaceLength s) = s.drop (spaceLength s) ++ m :: r :=
      fun r => List.drop_append_of_le_length hle
    cases hdrop : s.drop (spaceLength s) with
    | nil =>
      have hquote : ¬ (m = '"' ∨ m = '\'') :=
        not_or.mpr ⟨ne_of_class hm rfl, ne_of_class hm rfl⟩
      have hnil := List.drop_eq_nil_iff.mp hdrop
      refine Or.inr ⟨trivial, fun r => ?_⟩
      rw [addressMeasure_bare (by rw [hlead, hdrops, hdrop, List.nil_append]) hquote, hlead]
      refine Nat.lt_of_lt_of_le ?_ (le_endAddress _ _ _)
      have := bareFrom_mark hm r
      omega
    | cons c t =>
      have hlen := congrArg List.length hdrop
      rw [List.length_drop, List.length_cons] at hlen
      have hdrop' : ∀ r, (s ++ m :: r).drop (spaceLength (s ++ m :: r)) = c :: (t ++ m :: r) := by
        intro r
        rw [hlead, hdrops, hdrop, List.cons_append]
      by_cases hquote : c = '"' ∨ c = '\''
      · have hne : m ≠ c := by
          rcases hquote with rfl | rfl
          · exact ne_of_class hm rfl
          · exact ne_of_class hm rfl
        have hr := fun r => addressMeasure_quoted (hdrop' r) hquote
        simp only [hlead] at hr
        rcases stringLength_settles (isStop_of_isMark hm) hne t with ⟨-, heq⟩ | ⟨-, hlt⟩
        · simp only [heq] at hr
          exact (endAddress_settles hm _ _ s).of_eq (addressMeasure_quoted hdrop hquote) hr
        · refine Or.inr ⟨trivial, fun r => ?_⟩
          rw [hr]
          refine Nat.lt_of_lt_of_le ?_ (le_endAddress _ _ _)
          have := hlt r
          omega
      · have hr := fun r => addressMeasure_bare (hdrop' r) hquote
        simp only [hlead] at hr
        rcases bareFrom_settles hm (c :: t) with ⟨-, heq⟩ | ⟨-, hlt⟩
        · simp only [← List.cons_append, heq] at hr
          exact (endAddress_settles hm _ _ s).of_eq (addressMeasure_bare hdrop hquote) hr
        · refine Or.inr ⟨trivial, fun r => ?_⟩
          rw [hr]
          refine Nat.lt_of_lt_of_le ?_ (le_endAddress _ _ _)
          have := hlt r
          rw [List.cons_append, List.length_cons] at this
          omega
  · -- white space behind the parenthesis goes on with the mark
    exact Or.inr ⟨trivial, fun r => Nat.lt_of_lt_of_le (hlt r) (spaceLength_le_addressMeasure _)⟩

end Addresses

/-! ### Addresses up to their parenthesis -/

section Closed

variable {s : List Char} (hs : ∀ c ∈ s, c ≠ ')' ∧ c ≠ '\\')

include hs in
theorem remnantLengthFrom_closed (r : List Char) :
    remnantLengthFrom 0 (s ++ ')' :: r) = s.length + 1 := by
  induction s with
  | nil => rfl
  | cons c s ih =>
    obtain ⟨hclose, hback⟩ := hs c List.mem_cons_self
    rw [List.cons_append, remnantLengthFrom_zero_cons, if_neg hclose, escapeLength_cons hback,
      ih fun d hd => hs d (List.mem_cons_of_mem c hd), List.length_cons]
    omega

include hs in
theorem badAddress_closed {n : Nat} (hn : n ≤ s.length) (r : List Char) :
    (badAddress n (s ++ ')' :: r)).2 = s.length + 1 := by
  rw [badAddress, List.drop_append_of_le_length hn,
    remnantLengthFrom_closed fun c hc => hs c (List.mem_of_mem_drop hc), List.length_drop]
  omega

include hs in
theorem endAddress_closed (ok : Bool) {n : Nat} (hn : n ≤ s.length) (r : List Char) :
    (endAddress ok n (s ++ ')' :: r)).2 = s.length + 1 := by
  cases ok with
  | false => exact badAddress_closed hs hn r
  | true =>
    have hk : n + spaceLength (s.drop n) ≤ s.length := by
      have := spaceLength_le_length (s.drop n)
      rw [List.length_drop] at this
      omega
    rw [endAddress, if_pos rfl, closeAddress_eq, List.drop_append_of_le_length hn,
      spaceLength_stop rfl, List.drop_append_of_le_length hk]
    rw [if_neg (by simp)]
    cases hdrop : s.drop (n + spaceLength (s.drop n)) with
    | nil =>
      have := List.drop_eq_nil_iff.mp hdrop
      rw [List.nil_append, List.head?_cons, if_pos rfl]
      dsimp only
      omega
    | cons c t =>
      have hc : c ≠ ')' := (hs c (List.mem_of_mem_drop (hdrop ▸ List.mem_cons_self))).1
      rw [List.cons_append, List.head?_cons, if_neg (by simpa using hc)]
      exact badAddress_closed hs hk r

include hs in
theorem bareFrom_closed (r : List Char) : (bareFrom 0 (s ++ ')' :: r)).2 ≤ s.length := by
  induction s with
  | nil => exact Nat.le_refl 0
  | cons c s ih =>
    obtain ⟨hclose, hback⟩ := hs c List.mem_cons_self
    have ih := ih fun d hd => hs d (List.mem_cons_of_mem c hd)
    rw [List.cons_append, bareFrom_zero_cons, if_neg hclose, escapeLength_cons hback, if_pos rfl,
      List.length_cons]
    split
    · split
      · exact Nat.succ_pos _
      · exact Nat.zero_le _
    · dsimp only [bareMore]
      omega

include hs in
/-- **An address without quotes ends at the first closing parenthesis,** well or badly. -/
theorem addressMeasure_closed (hquote : ∀ c ∈ s, c ≠ '"' ∧ c ≠ '\'') (r : List Char) :
    (addressMeasure (s ++ ')' :: r)).2 = s.length + 1 := by
  have hlead := spaceLength_le_length s
  have hdrops : (s ++ ')' :: r).drop (spaceLength (s ++ ')' :: r))
      = s.drop (spaceLength s) ++ ')' :: r := by
    rw [spaceLength_stop rfl, List.drop_append_of_le_length hlead]
  obtain ⟨c, t, hct⟩ : ∃ c t, s.drop (spaceLength s) ++ ')' :: r = c :: t :=
    List.exists_cons_of_ne_nil (by simp)
  have hc : ¬ (c = '"' ∨ c = '\'') := by
    cases hdrop : s.drop (spaceLength s) with
    | nil =>
      rw [hdrop] at hct
      obtain ⟨rfl, -⟩ := List.cons.inj hct
      decide
    | cons d u =>
      rw [hdrop] at hct
      obtain ⟨rfl, -⟩ := List.cons.inj hct
      exact not_or.mpr (hquote d (List.mem_of_mem_drop (hdrop ▸ List.mem_cons_self)))
  have haddress := bareFrom_closed (s := s.drop (spaceLength s))
    (fun d hd => hs d (List.mem_of_mem_drop hd)) r
  rw [List.length_drop] at haddress
  rw [addressMeasure_bare (hdrops.trans hct) hc, ← hct, spaceLength_stop rfl]
  exact endAddress_closed hs _ (by omega) r

end Closed

end Pagesmith.Css
