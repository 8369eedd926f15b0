import Mathlib.Data.List.Forall2
import Mathlib.Tactic
import Pagesmith.Proofs.Logic.Layout
import Pagesmith.Proofs.Outcome

/-!
# The tokens of statements

Tokens go through a buffer on their way into statements, and a statement finds its expression again
in that buffer.  No token is lost, doubled or moved on the way.  Which tokens belong together is
said here without the buffer: a statement ends before a semicolon outside brackets, and before a
token that follows a line end outside brackets, unless it goes on with a member.  The expression is
their texts one after another.  White space keeps two words apart, but comments do not.

* `wordsFrom`: the tokens that statements are made of.
* `groups`: the words of each statement, with the white space between them.
* `Made`: what a statement made of some tokens looks like.
* `Reading.forall₂_made`: the statements read from a state are made of the groups.
* `split_made`: the statements of a logic block, their words and their lines.
-/

namespace Pagesmith.Logic

open Pagesmith.Text

variable {t : Token} {ts : List Token} {s : Statement} {statements : List Statement}

/-! ### Words and their groups -/

/-- What a token contributes where some brackets are open: nothing if it is layout, `await` or a
semicolon outside brackets, else itself as the expression language writes it. -/
def Token.wordAt (t : Token) (depth : Nat) : List Token :=
  if t.isLayout || t.isAwait || (t.kind = .semicolon && depth = 0) then [] else [t.respelled]

/-- The words of a token list that starts where some brackets are open. -/
def wordsFrom (depth : Nat) : List Token → List Token
  | [] => []
  | t :: ts => t.wordAt depth ++ wordsFrom (t.depthAfter depth) ts

/-- What is seen of a token: white space, a line end inside brackets as a blank, or its word. -/
def Token.shownAt (t : Token) (depth : Nat) : List Token :=
  match t.kind with
  | .comment => []
  | .space => [t]
  | .newline => if 0 < depth then [{ t with text := [' '] }] else []
  | _ => t.wordAt depth

def shownFrom (depth : Nat) : List Token → List Token
  | [] => []
  | t :: ts => t.shownAt depth ++ shownFrom (t.depthAfter depth) ts

/-- What is seen of a token list, in groups that end where a statement ends; the first group goes on
with the statement before the list.  `ended` tells that a line has ended since the last token that
is not layout. -/
def groupsFrom (depth : Nat) (ended : Bool) : List Token → List (List Token)
  | [] => [[]]
  | t :: ts =>
    let line := t.isLayout && (ended || (t.kind = .newline && depth = 0))
    let later := (groupsFrom (t.depthAfter depth) line ts).modifyHead (t.shownAt depth ++ ·)
    if !t.isLayout && ((t.kind = .semicolon && depth = 0) || (ended && !t.continues)) then
      [] :: later
    else later

/-- What is seen of each statement of a token list.  A statement has a word. -/
def groups (ts : List Token) : List (List Token) :=
  (groupsFrom 0 false ts).filter (·.any Token.isSignificant)

theorem isSignificant_respelled (h : t.isLayout = false) : t.respelled.isSignificant = true := by
  have hkind : t.respelled.kind = t.kind := by
    simp only [Token.respelled, apply_ite Token.kind, ite_self]
  simp only [Token.isLayout, Bool.or_eq_false_iff, decide_eq_false_iff_not] at h
  simp [Token.isSignificant, hkind, h.1.2, h.2]

theorem shownAt_of_not_layout (h : t.isLayout = false) (depth : Nat) :
    t.shownAt depth = t.wordAt depth := by
  cases hkind : t.kind <;> simp_all [Token.isLayout, Token.shownAt]

theorem filter_shownAt (t : Token) (depth : Nat) :
    (t.shownAt depth).filter Token.isSignificant = t.wordAt depth := by
  have hlayout : t.isLayout = true → t.wordAt depth = [] := fun h => by simp [Token.wordAt, h]
  rcases t.kind_cases with hkind | hkind | hkind | hword
  · rw [hlayout (by simp [Token.isLayout, hkind]), Token.shownAt, hkind]
    rfl
  · rw [hlayout (by simp [Token.isLayout, hkind]), Token.shownAt, hkind]
    simp [Token.isSignificant, hkind]
  · rw [hlayout (by simp [Token.isLayout, hkind]), Token.shownAt, hkind]
    dsimp only
    split
    · simp [Token.isSignificant]
    · rfl
  · rw [shownAt_of_not_layout hword, Token.wordAt]
    split
    · rfl
    · simp [isSignificant_respelled hword]

theorem filter_shownFrom (depth : Nat) (ts : List Token) :
    (shownFrom depth ts).filter Token.isSignificant = wordsFrom depth ts := by
  induction ts generalizing depth with
  | nil => rfl
  | cons t ts ih => rw [shownFrom, wordsFrom, List.filter_append, filter_shownAt, ih]

theorem groupsFrom_ne_nil (depth : Nat) (ended : Bool) (ts : List Token) :
    groupsFrom depth ended ts ≠ [] := by
  induction ts generalizing depth ended with
  | nil => simp [groupsFrom]
  | cons t ts ih =>
    rw [groupsFrom]
    split
    · exact List.cons_ne_nil _ _
    · simpa using ih _ _

theorem flatten_modifyHead {g : List Token} {gs : List (List Token)} (h : gs ≠ []) :
    (gs.modifyHead (g ++ ·)).flatten = g ++ gs.flatten := by
  obtain ⟨x, xs, rfl⟩ := List.exists_cons_of_ne_nil h
  simp

theorem flatten_groupsFrom (depth : Nat) (ended : Bool) (ts : List Token) :
    (groupsFrom depth ended ts).flatten = shownFrom depth ts := by
  induction ts generalizing depth ended with
  | nil => rfl
  | cons t ts ih =>
    rw [groupsFrom, shownFrom]
    split
    · rw [List.flatten_cons, List.nil_append, flatten_modifyHead (groupsFrom_ne_nil _ _ ts), ih]
    · rw [flatten_modifyHead (groupsFrom_ne_nil _ _ ts), ih]

theorem filter_flatten_groups (ts : List Token) :
    (groups ts).flatten.filter Token.isSignificant = wordsFrom 0 ts := by
  rw [← filter_shownFrom, ← flatten_groupsFrom 0 false, groups]
  induction groupsFrom 0 false ts with
  | nil => rfl
  | cons g gs ih =>
    rw [List.flatten_cons, List.filter_append, ← ih]
    cases hany : g.any Token.isSignificant with
    | true =>
      rw [List.filter_cons_of_pos (by exact hany), List.flatten_cons, List.filter_append]
    | false =>
      rw [List.filter_cons_of_neg (by simp [hany]),
        List.filter_eq_nil_iff.mpr (List.any_eq_false.mp hany), List.nil_append]

/-- The white space among some tokens consists of blanks. -/
def Blanked (ts : List Token) : Prop :=
  ∀ t ∈ ts, t.isSignificant = false → ∀ c ∈ t.text, isBlank c = true

theorem blanked_nil : Blanked [] := fun _ ht => absurd ht List.not_mem_nil

theorem Blanked.append {us : List Token} (hts : Blanked ts) (hus : Blanked us) :
    Blanked (ts ++ us) := fun t ht => (List.mem_append.mp ht).elim (hts t) (hus t)

theorem blanked_shownAt (h : t.kind = .space → ∀ c ∈ t.text, isBlank c = true) (depth : Nat) :
    Blanked (t.shownAt depth) := by
  rcases t.kind_cases with hkind | hkind | hkind | hword
  · rw [Token.shownAt, hkind]
    exact blanked_nil
  · rw [Token.shownAt, hkind]
    intro u hu _
    rw [List.mem_singleton.mp hu]
    exact h hkind
  · rw [Token.shownAt, hkind]
    dsimp only
    split
    · intro u hu _ c hc
      rw [List.mem_singleton.mp hu] at hc
      rw [List.mem_singleton.mp hc]
      rfl
    · exact blanked_nil
  · intro u hu hblank
    rw [shownAt_of_not_layout hword, ← filter_shownAt] at hu
    rw [(List.mem_filter.mp hu).2] at hblank
    cases hblank

theorem blanked_shownFrom (h : Spaced ts) (depth : Nat) : Blanked (shownFrom depth ts) := by
  induction ts generalizing depth with
  | nil => exact blanked_nil
  | cons t ts ih =>
    have hrest := ih (fun u hu => h u (List.mem_cons_of_mem t hu)) (t.depthAfter depth)
    exact (blanked_shownAt (h t List.mem_cons_self) depth).append hrest

theorem blanked_of_mem_groups (h : Spaced ts) {g : List Token} (hg : g ∈ groups ts) :
    Blanked g := by
  intro t ht
  apply blanked_shownFrom h 0 t
  rw [← flatten_groupsFrom 0 false]
  exact List.mem_flatten.mpr ⟨g, (List.mem_filter.mp hg).1, ht⟩

/-! ### Statements and their words -/

/-- A text is the texts of some tokens, one after another, without the white space at both ends. -/
structure Spells (source : List Char) (ts : List Token) : Prop where
  text_eq : ∃ l r, (∀ c ∈ l, isBlank c = true) ∧ (∀ c ∈ r, isBlank c = true) ∧
    ts.flatMap Token.text = l ++ source ++ r
  head {c : Char} : source.head? = some c → isBlank c = false
  last {c : Char} : source.getLast? = some c → isBlank c = false

/-- Some tokens start with some words and go on with a value, which has words as well. -/
def Parted (ts words value : List Token) : Prop :=
  ∃ front, ts = front ++ value ∧ front.filter Token.isSignificant = words ∧
    value.filter Token.isSignificant ≠ []

/-- What a statement made of some tokens looks like.  Its line is that of the first word. -/
inductive Made (ts : List Token) : Statement → Prop where
  | declared {keyword target equals : Token} {value : List Token} {source : List Char}
      (hparted : Parted ts [keyword, target, equals] value) (hkeyword : keyword.declares = true)
      (htarget : target.kind = .ident) (hequals : equals.is "=" = true)
      (hsource : Spells source value) :
      Made ts ⟨.declare (String.ofList target.text), source, keyword.line⟩
  | bare {keyword target : Token} (hwords : ts.filter Token.isSignificant = [keyword, target])
      (hkeyword : keyword.declares = true) (htarget : target.kind = .ident) :
      Made ts ⟨.declare (String.ofList target.text), [], keyword.line⟩
  | exported {exports dot target equals : Token} {value : List Token} {source : List Char}
      (hparted : Parted ts [exports, dot, target, equals] value)
      (hexports : exports.is "exports" = true) (hdot : dot.is "." = true)
      (htarget : target.kind = .ident) (hequals : equals.is "=" = true)
      (hsource : Spells source value) :
      Made ts ⟨.exported (String.ofList target.text), source, exports.line⟩
  | assigned {target equals : Token} {value : List Token} {source : List Char}
      (hparted : Parted ts [target, equals] value) (htarget : target.kind = .ident)
      (hequals : equals.is "=" = true) (hsource : Spells source value) :
      Made ts ⟨.assign (String.ofList target.text), source, target.line⟩
  | expr {first : Token} {rest : List Token} {source : List Char}
      (hwords : ts.filter Token.isSignificant = first :: rest) (hsource : Spells source ts) :
      Made ts ⟨.expr, source, first.line⟩

theorem spells_sourceOf (ts : List Token) : Spells (sourceOf ts) ts :=
  ⟨exists_eq_trim _, isBlank_of_head?_trim, isBlank_of_getLast?_trim⟩

theorem exists_front (n : Nat) (ts : List Token) :
    ∃ front, ts = front ++ afterSignificant n ts ∧
      front.filter Token.isSignificant = (ts.filter Token.isSignificant).take n := by
  induction ts generalizing n with
  | nil => cases n <;> exact ⟨[], rfl, rfl⟩
  | cons t ts ih =>
    cases n with
    | zero => exact ⟨[], rfl, rfl⟩
    | succ n =>
      rw [afterSignificant]
      cases ht : t.isSignificant with
      | true =>
        obtain ⟨front, hts, hfront⟩ := ih n
        refine ⟨t :: front, congrArg (t :: ·) hts, ?_⟩
        rw [List.filter_cons_of_pos ht, List.filter_cons_of_pos ht, hfront, List.take_succ_cons]
      | false =>
        obtain ⟨front, hts, hfront⟩ := ih (n + 1)
        refine ⟨t :: front, congrArg (t :: ·) hts, ?_⟩
        rw [List.filter_cons_of_neg (by simp [ht]), List.filter_cons_of_neg (by simp [ht]), hfront]

/-- What follows the first words of a statement is its value. -/
theorem parted_afterSignificant (words : List Token) {more : List Token} (hmore : more ≠ [])
    (h : ts.filter Token.isSignificant = words ++ more) :
    Parted ts words (afterSignificant words.length ts) := by
  obtain ⟨front, hts, hfront⟩ := exists_front words.length ts
  rw [h, List.take_left] at hfront
  refine ⟨front, hts, hfront, fun hnil => hmore ?_⟩
  rw [hts, List.filter_append, hfront, hnil] at h
  exact (List.append_cancel_left h).symm

/-- Words that neither declare nor export are assigned or are an expression. -/
theorem made_of_assign {first b c : Token} {more : List Token} {line : Nat}
    (hwords : ts.filter Token.isSignificant = first :: b :: c :: more) (hline : line = first.line)
    (h : (if (first.kind = .ident && b.is "=") = true then
        (.ok ⟨.assign (String.ofList first.text), sourceOf (afterSignificant 2 ts), line⟩ :
          Except SplitError Statement)
      else .ok ⟨.expr, sourceOf ts, line⟩) = .ok s) :
    Made ts s := by
  subst hline
  split at h
  · next hassign =>
    rw [Bool.and_eq_true, decide_eq_true_iff] at hassign
    cases h
    exact .assigned (parted_afterSignificant [first, b] (List.cons_ne_nil c more) hwords)
      hassign.1 hassign.2 (spells_sourceOf _)
  · cases h
    exact .expr hwords (spells_sourceOf ts)

/-- **A statement is made of the tokens in the buffer.** -/
theorem made_of_classify {first : Token} {rest : List Token} (hfirst : first.isSignificant = true)
    (h : classify first rest = .ok s) : Made (first :: rest) s := by
  have hwords : (first :: rest).filter Token.isSignificant
      = first :: rest.filter Token.isSignificant := List.filter_cons_of_pos hfirst
  rw [classify] at h
  rw [hwords] at h
  generalize rest.filter Token.isSignificant = words at h hwords
  rcases words with _ | ⟨b, more⟩
  · cases h
    exact .expr hwords (spells_sourceOf _)
  simp only at h
  by_cases hkeyword : first.declares = true
  · rw [if_pos hkeyword] at h
    by_cases hident : b.kind = .ident
    · rw [if_neg (not_not.mpr hident)] at h
      rcases more with _ | ⟨equals, _ | ⟨d, more⟩⟩
      · cases h
        exact .bare hwords hkeyword hident
      · cases h
      · simp only at h
        split at h
        · next hequals =>
          cases h
          exact .declared (parted_afterSignificant [first, b, equals]
            (List.cons_ne_nil d more) hwords) hkeyword hident hequals (spells_sourceOf _)
        · cases h
    · rw [if_pos hident] at h
      cases h
  · rw [if_neg hkeyword] at h
    -- an export has five words or more
    rcases more with _ | ⟨c, _ | ⟨d, _ | ⟨e, more⟩⟩⟩
    · cases h
      exact .expr hwords (spells_sourceOf _)
    · exact made_of_assign hwords rfl h
    · exact made_of_assign hwords rfl h
    · simp only at h
      split at h
      · next hexport =>
        simp only [Bool.and_eq_true, decide_eq_true_iff] at hexport
        obtain ⟨⟨⟨hexports, hdot⟩, htarget⟩, hequals⟩ := hexport
        cases h
        exact .exported (parted_afterSignificant [first, b, c, d]
          (List.cons_ne_nil e more) hwords) hexports hdot htarget hequals (spells_sourceOf _)
      · exact made_of_assign hwords rfl h

theorem Made.append_left {us : List Token} (h : Made ts s)
    (hus : ∀ t ∈ us, t.isSignificant = false) (hblank : Blanked us) : Made (us ++ ts) s := by
  have hnone : us.filter Token.isSignificant = [] := by simpa using hus
  have hfilter : (us ++ ts).filter Token.isSignificant = ts.filter Token.isSignificant := by
    rw [List.filter_append, hnone, List.nil_append]
  have hparted : ∀ {words value : List Token}, Parted ts words value →
      Parted (us ++ ts) words value := by
    rintro words value ⟨front, rfl, hfront, hvalue⟩
    refine ⟨us ++ front, (List.append_assoc _ _ _).symm, ?_, hvalue⟩
    rw [List.filter_append, hnone, hfront, List.nil_append]
  cases h with
  | declared h hkeyword htarget hequals hsource =>
    exact .declared (hparted h) hkeyword htarget hequals hsource
  | bare hwords hkeyword htarget => exact .bare (hfilter.trans hwords) hkeyword htarget
  | exported h hexports hdot htarget hequals hsource =>
    exact .exported (hparted h) hexports hdot htarget hequals hsource
  | assigned h htarget hequals hsource => exact .assigned (hparted h) htarget hequals hsource
  | expr hwords hsource =>
    obtain ⟨l, r, hl, hr, htext⟩ := hsource.text_eq
    refine .expr (hfilter.trans hwords) ⟨⟨us.flatMap Token.text ++ l, r, fun c hc => ?_, hr, ?_⟩,
      hsource.head, hsource.last⟩
    · rcases List.mem_append.mp hc with hc | hc
      · obtain ⟨t, ht, hc⟩ := List.mem_flatMap.mp hc
        exact hblank t ht (hus t ht) c hc
      · exact hl c hc
    · rw [List.flatMap_append, htext]
      simp only [List.append_assoc]

/-! ### The buffer -/

/-- What the buffer keeps of what is seen: the white space in front is left out. -/
def kept (g : List Token) : List Token := g.dropWhile (!·.isSignificant)

theorem kept_append (g us : List Token) :
    kept (g ++ us) = if (kept g).isEmpty then kept us else kept g ++ us := List.dropWhile_append

theorem kept_concat (ht : t.isSignificant = true) (g : List Token) :
    kept (g ++ [t]) = kept g ++ [t] := by
  have hself : kept [t] = [t] := by simp [kept, ht]
  rw [kept_append, hself]
  split
  · next hempty => rw [List.isEmpty_iff.mp hempty, List.nil_append]
  · rfl

theorem any_isSignificant (g : List Token) : g.any Token.isSignificant = !(kept g).isEmpty := by
  induction g with
  | nil => rfl
  | cons t g ih =>
    rw [List.any_cons, kept, List.dropWhile_cons]
    cases t.isSignificant with
    | true => rfl
    | false => exact ih

theorem isSignificant_of_kept {g rest : List Token} (h : kept g = t :: rest) :
    t.isSignificant = true := by
  have hhead := List.head?_dropWhile_not (!·.isSignificant) g
  rw [show g.dropWhile (!·.isSignificant) = t :: rest from h] at hhead
  simpa using hhead

/-- What is seen before the buffer is white space. -/
theorem exists_append_kept (g : List Token) :
    ∃ front, front ++ kept g = g ∧ ∀ t ∈ front, t.isSignificant = false := by
  refine ⟨g.takeWhile (!·.isSignificant), List.takeWhile_append_dropWhile, fun t ht => ?_⟩
  simpa using List.mem_takeWhile_imp ht

/-- What is flushed is one statement made of what is seen of it, or nothing. -/
theorem forall₂_made_flush {g : List Token} {done : List Statement} (hblank : Blanked g)
    (h : flush (kept g) = .ok done) :
    List.Forall₂ Made ([g].filter (·.any Token.isSignificant)) done := by
  have hany := any_isSignificant g
  cases hkept : kept g with
  | nil =>
    rw [hkept] at h hany
    cases h
    rw [List.filter_cons_of_neg (by simp [hany])]
    exact .nil
  | cons first rest =>
    rw [hkept] at h hany
    rw [List.filter_cons_of_pos (by exact hany), List.filter_nil]
    rw [flush] at h
    cases hclassify : classify first rest with
    | error e =>
      rw [hclassify] at h
      cases h
    | ok s =>
      rw [hclassify] at h
      cases h
      obtain ⟨front, hsplit, hfront⟩ := exists_append_kept g
      rw [hkept] at hsplit
      have hmade := made_of_classify (isSignificant_of_kept hkept) hclassify
      subst hsplit
      exact .cons (hmade.append_left hfront fun t ht => hblank t (List.mem_append_left _ ht)) .nil

theorem followedBy_eq_ok {x y : Except SplitError (List Statement)}
    (h : followedBy x y = .ok statements) :
    ∃ done rest, x = .ok done ∧ y = .ok rest ∧ statements = done ++ rest := by
  cases x with
  | error e => cases h
  | ok done =>
    cases y with
    | error e => cases h
    | ok rest =>
      cases h
      exact ⟨done, rest, rfl, rfl, rfl⟩

namespace Reading

variable {r : Reading}

/-- A token adds what is seen of it to the buffer, after what it ends is taken out. -/
theorem current_next (hr : r.Sound) {g : List Token} (hg : r.current = kept g) (t : Token) :
    (r.next t).current = kept ((if r.ends t then [] else g) ++ t.shownAt r.depth) := by
  cases hlayout : t.isLayout with
  | true =>
    rw [ends_of_isLayout r hlayout, if_neg Bool.false_ne_true]
    rcases t.kind_cases with hkind | hkind | hkind | hword
    · rw [next_comment r hkind, Token.shownAt, hkind, hg, List.append_nil]
    · have hself : kept [t] = [] := by simp [kept, Token.isSignificant, hkind]
      rw [next_space r hkind, Token.shownAt, hkind, kept_append, hg, hself]
    · rw [next_newline r hkind, Token.shownAt, hkind]
      dsimp only
      split
      · next hopen =>
        have hne : ¬(kept g).isEmpty = true := by simpa [← hg] using hr.open_ne_nil hopen
        rw [kept_append, if_neg hne, hg]
      · rw [hg, List.append_nil]
    · rw [hlayout] at hword
      cases hword
  | false =>
    rw [next_of_not_layout r hlayout, take, shownAt_of_not_layout hlayout, Token.wordAt, hlayout,
      Bool.false_or]
    by_cases hparts : r.parts t = true
    · have hends : r.ends t = true := by simp [ends, hlayout, hparts]
      have hskip : (t.isAwait || (t.kind = .semicolon && r.depth = 0)) = true := by
        rw [Bool.or_eq_true]
        exact .inr hparts
      rw [if_pos hparts, if_pos hends, if_pos hskip]
      rfl
    · have hskip : (t.isAwait || (t.kind = .semicolon && r.depth = 0)) = t.isAwait := by
        rw [show (t.kind = .semicolon && r.depth = 0) = false from Bool.eq_false_iff.mpr hparts,
          Bool.or_false]
      have hbase : (if r.ends t then [] else r.current) = kept (if r.ends t then [] else g) := by
        split
        · rfl
        · exact hg
      rw [if_neg hparts, hskip, hbase]
      cases t.isAwait with
      | true => simp
      | false => exact (kept_concat (isSignificant_respelled hlayout) _).symm

/-! ### The statements that are read -/

/-- Behind layout a line end is waited on if and only if one has come and the buffer is not
empty. -/
theorem pending_next_of_isLayout (hr : r.Sound) {ended : Bool}
    (hended : r.pending = (ended && !r.current.isEmpty)) (h : t.isLayout = true) :
    (r.next t).pending
      = ((ended || (t.kind = .newline && r.depth = 0)) && !(r.next t).current.isEmpty) := by
  rcases t.kind_cases with hkind | hkind | hkind | hlayout
  · rw [next_comment r hkind, hkind, hended]
    simp
  · rw [next_space r hkind, hkind]
    by_cases hempty : r.current.isEmpty = true
    · simp [hended, hempty]
    · simp [hended, hempty]
  · rw [next_newline r hkind, hkind]
    split
    · next hopen =>
      have hne := List.isEmpty_eq_false_iff.mpr (hr.open_ne_nil hopen)
      have hadded : ∀ u : Token, (r.current ++ [u]).isEmpty = false :=
        fun u => List.isEmpty_eq_false_iff.mpr (by simp)
      simp [hended, hne, hadded, Nat.ne_of_gt hopen]
    · next hclosed =>
      have hzero : r.depth = 0 := Nat.eq_zero_of_not_pos hclosed
      simp only [hended, hzero, decide_true, Bool.and_self, Bool.or_true, Bool.true_and]
      cases ended <;> cases r.current.isEmpty <;> rfl
  · rw [hlayout] at h
    cases h

theorem pending_next (h : t.isLayout = false) : (r.next t).pending = false := by
  rw [next_of_not_layout r h, take]
  split <;> rfl

/-- A line end is waited on if and only if one has come and the buffer is not empty. -/
theorem pending_next_eq (hr : r.Sound) {ended : Bool}
    (hended : r.pending = (ended && !r.current.isEmpty)) (t : Token) :
    (r.next t).pending = ((t.isLayout && (ended || (t.kind = .newline && r.depth = 0)))
      && !(r.next t).current.isEmpty) := by
  cases hlayout : t.isLayout with
  | true => simpa using pending_next_of_isLayout hr hended hlayout
  | false => simpa using pending_next hlayout

/-- A token that ends a statement starts a new group. -/
theorem starts_of_ends {ended : Bool} (hended : r.pending = (ended && !r.current.isEmpty))
    (h : r.ends t = true) : (!t.isLayout && ((t.kind = .semicolon && r.depth = 0)
      || (ended && !t.continues))) = true := by
  rw [ends, hended, Bool.and_eq_true] at h
  rw [Bool.and_eq_true]
  refine ⟨h.1, ?_⟩
  rcases Bool.or_eq_true_iff.mp h.2 with hparts | hline
  · exact Bool.or_eq_true_iff.mpr (.inl hparts)
  · rw [Bool.and_eq_true, Bool.and_eq_true] at hline
    exact Bool.or_eq_true_iff.mpr (.inr (Bool.and_eq_true_iff.mpr ⟨hline.1.1, hline.2⟩))

/-- A token may start a new group and end no statement: a line has ended before it, but no word is
seen before it. -/
theorem current_of_starts {ended : Bool} (hended : r.pending = (ended && !r.current.isEmpty))
    (hends : r.ends t = false) (h : (!t.isLayout && ((t.kind = .semicolon && r.depth = 0)
      || (ended && !t.continues))) = true) : r.current = [] := by
  rw [Bool.and_eq_true] at h
  rw [ends, h.1, Bool.true_and, hended] at hends
  obtain ⟨hparts, hline⟩ := Bool.or_eq_false_iff.mp hends
  rcases Bool.or_eq_true_iff.mp h.2 with hcut | hcut
  · exact absurd hcut (Bool.eq_false_iff.mp hparts)
  · obtain ⟨rfl, hcontinues⟩ := Bool.and_eq_true_iff.mp hcut
    rw [hcontinues] at hline
    simpa using hline

/-- **The statements read from a state are made of the groups**, the first of which goes on with
what is seen of the statement in the buffer.  A line end is waited on if and only if one has come
and the buffer is not empty. -/
theorem forall₂_made (hspaced : Spaced ts) (hr : r.Sound) {g : List Token}
    (hg : r.current = kept g) (hblank : Blanked g) (ended : Bool)
    (hended : r.pending = (ended && !r.current.isEmpty)) (h : r.read ts = .ok statements) :
    List.Forall₂ Made (((groupsFrom r.depth ended ts).modifyHead (g ++ ·)).filter
      (·.any Token.isSignificant)) statements := by
  induction ts generalizing r g ended statements with
  | nil =>
    rw [read_nil] at h
    split at h
    · cases h
    · rw [hg] at h
      rw [groupsFrom, List.modifyHead_cons, List.append_nil]
      exact forall₂_made_flush hblank h
  | cons t ts ih =>
    have hrest : Spaced ts := fun u hu => hspaced u (List.mem_cons_of_mem t hu)
    have hshown := blanked_shownAt (hspaced t List.mem_cons_self) r.depth
    rw [read_cons] at h
    obtain ⟨done, later, hdone, hlater, rfl⟩ := followedBy_eq_ok h
    rw [groupsFrom]
    have hmade : ∀ {g : List Token}, r.current = kept g → Blanked g → List.Forall₂ Made
        (((groupsFrom (t.depthAfter r.depth) (t.isLayout
          && (ended || (t.kind = .newline && r.depth = 0))) ts).modifyHead
            ((if r.ends t then [] else g) ++ t.shownAt r.depth ++ ·)).filter
          (·.any Token.isSignificant)) later := by
      intro g hg hblank
      have hbase : Blanked (if r.ends t then [] else g) := by
        split
        · exact blanked_nil
        · exact hblank
      have hlater := ih hrest (hr.next t) (current_next hr hg t) (hbase.append hshown) _
        (pending_next_eq hr hended t) hlater
      rwa [depth_next] at hlater
    cases hends : r.ends t with
    | true =>
      -- the buffer is flushed here, and the token starts the next group
      rw [hends, if_pos rfl, hg] at hdone
      have hmade := hmade hg hblank
      rw [hends, if_pos rfl] at hmade
      rw [if_pos (starts_of_ends hended hends), List.modifyHead_cons, List.append_nil,
        ← List.singleton_append, List.filter_append]
      exact List.rel_append (forall₂_made_flush hblank hdone) hmade
    | false =>
      rw [hends, if_neg Bool.false_ne_true] at hdone
      cases hdone
      simp only [hends, Bool.false_eq_true, if_false] at hmade
      split
      · next hcut =>
        have hempty : r.current = [] := current_of_starts hended hends hcut
        have hnone : List.Forall₂ Made ([g].filter (·.any Token.isSignificant)) [] :=
          forall₂_made_flush hblank (by rw [← hg, hempty]; rfl)
        rw [List.modifyHead_cons, List.append_nil, ← List.singleton_append, List.filter_append]
        exact List.rel_append hnone (hmade (g := []) hempty blanked_nil)
      · have hmade := hmade hg hblank
        rw [List.modifyHead_modifyHead]
        simpa [Function.comp_def] using hmade

end Reading

/-! ### Lines -/

theorem line_respelled (t : Token) : t.respelled.line = t.line := by
  simp only [Token.respelled, apply_ite Token.line, ite_self]

theorem map_line_wordsFrom (depth : Nat) (ts : List Token) :
    ((wordsFrom depth ts).map Token.line).Sublist (ts.map Token.line) := by
  induction ts generalizing depth with
  | nil => exact .slnil
  | cons t ts ih =>
    rw [wordsFrom, Token.wordAt, List.map_append, List.map_cons]
    split
    · exact (ih _).cons t.line
    · rw [List.map_singleton, line_respelled]
      exact (ih _).cons_cons t.line

theorem pairwise_line_tokensFrom (line : Nat) (s : List Char) :
    (line :: (tokensFrom line s).map Token.line).Pairwise (· ≤ ·) := by
  fun_induction tokensFrom line s with
  | case1 => simp
  | case2 line c cs n text ih =>
    have hle : line ≤ line + countChar '\n' text := Nat.le_add_right _ _
    obtain ⟨hfirst, hrest⟩ := List.pairwise_cons.mp ih
    have hlater : ∀ l ∈ (tokensFrom (line + countChar '\n' text) (cs.drop n)).map Token.line,
        line ≤ l := fun l hl => Nat.le_trans hle (hfirst l hl)
    rw [List.map_cons]
    refine .cons (fun l hl => ?_) (.cons hlater hrest)
    rcases List.mem_cons.mp hl with rfl | hl
    · exact Nat.le_refl _
    · exact hlater l hl

theorem Made.line_eq (h : Made ts s) :
    ∃ first rest, ts.filter Token.isSignificant = first :: rest ∧ s.line = first.line := by
  have hparted : ∀ {first : Token} {words value : List Token}, Parted ts (first :: words) value →
      ∃ rest, ts.filter Token.isSignificant = first :: rest := by
    rintro first words value ⟨front, rfl, hfront, -⟩
    rw [List.filter_append, hfront]
    exact ⟨_, rfl⟩
  cases h with
  | declared h | exported h | assigned h =>
    obtain ⟨rest, hrest⟩ := hparted h
    exact ⟨_, rest, hrest, rfl⟩
  | bare hwords | expr hwords => exact ⟨_, _, hwords, rfl⟩

/-- The lines of statements are lines of their words, in their order. -/
theorem map_line_sublist {gs : List (List Token)} (h : List.Forall₂ Made gs statements) :
    (statements.map Statement.line).Sublist
      ((gs.flatten.filter Token.isSignificant).map Token.line) := by
  induction h with
  | nil => exact .slnil
  | cons hmade _ ih =>
    obtain ⟨first, rest, hwords, hline⟩ := hmade.line_eq
    rw [List.map_cons, hline, List.flatten_cons, List.filter_append, hwords, List.cons_append,
      List.map_cons, List.map_append]
    exact (ih.trans (List.sublist_append_right _ _)).cons_cons first.line

/-- **Splitting loses no token.**  The words of an accepted logic block are those of its statements,
in their order.  Each statement is made of the words up to the next end of a statement: its target
and its expression are spelled by them, with the white space that stands between them and with
nothing else, and its line is that of the first one.  The lines never decrease. -/
theorem split_made (logic : List Char) (statements : List Statement)
    (h : split logic = .ok statements) :
    (groups (tokens logic)).flatten.filter Token.isSignificant = wordsFrom 0 (tokens logic) ∧
      (∀ g ∈ groups (tokens logic), Blanked g) ∧
      List.Forall₂ Made (groups (tokens logic)) statements ∧
      (statements.map Statement.line).Pairwise (· ≤ ·) := by
  have hmade : List.Forall₂ Made (groups (tokens logic)) statements := by
    have hread := Reading.forall₂_made (g := []) (spaced_tokens logic) Reading.sound_start rfl
      blanked_nil false rfl h
    obtain ⟨g, gs, hgroups⟩ := List.exists_cons_of_ne_nil (groupsFrom_ne_nil 0 false (tokens logic))
    rw [groups, hgroups]
    rw [Reading.start, hgroups, List.modifyHead_cons, List.nil_append] at hread
    exact hread
  have hwords := filter_flatten_groups (tokens logic)
  refine ⟨hwords, fun g hg => blanked_of_mem_groups (spaced_tokens logic) hg, hmade, ?_⟩
  have hlines := (List.pairwise_cons.mp (pairwise_line_tokensFrom 1 logic)).2
  have hstatements := map_line_sublist hmade
  rw [hwords] at hstatements
  exact hlines.sublist (hstatements.trans (map_line_wordsFrom 0 (tokens logic)))

/-- A semicolon and a line end in brackets, a comment, and a line that goes on with a member. -/
theorem split_made_member :
    let logic := "let x\nvar y = await f(1;\n2) // one\ny\n  .z === null; exports.a = [y]".toList
    let statements : List Statement :=
      [⟨.declare "x", [], 1⟩, ⟨.declare "y", "f(1; 2)".toList, 2⟩,
        ⟨.expr, "y  .z == nil".toList, 4⟩, ⟨.exported "a", "[y]".toList, 5⟩]
    split logic = .ok statements ∧
      (groups (tokens logic)).flatten.filter Token.isSignificant = wordsFrom 0 (tokens logic) ∧
      List.Forall₂ Made (groups (tokens logic)) statements ∧
      (groups (tokens logic)).map (·.map fun t => String.ofList t.text)
        = [["let", " ", "x"],
          ["var", " ", "y", " ", "=", " ", " ", "f", "(", "1", ";", " ", "2", ")", " "],
          ["y", "  ", ".", "z", " ", "==", " ", "nil"],
          [" ", "exports", ".", "a", " ", "=", " ", "[", "y", "]"]] := by
  intro logic statements
  have hsplit : split logic = .ok statements := toOption_eq_some.mp (by decide +kernel)
  obtain ⟨hwords, -, hmade, -⟩ := split_made logic statements hsplit
  exact ⟨hsplit, hwords, hmade, by decide +kernel⟩

/-- Comments keep words apart, but nothing of them is left in the expression, which is then read as
one word. -/
theorem split_made_glued :
    let logic := "a/**/in/**/b".toList
    (split logic).toOption = some [⟨.expr, "ainb".toList, 1⟩] ∧
      (wordsFrom 0 (tokens logic)).map (fun t => String.ofList t.text) = ["a", "in", "b"] ∧
      (wordsFrom 0 (tokens "ainb".toList)).map (fun t => String.ofList t.text) = ["ainb"] := by
  decide +kernel

end Pagesmith.Logic
