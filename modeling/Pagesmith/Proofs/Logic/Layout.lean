import Mathlib.Data.List.Forall2
import Mathlib.Data.List.TakeWhile
import Mathlib.Logic.Relation
import Mathlib.Tactic.Common
import Pagesmith.Proofs.Logic.Reading
import Pagesmith.Proofs.Text.Field

/-!
# Layout of page logic

How logic is laid out does not matter: outside brackets a line end is as good as a semicolon, unless
the next line goes on with a member, and inside brackets it is as good as a blank.  A tab in its
place, or more than one blank, is kept in the expression, which then has the same words.

* `Relaid`: one line end of a token list replaced by a semicolon or by white space.
* `meaning`: what the statements of an outcome do and how a view sees their expressions, without
  their lines.
* `meaning_read_congr`: statements are read alike from tokens that look alike.
* `meaning_read_pending`: a statement that waits at a line end is read as if a semicolon stood
  there.
* `split_relaid`: a logic block means the same after any number of such replacements.
-/

namespace Pagesmith.Logic

open Pagesmith.Text

variable {β : Type} {g : List Char → β} {post : List Token}

/-! ### One statement -/

def Statement.meaning (g : List Char → β) (s : Statement) : Role × β := (s.role, g s.source)

def Token.atLine (line : Nat) (t : Token) : Token := { t with line := line }

def Token.SameLook (t u : Token) : Prop := ∃ line, t = u.atLine line

/-- A statement depends on the looks of its significant tokens and on the texts behind them, and its
expression, in any view, on how that view sees these texts. -/
theorem classify_congr {a b : Token} {as bs : List Token}
    (hwords : List.Forall₂ Token.SameLook ((a :: as).filter Token.isSignificant)
      ((b :: bs).filter Token.isSignificant))
    (htext : ∀ n, g (sourceOf (afterSignificant n (a :: as))) =
      g (sourceOf (afterSignificant n (b :: bs)))) :
    (classify a as).toOption.map (Statement.meaning g) =
      (classify b bs).toOption.map (Statement.meaning g) := by
  have hmade : ∀ role source line, (Except.ok ⟨role, source, line⟩ :
      Except SplitError Statement).toOption.map (Statement.meaning g) = some (role, g source) :=
    fun _ _ _ => rfl
  rw [classify, classify]
  generalize (a :: as).filter Token.isSignificant = us at hwords
  generalize (b :: bs).filter Token.isSignificant = vs at hwords
  rcases hwords with _ | ⟨⟨l₁, rfl⟩, _ | ⟨⟨l₂, rfl⟩, _ | ⟨⟨l₃, rfl⟩, _ | ⟨⟨l₄, rfl⟩, _ | ⟨-, -⟩⟩⟩⟩⟩
  · simp only [hmade, htext]
  · simp only [hmade, htext]
  all_goals
    simp only [apply_ite Except.toOption, apply_ite (Option.map (Statement.meaning g)), hmade,
      htext]
    rfl

/-- Two tokens that look alike, or two blanks that a view does not tell apart in any text. -/
def Token.Alike (g : List Char → β) (t u : Token) : Prop :=
  t.SameLook u ∨ t.isSignificant = false ∧ u.isSignificant = false ∧
    ∀ a b, g (trim (a ++ t.text ++ b)) = g (trim (a ++ u.text ++ b))

theorem Token.SameLook.refl (t : Token) : t.SameLook t := ⟨t.line, rfl⟩

namespace Token.Alike

variable {t u : Token}

theorem view_eq (h : t.Alike g u) (a b : List Char) :
    g (trim (a ++ t.text ++ b)) = g (trim (a ++ u.text ++ b)) := by
  rcases h with ⟨line, rfl⟩ | ⟨-, -, h⟩
  · rfl
  · exact h a b

theorem isSignificant_eq (h : t.Alike g u) : t.isSignificant = u.isSignificant := by
  rcases h with ⟨line, rfl⟩ | ⟨ht, hu, -⟩
  · rfl
  · rw [ht, hu]

theorem sameLook (h : t.Alike g u) (ht : t.isSignificant = true) : t.SameLook u := by
  rcases h with h | ⟨hblank, -⟩
  · exact h
  · rw [hblank] at ht
    cases ht

end Token.Alike

theorem filter_alike {ts us : List Token} (h : List.Forall₂ (Token.Alike g) ts us) :
    List.Forall₂ Token.SameLook (ts.filter Token.isSignificant)
      (us.filter Token.isSignificant) := by
  induction h with
  | nil => exact .nil
  | @cons t u ts us htu _ ih =>
    cases ht : t.isSignificant with
    | false =>
      have hu : u.isSignificant = false := htu.isSignificant_eq ▸ ht
      rw [List.filter_cons_of_neg (by simp [ht]), List.filter_cons_of_neg (by simp [hu])]
      exact ih
    | true =>
      have hu : u.isSignificant = true := htu.isSignificant_eq ▸ ht
      rw [List.filter_cons_of_pos ht, List.filter_cons_of_pos hu]
      exact .cons (htu.sameLook ht) ih

theorem afterSignificant_alike {ts us : List Token} (h : List.Forall₂ (Token.Alike g) ts us)
    (n : Nat) :
    List.Forall₂ (Token.Alike g) (afterSignificant n ts) (afterSignificant n us) := by
  induction h generalizing n with
  | nil =>
    cases n <;> exact .nil
  | cons htu hrest ih =>
    cases n with
    | zero => exact .cons htu hrest
    | succ n =>
      rw [afterSignificant, afterSignificant, htu.isSignificant_eq]
      split
      · exact ih n
      · exact ih (n + 1)

theorem sourceOf_alike {ts us : List Token} (h : List.Forall₂ (Token.Alike g) ts us) :
    g (sourceOf ts) = g (sourceOf us) := by
  -- the texts are exchanged from the front, behind those that are exchanged already
  have hbehind : ∀ a, g (trim (a ++ ts.flatMap Token.text)) =
      g (trim (a ++ us.flatMap Token.text)) := by
    induction h with
    | nil => exact fun a => rfl
    | cons htu _ ih =>
      intro a
      rw [List.flatMap_cons, List.flatMap_cons, ← List.append_assoc, htu.view_eq, ih,
        List.append_assoc]
  exact hbehind []

/-- White space behind some tokens is not seen behind any of them. -/
theorem sourceOf_afterSignificant_concat {t : Token} (hkind : t.isSignificant = false)
    (hblank : ∀ c ∈ t.text, isBlank c = true) (ts : List Token) (n : Nat) :
    sourceOf (afterSignificant n (ts ++ [t])) = sourceOf (afterSignificant n ts) := by
  induction ts generalizing n with
  | nil =>
    cases n with
    | zero =>
      show trim (t.text ++ []) = trim []
      exact trim_append_right (s := []) (by simpa using hblank)
    | succ n => simp [afterSignificant, hkind]
  | cons u ts ih =>
    cases n with
    | zero =>
      show trim (((u :: ts) ++ [t]).flatMap Token.text) = trim ((u :: ts).flatMap Token.text)
      rw [List.flatMap_append, List.flatMap_singleton]
      exact trim_append_right hblank _
    | succ n =>
      rw [List.cons_append, afterSignificant, afterSignificant]
      split
      · exact ih n
      · exact ih (n + 1)

/-! ### Meanings of outcomes -/

/-- What the statements of an outcome do, with a view of their expressions; nothing if it failed. -/
def meaning (g : List Char → β) (x : Except SplitError (List Statement)) :
    Option (List (Role × β)) :=
  x.toOption.map fun l => l.map (Statement.meaning g)

theorem meaning_followedBy (x y : Except SplitError (List Statement)) :
    meaning g (followedBy x y) =
      (meaning g x).bind fun a => (meaning g y).map fun b => a ++ b := by
  cases x with
  | error e => rfl
  | ok a =>
    cases y with
    | error e => rfl
    | ok b => exact congrArg some (List.map_append)

theorem meaning_followedBy_congr (x : Except SplitError (List Statement))
    {y y' : Except SplitError (List Statement)} (h : meaning g y = meaning g y') :
    meaning g (followedBy x y) = meaning g (followedBy x y') := by
  rw [meaning_followedBy, meaning_followedBy, h]

theorem meaning_flush_cons (t : Token) (ts : List Token) :
    meaning g (flush (t :: ts)) =
      ((classify t ts).toOption.map (Statement.meaning g)).map fun m => [m] := by
  rw [flush]
  cases classify t ts <;> rfl

theorem meaning_flush_alike {ts us : List Token} (h : List.Forall₂ (Token.Alike g) ts us) :
    meaning g (flush ts) = meaning g (flush us) := by
  cases h with
  | nil => rfl
  | cons htu hrest =>
    have hall := List.Forall₂.cons htu hrest
    rw [meaning_flush_cons, meaning_flush_cons, classify_congr (filter_alike hall)]
    intro n
    exact sourceOf_alike (afterSignificant_alike hall n)

theorem meaning_flush_concat {t : Token} (hkind : t.isSignificant = false)
    (hblank : ∀ c ∈ t.text, isBlank c = true) {ts : List Token} (hts : ts ≠ []) :
    meaning g (flush (ts ++ [t])) = meaning g (flush ts) := by
  obtain ⟨u, us, rfl⟩ := List.exists_cons_of_ne_nil hts
  rw [List.cons_append, meaning_flush_cons, meaning_flush_cons]
  congr 1
  apply classify_congr
  · have hnil : [t].filter Token.isSignificant = [] := by simp [hkind]
    rw [← List.cons_append, List.filter_append, hnil, List.append_nil]
    exact List.forall₂_same.mpr fun v _ => Token.SameLook.refl v
  · intro n
    exact congrArg g (sourceOf_afterSignificant_concat hkind hblank (u :: us) n)

/-! ### Tokens that look alike -/

/-- Two states that differ in the lines and in the kinds of blanks at most. -/
structure Reading.Alike (g : List Char → β) (r r' : Reading) : Prop where
  current : List.Forall₂ (Token.Alike g) r.current r'.current
  depth_eq : r.depth = r'.depth
  pending_eq : r.pending = r'.pending

namespace Reading

variable {r r' : Reading}

theorem Alike.isEmpty_eq (h : r.Alike g r') : r.current.isEmpty = r'.current.isEmpty := by
  rw [Bool.eq_iff_iff, List.isEmpty_iff_length_eq_zero, List.isEmpty_iff_length_eq_zero,
    h.current.length_eq]

theorem respelled_atLine (t : Token) (line : Nat) :
    (t.atLine line).respelled = t.respelled.atLine line := by
  simp only [Token.respelled, apply_ite (Token.atLine line)]
  rfl

theorem ends_atLine (h : r.Alike g r') (t : Token) (line : Nat) :
    r.ends (t.atLine line) = r'.ends t := by
  show (!t.isLayout && ((t.kind = .semicolon && r.depth = 0) || (r.pending && !t.continues))) = _
  rw [h.depth_eq, h.pending_eq]
  rfl

theorem Alike.take (h : r.Alike g r') (t : Token) (line : Nat) :
    (r.take (t.atLine line)).Alike g (r'.take t) := by
  have hparts : r.parts (t.atLine line) = r'.parts t := by
    show (t.kind = .semicolon && r.depth = 0) = _
    rw [h.depth_eq]
    rfl
  rw [Reading.take, Reading.take, hparts, ends_atLine h, h.depth_eq]
  split
  · exact ⟨.nil, rfl, rfl⟩
  · have hadded : List.Forall₂ (Token.Alike g)
        (if t.isAwait then [] else [(t.atLine line).respelled])
        (if t.isAwait then [] else [t.respelled]) := by
      split
      · exact .nil
      · exact .cons (.inl ⟨line, respelled_atLine t line⟩) .nil
    refine ⟨List.rel_append ?_ hadded, rfl, rfl⟩
    split
    · exact .nil
    · exact h.current

theorem Alike.next (h : r.Alike g r') {t u : Token} (htu : t.SameLook u) :
    (r.next t).Alike g (r'.next u) := by
  obtain ⟨line, rfl⟩ := htu
  have hself : List.Forall₂ (Token.Alike g) [u.atLine line] [u] := .cons (.inl ⟨line, rfl⟩) .nil
  rcases u.kind_cases with hkind | hkind | hkind | hlayout
  · rw [next_comment r (t := u.atLine line) hkind, next_comment r' hkind]
    exact h
  · rw [next_space r (t := u.atLine line) hkind, next_space r' hkind, h.isEmpty_eq]
    split
    · exact ⟨.nil, h.depth_eq, h.pending_eq⟩
    · exact ⟨List.rel_append h.current hself, h.depth_eq, h.pending_eq⟩
  · rw [next_newline r (t := u.atLine line) hkind, next_newline r' hkind, h.isEmpty_eq, h.depth_eq,
      h.pending_eq]
    split
    · refine ⟨List.rel_append h.current ?_, rfl, rfl⟩
      exact .cons (.inl ⟨line, rfl⟩) .nil
    · exact ⟨h.current, rfl, rfl⟩
  · rw [next_of_not_layout r (t := u.atLine line) hlayout, next_of_not_layout r' hlayout]
    exact h.take u line

theorem meaning_read_congr {ts us : List Token} (htu : List.Forall₂ Token.SameLook ts us)
    (h : r.Alike g r') : meaning g (r.read ts) = meaning g (r'.read us) := by
  induction htu generalizing r r' with
  | nil =>
    rw [read_nil, read_nil, h.depth_eq]
    split
    · rfl
    · exact meaning_flush_alike h.current
  | @cons t u ts us htu _ ih =>
    have hends : r.ends t = r'.ends u := by
      obtain ⟨line, rfl⟩ := htu
      exact ends_atLine h u line
    rw [read_cons, read_cons, meaning_followedBy, meaning_followedBy, ih (h.next htu), hends]
    split
    · rw [meaning_flush_alike h.current]
    · rfl

end Reading

/-! ### Line ends -/

/-- White space tokens consist of white space. -/
def Spaced (ts : List Token) : Prop :=
  ∀ t ∈ ts, t.kind = .space → ∀ c ∈ t.text, isBlank c = true

/-- Whether a statement that stands before some tokens can end there: the first token that is not
layout does not go on with a member. -/
def EndsBefore (ts : List Token) : Prop :=
  ∀ t, ts.find? (fun t => !t.isLayout) = some t → t.continues = false

theorem EndsBefore.tail {t : Token} {ts : List Token} (h : EndsBefore (t :: ts))
    (ht : t.isLayout = true) : EndsBefore ts := by
  rwa [EndsBefore, List.find?_cons_of_neg (by simp [ht])] at h

namespace Reading

theorem start_read_cons {t : Token} (h : t.isLayout = true) (ts : List Token) :
    start.read (t :: ts) = start.read ts := by
  have hnext : start.next t = start := by
    rcases t.kind_cases with hkind | hkind | hkind | hlayout
    · exact next_comment start hkind
    · exact next_space start hkind
    · exact next_newline start hkind
    · rw [hlayout] at h
      cases h
  rw [read_of_isLayout start h, hnext]

theorem meaning_read_pending (hspaced : Spaced post) (hends : EndsBefore post) {ts : List Token}
    (hts : ts ≠ []) :
    meaning g (read ⟨ts, 0, true⟩ post) = meaning g (followedBy (flush ts) (start.read post)) := by
  induction post generalizing ts with
  | nil =>
    rw [read_nil, if_neg (Nat.lt_irrefl 0)]
    exact congrArg (meaning g) (followedBy_nil (flush ts)).symm
  | cons t post ih =>
    have hrest : Spaced post := fun u hu => hspaced u (List.mem_cons_of_mem t hu)
    cases hlayout : t.isLayout with
    | true =>
      rw [read_of_isLayout _ hlayout, start_read_cons hlayout]
      have hends := hends.tail hlayout
      rcases t.kind_cases with hkind | hkind | hkind | hword
      · rw [next_comment _ hkind]
        exact ih hrest hends hts
      · have hnext : next ⟨ts, 0, true⟩ t = ⟨ts ++ [t], 0, true⟩ := by
          rw [next_space _ hkind, if_neg (by simpa using hts)]
        have hblank := hspaced t List.mem_cons_self hkind
        have hsignificant : t.isSignificant = false := by simp [Token.isSignificant, hkind]
        rw [hnext, ih hrest hends (by simp), meaning_followedBy, meaning_followedBy,
          meaning_flush_concat hsignificant hblank hts]
      · rw [next_newline _ hkind]
        exact ih hrest hends hts
      · rw [hlayout] at hword
        cases hword
    | false =>
      have hcontinues : t.continues = false := by
        apply hends
        rw [List.find?_cons_of_pos (by simp [hlayout])]
      have hflush : ends ⟨ts, 0, true⟩ t = true := by simp [ends, hlayout, hcontinues]
      have htake : take ⟨ts, 0, true⟩ t = start.take t := by
        rw [take, take, hflush]
        show (if start.parts t then _ else _) = _
        split
        · rfl
        · rw [if_pos rfl, start, ite_self]
      have hnil : (if start.ends t then flush start.current else .ok []) = .ok [] := ite_self _
      rw [read_of_not_layout _ hlayout, read_of_not_layout _ hlayout, hflush, htake, hnil,
        nil_followedBy, if_pos rfl]

end Reading

theorem isBlank_of_measure {c : Char} {cs : List Char} (h : (measure c cs).1 = .space) :
    ∀ d ∈ c :: cs.take (measure c cs).2, isBlank d = true := by
  generalize hm : measure c cs = m at h ⊢
  rw [measure] at hm
  repeat' split at hm
  all_goals subst hm
  all_goals cases h
  rename_i hc
  have hblank : ∀ d : Char, (d == ' ' || d == '\t' || d == '\r') = true → isBlank d = true := by
    intro d hd
    simp only [Bool.or_eq_true, beq_iff_eq] at hd
    rcases hd with (rfl | rfl) | rfl <;> rfl
  intro d hd
  rcases List.mem_cons.mp hd with rfl | hd
  · exact hblank d hc
  · dsimp only at hd
    rw [← List.prefix_iff_eq_take.mp (List.takeWhile_prefix _)] at hd
    have hspace := List.mem_takeWhile_imp hd
    exact hblank d hspace

theorem Spaced.replace {pre : List Token} {t u : Token} (h : Spaced (pre ++ t :: post))
    (hu : u.kind = .space → ∀ c ∈ u.text, isBlank c = true) : Spaced (pre ++ u :: post) := by
  intro v hv
  rcases List.mem_append.mp hv with hv | hv
  · exact h v (List.mem_append_left _ hv)
  · rcases List.mem_cons.mp hv with rfl | hv
    · exact hu
    · exact h v (List.mem_append_right _ (List.mem_cons_of_mem t hv))

theorem spaced_tokensFrom (line : Nat) (s : List Char) : Spaced (tokensFrom line s) := by
  fun_induction tokensFrom line s with
  | case1 => simp [Spaced]
  | case2 line c cs n text ih =>
    intro t ht hkind
    rcases List.mem_cons.mp ht with rfl | ht
    · exact isBlank_of_measure hkind
    · exact ih t ht hkind

theorem spaced_tokens (logic : List Char) : Spaced (tokens logic) := spaced_tokensFrom 1 logic

/-- A line end of a token list is replaced: outside brackets by a semicolon, if the next token that
is not layout does not go on with a member, and inside brackets by white space that is allowed. -/
inductive Relaid (allowed : List Char → Prop) : List Token → List Token → Prop where
  | ended {pre post : List Token} {newline semicolon : Token} (hnewline : newline.kind = .newline)
      (hsemicolon : semicolon.kind = .semicolon) (hdepth : depthAfter 0 pre = 0)
      (hends : EndsBefore post) : Relaid allowed (pre ++ newline :: post) (pre ++ semicolon :: post)
  | spaced {pre post : List Token} {newline blank : Token} (hnewline : newline.kind = .newline)
      (hblank : blank.kind = .space) (htext : allowed blank.text) (hdepth : 0 < depthAfter 0 pre) :
      Relaid allowed (pre ++ newline :: post) (pre ++ blank :: post)

/-- The texts of white space tokens. -/
def IsGap (x : List Char) : Prop := x ≠ [] ∧ ∀ c ∈ x, c ∈ [' ', '\t', '\r']

/-- A view does not tell white space from a blank. -/
structure Overlooks (g : List Char → β) (allowed : List Char → Prop) : Prop where
  blank {x : List Char} : allowed x → ∀ c ∈ x, isBlank c = true
  view_eq {x : List Char} : allowed x → ∀ a b, g (trim (a ++ [' '] ++ b)) = g (trim (a ++ x ++ b))

theorem overlooks_id : Overlooks id (· = [' ']) := by
  refine ⟨?_, ?_⟩
  · rintro x rfl
    exact List.all_eq_true.mp rfl
  · rintro x rfl a b
    rfl

theorem overlooks_fields : Overlooks fields IsGap := by
  have hblank : ∀ {x : List Char}, IsGap x → ∀ c ∈ x, isBlank c = true := by
    intro x hx c hc
    have hall : ∀ d ∈ [' ', '\t', '\r'], isBlank d = true := List.all_eq_true.mp rfl
    exact hall c (hx.2 c hc)
  refine ⟨hblank, fun hx a b => ?_⟩
  rw [fields_gap hx.1 (hblank hx), fields_gap (by simp) (List.all_eq_true.mp rfl)]

namespace Relaid

variable {allowed : List Char → Prop} {ts us : List Token}

theorem keeps_spaced (hview : Overlooks g allowed) (h : Relaid allowed ts us) (hts : Spaced ts) :
    Spaced us := by
  cases h with
  | ended _ hsemicolon _ _ =>
    apply hts.replace
    rw [hsemicolon]
    intro hkind
    cases hkind
  | spaced _ _ htext _ =>
    exact hts.replace fun _ => hview.blank htext

/-- Outside brackets a line end is as good as a semicolon. -/
theorem meaning_read_ended {newline semicolon : Token} (hnewline : newline.kind = .newline)
    (hsemicolon : semicolon.kind = .semicolon) (hspaced : Spaced post) (hends : EndsBefore post)
    {r : Reading} (hr : r.Sound) (hdepth : r.depth = 0) :
    meaning g (r.read (newline :: post)) = meaning g (r.read (semicolon :: post)) := by
  have hword : semicolon.isLayout = false := by simp [Token.isLayout, hsemicolon]
  have hparts : r.parts semicolon = true := by simp [Reading.parts, hsemicolon, hdepth]
  have hstop : r.ends semicolon = true := by simp [Reading.ends, hword, hparts]
  have hlayout : newline.isLayout = true := by simp [Token.isLayout, hnewline]
  rw [Reading.read_of_not_layout r hword, hstop, if_pos rfl, Reading.take, if_pos hparts,
    Reading.read_of_isLayout r hlayout, Reading.next_newline r hnewline, hdepth,
    if_neg (Nat.lt_irrefl 0)]
  cases hcurrent : r.current with
  | nil =>
    -- Nothing waits for the line end, and nothing is there to be ended.
    have hpending : r.pending = false := by
      rw [Bool.eq_false_iff]
      intro hpending
      exact hr.pending_ne_nil hpending hcurrent
    rw [hpending, flush, nil_followedBy]
    rfl
  | cons t ts =>
    rw [List.isEmpty_cons, Bool.not_false, Bool.or_true]
    exact Reading.meaning_read_pending hspaced hends (List.cons_ne_nil t ts)

/-- Inside brackets a line end is as good as a blank, and as white space that is not told from
it. -/
theorem meaning_read_spaced (hview : Overlooks g allowed) {newline blank : Token}
    (hnewline : newline.kind = .newline) (hblank : blank.kind = .space)
    (htext : allowed blank.text) {r : Reading} (hr : r.Sound) (hdepth : 0 < r.depth) :
    meaning g (r.read (newline :: post)) = meaning g (r.read (blank :: post)) := by
  have hcurrent : ¬r.current.isEmpty = true := by simpa using hr.open_ne_nil hdepth
  have hblanks : Token.Alike g { newline with text := [' '] } blank := by
    refine .inr ⟨?_, ?_, hview.view_eq htext⟩
    · simp [Token.isSignificant, hnewline]
    · simp [Token.isSignificant, hblank]
  rw [Reading.read_of_isLayout r (by simp [Token.isLayout, hnewline]),
    Reading.read_of_isLayout r (by simp [Token.isLayout, hblank]), Reading.next_newline r hnewline,
    Reading.next_space r hblank, if_pos hdepth, if_neg hcurrent]
  apply Reading.meaning_read_congr (List.forall₂_same.mpr fun t _ => Token.SameLook.refl t)
  refine ⟨List.rel_append ?_ (.cons hblanks .nil), rfl, rfl⟩
  exact List.forall₂_same.mpr fun t _ => .inl (Token.SameLook.refl t)

theorem meaning_read (hview : Overlooks g allowed) (h : Relaid allowed ts us) (hts : Spaced ts) :
    meaning g (Reading.start.read us) = meaning g (Reading.start.read ts) := by
  symm
  cases h with
  | @ended pre post newline semicolon hnewline hsemicolon hdepth hends =>
    have hpost : Spaced post := fun t ht =>
      hts t (List.mem_append_right _ (List.mem_cons_of_mem newline ht))
    apply Reading.read_append_congr (fun x y y' => meaning_followedBy_congr x) _ pre
      Reading.sound_start hdepth
    intro r hr hzero
    exact meaning_read_ended hnewline hsemicolon hpost hends hr hzero
  | @spaced pre post newline blank hnewline hblank htext hdepth =>
    apply Reading.read_append_congr (fun x y y' => meaning_followedBy_congr x) _ pre
      Reading.sound_start rfl
    intro r hr hopen
    exact meaning_read_spaced hview hnewline hblank htext hr (hopen ▸ hdepth)

end Relaid

/-- A view sees the same statements in some tokens as in a logic block, and in every block whose
tokens look like them. -/
def SameMeaning (g : List Char → β) (logic : List Char) (ts : List Token) : Prop :=
  meaning g (statementsFrom [] 0 false ts) = meaning g (split logic) ∧
    ∀ logic' : List Char, List.Forall₂ Token.SameLook (tokens logic') ts →
      meaning g (split logic') = meaning g (split logic)

theorem sameMeaning_relaid {allowed : List Char → Prop} (hview : Overlooks g allowed)
    {logic : List Char} {ts : List Token}
    (h : Relation.ReflTransGen (Relaid allowed) (tokens logic) ts) : SameMeaning g logic ts := by
  have hrun : Spaced ts ∧ meaning g (Reading.start.read ts) = meaning g (split logic) := by
    induction h with
    | refl => exact ⟨spaced_tokens logic, rfl⟩
    | tail _ hstep ih =>
      exact ⟨hstep.keeps_spaced hview ih.1, (hstep.meaning_read hview ih.1).trans ih.2⟩
  refine ⟨hrun.2, fun logic' hlook => ?_⟩
  have halike : Reading.start.Alike g Reading.start := ⟨.nil, rfl, rfl⟩
  exact (Reading.meaning_read_congr hlook halike).trans hrun.2

/-- **Statements do not depend on the layout of logic.**  A block means the same after line ends are
replaced by semicolons and single blanks, any number of them, and so does every block whose tokens
look like what comes out.  If the line ends inside brackets are replaced by any other white space,
then the statements do the same with expressions that have the same words. -/
theorem split_relaid (logic : List Char) (ts : List Token) :
    (Relation.ReflTransGen (Relaid (· = [' '])) (tokens logic) ts → SameMeaning id logic ts) ∧
      (Relation.ReflTransGen (Relaid IsGap) (tokens logic) ts → SameMeaning fields logic ts) :=
  ⟨sameMeaning_relaid overlooks_id, sameMeaning_relaid overlooks_fields⟩

/-- The line end inside the brackets becomes white space, and the one behind them a semicolon. -/
theorem split_relaid_call :
    let opening : List Token := [⟨.ident, ['f'], 1⟩, ⟨.openBracket, ['('], 1⟩]
    let argument : List Token := [⟨.number, ['1'], 2⟩, ⟨.closeBracket, [')'], 2⟩]
    let last : List Token := [⟨.ident, ['b'], 3⟩]
    let ts := fun gap => opening ++ ⟨.space, gap, 1⟩ :: (argument ++ ⟨.semicolon, [';'], 2⟩ :: last)
    Relation.ReflTransGen (Relaid (· = [' '])) (tokens "f(\n1)\nb".toList) (ts [' ']) ∧
      Relation.ReflTransGen (Relaid IsGap) (tokens "f(\n1)\nb".toList) (ts ['\t', ' ']) ∧
      meaning id (split "f( 1);b".toList) = meaning id (split "f(\n1)\nb".toList) ∧
      meaning fields (split "f(\t 1);b".toList) = meaning fields (split "f(\n1)\nb".toList) ∧
      meaning id (split "f(\n1)\nb".toList) =
        some [(.expr, "f( 1)".toList), (.expr, "b".toList)] := by
  intro opening argument last ts
  have htokens : tokens "f(\n1)\nb".toList =
      opening ++ ⟨.newline, ['\n'], 1⟩ :: (argument ++ ⟨.newline, ['\n'], 2⟩ :: last) := by
    decide +kernel
  have hsteps : ∀ {allowed : List Char → Prop} {gap : List Char}, allowed gap →
      Relation.ReflTransGen (Relaid allowed) (tokens "f(\n1)\nb".toList) (ts gap) := by
    intro allowed gap hgap
    have hended : Relaid allowed
        ((opening ++ ⟨.space, gap, 1⟩ :: argument) ++ ⟨.newline, ['\n'], 2⟩ :: last)
        ((opening ++ ⟨.space, gap, 1⟩ :: argument) ++ ⟨.semicolon, [';'], 2⟩ :: last) := by
      refine .ended rfl rfl rfl ?_
      intro t ht
      cases ht
      rfl
    rw [htokens]
    exact .tail (.single (.spaced rfl rfl hgap (by decide))) hended
  have hlook : ∀ {logic : List Char} {gap : List Char},
      tokens logic = (ts gap).map (Token.atLine 1) →
      List.Forall₂ Token.SameLook (tokens logic) (ts gap) := by
    intro logic gap htokens
    rw [htokens, List.forall₂_map_left_iff]
    exact List.forall₂_same.mpr fun t _ => ⟨1, rfl⟩
  have hgap : IsGap ['\t', ' '] := ⟨by simp, by simp⟩
  refine ⟨hsteps rfl, hsteps hgap, ((split_relaid _ _).1 (hsteps rfl)).2 _ (hlook ?_),
    ((split_relaid _ _).2 (hsteps hgap)).2 _ (hlook ?_), ?_⟩
  all_goals decide +kernel

/-- A tab in the place of the line end is kept in the expression, where the line end is a blank. -/
theorem split_relaid_tab :
    let ts : List Token := [⟨.ident, ['f'], 1⟩, ⟨.openBracket, ['('], 1⟩] ++
      ⟨.space, ['\t'], 1⟩ :: [⟨.number, ['1'], 2⟩, ⟨.closeBracket, [')'], 2⟩]
    Relaid IsGap (tokens "f(\n1)".toList) ts ∧
      meaning id (split "f(\n1)".toList) = some [(.expr, "f( 1)".toList)] ∧
      meaning id (statementsFrom [] 0 false ts) = some [(.expr, "f(\t1)".toList)] ∧
      meaning id (split "f(\t1)".toList) = some [(.expr, "f(\t1)".toList)] := by
  intro ts
  have htokens : tokens "f(\n1)".toList = [⟨.ident, ['f'], 1⟩, ⟨.openBracket, ['('], 1⟩] ++
      ⟨.newline, ['\n'], 1⟩ :: [⟨.number, ['1'], 2⟩, ⟨.closeBracket, [')'], 2⟩] := by
    decide +kernel
  refine ⟨?_, by decide +kernel, by decide +kernel, by decide +kernel⟩
  rw [htokens]
  exact .spaced rfl rfl ⟨by simp, by simp⟩ (by decide)

end Pagesmith.Logic
