import Mathlib.Tactic.Common
import Pagesmith.Logic.Statement

/-!
# Reading statements token by token

The statements of a token list are read by a machine.  Its state is the tokens of the statement
being read, the number of open brackets, and whether a line ended after that statement.  One token
changes the state by `Reading.next`, and `Reading.ends` tells whether it ends the statement before.

* `read_cons`: what is read of a list is what its first token ends, and then what is read of the
  rest in the next state.
* `Reading.Sound`: the states that occur.
* `read_append_congr`: two token lists that are read alike in every state that occurs at some depth
  are read alike behind every text that leaves this depth.
-/

namespace Pagesmith.Logic

variable {t : Token}

/-! ### Layout -/

def Token.isLayout (t : Token) : Bool := t.kind = .comment || t.kind = .space || t.kind = .newline

theorem Token.kind_cases (t : Token) :
    t.kind = .comment ∨ t.kind = .space ∨ t.kind = .newline ∨ t.isLayout = false := by
  cases hkind : t.kind <;> simp [isLayout, hkind]

def depthAfter (depth : Nat) (ts : List Token) : Nat := ts.foldl (fun d t => t.depthAfter d) depth

/-! ### Outcomes -/

/-- One outcome after another: the first failure counts. -/
def followedBy (x y : Except SplitError (List Statement)) : Except SplitError (List Statement) := do
  let done ← x
  return done ++ (← y)

theorem nil_followedBy (y : Except SplitError (List Statement)) : followedBy (.ok []) y = y := by
  cases y <;> rfl

theorem followedBy_nil (x : Except SplitError (List Statement)) : followedBy x (.ok []) = x := by
  cases x with
  | error e => rfl
  | ok l => exact congrArg Except.ok (List.append_nil l)

/-! ### The machine -/

structure Reading where
  current : List Token
  depth : Nat
  pending : Bool

variable {r : Reading}

namespace Reading

def start : Reading := ⟨[], 0, false⟩

def read (r : Reading) (ts : List Token) : Except SplitError (List Statement) :=
  statementsFrom r.current r.depth r.pending ts

def parts (r : Reading) (t : Token) : Bool := t.kind = .semicolon && r.depth = 0

def ends (r : Reading) (t : Token) : Bool :=
  !t.isLayout && (r.parts t || (r.pending && !t.continues))

def take (r : Reading) (t : Token) : Reading :=
  if r.parts t then start
  else
    ⟨(if r.ends t then [] else r.current) ++ if t.isAwait then [] else [t.respelled],
      t.depthAfter r.depth, false⟩

def next (r : Reading) (t : Token) : Reading :=
  match t.kind with
  | .comment => r
  | .space => { r with current := if r.current.isEmpty then [] else r.current ++ [t] }
  | .newline =>
    if 0 < r.depth then { r with current := r.current ++ [{ t with text := [' '] }] }
    else { r with pending := r.pending || !r.current.isEmpty }
  | _ => r.take t

theorem next_comment (r : Reading) (h : t.kind = .comment) : r.next t = r := by
  rw [next, h]

theorem next_space (r : Reading) (h : t.kind = .space) :
    r.next t = { r with current := if r.current.isEmpty then [] else r.current ++ [t] } := by
  rw [next, h]

theorem next_newline (r : Reading) (h : t.kind = .newline) :
    r.next t =
      if 0 < r.depth then { r with current := r.current ++ [{ t with text := [' '] }] }
      else { r with pending := r.pending || !r.current.isEmpty } := by
  rw [next, h]

theorem next_of_not_layout (r : Reading) (h : t.isLayout = false) : r.next t = r.take t := by
  cases hkind : t.kind <;> simp_all [Token.isLayout, next]

theorem ends_of_isLayout (r : Reading) (h : t.isLayout = true) : r.ends t = false := by
  simp [ends, h]

theorem read_nil (r : Reading) :
    r.read [] = if 0 < r.depth then .error .unbalanced else flush r.current := by
  rw [read, statementsFrom]

theorem read_of_isLayout (r : Reading) (h : t.isLayout = true) (ts : List Token) :
    r.read (t :: ts) = (r.next t).read ts := by
  rw [read, statementsFrom]
  rcases t.kind_cases with hkind | hkind | hkind | hlayout
  · rw [next_comment r hkind, hkind]
    rfl
  · rw [next_space r hkind, hkind]
    rfl
  · rw [next_newline r hkind, hkind]
    show (if 0 < r.depth then _ else _) = _
    split <;> rfl
  · rw [hlayout] at h
    cases h

theorem read_of_not_layout (r : Reading) (h : t.isLayout = false) (ts : List Token) :
    r.read (t :: ts) =
      followedBy (if r.ends t then flush r.current else .ok []) ((r.take t).read ts) := by
  have hread : r.read (t :: ts) =
      if r.parts t then followedBy (flush r.current) (start.read ts)
      else if r.pending && !t.continues then
        followedBy (flush r.current)
          (read ⟨if t.isAwait then [] else [t.respelled], t.depthAfter r.depth, false⟩ ts)
      else
        read ⟨r.current ++ if t.isAwait then [] else [t.respelled], t.depthAfter r.depth, false⟩
          ts := by
    rw [read, statementsFrom]
    cases hkind : t.kind with
    | comment | space | newline => simp [Token.isLayout, hkind] at h
    | _ =>
      simp only [parts, hkind]
      rfl
  rw [hread, take]
  by_cases hparts : r.parts t = true
  · rw [if_pos hparts, if_pos hparts, if_pos (by simp [ends, h, hparts])]
  · have hends : r.ends t = (r.pending && !t.continues) := by simp [ends, h, hparts]
    rw [if_neg hparts, if_neg hparts, hends]
    split
    · rfl
    · rw [nil_followedBy]

theorem read_cons (r : Reading) (t : Token) (ts : List Token) :
    r.read (t :: ts) =
      followedBy (if r.ends t then flush r.current else .ok []) ((r.next t).read ts) := by
  cases h : t.isLayout with
  | true =>
    rw [read_of_isLayout r h, ends_of_isLayout r h, if_neg Bool.false_ne_true, nil_followedBy]
  | false => rw [read_of_not_layout r h, next_of_not_layout r h]

/-! ### The states that occur -/

/-- A statement without tokens has no open bracket, and a line end is waited on only outside
brackets and after some token. -/
structure Sound (r : Reading) : Prop where
  open_ne_nil : 0 < r.depth → r.current ≠ []
  depth_of_pending : r.pending = true → r.depth = 0
  pending_ne_nil : r.pending = true → r.current ≠ []

theorem sound_start : start.Sound := ⟨by simp [start], by simp [start], by simp [start]⟩

theorem depth_next (r : Reading) (t : Token) : (r.next t).depth = t.depthAfter r.depth := by
  rcases t.kind_cases with hkind | hkind | hkind | hlayout
  · rw [next_comment r hkind, Token.depthAfter, hkind]
  · rw [next_space r hkind, Token.depthAfter, hkind]
  · rw [next_newline r hkind, Token.depthAfter, hkind]
    split <;> rfl
  · rw [next_of_not_layout r hlayout, take]
    split
    · next h =>
      have hparts : t.kind = .semicolon ∧ r.depth = 0 := by simpa [parts] using h
      rw [Token.depthAfter, hparts.1, hparts.2]
      rfl
    · rfl

theorem Sound.take (hr : r.Sound) (t : Token) : (r.take t).Sound := by
  rw [Reading.take]
  split
  · exact sound_start
  · next hparts =>
    refine ⟨fun hdepth => ?_, nofun, nofun⟩
    cases hawait : t.isAwait with
    | false => simp
    | true =>
      -- The word is left out, and so it is a bracket before it that is open.
      have hkind : t.kind = .ident := by
        simp only [Token.isAwait, Bool.and_eq_true, decide_eq_true_eq] at hawait
        exact hawait.1
      have hopen : 0 < r.depth := by simpa [Token.depthAfter, hkind] using hdepth
      have hpending : r.pending = false := by
        rw [Bool.eq_false_iff]
        intro h
        have := hr.depth_of_pending h
        omega
      have hends : r.ends t = false := by simp [ends, hpending, hparts]
      rw [hends]
      simpa using hr.open_ne_nil hopen

theorem Sound.next (hr : r.Sound) (t : Token) : (r.next t).Sound := by
  rcases t.kind_cases with hkind | hkind | hkind | hlayout
  · rw [next_comment r hkind]
    exact hr
  · rw [next_space r hkind]
    have hcurrent : r.current ≠ [] →
        (if r.current.isEmpty then [] else r.current ++ [t]) ≠ [] := by
      intro hne
      rw [if_neg (by simpa using hne)]
      exact List.append_ne_nil_of_left_ne_nil hne [t]
    exact ⟨fun h => hcurrent (hr.open_ne_nil h), hr.depth_of_pending,
      fun h => hcurrent (hr.pending_ne_nil h)⟩
  · rw [next_newline r hkind]
    split
    · next hdepth =>
      refine ⟨fun _ => by simp, hr.depth_of_pending, fun _ => by simp⟩
    · next hdepth =>
      refine ⟨hr.open_ne_nil, fun _ => Nat.eq_zero_of_not_pos hdepth, fun h => ?_⟩
      rcases Bool.or_eq_true_iff.mp h with h | h
      · exact hr.pending_ne_nil h
      · simpa using h
  · rw [next_of_not_layout r hlayout]
    exact hr.take t

/-- Token lists that are read alike in every state that occurs at some depth are read alike behind
every text that leaves this depth, for any view `f` of outcomes that looks at them one by one. -/
theorem read_append_congr {β : Type} {f : Except SplitError (List Statement) → β}
    (hf : ∀ x y y', f y = f y' → f (followedBy x y) = f (followedBy x y')) {xs ys : List Token}
    {depth : Nat} (h : ∀ r : Reading, r.Sound → r.depth = depth → f (r.read xs) = f (r.read ys))
    (pre : List Token) (hr : r.Sound) (hdepth : depthAfter r.depth pre = depth) :
    f (r.read (pre ++ xs)) = f (r.read (pre ++ ys)) := by
  induction pre generalizing r with
  | nil => exact h r hr hdepth
  | cons t pre ih =>
    rw [List.cons_append, List.cons_append, read_cons, read_cons]
    apply hf
    apply ih (hr.next t)
    rw [depth_next]
    exact hdepth

end Reading

end Pagesmith.Logic
