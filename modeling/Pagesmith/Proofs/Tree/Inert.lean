import Mathlib.Tactic
import Pagesmith.Proofs.Tree.Sequence

/-!
# Lines without effect

Lines of a body have no effect if they only open blocks without a key, fill them and close them
again.  Such lines may stand anywhere, and no others: a declaration or a block with a key shows at
the outermost level, a closing brace too many shows in the block around it, and one too few in what
follows.

* `Frames.Keyed`: all keys of a tree come from its lines.
* `Inert`: the lines that only fill dropped blocks.
* `Frames.run_inert`: they leave the blocks as they are.
* `inert_of_ofLines_eq`: no other lines do.
-/

namespace Pagesmith.Style

variable {lines : List Line} {k : String} {a : Action}

/-! ### Keys -/

def Action.key? : Action → Option String
  | .enter key => key
  | .declare key _ => some key
  | .close | .skip => none

theorem Tree.mem_keys_put {t : Tree} {e : Entry} : k ∈ (t.put e).keys ↔ k ∈ t.keys ∨ k = e.key := by
  rw [← has_iff, has_put, Bool.or_eq_true, has_iff, beq_iff_eq, eq_comm (a := e.key)]

namespace Frames

structure Keyed (P : String → Prop) (f : Frames) : Prop where
  current : ∀ k ∈ f.current.keys, P k
  around : ∀ p ∈ f.around, (∀ k ∈ p.1.keys, P k) ∧ ∀ k, p.2 = some k → P k

namespace Keyed

variable {P : String → Prop} {f : Frames}

theorem close (h : f.Keyed P) : f.close.Keyed P := by
  obtain ⟨current, _ | ⟨⟨parent, _ | key⟩, rest⟩⟩ := f
  · exact h
  · obtain ⟨hparent, hrest⟩ := List.forall_mem_cons.mp h.around
    exact ⟨hparent.1, hrest⟩
  · obtain ⟨⟨hparent, hkey⟩, hrest⟩ := List.forall_mem_cons.mp h.around
    refine ⟨fun k hk => ?_, hrest⟩
    rcases Tree.mem_keys_put.mp hk with hk | hk
    · exact hparent k hk
    · exact hkey k (congrArg some hk.symm)

theorem step (h : f.Keyed P) (ha : ∀ k, a.key? = some k → P k) : (f.step a).Keyed P := by
  cases a with
  | close => exact h.close
  | enter key =>
    exact ⟨List.forall_mem_nil _, List.forall_mem_cons.mpr ⟨⟨h.current, ha⟩, h.around⟩⟩
  | declare key value =>
    refine ⟨fun k hk => ?_, h.around⟩
    rcases Tree.mem_keys_put.mp hk with hk | hk
    · exact h.current k hk
    · exact ha k (congrArg some hk.symm)
  | skip => exact h

theorem run (h : f.Keyed P) (hlines : ∀ line ∈ lines, ∀ k, (Line.action line).key? = some k → P k) :
    (f.run lines).Keyed P := by
  induction lines generalizing f with
  | nil => exact h
  | cons line lines ih =>
    obtain ⟨hline, hlines⟩ := List.forall_mem_cons.mp hlines
    exact ih (h.step hline) hlines

theorem finish (h : f.Keyed P) : ∀ k ∈ f.finish.keys, P k := by
  obtain ⟨current, around⟩ := f
  induction around generalizing current with
  | nil => exact h.current
  | cons p rest ih =>
    have hclose := h.close
    rw [← finish_close]
    obtain ⟨parent, _ | key⟩ := p
    all_goals exact ih _ hclose

end Keyed

end Frames

/-- **All keys of a tree come from its lines.** -/
theorem Tree.exists_of_mem_keys_ofLines (h : k ∈ (ofLines lines).keys) :
    ∃ line ∈ lines, (Line.action line).key? = some k := by
  have hstart : Frames.start.Keyed fun k => ∃ line ∈ lines, (Line.action line).key? = some k :=
    ⟨List.forall_mem_nil _, List.forall_mem_nil _⟩
  exact (hstart.run fun line hline k hk => ⟨line, hline, hk⟩).finish k h

/-! ### Dropped blocks -/

/-- The number of dropped blocks that are open behind an action, where `d` are open before it.
Outside them there is none for an action that shows. -/
def Action.dropped : Nat → Action → Option Nat
  | 0, .enter none => some 1
  | 0, .skip => some 0
  | 0, _ => none
  | d + 1, .close => some d
  | d + 1, .enter _ => some (d + 2)
  | d + 1, _ => some (d + 1)

def droppedFrom (d : Nat) (lines : List Line) : Option Nat :=
  lines.foldlM (fun d line => (Line.action line).dropped d) d

def Inert (lines : List Line) : Prop := droppedFrom 0 lines = some 0

instance (lines : List Line) : Decidable (Inert lines) :=
  inferInstanceAs (Decidable (droppedFrom 0 lines = some 0))

theorem droppedFrom_cons (d : Nat) (line : Line) (lines : List Line) :
    droppedFrom d (line :: lines)
      = ((Line.action line).dropped d).bind fun e => droppedFrom e lines := List.foldlM_cons

namespace Frames

/-- Behind `f`, `d` blocks have been opened, the first of which will be dropped. -/
def Dropping (f : Frames) : Nat → Frames → Prop
  | 0, g => g = f
  | d + 1, g => ∃ inner, inner.length = d ∧ g.around = inner ++ (f.current, none) :: f.around

namespace Dropping

variable {f g : Frames} {d e : Nat}

/-- **An action in dropped blocks stays in them.** -/
theorem step (h : f.Dropping d g) (ha : a.dropped d = some e) : f.Dropping e (g.step a) := by
  cases d with
  | zero =>
    obtain rfl : g = f := h
    cases a with
    | skip =>
      obtain rfl := Option.some.inj ha
      rfl
    | enter key =>
      cases key with
      | none =>
        obtain rfl := Option.some.inj ha
        exact ⟨[], rfl, rfl⟩
      | some key => cases ha
    | close | declare => cases ha
  | succ d =>
    obtain ⟨current, around⟩ := g
    obtain ⟨inner, rfl, hinner⟩ := h
    dsimp only at hinner
    subst hinner
    cases a with
    | skip | declare =>
      obtain rfl := Option.some.inj ha
      exact ⟨inner, rfl, rfl⟩
    | enter key =>
      obtain rfl := Option.some.inj ha
      exact ⟨(current, key) :: inner, rfl, rfl⟩
    | close =>
      obtain rfl := Option.some.inj ha
      obtain _ | ⟨⟨parent, _ | key⟩, inner⟩ := inner
      · rfl
      all_goals exact ⟨inner, rfl, rfl⟩

/-- **Lines in dropped blocks stay in them.** -/
theorem run (h : f.Dropping d g) (hlines : droppedFrom d lines = some e) :
    f.Dropping e (g.run lines) := by
  induction lines generalizing d g with
  | nil =>
    obtain rfl := Option.some.inj hlines
    exact h
  | cons line lines ih =>
    rw [droppedFrom_cons, Option.bind_eq_some_iff] at hlines
    obtain ⟨c, hline, hlines⟩ := hlines
    exact ih (h.step hline) hlines

theorem finish (h : f.Dropping d g) : g.finish = f.finish := by
  cases d with
  | zero => rw [show g = f from h]
  | succ d =>
    obtain ⟨current, around⟩ := g
    obtain ⟨inner, -, hinner⟩ := h
    dsimp only at hinner
    subst hinner
    -- closing the inner blocks leads to the dropped one
    induction inner generalizing current with
    | nil => rfl
    | cons p inner ih =>
      obtain ⟨parent, _ | key⟩ := p
      all_goals exact ih _

end Dropping

/-- **Lines without effect leave the open blocks as they are.** -/
theorem run_inert (f : Frames) (h : Inert lines) : f.run lines = f :=
  Dropping.run (f := f) (d := 0) rfl h

end Frames

/-! ### Lines with effect -/

/-- Lines stay in dropped blocks, or one of them shows. -/
theorem droppedFrom_cases (d : Nat) (lines : List Line) :
    (∃ e, droppedFrom d lines = some e) ∨
      ∃ before line after, lines = before ++ line :: after ∧ droppedFrom d before = some 0 ∧
        (Line.action line).dropped 0 = none := by
  induction lines generalizing d with
  | nil => exact Or.inl ⟨d, rfl⟩
  | cons line lines ih =>
    cases hline : (Line.action line).dropped d with
    | none =>
      obtain rfl : d = 0 := by
        cases d with
        | zero => rfl
        | succ d => cases ha : Line.action line <;> rw [ha] at hline <;> cases hline
      exact Or.inr ⟨[], line, lines, rfl, rfl, hline⟩
    | some c =>
      rw [droppedFrom_cons, hline]
      rcases ih c with h | ⟨before, shown, after, rfl, hbefore, hshown⟩
      · exact Or.inl h
      · refine Or.inr ⟨line :: before, shown, after, rfl, ?_, hshown⟩
        rw [droppedFrom_cons, hline]
        exact hbefore

theorem Action.eq_close_of_dropped (h : a.dropped 0 = none) :
    a = .close ∨ ∃ k, a.key? = some k := by
  cases a with
  | close => exact Or.inl rfl
  | declare key value => exact Or.inr ⟨key, rfl⟩
  | enter key =>
    cases key with
    | none => cases h
    | some key => exact Or.inr ⟨key, rfl⟩
  | skip => cases h

namespace Frames

theorem keys_finishFrom_subset {s t : Tree} (h : s.keys ⊆ t.keys)
    (around : List (Tree × Option String)) :
    (finishFrom s around).keys ⊆ (finishFrom t around).keys := by
  induction around generalizing s t with
  | nil => exact h
  | cons p rest ih =>
    obtain ⟨parent, _ | key⟩ := p
    · exact List.Subset.refl _
    · refine ih fun k hk => ?_
      rw [Tree.mem_keys_put] at hk ⊢
      exact hk

theorem keys_finish_step (f : Frames) (a : Action) : f.finish.keys ⊆ (f.step a).finish.keys := by
  have hput : ∀ e, f.current.keys ⊆ (f.current.put e).keys := fun e k hk =>
    Tree.mem_keys_put.mpr (Or.inl hk)
  cases a with
  | close => rw [step, finish_close]; exact List.Subset.refl _
  | enter key =>
    cases key with
    | none => exact List.Subset.refl _
    | some key => exact keys_finishFrom_subset (hput _) f.around
  | declare key value => exact keys_finishFrom_subset (hput _) f.around
  | skip => exact List.Subset.refl _

theorem keys_finish_run (f : Frames) (lines : List Line) :
    f.finish.keys ⊆ (f.run lines).finish.keys := by
  induction lines generalizing f with
  | nil => exact List.Subset.refl _
  | cons line lines ih => exact List.Subset.trans (keys_finish_step f _) (ih _)

end Frames

/-- A closing brace behind lines without effect closes the block around them. -/
theorem Tree.find?_ofLines_of_close {opening line : Line} {before after : List Line}
    (hopening : Line.action opening = .enter (some k)) (hbefore : Inert before)
    (hline : Line.action line = .close) (hk : k ∉ (ofLines after).keys) :
    (ofLines (opening :: (before ++ line :: after))).find? k = some (.block k []) := by
  have hrun : Frames.start.run (opening :: (before ++ [line])) = ⟨[.block k []], []⟩ := by
    rw [Frames.run_cons, hopening, Frames.run_append, Frames.run_inert _ hbefore, Frames.run_cons,
      hline]
    rfl
  have hopen : openBlocks (opening :: (before ++ [line])) = 0 := by
    have hlen := Frames.length_around_run Frames.start (opening :: (before ++ [line]))
    rw [hrun] at hlen
    exact hlen.symm
  have htree : ofLines (opening :: (before ++ [line])) = [.block k []] :=
    congrArg Frames.finish hrun
  have hsplit : opening :: (before ++ line :: after) = opening :: (before ++ [line]) ++ after := by
    simp
  rw [hsplit, ofLines_append hopen, htree, find?_putAll _ (wellKeyed_ofLines _).nodup,
    find?_eq_none.mpr hk, Option.none_or, find?_cons]
  exact if_pos rfl

/-- **Only lines without effect may stand anywhere:** in a body of their own, before a literal, and
in a block of which they do not know the key. -/
theorem inert_of_ofLines_eq {opening literal : Line} {b v : String}
    (hopening : Line.action opening = .enter (some k))
    (hliteral : Line.action literal = .declare b v) (hkb : k ≠ b)
    (hk : ∀ line ∈ lines, (Line.action line).key? ≠ some k) (hown : Tree.ofLines lines = [])
    (hbefore : Tree.ofLines (lines ++ [literal]) = Tree.ofLines [literal])
    (hinside : Tree.ofLines (opening :: (lines ++ [literal])) = Tree.ofLines [opening, literal]) :
    Inert lines := by
  have hone : Tree.ofLines [literal] = [.literal b v] := by
    show (Frames.start.step (Line.action literal)).finish = _
    rw [hliteral]
    rfl
  rcases droppedFrom_cases 0 lines with ⟨_ | d, hd⟩ | ⟨before, line, after, rfl, hd, hline⟩
  · exact hd
  · -- the literal is lost in a dropped block
    have hdrop : Frames.start.Dropping (d + 1) (Frames.start.run lines) :=
      Frames.Dropping.run (d := 0) rfl hd
    have hlast : Frames.start.Dropping (d + 1) ((Frames.start.run lines).run [literal]) :=
      hdrop.step (a := Line.action literal) (by rw [hliteral]; rfl)
    rw [← Frames.run_append] at hlast
    have hnone : Tree.ofLines (lines ++ [literal]) = [] := hlast.finish
    rw [hnone, hone] at hbefore
    cases hbefore
  · rcases Action.eq_close_of_dropped hline with hclose | ⟨key, hkey⟩
    · -- the closing brace closes the block around the lines, and the literal is not in it
      have hmiss : k ∉ (Tree.ofLines (after ++ [literal])).keys := by
        intro hmem
        obtain ⟨shown, hshown, hkey⟩ := Tree.exists_of_mem_keys_ofLines hmem
        rcases List.mem_append.mp hshown with hafter | hlast
        · exact hk shown (by simp [hafter]) hkey
        · rw [List.mem_singleton.mp hlast, hliteral] at hkey
          exact hkb (Option.some.inj hkey).symm
      have hleft := Tree.find?_ofLines_of_close hopening hd hclose hmiss
      have hright : Tree.ofLines [opening, literal] = [.block k [.literal b v]] := by
        show (Frames.start.run [opening, literal]).finish = _
        rw [Frames.run_cons, hopening, Frames.run_cons, hliteral]
        rfl
      rw [List.append_assoc, List.cons_append] at hinside
      rw [hinside, hright] at hleft
      simp [Tree.find?, Entry.key] at hleft
    · -- the key shows at the outermost level
      have hshown : key ∈ (Frames.start.step (Line.action line)).finish.keys := by
        cases ha : Line.action line with
        | close | skip => rw [ha] at hkey; cases hkey
        | enter key? =>
          rw [ha] at hkey
          obtain rfl : key? = some key := hkey
          exact List.mem_singleton_self key
        | declare key' value =>
          rw [ha] at hkey
          obtain rfl := Option.some.inj hkey
          exact List.mem_singleton_self key'
      have hrun : Tree.ofLines (before ++ line :: after)
          = ((Frames.start.step (Line.action line)).run after).finish := by
        show (Frames.start.run (before ++ line :: after)).finish = _
        rw [Frames.run_append, Frames.run_inert _ hd]
        rfl
      have hmem := Frames.keys_finish_run _ after hshown
      rw [← hrun, hown] at hmem
      cases hmem

end Pagesmith.Style
