import Mathlib.Tactic
import Pagesmith.Proofs.Tree.Body

/-!
# Bodies one after another

The reader keeps no memory of a body that has closed all its blocks but the tree of it.  So the
lines of a second body do to that tree what they do to the empty one: each entry that the second
body leaves at its outermost level is written into the tree of the first.

* `Tree.find?_putAll`, `Tree.keys_putAll`: what writing the entries of a tree does.
* `Frames.Over`: the blocks of a body read alone, and of the same body read behind another one.
* `Frames.Over.step`, `Frames.Over.run`: the two readings stay in step, stray closing braces and
  dropped blocks included.
* `ofBody_append_lines`: the tree of two bodies.
-/

namespace Pagesmith.Style

variable {s t : Tree}

/-! ### Writing all entries of a tree -/

namespace Tree

theorem putAll_cons (t : Tree) (e : Entry) (es : Tree) :
    t.putAll (e :: es) = (t.put e).putAll es := rfl

theorem find?_putAll (t : Tree) (hs : s.keys.Nodup) (k : String) :
    (t.putAll s).find? k = (s.find? k).or (t.find? k) := by
  induction s generalizing t with
  | nil => rfl
  | cons e es ih =>
    rw [keys_cons, List.nodup_cons] at hs
    rw [putAll_cons, ih _ hs.2, find?_put, find?_cons]
    by_cases hk : e.key = k
    · rw [if_pos hk, if_pos hk, find?_eq_none.mpr (hk ▸ hs.1)]
      rfl
    · rw [if_neg hk, if_neg hk]

theorem has_put (t : Tree) (e : Entry) (k : String) :
    (t.put e).has k = (t.has k || e.key == k) := by
  rw [has_eq_isSome, find?_put, has_eq_isSome]
  by_cases hk : e.key = k
  · simp [hk]
  · simp [hk]

theorem keys_putAll (t : Tree) (hs : s.keys.Nodup) :
    (t.putAll s).keys = t.keys ++ s.keys.filter fun k => !t.has k := keys_foldl keys_put t hs

theorem nodup_keys_putAll (ht : t.keys.Nodup) (hs : s.keys.Nodup) :
    (t.putAll s).keys.Nodup := nodup_keys_foldl keys_put ht hs

/-- Writing an entry behind the others is writing it among them. -/
theorem putAll_put (ht : t.keys.Nodup) (hs : s.keys.Nodup) (e : Entry) :
    (t.putAll s).put e = t.putAll (s.put e) := by
  have hput := nodup_keys_put hs e
  refine ext_find? (nodup_keys_put (nodup_keys_putAll ht hs) e) ?_ fun k => ?_
  · have hhas : (t.putAll s).has e.key = (s.has e.key || t.has e.key) := by
      rw [has_eq_isSome, find?_putAll t hs, Option.isSome_or, ← has_eq_isSome, ← has_eq_isSome]
    rw [keys_put, hhas, keys_putAll t hs, keys_putAll t hput, keys_put]
    cases s.has e.key with
    | true => rfl
    | false => cases h : t.has e.key <;> simp [List.filter_append, h]
  · rw [find?_put, find?_putAll t hs, find?_putAll t hput, find?_put]
    split <;> rfl

end Tree

/-! ### Reading behind another body -/

def Action.depth (d : Nat) : Action → Nat
  | .close => d - 1
  | .enter _ => d + 1
  | .declare _ _ | .skip => d

def openBlocks (lines : List Line) : Nat :=
  lines.foldl (fun d line => (Line.action line).depth d) 0

namespace Frames

def run (f : Frames) (lines : List Line) : Frames :=
  lines.foldl (fun f line => f.step (Line.action line)) f

theorem run_cons (f : Frames) (line : Line) (lines : List Line) :
    f.run (line :: lines) = (f.step (Line.action line)).run lines := rfl

theorem run_append (f : Frames) (lines more : List Line) :
    f.run (lines ++ more) = (f.run lines).run more := List.foldl_append

theorem finish_close (f : Frames) : f.close.finish = f.finish := by
  obtain ⟨current, _ | ⟨⟨parent, _ | key⟩, rest⟩⟩ := f
  all_goals rfl

theorem length_around_step (f : Frames) (a : Action) :
    (f.step a).around.length = a.depth f.around.length := by
  cases a with
  | close =>
    obtain ⟨current, _ | ⟨⟨parent, _ | key⟩, rest⟩⟩ := f
    all_goals rfl
  | enter | declare | skip => rfl

theorem length_around_run (f : Frames) (lines : List Line) :
    (f.run lines).around.length
      = lines.foldl (fun d line => (Line.action line).depth d) f.around.length := by
  induction lines generalizing f with
  | nil => rfl
  | cons line lines ih => rw [run_cons, ih, length_around_step, List.foldl_cons]

theorem WellKeyed.run {f : Frames} (h : f.WellKeyed) (lines : List Line) :
    (f.run lines).WellKeyed := by
  induction lines generalizing f with
  | nil => exact h
  | cons line lines ih => exact ih (h.step _)

theorem WellKeyed.of_inner {key : Option String} {f : Frames}
    (h : Frames.WellKeyed ⟨t, (f.current, key) :: f.around⟩) : f.WellKeyed :=
  ⟨h.2 (f.current, key) List.mem_cons_self, fun p hp => h.2 p (List.mem_cons_of_mem _ hp)⟩

/-- The same blocks are open in `f` and `g`, and at the outermost level `g` has written the entries
of `f` into `root`. -/
inductive Over (root : Tree) : Frames → Frames → Prop where
  | outermost (t : Tree) : Over root ⟨t, []⟩ ⟨root.putAll t, []⟩
  | inner (t : Tree) (key : Option String) {f g : Frames} (h : Over root f g) :
      Over root ⟨t, (f.current, key) :: f.around⟩ ⟨t, (g.current, key) :: g.around⟩

namespace Over

variable {root : Tree} (hroot : root.keys.Nodup) {f g : Frames}

include hroot in
theorem put (h : Over root f g) (hf : f.WellKeyed) (e : Entry) :
    Over root { f with current := f.current.put e } { g with current := g.current.put e } := by
  cases h with
  | outermost t =>
    dsimp only
    rw [Tree.putAll_put hroot hf.1.nodup]
    exact .outermost _
  | inner t key h => exact .inner _ key h

include hroot in
theorem close (h : Over root f g) (hf : f.WellKeyed) : Over root f.close g.close := by
  cases h with
  | outermost t => exact .outermost t
  | inner t key h =>
    cases key with
    | none => exact h
    | some key => exact h.put hroot (WellKeyed.of_inner hf) _

include hroot in
/-- **An action keeps the two readings in step.** -/
theorem step (h : Over root f g) (hf : f.WellKeyed) (a : Action) :
    Over root (f.step a) (g.step a) := by
  cases a with
  | close => exact h.close hroot hf
  | enter key => exact .inner [] key h
  | declare key value => exact h.put hroot hf _
  | skip => exact h

include hroot in
theorem run (h : Over root f g) (hf : f.WellKeyed) (lines : List Line) :
    Over root (f.run lines) (g.run lines) := by
  induction lines generalizing f g with
  | nil => exact h
  | cons line lines ih => exact ih (h.step hroot hf _) (hf.step _)

include hroot in
theorem finish (h : Over root f g) (hf : f.WellKeyed) : g.finish = root.putAll f.finish := by
  -- closing the blocks one by one leads to the outermost level
  obtain ⟨current, around⟩ := f
  induction around generalizing current g with
  | nil => cases h; rfl
  | cons p rest ih =>
    have hfc := hf.close
    have hover := h.close hroot hf
    obtain ⟨parent, _ | key⟩ := p
    all_goals exact (finish_close g).symm.trans (ih _ hover hfc)

end Over

end Frames

/-- **The lines of a second body are written into the tree of the first,** if that leaves no block
open. -/
theorem Tree.ofLines_append {lines : List Line} (hopen : openBlocks lines = 0)
    (more : List Line) : ofLines (lines ++ more) = (ofLines lines).putAll (ofLines more) := by
  have hstart : Frames.start.WellKeyed := ⟨trivial, fun p hp => nomatch hp⟩
  have hnone : (Frames.start.run lines).around = [] :=
    List.length_eq_zero_iff.mp ((Frames.length_around_run _ _).trans hopen)
  have hfirst : Frames.start.run lines = ⟨ofLines lines, []⟩ := by
    have hfinish : ofLines lines = (Frames.start.run lines).finish := rfl
    rw [hfinish]
    generalize Frames.start.run lines = f at hnone
    obtain ⟨current, around⟩ := f
    obtain rfl : around = [] := hnone
    rfl
  have hroot : (ofLines lines).keys.Nodup := (wellKeyed_ofLines lines).nodup
  have hover : Frames.Over (ofLines lines) Frames.start ⟨ofLines lines, []⟩ := .outermost []
  have hboth : ofLines (lines ++ more) = (Frames.run ⟨ofLines lines, []⟩ more).finish := by
    rw [← hfirst, ← Frames.run_append]
    rfl
  rw [hboth, (hover.run hroot hstart more).finish hroot (hstart.run more)]
  rfl

/-- **The tree of two bodies** is that of the first with the entries of the second written into it:
a key of the first keeps its place and takes the new literal or block, and a new key goes to the
end. -/
theorem ofBody_append_lines {b₁ b₂ : List Char} (hopen : openBlocks (logicalLines b₁) = 0)
    (hlines : logicalLines (b₁ ++ '\n' :: b₂) = logicalLines b₁ ++ logicalLines b₂) :
    let t₁ := Tree.ofBody (String.ofList b₁)
    let t₂ := Tree.ofBody (String.ofList b₂)
    let t := Tree.ofBody (String.ofList (b₁ ++ '\n' :: b₂))
    t = t₁.putAll t₂ ∧ t.keys = t₁.keys ++ t₂.keys.filter (fun k => !t₁.has k) ∧
      ∀ k, t.find? k = (t₂.find? k).or (t₁.find? k) := by
  intro t₁ t₂ t
  have ht : t = t₁.putAll t₂ := by
    simp only [t, t₁, t₂, Tree.ofBody, String.toList_ofList, hlines]
    exact Tree.ofLines_append hopen _
  have hkeys : t₂.keys.Nodup := (Tree.wellKeyed_ofBody _).nodup
  exact ⟨ht, by rw [ht, Tree.keys_putAll t₁ hkeys], fun k => by rw [ht, Tree.find?_putAll t₁ hkeys]⟩

/-- The second body starts with a stray closing brace, makes a block of a literal and a literal of a
block, and leaves a block open. -/
theorem ofBody_append_lines_stray :
    let b₁ := "a: 1\nb: 2\nc \x7b d: 3 \x7d".toList
    let b₂ := "\x7d\nb \x7b x: y \x7d\nc: 9\ne \x7b f: 6".toList
    (openBlocks (logicalLines b₁) = 0 ∧
      logicalLines (b₁ ++ '\n' :: b₂) = logicalLines b₁ ++ logicalLines b₂) ∧
    Tree.ofBody (String.ofList (b₁ ++ '\n' :: b₂))
      = [.literal "a" "1", .block "b" [.literal "x" "y"], .literal "c" "9",
        .block "e" [.literal "f" "6"]] := by
  intro b₁ b₂
  have hopen : openBlocks (logicalLines b₁) = 0 := by
    simp only [b₁]
    cbv
  have hlines : logicalLines (b₁ ++ '\n' :: b₂) = logicalLines b₁ ++ logicalLines b₂ := by
    simp only [b₁, b₂]
    cbv
  have h₁ : Tree.ofBody (String.ofList b₁)
      = [.literal "a" "1", .literal "b" "2", .block "c" [.literal "d" "3"]] := by
    simp only [b₁]
    cbv
  have h₂ : Tree.ofBody (String.ofList b₂)
      = [.block "b" [.literal "x" "y"], .literal "c" "9", .block "e" [.literal "f" "6"]] := by
    simp only [b₂]
    cbv
  refine ⟨⟨hopen, hlines⟩, (ofBody_append_lines hopen hlines).1.trans ?_⟩
  rw [h₁, h₂]
  rfl

end Pagesmith.Style
