import Pagesmith.Proofs.Tree.Lookup
import Pagesmith.Style.Catalog

/-!
# Trees read from source

The trees that rule bodies are read into have distinct keys, so every tree of a catalog read from a
source has.

* `Frames.WellKeyed`: the invariant of the reader, about the block being filled and those around it.
* `Tree.wellKeyed_ofBody`, `Catalog.wellKeyed_ofSource`: what is read is well-keyed.
-/

namespace Pagesmith.Style

namespace Frames

def WellKeyed (f : Frames) : Prop :=
  Tree.WellKeyed f.current ∧ ∀ p ∈ f.around, Tree.WellKeyed p.1

theorem WellKeyed.close {f : Frames} (h : f.WellKeyed) : f.close.WellKeyed := by
  obtain ⟨current, around⟩ := f
  obtain ⟨hc, ha⟩ := h
  cases around with
  | nil => exact ⟨hc, ha⟩
  | cons p rest =>
    obtain ⟨parent, key⟩ := p
    have hp : Tree.WellKeyed parent := ha (parent, key) List.mem_cons_self
    have hr : ∀ p ∈ rest, Tree.WellKeyed p.1 := fun p hm => ha p (List.mem_cons_of_mem _ hm)
    cases key with
    | none => exact ⟨hp, hr⟩
    | some key => exact ⟨hp.put hc, hr⟩

theorem WellKeyed.step {f : Frames} (h : f.WellKeyed) (a : Action) : (f.step a).WellKeyed := by
  cases a with
  | close => exact h.close
  | enter key =>
    refine ⟨trivial, fun p hp => ?_⟩
    rcases List.mem_cons.mp hp with rfl | hp
    · exact h.1
    · exact h.2 p hp
  | declare key value => exact ⟨h.1.put trivial, h.2⟩
  | skip => exact h

theorem wellKeyed_finishFrom {current : Tree} {around : List (Tree × Option String)}
    (h : WellKeyed ⟨current, around⟩) : Tree.WellKeyed (finishFrom current around) := by
  induction around generalizing current with
  | nil => exact h.1
  | cons p rest ih =>
    obtain ⟨parent, key⟩ := p
    cases key <;> exact ih h.close

end Frames

theorem Tree.wellKeyed_ofLines (lines : List Line) : WellKeyed (ofLines lines) := by
  have run : ∀ f : Frames, f.WellKeyed →
      (lines.foldl (fun f line => f.step (Line.action line)) f).WellKeyed := by
    induction lines with
    | nil => intro f h; exact h
    | cons line rest ih => intro f h; exact ih _ (h.step _)
  exact Frames.wellKeyed_finishFrom (run Frames.start ⟨trivial, fun p hp => nomatch hp⟩)

/-- **The tree of a rule body has distinct keys.** -/
theorem Tree.wellKeyed_ofBody (body : String) : WellKeyed (ofBody body) := wellKeyed_ofLines _

/-! ### Catalogs -/

theorem NamedTrees.mem_define {ts : NamedTrees} {name : String} {t : Tree} {x : String × Tree}
    (h : x ∈ ts.define name t) : x = (name, t) ∨ x ∈ ts := by
  induction ts with
  | nil => exact Or.inl (List.mem_singleton.mp h)
  | cons y ys ih =>
    rw [define] at h
    split at h
    · rcases List.mem_cons.mp h with rfl | hm
      · exact Or.inl rfl
      · exact Or.inr (List.mem_cons_of_mem y hm)
    · rcases List.mem_cons.mp h with rfl | hm
      · exact Or.inr List.mem_cons_self
      · exact (ih hm).imp_right (List.mem_cons_of_mem y)

theorem NamedTrees.mem_of_find? {ts : NamedTrees} {name : String} {t : Tree}
    (h : ts.find? name = some t) : (name, t) ∈ ts := by
  induction ts with
  | nil => cases h
  | cons y ys ih =>
    obtain ⟨n, s⟩ := y
    rw [find?, List.lookup_cons] at h
    by_cases hn : name = n
    · rw [beq_iff_eq.mpr hn] at h
      cases h
      rw [hn]
      exact List.mem_cons_self
    · rw [beq_false_of_ne hn] at h
      exact List.mem_cons_of_mem _ (ih h)

namespace Catalog

def WellKeyed (c : Catalog) : Prop :=
  ∀ x ∈ c.styles ++ c.animations ++ c.themes, Tree.WellKeyed x.2

theorem WellKeyed.add {c : Catalog} (h : c.WellKeyed) (rule : Rule) : (c.add rule).WellKeyed := by
  -- each kind of rule defines one name, and the definition is the tree of a body
  have hdef : ∀ {ts : NamedTrees}, (∀ x ∈ ts, Tree.WellKeyed x.2) →
      ∀ x ∈ ts.define rule.name (Tree.ofBody rule.body), Tree.WellKeyed x.2 := by
    intro ts hts x hx
    rcases NamedTrees.mem_define hx with rfl | hx
    · exact Tree.wellKeyed_ofBody rule.body
    · exact hts x hx
  simp only [WellKeyed, List.forall_mem_append] at h ⊢
  rw [Catalog.add]
  cases rule.kind with
  | style | component => exact ⟨⟨hdef h.1.1, h.1.2⟩, h.2⟩
  | animation => exact ⟨⟨h.1.1, hdef h.1.2⟩, h.2⟩
  | theme => exact ⟨h.1, hdef h.2⟩
  | other => exact h

/-- **A catalog read from a source is well-keyed.** -/
theorem wellKeyed_ofSource (source : String) : (ofSource source).WellKeyed := by
  have run : ∀ (rules : List Rule) (c : Catalog), c.WellKeyed → (rules.foldl add c).WellKeyed := by
    intro rules
    induction rules with
    | nil => intro c h; exact h
    | cons rule rest ih => intro c h; exact ih _ (h.add rule)
  exact run _ _ (fun x hx => by cases hx)

theorem WellKeyed.style {c : Catalog} (h : c.WellKeyed) {ref : String} {preset : Tree}
    (hs : c.style? ref = some preset) : Tree.WellKeyed preset :=
  h (_, preset) (List.mem_append_left _ (List.mem_append_left _ (NamedTrees.mem_of_find? hs)))

end Catalog

end Pagesmith.Style
