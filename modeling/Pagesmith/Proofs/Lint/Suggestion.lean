import Pagesmith.Proofs.Lint.Counts

/-!
# Suggestions do not depend on an order of names

The defined names are a set, and the missing classes are counted by name; both are handed over as
lists in some order.  The nearest name is the least one by distance and name, so it does not depend
on that order.  The missing classes are sorted by occurrences and name, and since two entries with
the same occurrences and the same name are equal, there is only one way to sort them.

* `Nearest`: the least name by distance and name among those within reach.
* `closest?_eq_some_iff`: the suggestion for a name.
* `closest?_eq_foldl`: the same in one pass over the names.
* `Ranking`: a list of all missing classes that is sorted.
* `Ranking.unique`: there is one.
* `suggestions_of_set`: suggestions, whatever the order of the names.
-/

namespace Pagesmith.Lint

open Pagesmith.Report

variable {defined : List String} {counts : List (String × Nat)} {sorted : List MissingClass}
  {name : String}

/-! ### The nearer one of two -/

/-- A name with its distance comes not behind another: it is nearer, or as near and not greater. -/
def NotBehind (a b : Nat × String) : Prop := a.1 < b.1 ∨ a.1 = b.1 ∧ a.2 ≤ b.2

theorem NotBehind.refl (a : Nat × String) : NotBehind a a := .inr ⟨rfl, String.le_refl a.2⟩

theorem NotBehind.trans {a b c : Nat × String} (h : NotBehind a b) (h' : NotBehind b c) :
    NotBehind a c := by
  rcases h with h | ⟨h, hname⟩ <;> rcases h' with h' | ⟨h', hname'⟩
  · exact .inl (h.trans h')
  · exact .inl (h' ▸ h)
  · exact .inl (h ▸ h')
  · exact .inr ⟨h.trans h', String.le_trans hname hname'⟩

theorem NotBehind.antisymm {a b : Nat × String} (h : NotBehind a b) (h' : NotBehind b a) :
    a = b := by
  rcases h with h | ⟨h, hname⟩ <;> rcases h' with h' | ⟨h', hname'⟩
  · omega
  · omega
  · omega
  · exact Prod.ext h (String.le_antisymm hname hname')

theorem nearer_cases (a b : Nat × String) :
    nearer a b = a ∧ NotBehind a b ∨ nearer a b = b ∧ NotBehind b a := by
  rw [nearer]
  split
  · next h =>
    simp only [Bool.or_eq_true, Bool.and_eq_true, decide_eq_true_eq, beq_iff_eq] at h
    exact .inr ⟨rfl, h.imp_right fun h => ⟨h.1, String.not_lt.mp (String.lt_asymm h.2)⟩⟩
  · next h =>
    simp only [Bool.or_eq_true, Bool.and_eq_true, decide_eq_true_eq, beq_iff_eq, not_or, not_and,
      String.not_lt] at h
    refine .inl ⟨rfl, ?_⟩
    rcases Nat.lt_or_eq_of_le (Nat.le_of_not_lt h.1) with hlt | heq
    · exact .inl hlt
    · exact .inr ⟨heq, h.2 heq.symm⟩

/-- The nearest of some names is one of them, and it comes behind none of them. -/
theorem foldl_nearer (c : Nat × String) (cs : List (Nat × String)) :
    cs.foldl nearer c ∈ c :: cs ∧ ∀ x ∈ c :: cs, NotBehind (cs.foldl nearer c) x := by
  induction cs generalizing c with
  | nil => simpa using NotBehind.refl c
  | cons d cs ih =>
    obtain ⟨hmem, hfirst⟩ := ih (nearer c d)
    have hnearer : NotBehind (cs.foldl nearer (nearer c d)) (nearer c d) :=
      hfirst _ List.mem_cons_self
    have hrest : ∀ x ∈ cs, NotBehind (cs.foldl nearer (nearer c d)) x := fun x hx =>
      hfirst x (List.mem_cons_of_mem _ hx)
    rw [List.foldl_cons]
    rcases nearer_cases c d with ⟨heq, hle⟩ | ⟨heq, hle⟩ <;> rw [heq] at hmem hnearer hrest ⊢
    · refine ⟨?_, ?_⟩
      · rcases List.mem_cons.mp hmem with hc | hcs
        · exact List.mem_cons.mpr (.inl hc)
        · exact List.mem_cons_of_mem _ (List.mem_cons_of_mem _ hcs)
      · simp only [List.mem_cons, forall_eq_or_imp]
        exact ⟨hnearer, hnearer.trans hle, hrest⟩
    · refine ⟨List.mem_cons_of_mem _ hmem, ?_⟩
      simp only [List.mem_cons, forall_eq_or_imp]
      exact ⟨hnearer.trans hle, hnearer, hrest⟩

/-! ### The nearest name -/

structure Nearest (name : String) (defined : List String) (c : String) : Prop where
  mem : c ∈ defined
  near : nameDistance name c ≤ max 1 (name.utf8ByteSize / 3)
  least : ∀ d ∈ defined, nameDistance name d ≤ max 1 (name.utf8ByteSize / 3) →
    NotBehind (nameDistance name c, c) (nameDistance name d, d)

theorem Nearest.unique {c d : String} (hc : Nearest name defined c) (hd : Nearest name defined d) :
    c = d :=
  congrArg Prod.snd ((hc.least d hd.mem hd.near).antisymm (hd.least c hc.mem hc.near))

theorem mem_withinReach {x : Nat × String} :
    x ∈ withinReach name defined ↔
      x.2 ∈ defined ∧ x.1 = nameDistance name x.2 ∧
        nameDistance name x.2 ≤ max 1 (name.utf8ByteSize / 3) := by
  rw [withinReach, List.mem_filter, List.mem_map, decide_eq_true_eq]
  constructor
  · rintro ⟨⟨c, hc, rfl⟩, hnear⟩
    exact ⟨hc, rfl, hnear⟩
  · rintro ⟨hc, hdistance, hnear⟩
    exact ⟨⟨x.2, hc, Prod.ext hdistance.symm rfl⟩, hdistance ▸ hnear⟩

theorem closest?_eq_none_iff (name : String) (defined : List String) :
    closest? name defined = none ↔
      ∀ c ∈ defined, max 1 (name.utf8ByteSize / 3) < nameDistance name c := by
  have hnil : closest? name defined = none ↔ withinReach name defined = [] := by
    rw [closest?]
    split
    · next h => simp [h]
    · next h => simp [h]
  rw [hnil, List.eq_nil_iff_forall_not_mem]
  constructor
  · intro h c hc
    by_contra hnear
    exact h (nameDistance name c, c) (mem_withinReach.mpr ⟨hc, rfl, not_lt.mp hnear⟩)
  · intro h x hx
    obtain ⟨hc, -, hnear⟩ := mem_withinReach.mp hx
    exact absurd hnear (not_le.mpr (h x.2 hc))

theorem nearest_of_closest? {c : String} (h : closest? name defined = some c) :
    Nearest name defined c := by
  rw [closest?] at h
  split at h
  · cases h
  · next d ds hreach =>
    obtain rfl := Option.some.inj h
    obtain ⟨hmem, hfirst⟩ := foldl_nearer d ds
    rw [← hreach] at hmem hfirst
    obtain ⟨hc, hdistance, hnear⟩ := mem_withinReach.mp hmem
    refine ⟨hc, hnear, fun e he hle => ?_⟩
    rw [← hdistance]
    exact hfirst (nameDistance name e, e) (mem_withinReach.mpr ⟨he, rfl, hle⟩)

/-- **The suggestion for a name** is the nearest one of the defined names. -/
theorem closest?_eq_some_iff (name : String) (defined : List String) (c : String) :
    closest? name defined = some c ↔ Nearest name defined c := by
  refine ⟨nearest_of_closest?, fun hc => ?_⟩
  cases hclosest : closest? name defined with
  | none =>
    exact absurd hc.near (not_le.mpr ((closest?_eq_none_iff name defined).mp hclosest c hc.mem))
  | some d => rw [(nearest_of_closest? hclosest).unique hc]

theorem closest?_congr {defined' : List String} (h : ∀ c, c ∈ defined ↔ c ∈ defined')
    (name : String) : closest? name defined = closest? name defined' := by
  refine Option.ext fun c => ?_
  rw [closest?_eq_some_iff, closest?_eq_some_iff]
  constructor
  · rintro ⟨hmem, hnear, hleast⟩
    exact ⟨(h c).mp hmem, hnear, fun d hd => hleast d ((h d).mpr hd)⟩
  · rintro ⟨hmem, hnear, hleast⟩
    exact ⟨(h c).mpr hmem, hnear, fun d hd => hleast d ((h d).mp hd)⟩

/-- One pass over the defined names is enough.  It starts with no name at a distance out of reach
and looks at the reach only at the end. -/
theorem closest?_eq_foldl (name : String) (defined : List String) :
    closest? name defined =
      let best := (defined.map fun c => (nameDistance name c, c)).foldl nearer (reach name + 1, "")
      if reach name < best.1 then none else some best.2 := by
  obtain ⟨hmem, hfirst⟩ := foldl_nearer (reach name + 1, "")
    (defined.map fun c => (nameDistance name c, c))
  have hleast : ∀ d ∈ defined, NotBehind _ (nameDistance name d, d) := fun d hd =>
    hfirst _ (List.mem_cons_of_mem _ (List.mem_map_of_mem hd))
  dsimp only
  generalize List.foldl nearer _ _ = best at hmem hleast ⊢
  split
  · next hfar =>
    refine (closest?_eq_none_iff name defined).mpr fun d hd => lt_of_lt_of_le hfar ?_
    rcases hleast d hd with hlt | ⟨heq, -⟩
    · exact hlt.le
    · exact heq.le
  · next hnear =>
    -- what the pass starts with is out of reach
    rcases List.mem_cons.mp hmem with rfl | hmem
    · exact absurd (Nat.lt_succ_self _) hnear
    · obtain ⟨c, hc, rfl⟩ := List.mem_map.mp hmem
      exact (closest?_eq_some_iff name defined c).mpr
        ⟨hc, not_lt.mp hnear, fun d hd _ => hleast d hd⟩

/-! ### The missing classes used most -/

def Precedes (a b : MissingClass) : Prop :=
  b.occurrences < a.occurrences ∨ a.occurrences = b.occurrences ∧ a.name < b.name

instance (a b : MissingClass) : Decidable (Precedes a b) :=
  inferInstanceAs (Decidable (_ ∨ _))

/-- All missing classes with their suggestions, sorted: none comes behind one that it precedes. -/
structure Ranking (counts : List (String × Nat)) (defined : List String)
    (sorted : List MissingClass) : Prop where
  perm : sorted.Perm (counts.map fun x => MissingClass.mk x.1 x.2 (closest? x.1 defined))
  ordered : sorted.Pairwise fun a b => ¬ Precedes b a

theorem mostFrequent_iff_not_precedes {a b : MissingClass} :
    mostFrequent a b = true ↔ ¬ Precedes b a := by
  rw [mostFrequent_iff, Precedes, not_or, not_and, String.not_lt]
  constructor
  · rintro (hlt | ⟨heq, hname⟩)
    · exact ⟨by omega, fun heq => by omega⟩
    · exact ⟨by omega, fun _ => hname⟩
  · rintro ⟨hle, hname⟩
    rcases lt_or_eq_of_le (not_lt.mp hle) with hlt | heq
    · exact .inl hlt
    · exact .inr ⟨heq.symm, hname heq⟩

/-- The entry of a missing class is known from its name and its occurrences. -/
theorem Ranking.ext_of_mem {sorted' : List MissingClass} (h : Ranking counts defined sorted)
    (h' : Ranking counts defined sorted') {a b : MissingClass} (ha : a ∈ sorted) (hb : b ∈ sorted')
    (hname : a.name = b.name) (hoccurs : a.occurrences = b.occurrences) : a = b := by
  obtain ⟨⟨name, n⟩, -, rfl⟩ := List.mem_map.mp (h.perm.mem_iff.mp ha)
  obtain ⟨⟨name', n'⟩, -, rfl⟩ := List.mem_map.mp (h'.perm.mem_iff.mp hb)
  simp only at hname hoccurs
  rw [hname, hoccurs]

/-- **There is one way to sort the missing classes.** -/
theorem Ranking.unique {sorted' : List MissingClass} (h : Ranking counts defined sorted)
    (h' : Ranking counts defined sorted') : sorted = sorted' := by
  refine List.Perm.eq_of_pairwise (fun a b ha hb hab hba => ?_) h.ordered h'.ordered
    (h.perm.trans h'.perm.symm)
  rw [← mostFrequent_iff_not_precedes, mostFrequent_iff] at hab hba
  rcases hab with hlt | ⟨hoccurs, hname⟩ <;> rcases hba with hlt' | ⟨hoccurs', hname'⟩
  · omega
  · omega
  · omega
  · exact h.ext_of_mem h' ha hb (String.le_antisymm hname hname') hoccurs

theorem ranking_mergeSort (counts : List (String × Nat)) (defined : List String) :
    Ranking counts defined ((counts.map fun x =>
      MissingClass.mk x.1 x.2 (closest? x.1 defined)).mergeSort mostFrequent) where
  perm := List.mergeSort_perm _ _
  ordered := (List.pairwise_mergeSort mostFrequent_trans mostFrequent_total _).imp
    mostFrequent_iff_not_precedes.mp

/-- **The missing classes used most** are the first ten, however they were sorted. -/
theorem Ranking.topMissing_eq (h : Ranking counts defined sorted) :
    topMissing counts defined = sorted.take 10 := by
  rw [h.unique (ranking_mergeSort counts defined)]
  rfl

/-- A ranking does not depend on an order of the counts or of the defined names. -/
theorem Ranking.congr {counts' : List (String × Nat)} {defined' : List String}
    (hcounts : counts.Perm counts') (hdefined : ∀ c, c ∈ defined ↔ c ∈ defined')
    (h : Ranking counts defined sorted) : Ranking counts' defined' sorted := by
  refine ⟨h.perm.trans ?_, h.ordered⟩
  simp only [closest?_congr hdefined]
  exact hcounts.map _

/-- **Suggestions do not depend on an order of names.**  The suggestion for a name is the defined
name that is least by distance and name among those within a third of the length of the name, but at
least one; there is none if and only if no defined name is within that.  The missing classes used
most are the first ten of all, by occurrences and then by name, each with its suggestion. -/
theorem suggestions_of_set (name : String) {defined defined' : List String}
    (hdefined : ∀ c, c ∈ defined ↔ c ∈ defined') (hnamed : "" ∉ defined)
    {counts counts' : List (String × Nat)} (hcounts : counts.Perm counts') :
    (∀ c, closest? name defined = some c ↔ Nearest name defined c) ∧
    ((closest? name defined).getD "" = "" ↔
      ∀ c ∈ defined, max 1 (name.utf8ByteSize / 3) < nameDistance name c) ∧
    closest? name defined' = closest? name defined ∧
    (∃ sorted, Ranking counts defined sorted) ∧
    (∀ sorted, Ranking counts defined sorted → topMissing counts defined = sorted.take 10) ∧
    topMissing counts' defined' = topMissing counts defined := by
  have hsorted := ranking_mergeSort counts defined
  refine ⟨closest?_eq_some_iff name defined, ?_, (closest?_congr hdefined name).symm, ⟨_, hsorted⟩,
    fun _ h => h.topMissing_eq, ?_⟩
  · rw [← closest?_eq_none_iff]
    cases hclosest : closest? name defined with
    | none => simp
    | some c =>
      have hmem := (nearest_of_closest? hclosest).mem
      have hne : c ≠ "" := fun h => hnamed (h ▸ hmem)
      simpa using hne
  · rw [hsorted.topMissing_eq, (hsorted.congr hcounts hdefined).topMissing_eq]

/-- Two names at the same distance, and counts in another order than that of the occurrences. -/
theorem suggestions_of_set_cards :
    let defined := ["cards", "card", "button-primary"]
    let defined' := ["button-primary", "card", "cards"]
    let counts := [("crd", 1), ("carde", 2)]
    let counts' := [("carde", 2), ("crd", 1)]
    ((∀ c, c ∈ defined ↔ c ∈ defined') ∧ "" ∉ defined ∧ counts.Perm counts') ∧
      closest? "carde" defined' = some "card" ∧
      topMissing counts' defined' = [⟨"carde", 2, some "card"⟩, ⟨"crd", 1, some "card"⟩] := by
  intro defined defined' counts counts'
  have hdefined : ∀ c, c ∈ defined ↔ c ∈ defined' := by
    intro c
    simp only [defined, defined', List.mem_cons, List.not_mem_nil, or_false]
    tauto
  have hnamed : "" ∉ defined := by decide
  have hcounts : counts.Perm counts' := .swap _ _ _
  obtain ⟨-, -, hclosest, -, hranking, hmissing⟩ :=
    suggestions_of_set "carde" hdefined hnamed hcounts
  have hnearest : closest? "carde" defined = some "card" := by decide +kernel
  have hother : closest? "crd" defined = some "card" := by decide +kernel
  have hsorted : Ranking counts defined
      [⟨"carde", 2, some "card"⟩, ⟨"crd", 1, some "card"⟩] := by
    refine ⟨?_, by decide⟩
    simp only [counts, List.map_cons, List.map_nil, hnearest, hother]
    exact .swap _ _ _
  exact ⟨⟨hdefined, hnamed, hcounts⟩, hclosest.trans hnearest,
    hmissing.trans (hranking _ hsorted)⟩

end Pagesmith.Lint
