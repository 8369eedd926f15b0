import Pagesmith.Proofs.Selector.List
import Pagesmith.Proofs.Selector.Plain

/-!
# Nesting selectors twice

A key whose selectors all have an ampersand stands for the parent at each of them.  Nesting below
such a key and then below a parent is the same as nesting below the key that is nested below the
parent: the lists combine to one product, in one order, and every ampersand is replaced in the end.

* `IsPart`: one selector of a list.  `IsPart.nestPart`: nesting gives one again, so that a joined
  list is split into what it was joined from.
* `nestPart_nestPart`, `nestAll_nestAll`: nesting composes for selectors, and for lists of them.
* `nestSelector_nestSelector`: nesting composes.
-/

namespace Pagesmith.Style

variable {k p : List Char} {c : Char}

/-! ### One selector of a list -/

structure IsPart (x : List Char) : Prop where
  ne_nil : x ≠ []
  comma_not_mem : ',' ∉ x
  trim_eq : Text.trim x = x

namespace IsPart

variable {x : List Char} (h : IsPart x)

include h

theorem isBlank_head? (hc : x.head? = some c) : Text.isBlank c = false :=
  Text.isBlank_of_head?_trim (h.trim_eq.symm ▸ hc)

theorem isBlank_getLast? (hc : x.getLast? = some c) : Text.isBlank c = false :=
  Text.isBlank_of_getLast?_trim (h.trim_eq.symm ▸ hc)

end IsPart

theorem isPart_of_mem {s x : List Char} (hx : x ∈ selectorParts s) (hne : x ≠ []) : IsPart x := by
  obtain ⟨y, hy, rfl⟩ := List.mem_map.mp hx
  exact ⟨hne, fun h => Text.not_mem_of_mem_split hy (Text.mem_of_mem_trim h), Text.trim_trim y⟩

theorem nestPart_of_mem (h : '&' ∈ k) (p : List Char) :
    nestPart p k = Text.replaceAll ['&'] p k := by
  rw [nestPart, Text.contains_singleton, if_pos (by simpa using h)]

theorem IsPart.nestPart (hp : IsPart p) (hk : IsPart k) : IsPart (nestPart p k) := by
  by_cases h : '&' ∈ k
  · rw [nestPart_of_mem h]
    refine ⟨Text.replaceAll_ne_nil '&' hp.ne_nil h, ?_,
      Text.trim_eq_self (fun c hc => ?_) (fun c hc => ?_)⟩
    · intro hm
      rcases (Text.mem_replaceAll '&' p).mp hm with ⟨-, hm⟩ | ⟨-, hm⟩
      · exact hp.comma_not_mem hm
      · exact hk.comma_not_mem hm
    · rw [Text.head?_replaceAll '&' hp.ne_nil] at hc
      obtain ⟨d, hd, hc⟩ := Option.bind_eq_some_iff.mp hc
      split at hc
      · exact hp.isBlank_head? hc
      · exact hk.isBlank_head? (Option.some.inj hc ▸ hd)
    · rw [Text.getLast?_replaceAll '&' hp.ne_nil] at hc
      obtain ⟨d, hd, hc⟩ := Option.bind_eq_some_iff.mp hc
      split at hc
      · exact hp.isBlank_getLast? hc
      · exact hk.isBlank_getLast? (Option.some.inj hc ▸ hd)
  · rw [nestPart_descendant hp.ne_nil h]
    refine ⟨by simp, ?_, Text.trim_eq_self (fun c hc => ?_) (fun c hc => ?_)⟩
    · simp [hp.comma_not_mem, hk.comma_not_mem]
    · rw [List.head?_append_of_ne_nil _ hp.ne_nil] at hc
      exact hp.isBlank_head? hc
    · rw [List.getLast?_append_of_ne_nil _ (List.cons_ne_nil _ _),
        List.getLast?_cons_of_ne_nil hk.ne_nil] at hc
      exact hk.isBlank_getLast? hc

theorem selectorParts_join {xs : List (List Char)} (hne : xs ≠ []) (h : ∀ x ∈ xs, IsPart x) :
    selectorParts (Text.join [',', ' '] xs) = xs := by
  obtain ⟨x, xs, rfl⟩ := List.exists_cons_of_ne_nil hne
  rw [Text.join_eq_intercalate, selectorParts_intercalate]
  have hpart : ∀ y ∈ x :: xs, selectorParts y = [y] := by
    intro y hy
    rw [selectorParts_of_not_mem (h y hy).comma_not_mem, (h y hy).trim_eq]
  rw [List.flatMap_congr hpart, List.flatMap_singleton']

/-! ### Composition -/

/-- **Nesting composes for selectors**, if the one in the middle has an ampersand. -/
theorem nestPart_nestPart {a : List Char} (hp : p ≠ []) (ha : '&' ∈ a) (b : List Char) :
    nestPart (nestPart p a) b = nestPart p (nestPart a b) := by
  rw [nestPart_of_mem ha]
  by_cases hb : '&' ∈ b
  -- all ampersands of `b` are gone after the first replacement, and those of `a` are there instead
  · have hmem : '&' ∈ Text.replaceAll ['&'] a b := (Text.mem_replaceAll '&' a).mpr (.inl ⟨hb, ha⟩)
    rw [nestPart_of_mem hb, nestPart_of_mem hb, nestPart_of_mem hmem, Text.replaceAll_replaceAll]
  · have hne : Text.replaceAll ['&'] p a ≠ [] := Text.replaceAll_ne_nil '&' hp ha
    have hblank : '&' ∉ ' ' :: b := by simpa using hb
    rw [nestPart_descendant hne hb, nestPart_descendant (List.ne_nil_of_mem ha) hb,
      nestPart_of_mem (List.mem_append_left _ ha), Text.replaceAll_append,
      Text.replaceAll_of_not_mem '&' p hblank]

def nestAll (ps ks : List (List Char)) : List (List Char) :=
  ps.flatMap fun p => ks.map (nestPart p)

def attachedChars (k : List Char) : List Char := if k.head? = some ':' then '&' :: k else k

def keyParts (k : List Char) : List (List Char) := selectorParts (attachedChars k)

theorem nestChars_eq_join (p k : List Char) :
    nestChars p k = Text.join [',', ' '] (nestAll (selectorParts p) (keyParts k)) := rfl

theorem nestAll_cons_cons (p k : List Char) (ps ks : List (List Char)) :
    nestAll (p :: ps) (k :: ks) =
      nestPart p k :: (ks.map (nestPart p) ++ nestAll ps (k :: ks)) := rfl

theorem nestAll_nestAll {ps as : List (List Char)} (hp : [] ∉ ps) (ha : ∀ a ∈ as, '&' ∈ a)
    (bs : List (List Char)) : nestAll (nestAll ps as) bs = nestAll ps (nestAll as bs) := by
  simp only [nestAll, List.flatMap_assoc, List.flatMap_map, List.map_flatMap, List.map_map]
  refine List.flatMap_congr fun p hmem => List.flatMap_congr fun a hamem => ?_
  refine List.map_congr_left fun b _ => ?_
  exact nestPart_nestPart (fun hnil => hp (hnil ▸ hmem)) (ha a hamem) b

theorem isPart_nestAll {ps ks : List (List Char)} (hp : ∀ p ∈ ps, IsPart p)
    (hk : ∀ k ∈ ks, IsPart k) : ∀ x ∈ nestAll ps ks, IsPart x := by
  intro x hx
  obtain ⟨p, hpm, hx⟩ := List.mem_flatMap.mp hx
  obtain ⟨k, hkm, rfl⟩ := List.mem_map.mp hx
  exact (hp p hpm).nestPart (hk k hkm)

theorem selectorParts_ne_nil (s : List Char) : selectorParts s ≠ [] :=
  mt List.map_eq_nil_iff.mp (Text.split_ne_nil [','] s)

/-- A list that is nested below selectors is split into what it is joined from. -/
theorem selectorParts_nestChars (hp : [] ∉ selectorParts p) (hk : [] ∉ keyParts k) :
    selectorParts (nestChars p k) = nestAll (selectorParts p) (keyParts k) := by
  have hparts : ∀ {s : List Char}, [] ∉ selectorParts s → ∀ x ∈ selectorParts s, IsPart x :=
    fun h x hx => isPart_of_mem hx fun hnil => h (hnil ▸ hx)
  have hne : nestAll (selectorParts p) (keyParts k) ≠ [] := by
    obtain ⟨x, xs, hx⟩ := List.exists_cons_of_ne_nil (selectorParts_ne_nil p)
    obtain ⟨y, ys, hy⟩ := List.exists_cons_of_ne_nil (selectorParts_ne_nil (attachedChars k))
    rw [keyParts, hx, hy, nestAll_cons_cons]
    exact List.cons_ne_nil _ _
  rw [nestChars_eq_join, selectorParts_join hne (isPart_nestAll (hparts hp) (hparts hk))]

/-! ### The first selector of a list -/

/-- A list without empty selectors and without white space in front starts as its first selector. -/
theorem exists_selectorParts_eq_cons {s : List Char} (hne : [] ∉ selectorParts s)
    (hblank : Text.trimStart s = s) :
    ∃ x xs, selectorParts s = x :: xs ∧ x.head? = s.head? := by
  cases s with
  | nil => exact absurd List.mem_cons_self hne
  | cons c s =>
    by_cases hc : ',' = c
    · rw [← hc, selectorParts, Text.split_cons_self] at hne
      exact absurd List.mem_cons_self hne
    · obtain ⟨y, ys, hy⟩ := List.exists_cons_of_ne_nil (Text.split_ne_nil [','] s)
      rw [selectorParts, Text.split_cons_of_ne hc, hy]
      exact ⟨_, _, rfl, Text.head?_trim rfl (Text.isBlank_of_trimStart hblank rfl)⟩

theorem attachedChars_of_ne (h : k.head? ≠ some ':') : attachedChars k = k :=
  if_neg h

theorem head?_attachedChars_ne (k : List Char) : (attachedChars k).head? ≠ some ':' := by
  rw [attachedChars]
  split
  · exact nofun
  · next h => exact h

theorem trimStart_attachedChars (h : Text.trimStart k = k) :
    Text.trimStart (attachedChars k) = attachedChars k := by
  rw [attachedChars]
  split
  · rfl
  · exact h

theorem nil_not_mem_keyParts (h : [] ∉ selectorParts k) : [] ∉ keyParts k := by
  rw [keyParts, attachedChars]
  split
  · obtain ⟨y, ys, hy⟩ := List.exists_cons_of_ne_nil (Text.split_ne_nil [','] k)
    rw [selectorParts, hy] at h
    rw [selectorParts, Text.split_cons_of_ne (by decide), hy, List.modifyHead_cons, List.map_cons,
      List.mem_cons, not_or]
    refine ⟨fun hnil => ?_, fun hmem => h (List.mem_cons_of_mem _ hmem)⟩
    exact Text.trim_ne_nil List.mem_cons_self (by decide) hnil.symm
  · exact h

theorem head?_nestPart (hp : p ≠ []) (h : (nestPart p k).head? = some c) :
    p.head? = some c ∨ k.head? = some c := by
  by_cases hk : '&' ∈ k
  · rw [nestPart_of_mem hk, Text.head?_replaceAll '&' hp] at h
    obtain ⟨d, hd, hc⟩ := Option.bind_eq_some_iff.mp h
    split at hc
    · exact .inl hc
    · exact .inr (hd.trans hc)
  · rw [nestPart_descendant hp hk, List.head?_append_of_ne_nil _ hp] at h
    exact .inl h

/-- A list nested below one that does not start with a colon does not start with one either. -/
theorem head?_nestChars_ne (hp : [] ∉ selectorParts p) (hpblank : Text.trimStart p = p)
    (hcolon : p.head? ≠ some ':') (hk : [] ∉ selectorParts k) (hkblank : Text.trimStart k = k) :
    (nestChars p k).head? ≠ some ':' := by
  obtain ⟨x, xs, hx, hxhead⟩ := exists_selectorParts_eq_cons hp hpblank
  obtain ⟨y, ys, hy, hyhead⟩ :=
    exists_selectorParts_eq_cons (nil_not_mem_keyParts hk) (trimStart_attachedChars hkblank)
  have hxne : x ≠ [] := fun hnil => hp (hx ▸ hnil ▸ List.mem_cons_self)
  rw [nestChars_eq_join, keyParts, hx, hy, nestAll_cons_cons, Text.join_eq_intercalate, ne_eq,
    head?_intercalate_iff]
  intro h
  rcases head?_nestPart hxne h with h | h
  · exact hcolon (hxhead ▸ h)
  · exact head?_attachedChars_ne k (hyhead ▸ h)

/-! ### Selectors -/

/-- **Nesting composes**, if every selector of the key in the middle has an ampersand and the key
does not start with a colon.  The selectors of a list are what stands between its commas, without
the white space around it. -/
theorem nestSelector_nestSelector {p k₁ k₂ : String} (hp : [] ∉ selectorParts p.toList)
    (hamp : ∀ a ∈ selectorParts k₁.toList, '&' ∈ a) (hk : [] ∉ selectorParts k₂.toList)
    (hblank₁ : Text.trimStart k₁.toList = k₁.toList)
    (hblank₂ : Text.trimStart k₂.toList = k₂.toList) (hcolon : k₁.toList.head? ≠ some ':') :
    nestSelector (nestSelector p k₁) k₂ = nestSelector p (nestSelector k₁ k₂) := by
  have hmiddle : [] ∉ selectorParts k₁.toList := fun hnil => List.not_mem_nil (hamp [] hnil)
  have hkey : keyParts k₁.toList = selectorParts k₁.toList := by
    rw [keyParts, attachedChars_of_ne hcolon]
  -- the nested key gets no ampersand of its own when it is nested again
  have hinner : keyParts (nestChars k₁.toList k₂.toList) =
      selectorParts (nestChars k₁.toList k₂.toList) := by
    rw [keyParts, attachedChars_of_ne (head?_nestChars_ne hmiddle hblank₁ hcolon hk hblank₂)]
  have hchars : nestChars (nestChars p.toList k₁.toList) k₂.toList =
      nestChars p.toList (nestChars k₁.toList k₂.toList) := by
    rw [nestChars_eq_join, selectorParts_nestChars hp (hkey ▸ hmiddle), hkey,
      nestAll_nestAll hp hamp, nestChars_eq_join, hinner,
      selectorParts_nestChars hmiddle (nil_not_mem_keyParts hk)]
  rw [nestSelector, nestSelector, nestSelector, nestSelector, String.toList_ofList,
    String.toList_ofList, hchars]

/-- Two parents, a key that has the parent twice in its first selector, and a state with a
descendant. -/
theorem nestSelector_nestSelector_menu :
    ([] ∉ selectorParts ".nav, .menu".toList ∧
      (∀ a ∈ selectorParts "& > &.on, a &".toList, '&' ∈ a) ∧
      [] ∉ selectorParts ":hover, b".toList ∧ "& > &.on, a &".toList.head? ≠ some ':') ∧
    nestSelector (nestSelector ".nav, .menu" "& > &.on, a &") ":hover, b" =
      ".nav > .nav.on:hover, .nav > .nav.on b, a .nav:hover, a .nav b, " ++
        ".menu > .menu.on:hover, .menu > .menu.on b, a .menu:hover, a .menu b" := by
  have hp : [] ∉ selectorParts ".nav, .menu".toList := by decide
  have hamp : ∀ a ∈ selectorParts "& > &.on, a &".toList, '&' ∈ a := by decide
  have hk : [] ∉ selectorParts ":hover, b".toList := by decide
  have hcolon : "& > &.on, a &".toList.head? ≠ some ':' := by decide
  refine ⟨⟨hp, hamp, hk, hcolon⟩, ?_⟩
  exact (nestSelector_nestSelector hp hamp hk rfl rfl hcolon).trans (by decide +kernel)

end Pagesmith.Style
