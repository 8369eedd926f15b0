import Mathlib.Data.List.Infix
import Mathlib.Tactic
import Pagesmith.Page.Template
import Pagesmith.Proofs.Text.Basic

/-!
# Markers in one pass

A tag table replaces its markers one after another, each all over the text that the others have
left.  One expects the same text from a single pass that looks at each at-sign on its own: it takes
the longest preset that is written behind the sign, else the built-in marker that is, and else
leaves the sign alone.

The two agree as long as no two markers touch.  A replacement brings in no at-sign, and what it
brings in cannot lengthen the name behind another at-sign if a character that no name has stands
between the two.

* `longestStart?`: the longest of some names that a text starts with.
* `onePass`: the markers of a text replaced in one pass.
* `replaced_separated`: a table replaces the two sides of a separator apart.
* `replaced_marker`: what a table makes of one marker.
* `replaced_eq_onePass`: a table replaces the markers in one pass.
-/

namespace Pagesmith.Page

open Pagesmith.Text

variable {s w x : List Char} {c m : Char} {n : String}

/-! ### One pass -/

def longestStart? (names : List String) (s : List Char) : Option (List Char) :=
  s.inits.reverse.find? fun w => names.contains (String.ofList w)

/-- The name of the marker whose at-sign a text follows: the longest preset, else a built-in one. -/
def markerStart? (names : List String) (s : List Char) : Option (List Char) :=
  (longestStart? names s).or (longestStart? builtinMarkers s)

def classText (name : List Char) : List Char :=
  ['c', 'l', 'a', 's', 's', '=', '"'] ++ name ++ ['"']

def markerText (names : List String) (s : List Char) : List Char :=
  match markerStart? names s with
  | some name => classText name ++ s.drop name.length
  | none => '@' :: s

/-- The markers of a text replaced in one pass, at each at-sign on its own. -/
def onePass (names : List String) : List Char → List Char
  | [] => []
  | c :: cs =>
    if c = '@' then
      match markerStart? names cs with
      | some name => classText name ++ onePass names (cs.drop name.length)
      | none => c :: onePass names cs
    else c :: onePass names cs
termination_by s => s.length
decreasing_by all_goals simp only [List.length_drop, List.length_cons]; omega

/-- A class of characters that the names of markers are made of, such as letters, digits, hyphens
and underscores. -/
structure NameClass (isName : Char → Bool) : Prop where
  builtin : ∀ n ∈ builtinMarkers, ∀ c ∈ n.toList, isName c = true
  atSign : isName '@' = false

theorem isNameChar_of_all {names : List String}
    (h : names.all (fun n => n.toList.all isNameChar) = true) :
    ∀ n ∈ names, ∀ c ∈ n.toList, isNameChar c = true :=
  fun n hn c hc => List.all_eq_true.mp (List.all_eq_true.mp h n hn) c hc

theorem nameClass_isNameChar : NameClass isNameChar :=
  ⟨isNameChar_of_all (by decide), by decide⟩

/-- Between any two at-signs stands a character that no name has. -/
def MarkersApart (isName : Char → Bool) (text : List Char) : Prop :=
  ∀ between, '@' :: between ++ ['@'] <:+: text → ∃ c ∈ between, isName c = false

theorem markersApart_iff {isName : Char → Bool} {text : List Char} :
    MarkersApart isName text ↔ ∀ t ∈ text.tails, ∀ w ∈ t.inits, w.head? = some '@' →
      w.getLast? = some '@' → 2 ≤ w.length → ∃ c ∈ w.tail.dropLast, isName c = false := by
  constructor
  · intro h t ht w hw hhead hlast hlen
    have hinfix : w <:+: text := by
      rw [List.mem_tails] at ht
      rw [List.mem_inits] at hw
      exact hw.isInfix.trans ht.isInfix
    obtain ⟨v, rfl⟩ := List.head?_eq_some_iff.mp hhead
    have hv : v ≠ [] := by
      rintro rfl
      simp at hlen
    rw [List.getLast?_cons_of_ne_nil hv] at hlast
    obtain ⟨between, rfl⟩ := List.getLast?_eq_some_iff.mp hlast
    simpa using h between hinfix
  · intro h between hbetween
    obtain ⟨t, hw, ht⟩ := List.infix_iff_prefix_suffix.mp hbetween
    have hfound := h t ((List.mem_tails _ _).mpr ht) ('@' :: between ++ ['@'])
      ((List.mem_inits _ _).mpr hw) rfl List.getLast?_concat (by simp)
    simpa using hfound

instance (isName : Char → Bool) (text : List Char) : Decidable (MarkersApart isName text) :=
  decidable_of_iff ((text.tails.all fun t => t.inits.all fun w =>
      !(w.head? == some '@' && w.getLast? == some '@' && 2 ≤ w.length) ||
        w.tail.dropLast.any (!isName ·)) = true) <| by
    rw [markersApart_iff]
    simp only [List.all_eq_true, List.any_eq_true, Bool.or_eq_true, Bool.not_eq_eq_eq_not,
      Bool.not_true, Bool.and_eq_false_imp, Bool.and_eq_true, beq_iff_eq, decide_eq_false_iff_not,
      and_imp]
    grind

/-! ### The longest name -/

theorem find?_inits_eq_some_iff {p : List Char → Bool} :
    s.inits.reverse.find? p = some w ↔
      p w = true ∧ w <+: s ∧ ∀ v, p v = true → v <+: s → v.length ≤ w.length := by
  induction s generalizing p w with
  | nil =>
    simp only [List.inits, List.reverse_singleton, List.find?_singleton, List.prefix_nil]
    constructor
    · intro h
      split at h
      · next hp =>
        obtain rfl := Option.some.inj h
        exact ⟨hp, rfl, fun v _ hv => by rw [hv]⟩
      · cases h
    · rintro ⟨hp, rfl, -⟩
      rw [if_pos hp]
  | cons c s ih =>
    rw [List.inits_cons, List.reverse_cons, ← List.map_reverse, List.find?_append,
      List.find?_map]
    cases hlong : s.inits.reverse.find? (p ∘ List.cons c) with
    | some v =>
      obtain ⟨hp, hv, hmax⟩ := ih.mp hlong
      have hlongest : ∀ u, p u = true → u <+: c :: s → u.length ≤ (c :: v).length := by
        intro u hu hus
        cases u with
        | nil => simp
        | cons d u =>
          obtain ⟨rfl, htail⟩ := List.cons_prefix_cons.mp hus
          exact Nat.succ_le_succ (hmax u hu htail)
      constructor
      · intro h
        obtain rfl : c :: v = w := by simpa using h
        exact ⟨hp, List.cons_prefix_cons.mpr ⟨rfl, hv⟩, hlongest⟩
      · rintro ⟨hw, hws, hwmax⟩
        have hvs : c :: v <+: c :: s := List.cons_prefix_cons.mpr ⟨rfl, hv⟩
        have hlen : w.length = (c :: v).length :=
          Nat.le_antisymm (hlongest w hw hws) (hwmax (c :: v) hp hvs)
        obtain rfl := (List.prefix_of_prefix_length_le hws hvs (le_of_eq hlen)).eq_of_length hlen
        rfl
    | none =>
      have hnone : ∀ v, p (c :: v) = true → ¬ v <+: s := by
        intro v hv hvs
        have hmem : v ∈ s.inits.reverse := by simpa using hvs
        exact absurd hv (by simpa using List.find?_eq_none.mp hlong v hmem)
      have hnil : ∀ u, p u = true → u <+: c :: s → u = [] := by
        intro u hu hus
        cases u with
        | nil => rfl
        | cons d u =>
          obtain ⟨rfl, htail⟩ := List.cons_prefix_cons.mp hus
          exact absurd htail (hnone u hu)
      constructor
      · intro h
        obtain ⟨hp, rfl⟩ : p [] = true ∧ [] = w := by simpa using h
        exact ⟨hp, List.nil_prefix, fun u hu hus => by rw [hnil u hu hus]⟩
      · rintro ⟨hw, hws, -⟩
        obtain rfl := hnil w hw hws
        simp [hw]

theorem longestStart?_eq_some_iff {names : List String} :
    longestStart? names s = some w ↔
      String.ofList w ∈ names ∧ w <+: s ∧
        ∀ v, String.ofList v ∈ names → v <+: s → v.length ≤ w.length := by
  rw [longestStart?, find?_inits_eq_some_iff]
  simp only [List.contains_iff_mem]

theorem longestStart?_eq_none_iff {names : List String} :
    longestStart? names s = none ↔ ∀ n ∈ names, ¬ n.toList <+: s := by
  rw [longestStart?, List.find?_eq_none]
  constructor
  · intro h n hn hns
    refine h n.toList (by simpa using hns) ?_
    rw [String.ofList_toList]
    exact List.contains_iff_mem.mpr hn
  · intro h w hw hmem
    refine h _ (List.contains_iff_mem.mp hmem) ?_
    rw [String.toList_ofList]
    simpa using hw

/-- In a list in which longer names come before shorter ones, the first name that a text starts with
is the longest one. -/
theorem find?_eq_longestStart? {names : List String}
    (h : names.Pairwise fun a b => a.toList <+: s → b.toList <+: s →
      b.toList.length ≤ a.toList.length) :
    (names.find? fun n => n.toList.isPrefixOf s).map String.toList = longestStart? names s := by
  cases hfind : names.find? fun n => n.toList.isPrefixOf s with
  | none =>
    refine (longestStart?_eq_none_iff.mpr fun n hn hns => ?_).symm
    exact List.find?_eq_none.mp hfind n hn (List.isPrefixOf_iff_prefix.mpr hns)
  | some n =>
    obtain ⟨hn, before, after, rfl, hbefore⟩ := List.find?_eq_some_iff_append.mp hfind
    have hns : n.toList <+: s := List.isPrefixOf_iff_prefix.mp hn
    refine (longestStart?_eq_some_iff.mpr ⟨by simp, hns, fun v hv hvs => ?_⟩).symm
    rcases List.mem_append.mp hv with hv | hv
    · have hnot := hbefore _ hv
      rw [String.toList_ofList, List.isPrefixOf_iff_prefix.mpr hvs] at hnot
      cases hnot
    · rcases List.mem_cons.mp hv with rfl | hv
      · simp
      · have hle := (List.pairwise_cons.mp (List.pairwise_append.mp h).2.1).1 _ hv hns
        rw [String.toList_ofList] at hle
        exact hle hvs

/-! ### One replacement -/

section Replace

variable {old new : List Char}

theorem replaceFrom_skip (hold : old ≠ []) (k : Nat) (s : List Char) :
    replaceFrom old new k s = replaceAll old new (s.drop k) := by
  rw [replaceAll_eq_replaceFrom hold]
  induction s generalizing k with
  | nil => rw [List.drop_nil]; rfl
  | cons c s ih =>
    cases k with
    | zero => rfl
    | succ k => rw [replaceFrom, List.drop_succ_cons, ih]

theorem replaceAll_of_start (h : w <+: s) :
    replaceAll (m :: w) new (m :: s) = new ++ replaceAll (m :: w) new (s.drop w.length) := by
  have hprefix : (m :: w).isPrefixOf (m :: s) = true :=
    List.isPrefixOf_iff_prefix.mpr (List.cons_prefix_cons.mpr ⟨rfl, h⟩)
  have hold : m :: w ≠ [] := List.cons_ne_nil m w
  rw [replaceAll_eq_replaceFrom hold, replaceFrom, if_pos hprefix, replaceFrom_skip hold,
    List.length_cons, Nat.add_sub_cancel]

theorem replaceAll_of_not_start (h : ¬ old <+: c :: s) :
    replaceAll old new (c :: s) = c :: replaceAll old new s := by
  have hold : old ≠ [] := by
    rintro rfl
    exact h List.nil_prefix
  rw [replaceAll_eq_replaceFrom hold, replaceAll_eq_replaceFrom hold, replaceFrom,
    if_neg (by rwa [List.isPrefixOf_iff_prefix])]

theorem replaceAll_append_left (h : m ∉ x) (s : List Char) :
    replaceAll (m :: w) new (x ++ s) = x ++ replaceAll (m :: w) new s := by
  induction x with
  | nil => rfl
  | cons c x ih =>
    rw [List.mem_cons, not_or] at h
    rw [List.cons_append, replaceAll_of_not_start fun hw => h.1 (List.cons_prefix_cons.mp hw).1,
      ih h.2, List.cons_append]

theorem replaceAll_unmarked (h : m ∉ s) : replaceAll (m :: w) new s = s := by
  have happend : replaceAll (m :: w) new (s ++ []) = s ++ [] := replaceAll_append_left h []
  rwa [List.append_nil] at happend

theorem replaceAll_separated (hc : c ∉ old) (hold : old ≠ []) (x y : List Char) :
    replaceAll old new (x ++ c :: y) = replaceAll old new x ++ c :: replaceAll old new y := by
  induction hn : x.length using Nat.strongRecOn generalizing x with
  | ind n ih =>
    subst hn
    obtain ⟨m, w, rfl⟩ := List.exists_cons_of_ne_nil hold
    cases x with
    | nil =>
      rw [List.nil_append, replaceAll_of_not_start]
      · rfl
      · intro h
        exact hc (List.mem_cons.mpr (.inl (List.cons_prefix_cons.mp h).1.symm))
    | cons d x =>
      by_cases h : m :: w <+: d :: x
      · obtain ⟨rfl, hw⟩ := List.cons_prefix_cons.mp h
        rw [List.cons_append, replaceAll_of_start (hw.trans (List.prefix_append x _)),
          replaceAll_of_start hw, List.drop_append_of_le_length hw.length_le, List.append_assoc]
        congr 1
        exact ih _ (by simp only [List.length_drop, List.length_cons]; omega) _ rfl
      · rw [List.cons_append, replaceAll_of_not_start h, replaceAll_of_not_start,
          ih _ (Nat.lt_succ_self _) x rfl, List.cons_append]
        rw [← List.cons_append]
        exact fun hlong => h (prefix_of_append_cons hc hlong)

end Replace

/-! ### A table -/

section Table

variable {keys : List String}

theorem toList_marker (name : String) : (Tag.ofClass name).marker.toList = '@' :: name.toList := by
  rw [Tag.ofClass, String.toList_append]
  rfl

theorem toList_replacement (name : String) :
    (Tag.ofClass name).replacement.toList = classText name.toList := by
  rw [Tag.ofClass, String.toList_append, String.toList_append]
  rfl

theorem replaced_cons (key : String) (text : List Char) :
    TagTable.replaced ((key :: keys).map Tag.ofClass) text
      = TagTable.replaced (keys.map Tag.ofClass)
        (replaceAll ('@' :: key.toList) (classText key.toList) text) := by
  rw [← toList_marker, ← toList_replacement]
  rfl

theorem replaced_append_left (h : '@' ∉ x) (s : List Char) :
    TagTable.replaced (keys.map Tag.ofClass) (x ++ s)
      = x ++ TagTable.replaced (keys.map Tag.ofClass) s := by
  induction keys generalizing s with
  | nil => rfl
  | cons key keys ih => rw [replaced_cons, replaceAll_append_left h, ih, replaced_cons]

theorem replaced_nil : TagTable.replaced (keys.map Tag.ofClass) [] = [] := by
  induction keys with
  | nil => rfl
  | cons key keys ih => rw [replaced_cons]; exact ih

theorem replaced_of_not_mem (h : '@' ∉ x) : TagTable.replaced (keys.map Tag.ofClass) x = x := by
  have happend : TagTable.replaced (keys.map Tag.ofClass) (x ++ []) = x ++ [] := by
    rw [replaced_append_left h, replaced_nil]
  rwa [List.append_nil] at happend

theorem replaced_separated (hat : c ≠ '@') (hc : ∀ key ∈ keys, c ∉ key.toList) (x y : List Char) :
    TagTable.replaced (keys.map Tag.ofClass) (x ++ c :: y)
      = TagTable.replaced (keys.map Tag.ofClass) x
        ++ c :: TagTable.replaced (keys.map Tag.ofClass) y := by
  induction keys generalizing x y with
  | nil => rfl
  | cons key keys ih =>
    rw [List.forall_mem_cons] at hc
    rw [replaced_cons, replaced_cons, replaced_cons,
      replaceAll_separated (by simp [hat, hc.1]) (List.cons_ne_nil _ _), ih hc.2]

/-- **What a table makes of one marker**: the first key that is written behind the at-sign is
replaced, and what follows it stays. -/
theorem replaced_marker (hkeys : ∀ key ∈ keys, '@' ∉ key.toList) (hs : '@' ∉ s) :
    TagTable.replaced (keys.map Tag.ofClass) ('@' :: s)
      = match keys.find? fun key => key.toList.isPrefixOf s with
        | some key => classText key.toList ++ s.drop key.toList.length
        | none => '@' :: s := by
  induction keys with
  | nil => rfl
  | cons key keys ih =>
    rw [List.forall_mem_cons] at hkeys
    rw [replaced_cons]
    by_cases h : key.toList <+: s
    · have hrest : '@' ∉ s.drop key.toList.length := fun hmem => hs (List.mem_of_mem_drop hmem)
      have hclass : '@' ∉ classText key.toList := by simp [classText, hkeys.1]
      have hfind := List.find?_cons_of_pos (p := fun key : String => key.toList.isPrefixOf s)
        (l := keys) (List.isPrefixOf_iff_prefix.mpr h)
      rw [replaceAll_of_start h, replaceAll_unmarked hrest, hfind]
      exact replaced_of_not_mem (by simp [hclass, hrest])
    · have hfind := List.find?_cons_of_neg (p := fun key : String => key.toList.isPrefixOf s)
        (l := keys) (by rwa [List.isPrefixOf_iff_prefix] : ¬ key.toList.isPrefixOf s = true)
      rw [replaceAll_of_not_start (fun hw => h (List.cons_prefix_cons.mp hw).2),
        replaceAll_unmarked hs, hfind, ih hkeys.2]

end Table

/-! ### The table of a catalog -/

def orderedKeys (names : List String) : List String :=
  (names.mergeSort fun a b => decide (b.utf8ByteSize ≤ a.utf8ByteSize)) ++ builtinMarkers

theorem ofPresets_eq (names : List String) :
    TagTable.ofPresets names = (orderedKeys names).map Tag.ofClass := by
  rw [TagTable.ofPresets, orderedKeys, List.map_append, TagTable.builtin]

theorem mem_orderedKeys {names : List String} :
    n ∈ orderedKeys names ↔ n ∈ names ∨ n ∈ builtinMarkers := by
  rw [orderedKeys, List.mem_append, List.mem_mergeSort]

theorem length_le_of_utf8ByteSize_le {a b : String} (ha : a.toList <+: s) (hb : b.toList <+: s)
    (h : b.utf8ByteSize ≤ a.utf8ByteSize) : b.toList.length ≤ a.toList.length := by
  rcases List.prefix_or_prefix_of_prefix ha hb with hab | hba
  · obtain ⟨t, ht⟩ := hab
    have hb : b = a ++ String.ofList t := by
      rw [← String.toList_inj, String.toList_append, String.toList_ofList, ht]
    rw [hb, String.utf8ByteSize_append] at h
    have hzero : (String.ofList t).utf8ByteSize = 0 := by omega
    have hnil : t = [] := by
      rw [String.utf8ByteSize_eq_zero_iff] at hzero
      simpa using congrArg String.toList hzero
    rw [← ht, hnil, List.append_nil]
  · exact hba.length_le

theorem builtinMarkers_prefix_free {a b : String} (ha : a ∈ builtinMarkers)
    (hb : b ∈ builtinMarkers) (h : a.toList <+: b.toList) : a = b := by
  have hall : builtinMarkers.all (fun a => builtinMarkers.all fun b =>
      !a.toList.isPrefixOf b.toList || a == b) = true := by decide
  have hab := List.all_eq_true.mp (List.all_eq_true.mp hall a ha) b hb
  simpa [List.isPrefixOf_iff_prefix.mpr h] using hab

theorem find?_builtinMarkers (s : List Char) :
    (builtinMarkers.find? fun n => n.toList.isPrefixOf s).map String.toList
      = longestStart? builtinMarkers s := by
  refine find?_eq_longestStart? (List.Pairwise.imp_of_mem ?_
    (List.pairwise_of_forall fun _ _ => trivial))
  intro a b ha hb _ hsa hsb
  rcases List.prefix_or_prefix_of_prefix hsa hsb with h | h
  · rw [builtinMarkers_prefix_free ha hb h]
  · exact h.length_le

theorem find?_orderedKeys (names : List String) (s : List Char) :
    ((orderedKeys names).find? fun n => n.toList.isPrefixOf s).map String.toList
      = markerStart? names s := by
  have hsorted : (names.mergeSort fun a b => decide (b.utf8ByteSize ≤ a.utf8ByteSize)).Pairwise
      fun a b => a.toList <+: s → b.toList <+: s → b.toList.length ≤ a.toList.length := by
    refine (List.pairwise_mergeSort (fun a b c hab hbc => ?_) (fun a b => ?_) names).imp ?_
    · simp only [decide_eq_true_eq] at hab hbc ⊢
      exact hbc.trans hab
    · simpa using Nat.le_total b.utf8ByteSize a.utf8ByteSize
    · intro a b hab ha hb
      exact length_le_of_utf8ByteSize_le ha hb (by simpa using hab)
  have hlongest : ∀ w, longestStart? (names.mergeSort fun a b =>
      decide (b.utf8ByteSize ≤ a.utf8ByteSize)) w = longestStart? names w := by
    intro w
    simp only [longestStart?, List.contains_eq_mem, List.mem_mergeSort]
  rw [orderedKeys, List.find?_append, Option.map_or, find?_eq_longestStart? hsorted,
    find?_builtinMarkers, hlongest, markerStart?]

section Names

variable {isName : Char → Bool} (hclass : NameClass isName) {names : List String}
  (hnames : ∀ n ∈ names, ∀ c ∈ n.toList, isName c = true)
include hclass hnames

theorem isName_of_mem_orderedKeys (hn : n ∈ orderedKeys names) (hc : c ∈ n.toList) :
    isName c = true := by
  rcases mem_orderedKeys.mp hn with hn | hn
  · exact hnames n hn c hc
  · exact hclass.builtin n hn c hc

theorem not_mem_of_mem_orderedKeys (hc : isName c = false) (hn : n ∈ orderedKeys names) :
    c ∉ n.toList := by
  intro hmem
  rw [isName_of_mem_orderedKeys hclass hnames hn hmem] at hc
  cases hc

theorem replaced_ofPresets_separated (hat : c ≠ '@') (hc : isName c = false) (x y : List Char) :
    (TagTable.ofPresets names).replaced (x ++ c :: y)
      = (TagTable.ofPresets names).replaced x ++ c :: (TagTable.ofPresets names).replaced y := by
  rw [ofPresets_eq]
  exact replaced_separated hat (fun n hn => not_mem_of_mem_orderedKeys hclass hnames hc hn) x y

/-- A table replaces a text apart from what follows if that starts with a separator. -/
theorem replaced_ofPresets_append (x : List Char) {y : List Char}
    (hy : ∀ c, y.head? = some c → c ≠ '@' ∧ isName c = false) :
    (TagTable.ofPresets names).replaced (x ++ y)
      = (TagTable.ofPresets names).replaced x ++ (TagTable.ofPresets names).replaced y := by
  cases y with
  | nil => rw [ofPresets_eq, replaced_nil, List.append_nil, List.append_nil]
  | cons c y =>
    obtain ⟨hat, hc⟩ := hy c rfl
    have hcons := replaced_ofPresets_separated hclass hnames hat hc [] y
    have hnil : (TagTable.ofPresets names).replaced [] = [] := by rw [ofPresets_eq, replaced_nil]
    rw [hnil, List.nil_append, List.nil_append] at hcons
    rw [replaced_ofPresets_separated hclass hnames hat hc, hcons]

/-- What a table makes of one marker: the longest preset behind the at-sign is replaced, else the
built-in marker. -/
theorem replaced_ofPresets_marker (hs : '@' ∉ s) :
    (TagTable.ofPresets names).replaced ('@' :: s) = markerText names s := by
  rw [ofPresets_eq, replaced_marker
    (fun n hn => not_mem_of_mem_orderedKeys hclass hnames hclass.atSign hn) hs, markerText,
    ← find?_orderedKeys]
  cases (orderedKeys names).find? fun n => n.toList.isPrefixOf s <;> rfl

end Names

/-! ### The pass, marker by marker -/

theorem onePass_nil (names : List String) : onePass names [] = [] := by rw [onePass]

theorem onePass_append_left (names : List String) (h : '@' ∉ x) (s : List Char) :
    onePass names (x ++ s) = x ++ onePass names s := by
  induction x with
  | nil => rfl
  | cons c x ih =>
    rw [List.mem_cons, not_or] at h
    rw [List.cons_append, onePass, if_neg (Ne.symm h.1), ih h.2, List.cons_append]

/-- A name that does not end where a text ends is not written there. -/
theorem longestStart?_append {isName : Char → Bool} {names : List String}
    (hnames : ∀ n ∈ names, ∀ c ∈ n.toList, isName c = true) (r : List Char)
    (hs : ∀ c, s.head? = some c → isName c = false) :
    longestStart? names (r ++ s) = longestStart? names r := by
  have hstart : ∀ v, String.ofList v ∈ names → (v <+: r ++ s ↔ v <+: r) := by
    intro v hv
    refine ⟨fun h => ?_, fun h => h.trans (List.prefix_append r s)⟩
    cases s with
    | nil => simpa using h
    | cons c s =>
      refine prefix_of_append_cons (fun hmem => ?_) h
      have hc := hnames _ hv c (by rwa [String.toList_ofList])
      rw [hs c rfl] at hc
      cases hc
  cases hr : longestStart? names r with
  | none =>
    rw [longestStart?_eq_none_iff] at hr ⊢
    intro n hn h
    rw [← String.ofList_toList (s := n)] at hn
    exact hr n (by rwa [String.ofList_toList] at hn) ((hstart _ hn).mp h)
  | some w =>
    obtain ⟨hw, hwr, hmax⟩ := longestStart?_eq_some_iff.mp hr
    exact longestStart?_eq_some_iff.mpr
      ⟨hw, (hstart w hw).mpr hwr, fun v hv h => hmax v hv ((hstart v hv).mp h)⟩

theorem markerStart?_isStart {names : List String} {name : List Char}
    (h : markerStart? names s = some name) : name <+: s := by
  rcases Option.or_eq_some_iff.mp h with h | ⟨-, h⟩
  · exact (longestStart?_eq_some_iff.mp h).2.1
  · exact (longestStart?_eq_some_iff.mp h).2.1

theorem onePass_marker {isName : Char → Bool} (hclass : NameClass isName) {names : List String}
    (hnames : ∀ n ∈ names, ∀ c ∈ n.toList, isName c = true) {r : List Char} (hr : '@' ∉ r)
    (hs : ∀ c, s.head? = some c → isName c = false) :
    onePass names ('@' :: (r ++ s)) = markerText names r ++ onePass names s := by
  have hstart : markerStart? names (r ++ s) = markerStart? names r := by
    rw [markerStart?, longestStart?_append hnames r hs, longestStart?_append hclass.builtin r hs,
      markerStart?]
  rw [onePass, if_pos rfl, hstart, markerText]
  cases hname : markerStart? names r with
  | none => exact congrArg ('@' :: ·) (onePass_append_left names hr s)
  | some name =>
    have hlen := (markerStart?_isStart hname).length_le
    have hrest : '@' ∉ r.drop name.length := fun hmem => hr (List.mem_of_mem_drop hmem)
    simp only
    rw [List.drop_append_of_le_length hlen, onePass_append_left names hrest, List.append_assoc]

/-- What follows a separator in a text whose markers are apart has its markers apart. -/
theorem MarkersApart.of_infix {isName : Char → Bool} {text : List Char}
    (h : MarkersApart isName text) (hs : s <:+: text) : MarkersApart isName s :=
  fun between hb => h between (hb.trans hs)

/-- **Markers are replaced in one pass.**  If between any two at-signs of a text there is a
character that no name has, then replacing the markers of a table one after another gives what one
pass over the text gives.  At each at-sign the pass replaces the longest preset that follows, else
the built-in marker that follows, and else nothing.  Names may be made of any class of characters
without the at-sign. -/
theorem replaced_eq_onePass {isName : Char → Bool} (hclass : NameClass isName)
    (names : List String) (hnames : ∀ n ∈ names, ∀ c ∈ n.toList, isName c = true)
    (text : List Char) (htext : MarkersApart isName text) :
    (TagTable.ofPresets names).replaced text = onePass names text := by
  induction hn : text.length using Nat.strongRecOn generalizing text with
  | ind n ih =>
    subst hn
    by_cases hmem : '@' ∈ text
    · obtain ⟨x, y, rfl, hx⟩ := List.eq_append_cons_of_mem hmem
      -- the name behind the first at-sign, and what follows it
      obtain ⟨r, s, rfl, hr, hs⟩ : ∃ r s, y = r ++ s ∧ (∀ c ∈ r, isName c = true) ∧
          ∀ c, s.head? = some c → isName c = false :=
        ⟨y.takeWhile isName, y.dropWhile isName, List.takeWhile_append_dropWhile.symm,
          fun c hc => List.all_eq_true.mp List.all_takeWhile c hc, fun c hc => by
            have hnot := List.head?_dropWhile_not isName y
            rw [hc] at hnot
            simpa using hnot⟩
      have hat : '@' ∉ r := fun hmem => by simpa [hclass.atSign] using hr '@' hmem
      have hsep : ∀ c, s.head? = some c → c ≠ '@' ∧ isName c = false := by
        refine fun c hc => ⟨fun heq => ?_, hs c hc⟩
        obtain ⟨t, rfl⟩ := List.head?_eq_some_iff.mp hc
        obtain ⟨d, hd, hname⟩ := htext r ⟨x, t, by simp [heq]⟩
        rw [hr d hd] at hname
        cases hname
      have hrest : (TagTable.ofPresets names).replaced s = onePass names s :=
        ih s.length (by simp only [List.length_append, List.length_cons]; omega) s
          (htext.of_infix ⟨x ++ '@' :: r, [], by simp⟩) rfl
      have hleft : ∀ t, (TagTable.ofPresets names).replaced (x ++ t)
          = x ++ (TagTable.ofPresets names).replaced t := fun t => by
        rw [ofPresets_eq, replaced_append_left hx]
      rw [hleft, onePass_append_left names hx, onePass_marker hclass hnames hat hs,
        ← List.cons_append, replaced_ofPresets_append hclass hnames _ hsep,
        replaced_ofPresets_marker hclass hnames hat, hrest]
    · have hpass := onePass_append_left names hmem []
      rw [List.append_nil, onePass_nil, List.append_nil] at hpass
      rw [hpass, ofPresets_eq, replaced_of_not_mem hmem]

/-- Presets that start each other and a built-in marker, with markers that are longer than all of
them and one that starts with none. -/
theorem replaced_eq_onePass_cards :
    let names := ["card", "cards-modern", "cards"]
    let text := "<p @cards-modern2 @cards/@cart @text-a>a@b".toList
    (NameClass isNameChar ∧ (∀ n ∈ names, ∀ c ∈ n.toList, isNameChar c = true) ∧
      MarkersApart isNameChar text) ∧
      (TagTable.ofPresets names).replaced text
        = "<p class=\"cards-modern\"2 class=\"cards\"/@cart class=\"text\"-a>a@b".toList := by
  intro names text
  have hnames : ∀ n ∈ names, ∀ c ∈ n.toList, isNameChar c = true :=
    isNameChar_of_all (by decide)
  have hapart : MarkersApart isNameChar text := by decide +kernel
  exact ⟨⟨nameClass_isNameChar, hnames, hapart⟩,
    (replaced_eq_onePass nameClass_isNameChar names hnames text hapart).trans (by decide +kernel)⟩

end Pagesmith.Page
