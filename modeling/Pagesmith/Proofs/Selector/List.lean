import Mathlib.Data.List.Basic
import Pagesmith.Proofs.Text.Basic
import Pagesmith.Style.Selector

/-!
# Nested selector lists

A key may be a list of selectors, and a selector that starts with a colon belongs to the parent
itself.  The colon is looked for in front of the whole list, though, and the list is cut at every
comma: so only the first selector of a list attaches by its colon, and a comma inside parentheses
cuts its selector in two.

* `attached`, `below`: one selector below one parent.
* `nestSelector_list`: what a list of selectors becomes, and when that is its selectors one by one.
* `colon_list_detached`: a list of states whose second state is lost to a descendant.
-/

namespace Pagesmith.Style

variable {k p : String}

def attached (k : String) : String := if k.toList.head? = some ':' then "&" ++ k else k

/-- One selector below a parent: every ampersand stands for the parent, and a selector without one
is a descendant. -/
def below (parent k : String) : String :=
  if '&' ∈ k.toList then
    String.ofList (k.toList.flatMap fun c => if c = '&' then parent.toList else [c])
  else parent ++ " " ++ k

def trimmed (p : String) : String := String.ofList (Text.trim p.toList)

def pieces (k : String) : List String := (selectorParts k.toList).map String.ofList

/-! ### Cutting a list -/

theorem selectorParts_of_not_mem {k : List Char} (h : ',' ∉ k) :
    selectorParts k = [Text.trim k] := by
  rw [selectorParts, Text.split_of_not_mem h, List.map_singleton]

theorem selectorParts_blank_cons (k : List Char) : selectorParts (' ' :: k) = selectorParts k := by
  have htrim : ∀ s, Text.trim (' ' :: s) = Text.trim s := fun s => by
    rw [← List.singleton_append, Text.trim_append_left (by simp [Text.isBlank])]
  rw [selectorParts, selectorParts, Text.split_cons_of_ne (by decide)]
  cases Text.split [','] k with
  | nil => rfl
  | cons x xs => rw [List.modifyHead_cons, List.map_cons, List.map_cons, htrim]

theorem selectorParts_append_cons (k r : List Char) :
    selectorParts (k ++ ',' :: r) = selectorParts k ++ selectorParts r := by
  rw [selectorParts, Text.split_append_cons, List.map_append, selectorParts, selectorParts]

theorem selectorParts_intercalate (k : List Char) (ks : List (List Char)) :
    selectorParts ([',', ' '].intercalate (k :: ks)) = (k :: ks).flatMap selectorParts := by
  induction ks generalizing k with
  | nil => simp
  | cons x xs ih =>
    rw [List.intercalate_cons_cons, List.append_assoc, List.cons_append, List.singleton_append,
      selectorParts_append_cons, selectorParts_blank_cons, ih]
    rfl

theorem split_intercalate {x : List Char} {xs : List (List Char)} (h : ∀ y ∈ x :: xs, ',' ∉ y) :
    Text.split [','] ([',', ' '].intercalate (x :: xs)) = x :: xs.map (' ' :: ·) := by
  induction xs generalizing x with
  | nil => rw [List.intercalate_singleton, Text.split_of_not_mem (h x List.mem_cons_self)]; rfl
  | cons y ys ih =>
    rw [List.intercalate_cons_cons, List.append_assoc, List.cons_append, List.singleton_append,
      Text.split_append_cons, Text.split_of_not_mem (h x List.mem_cons_self),
      Text.split_cons_of_ne (by decide), ih fun z hz => h z (List.mem_cons_of_mem x hz)]
    rfl

theorem intercalate_inj {xs ys : List String} (hx : ∀ x ∈ xs, ',' ∉ x.toList)
    (hy : ∀ y ∈ ys, ',' ∉ y.toList) (hxs : xs ≠ []) (hys : ys ≠ [])
    (h : ", ".intercalate xs = ", ".intercalate ys) : xs = ys := by
  obtain ⟨x, xs, rfl⟩ := List.exists_cons_of_ne_nil hxs
  obtain ⟨y, ys, rfl⟩ := List.exists_cons_of_ne_nil hys
  have hcut : ∀ {z : String} {zs : List String}, (∀ w ∈ z :: zs, ',' ∉ w.toList) →
      Text.split [','] (", ".intercalate (z :: zs)).toList
        = z.toList :: (zs.map String.toList).map (' ' :: ·) := by
    intro z zs hz
    rw [String.toList_intercalate, List.map_cons]
    refine split_intercalate fun w hw => ?_
    rw [← List.map_cons] at hw
    obtain ⟨v, hv, rfl⟩ := List.mem_map.mp hw
    exact hz v hv
  have heq := congrArg (fun s : String => Text.split [','] s.toList) h
  simp only [hcut hx, hcut hy] at heq
  obtain ⟨hhead, htail⟩ := List.cons.inj heq
  rw [String.toList_inj.mp hhead,
    List.map_injective_iff.mpr (fun _ _ => String.toList_inj.mp)
      (List.map_injective_iff.mpr (fun _ _ => List.cons_inj_right _ |>.mp) htail)]

/-! ### One selector below one parent -/

theorem nestPart_eq_below (hp : p ≠ "") (k : String) :
    nestPart p.toList k.toList = (below p k).toList := by
  have hne : p.toList ≠ [] := by simpa using hp
  rw [nestPart, below, Text.contains_singleton, Text.replaceAll_singleton]
  by_cases h : '&' ∈ k.toList
  · rw [if_pos (by simpa using h), if_pos h, String.toList_ofList]
  · rw [if_neg (by simpa using h), if_neg h, if_neg (by simpa using hne)]
    simp

theorem comma_not_mem_below (hp : ',' ∉ p.toList) (hk : ',' ∉ k.toList) :
    ',' ∉ (below p k).toList := by
  rw [below]
  split
  · rw [String.toList_ofList, List.mem_flatMap]
    rintro ⟨c, hc, hm⟩
    split at hm
    · exact hp hm
    · exact hk (List.mem_singleton.mp hm ▸ hc)
  · simp [hp, hk]

theorem comma_not_mem_attached (hk : ',' ∉ k.toList) : ',' ∉ (attached k).toList := by
  rw [attached]
  split
  · simpa using hk
  · exact hk

/-- A selector that starts with a colon is another one where it does not attach. -/
theorem below_attached_iff (hp : p ≠ "") :
    below p k = below p (attached k) ↔ k.toList.head? ≠ some ':' := by
  have hlen : 0 < p.toList.length := List.length_pos_iff.mpr (by simpa using hp)
  constructor
  · intro h hcolon
    have hle := congrArg (fun s : String => s.toList.length) h
    rw [attached, if_pos hcolon] at hle
    -- the ampersand in front brings the parent in once more, or in place of a blank
    by_cases hm : '&' ∈ k.toList
    · simp [below, hm] at hle
      exact hp hle
    · have hk : (k.toList.flatMap fun c => if c = '&' then p.toList else [c]) = k.toList := by
        rw [← Text.replaceAll_singleton]
        exact Text.replaceFrom_of_not_mem hm
      simp [below, hm, hk] at hle
  · intro hcolon
    rw [attached, if_neg hcolon]

/-! ### Lists -/

theorem head?_intercalate_iff (k : List Char) (ks : List (List Char)) :
    ([',', ' '].intercalate (k :: ks)).head? = some ':' ↔ k.head? = some ':' := by
  cases ks with
  | nil => rw [List.intercalate_singleton]
  | cons x xs =>
    rw [List.intercalate_cons_cons]
    cases k <;> simp

theorem toList_attached_intercalate (k : String) (ks : List String) :
    (attached (", ".intercalate (k :: ks))).toList =
      [',', ' '].intercalate ((attached k :: ks).map String.toList) := by
  have hhead := head?_intercalate_iff k.toList (ks.map String.toList)
  rw [← List.map_cons, show [',', ' '] = ", ".toList from rfl, ← String.toList_intercalate] at hhead
  rw [attached, attached]
  by_cases h : k.toList.head? = some ':'
  · rw [if_pos (hhead.mpr h), if_pos h, String.toList_append, String.toList_intercalate]
    cases ks with
    | nil => simp
    | cons x xs => simp [List.intercalate_cons_cons]
  · rw [if_neg (mt hhead.mp h), if_neg h, String.toList_intercalate]
    rfl

theorem comma_not_mem_trimmed (h : ',' ∉ p.toList) : ',' ∉ (trimmed p).toList := by
  rw [trimmed, String.toList_ofList]
  exact fun hm => h (Text.mem_of_mem_trim hm)

theorem nestSelector_intercalate (hp : trimmed p ≠ "") (hcomma : ',' ∉ p.toList) (k : String)
    (ks : List String) :
    nestSelector p (", ".intercalate (k :: ks)) =
      ", ".intercalate ((pieces (attached k) ++ ks.flatMap pieces).map (below (trimmed p))) := by
  have hkey : (if (", ".intercalate (k :: ks)).toList.head? = some ':'
      then '&' :: (", ".intercalate (k :: ks)).toList else (", ".intercalate (k :: ks)).toList)
        = [',', ' '].intercalate ((attached k :: ks).map String.toList) := by
    rw [← toList_attached_intercalate, attached]
    split <;> simp
  have hnest : ∀ q : List Char, nestPart (Text.trim p.toList) q
      = (below (trimmed p) (String.ofList q)).toList := by
    intro q
    rw [← nestPart_eq_below hp, String.toList_ofList, trimmed, String.toList_ofList]
  rw [← String.toList_inj, nestSelector, String.toList_ofList, nestChars]
  simp only [hkey, selectorParts_of_not_mem hcomma, List.flatMap_singleton]
  rw [Text.join_eq_intercalate, String.toList_intercalate, List.map_cons, selectorParts_intercalate]
  simp only [hnest, pieces, List.flatMap_cons, List.map_append, List.map_map, List.map_flatMap,
    List.flatMap_map, Function.comp_def]
  rfl

theorem pieces_of_not_mem (hcomma : ',' ∉ k.toList) (htrim : Text.trim k.toList = k.toList) :
    pieces k = [k] := by
  rw [pieces, selectorParts_of_not_mem hcomma, htrim, List.map_singleton, String.ofList_toList]

theorem trim_attached (h : Text.trim k.toList = k.toList) :
    Text.trim (attached k).toList = (attached k).toList := by
  rw [attached]
  split
  · next hcolon =>
    -- the ampersand goes in front of a colon, so both ends stay as they are
    obtain ⟨c, cs, hk⟩ := List.exists_cons_of_ne_nil (l := k.toList) (by
      intro hnil
      rw [hnil] at hcolon
      cases hcolon)
    refine Text.trim_eq_self (fun d hd => ?_) (fun d hd => ?_)
    · obtain rfl : '&' = d := by simpa using hd
      decide
    · have hlast : (Text.trim k.toList).getLast? = some d := by
        rw [h]
        simpa [hk] using hd
      exact Text.isBlank_of_getLast?_trim hlast
  · exact h

/-- **What a list of selectors becomes below a parent:** each text between two commas is nested on
its own, and only the first attaches by its colon.  So a list of selectors without commas becomes
its selectors one by one exactly if none behind the first starts with a colon. -/
theorem nestSelector_list {p : String} (hp : trimmed p ≠ "") (hcomma : ',' ∉ p.toList)
    (k : String) (ks : List String) :
    nestSelector p (", ".intercalate (k :: ks)) =
        ", ".intercalate ((pieces (attached k) ++ ks.flatMap pieces).map (below (trimmed p))) ∧
      ((∀ x ∈ k :: ks, ',' ∉ x.toList ∧ Text.trim x.toList = x.toList) →
        (nestSelector p (", ".intercalate (k :: ks)) =
            ", ".intercalate ((k :: ks).map fun x => below (trimmed p) (attached x)) ↔
          ∀ x ∈ ks, x.toList.head? ≠ some ':')) := by
  refine ⟨nestSelector_intercalate hp hcomma k ks, fun hall => ?_⟩
  have hcomma' := comma_not_mem_trimmed hcomma
  have hk := hall k List.mem_cons_self
  have hks : ∀ x ∈ ks, ',' ∉ x.toList ∧ Text.trim x.toList = x.toList :=
    fun x hx => hall x (List.mem_cons_of_mem k hx)
  have hpieces : pieces (attached k) ++ ks.flatMap pieces = attached k :: ks := by
    rw [pieces_of_not_mem (comma_not_mem_attached hk.1) (trim_attached hk.2),
      List.flatMap_congr fun x hx => pieces_of_not_mem (hks x hx).1 (hks x hx).2]
    simp
  rw [nestSelector_intercalate hp hcomma, hpieces]
  constructor
  · intro heq x hx
    have hlists := intercalate_inj (fun y hy => ?_) (fun y hy => ?_) (by simp) (by simp) heq
    · have htails : ks.map (below (trimmed p))
          = ks.map fun y => below (trimmed p) (attached y) := (List.cons.inj hlists).2
      exact (below_attached_iff hp).mp (List.map_inj_left.mp htails x hx)
    · obtain ⟨z, hz, rfl⟩ := List.mem_map.mp hy
      refine comma_not_mem_below hcomma' ?_
      rcases List.mem_cons.mp hz with rfl | hz
      · exact comma_not_mem_attached hk.1
      · exact (hks z hz).1
    · obtain ⟨z, hz, rfl⟩ := List.mem_map.mp hy
      exact comma_not_mem_below hcomma' (comma_not_mem_attached (hall z hz).1)
  · intro hcolon
    rw [List.map_cons, List.map_cons,
      List.map_congr_left fun x hx => (below_attached_iff hp).mpr (hcolon x hx)]

theorem nestSelector_list_open :
    (trimmed ".nav" ≠ "" ∧ ',' ∉ ".nav".toList) ∧
      nestSelector ".nav" ":is(a, b), &.open" = ".nav:is(a, .nav b), .nav.open" ∧
      nestSelector ".nav" ":hover, &.open" = ".nav:hover, .nav.open" := by
  have hp : trimmed ".nav" ≠ "" := by decide
  have hcomma : ',' ∉ ".nav".toList := by decide
  refine ⟨⟨hp, hcomma⟩, ?_, ?_⟩
  · exact (nestSelector_list hp hcomma ":is(a, b)" ["&.open"]).1.trans (by decide +kernel)
  · have hall : ∀ x ∈ [":hover", "&.open"], ',' ∉ x.toList ∧ Text.trim x.toList = x.toList := by
      decide +kernel
    have hcolon : ∀ x ∈ ["&.open"], x.toList.head? ≠ some ':' := by decide +kernel
    exact (((nestSelector_list hp hcomma ":hover" ["&.open"]).2 hall).mpr hcolon).trans
      (by decide +kernel)

/-- Whether parentheses and brackets are balanced and no comma stands outside them, where `closing`
are the marks that close what is open, from the inside out. -/
def isListItem (closing : List Char) : List Char → Bool
  | [] => closing.isEmpty
  | c :: cs =>
    if c = '(' then isListItem (')' :: closing) cs
    else if c = '[' then isListItem (']' :: closing) cs
    else if c = ')' ∨ c = ']' then closing.head? == some c && isListItem closing.tail cs
    else if c = ',' then !closing.isEmpty && isListItem closing cs
    else isListItem closing cs

/-- **A list of states loses all but its first to descendants.**  A key that starts with a colon
attaches to the parent and lists combine pairwise, but the second state of a list does not
attach. -/
theorem colon_list_detached :
    ¬ ∀ (p : String) (ks : List String), p ≠ "" → ',' ∉ p.toList → ks ≠ [] →
      (∀ k ∈ ks, k ≠ "" ∧ Text.trim k.toList = k.toList ∧ isListItem [] k.toList = true) →
      nestSelector p (", ".intercalate ks)
        = ", ".intercalate (ks.map fun k => below p (attached k)) := by
  intro h
  have hall : ∀ k ∈ [":hover", ":focus"],
      k ≠ "" ∧ Text.trim k.toList = k.toList ∧ isListItem [] k.toList = true := by decide +kernel
  have heq := h ".a" [":hover", ":focus"] (by decide) (by decide) (by simp) hall
  have hcode : nestSelector ".a" (", ".intercalate [":hover", ":focus"])
      = ".a:hover, .a :focus" := by decide +kernel
  have hdoc : ", ".intercalate ([":hover", ":focus"].map fun k => below ".a" (attached k))
      = ".a:hover, .a:focus" := by decide +kernel
  rw [hcode, hdoc] at heq
  revert heq
  decide

end Pagesmith.Style
