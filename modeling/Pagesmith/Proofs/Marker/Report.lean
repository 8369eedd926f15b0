import Mathlib.Data.Bool.AllAny
import Pagesmith.Proofs.Css.Plain
import Pagesmith.Proofs.Marker.Pass
import Pagesmith.Proofs.Page.Lines
import Pagesmith.Proofs.Page.Reference

/-!
# Markers that are reported

A marker that no table knows should stay in the markup, where the check of a page reports it.  The
table, however, replaces a name wherever the text goes on with it.  `@cards` is no marker, but a
table that knows `card` makes the attribute `class="card"` of its start and leaves `s`.  A marker is
left and reported exactly if no known name starts it, though one would expect this of every marker
that is no known name.

* `startsKnown`: whether a known name starts a text.
* `Marked`: a lexeme in which a table changes nothing but plain text and markers.
* `exists_replaced_tagText`: the attributes of a tag after the markers are replaced.
* `textLength_replaced`: plain text after the markers are replaced.
* `exists_lexeme_replaced`: what becomes of one lexeme.
* `unknownMarkers_replaced`: the markers that are left and reported.
-/

namespace Pagesmith.Page

open Pagesmith.Text
open Pagesmith.Html

variable {rest s tail u x : List Char} {c : Char} {ws : List Written}

structure MarkerClass (isName : Char → Bool) : Prop extends NameClass isName where
  key : ∀ c, isName c = true → endsKey c = false
  quote : isName '"' = false
  apostrophe : isName '\'' = false
  bracket : isName '<' = false

theorem markerClass_isNameChar : MarkerClass isNameChar where
  toNameClass := nameClass_isNameChar
  key := by
    intro c hc
    by_contra h
    simp only [Bool.not_eq_false, endsKey, endsName, isTagSpace, Bool.or_eq_true, beq_iff_eq] at h
    rcases h with (((((((rfl | rfl) | rfl) | rfl) | rfl) | rfl) | rfl) | rfl) <;> cases hc
  quote := by decide
  apostrophe := by decide
  bracket := by decide

def startsKnown (names : List String) (s : List Char) : Bool :=
  (names ++ builtinMarkers).any fun n => n.toList.isPrefixOf s

def unknownKey (names : List String) (key : List Char) : Bool :=
  key.head? == some '@' && !startsKnown names key.tail

theorem startsKnown_eq_true_iff {names : List String} :
    startsKnown names s = true ↔ ∃ n ∈ orderedKeys names, n.toList <+: s := by
  simp only [startsKnown, List.any_eq_true, List.mem_append, mem_orderedKeys,
    List.isPrefixOf_iff_prefix]

theorem startsKnown_eq_false_iff {names : List String} :
    startsKnown names s = false ↔ markerStart? names s = none := by
  rw [← Bool.not_eq_true, startsKnown_eq_true_iff, markerStart?, Option.or_eq_none_iff,
    longestStart?_eq_none_iff, longestStart?_eq_none_iff]
  simp only [mem_orderedKeys]
  grind

/-! ### How a replaced text starts -/

section Head

variable {keys : List String}

theorem replaced_cons_of_ne (hc : c ≠ '@') (s : List Char) :
    TagTable.replaced (keys.map Tag.ofClass) (c :: s)
      = c :: TagTable.replaced (keys.map Tag.ofClass) s :=
  replaced_append_left (x := [c]) (by simpa using hc.symm) s

theorem head?_replaced_classText (name s : List Char) :
    (TagTable.replaced (keys.map Tag.ofClass) (classText name ++ s)).head? = some 'c' :=
  congrArg List.head? (replaced_cons_of_ne (c := 'c') (by decide) _)

theorem head?_replaced_atSign (s : List Char) :
    (TagTable.replaced (keys.map Tag.ofClass) ('@' :: s)).head? = some '@' ∨
      (TagTable.replaced (keys.map Tag.ofClass) ('@' :: s)).head? = some 'c' := by
  induction keys generalizing s with
  | nil => exact .inl rfl
  | cons key keys ih =>
    rw [replaced_cons]
    by_cases h : key.toList <+: s
    · rw [replaceAll_of_start h]
      exact .inr (head?_replaced_classText _ _)
    · rw [replaceAll_of_not_start fun hw => h (List.cons_prefix_cons.mp hw).2]
      exact ih _

theorem head?_replaced_known (hkeys : ∀ key ∈ keys, '@' ∉ key.toList)
    (h : ∃ key ∈ keys, key.toList <+: s) :
    (TagTable.replaced (keys.map Tag.ofClass) ('@' :: s)).head? = some 'c' := by
  induction keys generalizing s with
  | nil =>
    obtain ⟨key, hkey, -⟩ := h
    cases hkey
  | cons key keys ih =>
    rw [List.forall_mem_cons] at hkeys
    rw [replaced_cons]
    by_cases hstart : key.toList <+: s
    · rw [replaceAll_of_start hstart]
      exact head?_replaced_classText _ _
    · rw [replaceAll_of_not_start fun hw => hstart (List.cons_prefix_cons.mp hw).2]
      -- the replacement keeps the name that starts the text
      obtain ⟨k, hk, t, rfl⟩ := h
      rcases List.mem_cons.mp hk with rfl | hk
      · exact absurd (List.prefix_append _ t) hstart
      · refine ih hkeys.2 ⟨k, hk, ?_⟩
        rw [replaceAll_append_left (hkeys.2 k hk)]
        exact List.prefix_append _ _

end Head

/-! ### Markers as attributes -/

def Kept (names : List String) (s : List Char) : Prop := (TagTable.ofPresets names).replaced s = s

instance (names : List String) (s : List Char) : Decidable (Kept names s) :=
  inferInstanceAs (Decidable ((TagTable.ofPresets names).replaced s = s))

inductive MarkedAttribute (names : List String) : Written → Prop where
  | kept {w : Written} : Kept names w.text → MarkedAttribute names w
  | marker {m : List Char} : '@' ∉ m → MarkedAttribute names ⟨'@' :: m, [], []⟩

section Names

variable {isName : Char → Bool} (hclass : MarkerClass isName) {names : List String}
  (hnames : ∀ n ∈ names, ∀ c ∈ n.toList, isName c = true)

theorem replaced_ofPresets_cons (hc : c ≠ '@') (s : List Char) :
    (TagTable.ofPresets names).replaced (c :: s)
      = c :: (TagTable.ofPresets names).replaced s := by
  rw [ofPresets_eq]
  exact replaced_cons_of_ne hc s

theorem replaced_ofPresets_nil : (TagTable.ofPresets names).replaced [] = [] := by
  rw [ofPresets_eq, replaced_nil]

theorem replaced_ofPresets_ne_nil (c : Char) (s : List Char) :
    (TagTable.ofPresets names).replaced (c :: s) ≠ [] := by
  by_cases hc : c = '@'
  · intro hnil
    rw [hc, ofPresets_eq] at hnil
    rcases head?_replaced_atSign s with hhead | hhead <;> rw [hnil] at hhead <;> cases hhead
  · rw [replaced_ofPresets_cons hc]
    exact List.cons_ne_nil _ _

theorem replaced_ofPresets_left (hx : '@' ∉ x) (s : List Char) :
    (TagTable.ofPresets names).replaced (x ++ s)
      = x ++ (TagTable.ofPresets names).replaced s := by
  rw [ofPresets_eq, replaced_append_left hx]

include hclass in
theorem MarkerClass.separator_of_endsKey (h : endsKey c = true) : c ≠ '@' ∧ isName c = false := by
  refine ⟨?_, ?_⟩
  · rintro rfl
    cases h
  · by_contra hname
    rw [hclass.key c (by simpa using hname)] at h
    cases h

include hclass hnames

/-- A table replaces a text apart from what follows if it ends with a separator. -/
theorem replaced_ofPresets_concat (hat : c ≠ '@') (hc : isName c = false) (x y : List Char) :
    (TagTable.ofPresets names).replaced (x ++ [c] ++ y)
      = (TagTable.ofPresets names).replaced (x ++ [c])
        ++ (TagTable.ofPresets names).replaced y := by
  have hsplit := replaced_ofPresets_separated hclass.toNameClass hnames hat hc x
  have hlast := hsplit []
  rw [replaced_ofPresets_nil] at hlast
  rw [List.append_assoc, List.singleton_append, hsplit y, hlast, List.append_assoc,
    List.singleton_append]

theorem replaced_ofPresets_parted (h : Parted x rest) :
    (TagTable.ofPresets names).replaced (x ++ rest)
      = (TagTable.ofPresets names).replaced x ++ (TagTable.ofPresets names).replaced rest := by
  rcases h with hlast | hrest
  · obtain ⟨x, rfl⟩ := List.getLast?_eq_some_iff.mp hlast
    obtain ⟨hat, hc⟩ := hclass.separator_of_endsKey (c := '>') (by decide)
    exact replaced_ofPresets_concat hclass hnames hat hc x rest
  · refine replaced_ofPresets_append hclass.toNameClass hnames x fun c hc => ?_
    rcases hrest with rfl | hrest
    · cases hc
    · obtain rfl : '<' = c := by simpa [hrest] using hc
      exact ⟨by decide, hclass.bracket⟩

theorem replaced_written {value : List Char} (h : ValueText tail value s) (key : List Char) :
    (TagTable.ofPresets names).replaced (key ++ (tail ++ s))
      = (TagTable.ofPresets names).replaced (key ++ tail)
        ++ (TagTable.ofPresets names).replaced s := by
  rw [← List.append_assoc]
  cases h with
  | none hhead =>
    refine replaced_ofPresets_append hclass.toNameClass hnames _ fun c hc => ?_
    exact hclass.separator_of_endsKey (endsKey_of_endsName (hhead c hc))
  | @quoted gap gap' _ q _ _ _ hq =>
    rw [← List.append_assoc key]
    refine replaced_ofPresets_concat hclass hnames ?_ ?_ _ s
    · rcases hq with rfl | rfl <;> decide
    · rcases hq with rfl | rfl
      · exact hclass.quote
      · exact hclass.apostrophe
  | plain _ _ _ _ hhead =>
    refine replaced_ofPresets_append hclass.toNameClass hnames _ fun c hc => ?_
    refine hclass.separator_of_endsKey ?_
    rcases hhead c hc with hspace | rfl
    · exact endsKey_of_endsName (endsName_of_isTagSpace hspace)
    · decide

omit hclass hnames in
/-- The first character stays, but an at-sign may give way to a class attribute. -/
theorem head?_replaced_ofPresets {d : Char}
    (h : ((TagTable.ofPresets names).replaced s).head? = some d) :
    s.head? = some d ∨ s.head? = some '@' ∧ d = 'c' := by
  cases s with
  | nil =>
    rw [replaced_ofPresets_nil] at h
    cases h
  | cons c s =>
    by_cases hc : c = '@'
    · rw [hc, ofPresets_eq] at h
      rcases head?_replaced_atSign s with hat | hclassed
      · rw [hat] at h
        exact .inl (by rw [hc]; exact h)
      · rw [hclassed] at h
        exact .inr ⟨by rw [hc]; rfl, (Option.some.inj h).symm⟩
    · rw [replaced_ofPresets_cons hc] at h
      exact .inl h

omit hclass hnames in
theorem replaced_valueText {value : List Char} (h : ValueText tail value s) :
    ValueText tail value ((TagTable.ofPresets names).replaced s) := by
  have hstays : ∀ {p : Char → Prop}, ¬ p '@' → (∀ c, s.head? = some c → p c) →
      ∀ c, ((TagTable.ofPresets names).replaced s).head? = some c → p c := by
    intro p hat hs c hc
    rcases head?_replaced_ofPresets hc with hsame | ⟨hsign, -⟩
    · exact hs c hsame
    · exact absurd (hs '@' hsign) hat
  cases h with
  | none hhead hequals =>
    refine .none (hstays (by decide) hhead) ?_
    obtain ⟨gap, t, rfl, -, hdrop, hgap, ht⟩ := exists_takeWhile isTagSpace s
    have hat : '@' ∉ gap := fun hmem => absurd (hgap '@' hmem) (by decide)
    have hspace : ∀ c, ((TagTable.ofPresets names).replaced t).head? = some c →
        isTagSpace c = false := by
      intro c hc
      rcases head?_replaced_ofPresets hc with hsame | ⟨-, rfl⟩
      · exact ht c hsame
      · decide
    rw [hdrop] at hequals
    rw [replaced_ofPresets_left hat, dropWhile_gap hgap hspace]
    intro hc
    rcases head?_replaced_ofPresets hc with hsame | ⟨-, heq⟩
    · exact hequals hsame
    · cases heq
  | quoted _ hgap hgap' hq hvalue => exact .quoted _ hgap hgap' hq hvalue
  | plain hgap hgap' hvalue hquote hhead hempty =>
    refine .plain hgap hgap' hvalue hquote (hstays (by decide) hhead) fun hnil => ?_
    obtain ⟨t, rfl⟩ := List.head?_eq_some_iff.mp (hempty hnil)
    rw [replaced_ofPresets_cons (by decide)]
    rfl

/-- A marker that starts with no known name is left, and one that does is not. -/
theorem kept_marker_iff {m : List Char} (hm : '@' ∉ m) :
    Kept names ('@' :: m) ↔ startsKnown names m = false := by
  rw [Kept, replaced_ofPresets_marker hclass.toNameClass hnames hm, startsKnown_eq_false_iff,
    markerText]
  cases h : markerStart? names m with
  | none => simp
  | some name => simp [classText]

/-- An attribute that is left alone starts with no known marker. -/
theorem unknownKey_of_kept {key : List Char} (h : Kept names (key ++ tail)) :
    unknownKey names key = (key.head? == some '@') := by
  cases key with
  | nil => rfl
  | cons c k =>
    by_cases hc : c = '@'
    · have hunknown : startsKnown names k = false := by
        by_contra hknown
        rw [Bool.not_eq_false, startsKnown_eq_true_iff] at hknown
        obtain ⟨n, hn, hk⟩ := hknown
        have hkeys := fun n hn =>
          not_mem_of_mem_orderedKeys hclass.toNameClass hnames hclass.atSign (n := n) hn
        have hhead := head?_replaced_known hkeys ⟨n, hn, hk.trans (List.prefix_append k tail)⟩
        rw [Kept, hc, ofPresets_eq, List.cons_append] at h
        rw [h] at hhead
        cases hhead
      simp [unknownKey, hunknown]
    · simp [unknownKey, hc]

omit hclass hnames in
/-- The attribute of a known marker, with what the marker has behind the known name. -/
theorem tagText_classed {name r : List Char} (hname : '"' ∉ name) (hr : ∀ c ∈ r, endsKey c = false)
    (hvalue : ValueText [] [] s) (hs : TagText s ws) :
    ∃ w, (∀ v ∈ w, v.key = ['c', 'l', 'a', 's', 's'] ∨ v.key = r) ∧
      TagText (classText name ++ r ++ s) (w ++ ws) := by
  have hclassed : ∀ {t ws'}, TagText t ws' → TagText (classText name ++ t)
      (⟨['c', 'l', 'a', 's', 's'], '=' :: '"' :: (name ++ ['"']), name⟩ :: ws') := by
    intro t ws' ht
    have hkey : IsKey ['c', 'l', 'a', 's', 's'] :=
      .intro (by decide) (List.all_iff_forall_prop.mp rfl)
    have hquoted : ValueText ([] ++ '=' :: [] ++ '"' :: name ++ ['"']) name t :=
      .quoted t (by simp) (by simp) (.inl rfl) hname
    have hwritten := TagText.written hkey hquoted ht
    simpa [classText] using hwritten
  cases r with
  | nil =>
    refine ⟨[⟨['c', 'l', 'a', 's', 's'], '=' :: '"' :: (name ++ ['"']), name⟩], by simp, ?_⟩
    rw [List.append_nil]
    exact hclassed hs
  | cons c r =>
    rw [List.forall_mem_cons] at hr
    have hc : endsName c = false := by
      by_contra h
      rw [endsKey_of_endsName (by simpa using h)] at hr
      cases hr.1
    refine ⟨[⟨['c', 'l', 'a', 's', 's'], '=' :: '"' :: (name ++ ['"']), name⟩, ⟨c :: r, [], []⟩],
      by simp, ?_⟩
    rw [List.append_assoc]
    exact hclassed (.written (.intro hc hr.2) hvalue hs)

theorem isName_of_markerStart? {name : List Char} (h : markerStart? names s = some name) :
    ∀ c ∈ name, isName c = true := by
  intro c hc
  have hmem : String.ofList name ∈ orderedKeys names := by
    rw [mem_orderedKeys]
    rcases Option.or_eq_some_iff.mp h with h | ⟨-, h⟩
    · exact .inl (longestStart?_eq_some_iff.mp h).1
    · exact .inr (longestStart?_eq_some_iff.mp h).1
  exact isName_of_mem_orderedKeys hclass.toNameClass hnames hmem (by rwa [String.toList_ofList])

/-- A marker before a tag that is replaced already. -/
theorem tagText_marker {m : List Char} (hm : '@' ∉ m) (hkey : IsKey ('@' :: m))
    (hvalue : ValueText [] [] s) (hs : TagText s ws) :
    ∃ w, TagText ((TagTable.ofPresets names).replaced ('@' :: m) ++ s) (w ++ ws) ∧
      (w.map Written.key).filter (·.head? == some '@')
        = [Written.key ⟨'@' :: m, [], []⟩].filter (unknownKey names) := by
  rw [replaced_ofPresets_marker hclass.toNameClass hnames hm, markerText]
  cases hname : markerStart? names m with
  | none =>
    have hunknown := startsKnown_eq_false_iff.mpr hname
    refine ⟨[⟨'@' :: m, [], []⟩], .written hkey hvalue hs, ?_⟩
    simp [unknownKey, hunknown]
  | some name =>
    have hquote : '"' ∉ name := fun hmem => by
      simpa [hclass.quote] using isName_of_markerStart? hclass hnames hname '"' hmem
    obtain ⟨-, hchars⟩ := hkey
    have hrest : ∀ c ∈ m.drop name.length, endsKey c = false :=
      fun c hc => hchars c (List.mem_of_mem_drop hc)
    obtain ⟨w, hw, htag⟩ := tagText_classed hquote hrest hvalue hs
    refine ⟨w, htag, ?_⟩
    have hknown : startsKnown names m = true := by
      rw [← Bool.not_eq_false, startsKnown_eq_false_iff, hname]
      simp
    have hfilter : [Written.key ⟨'@' :: m, [], []⟩].filter (unknownKey names) = [] := by
      simp [unknownKey, hknown]
    rw [hfilter, List.filter_eq_nil_iff]
    intro k hk hat
    obtain ⟨v, hv, rfl⟩ := List.mem_map.mp hk
    rcases hw v hv with h | h
    · rw [h] at hat
      cases hat
    · rw [h, beq_iff_eq] at hat
      exact hm (List.mem_of_mem_drop (List.mem_of_mem_head? hat))

/-- **The attributes of a tag whose markers are replaced.**  Those that look like markers are the
unknown ones among the former attributes. -/
theorem exists_replaced_tagText (h : TagText u ws) (hws : ∀ w ∈ ws, MarkedAttribute names w) :
    ∃ ws', TagText ((TagTable.ofPresets names).replaced u) ws' ∧
      (ws'.map Written.key).filter (·.head? == some '@')
        = (ws.map Written.key).filter (unknownKey names) := by
  induction h with
  | close =>
    refine ⟨[], ?_, rfl⟩
    rw [replaced_ofPresets_cons (by decide), replaced_ofPresets_nil]
    exact .close
  | @space c s ws hc _ ih =>
    obtain ⟨ws', hs, hmarkers⟩ := ih hws
    have hat : c ≠ '@' := by
      rintro rfl
      cases hc
    exact ⟨ws', by rw [replaced_ofPresets_cons hat]; exact .space hc hs, hmarkers⟩
  | slash _ ih =>
    obtain ⟨ws', hs, hmarkers⟩ := ih hws
    exact ⟨ws', by rw [replaced_ofPresets_cons (by decide)]; exact .slash hs, hmarkers⟩
  | @written key tail value s ws hkey hvalue _ ih =>
    rw [List.forall_mem_cons] at hws
    obtain ⟨ws', hs, hmarkers⟩ := ih hws.2
    have hnext : ValueText tail value ((TagTable.ofPresets names).replaced s) :=
      replaced_valueText hvalue
    rw [replaced_written hclass hnames hvalue]
    obtain ⟨w, htag, hfirst⟩ : ∃ w, TagText ((TagTable.ofPresets names).replaced (key ++ tail)
        ++ (TagTable.ofPresets names).replaced s) (w ++ ws') ∧
        (w.map Written.key).filter (·.head? == some '@')
          = [Written.key ⟨key, tail, value⟩].filter (unknownKey names) := by
      cases hws.1 with
      | kept hkept =>
        refine ⟨[⟨key, tail, value⟩], ?_, ?_⟩
        · have hsame : (TagTable.ofPresets names).replaced (key ++ tail) = key ++ tail := hkept
          rw [hsame, List.append_assoc]
          exact .written hkey hnext hs
        · have hsame : unknownKey names key = (key.head? == some '@') :=
            unknownKey_of_kept hclass hnames hkept
          rw [List.map_singleton, List.filter_singleton, List.filter_singleton, hsame]
      | marker hm =>
        rw [List.append_nil]
        exact tagText_marker hclass hnames hm hkey hnext hs
    refine ⟨w ++ ws', htag, ?_⟩
    rw [List.map_append, List.filter_append, hfirst, hmarkers, ← List.filter_append]
    rfl

theorem exists_replaced_tagOf {nm : List Char} (h : TagOf u nm ws) (hnm : Kept names nm)
    (hws : ∀ w ∈ ws, MarkedAttribute names w) :
    ∃ ws', TagOf ((TagTable.ofPresets names).replaced u) nm ws' ∧
      (ws'.map Written.key).filter (·.head? == some '@')
        = (ws.map Written.key).filter (unknownKey names) := by
  obtain ⟨hname, hhead, hu⟩ := h
  obtain ⟨ws', hu', hmarkers⟩ := exists_replaced_tagText hclass hnames hu hws
  refine ⟨ws', ?_, hmarkers⟩
  rw [replaced_ofPresets_append hclass.toNameClass hnames nm fun c hc =>
    hclass.separator_of_endsKey (endsKey_of_endsName (hhead c hc)), hnm]
  refine .intro hname (fun c hc => ?_) hu'
  rcases head?_replaced_ofPresets hc with hsame | ⟨hat, -⟩
  · exact hhead c hsame
  · exact absurd (hhead '@' hat) (by decide)

/-! ### Markers among lexemes -/

omit hclass hnames in
/-- What ends a lexeme is not replaced. -/
theorem alike_replaced (s : List Char) : Alike s ((TagTable.ofPresets names).replaced s) where
  nil := by
    rintro rfl
    exact replaced_ofPresets_nil
  tag := by
    intro h
    obtain ⟨c, t, rfl, hc⟩ := eq_of_tagHere h
    have hat : c ≠ '@' := by
      rintro rfl
      cases hc
    rw [replaced_ofPresets_cons (by decide), replaced_ofPresets_cons hat]
    exact hc
  closes := by
    intro name hname h
    obtain ⟨t, rfl, hnames⟩ := eq_of_closesHere h
    rw [namesHere, Bool.and_eq_true] at hnames
    obtain ⟨hfold, hends⟩ := hnames
    cases hrest : t.drop name.toList.length with
    | nil =>
      rw [hrest] at hends
      cases hends
    | cons d r =>
      rw [hrest] at hends
      have hshort : '@' ∉ t.take name.toList.length := by
        intro hmem
        rw [eqFold_of_mem hmem (not_mem_of_rawElements hname rfl)] at hfold
        cases hfold
      have hat : d ≠ '@' := by
        rintro rfl
        cases hends
      have hlen : (t.take name.toList.length).length = name.toList.length := by
        have hle : name.toList.length < t.length := by
          by_contra hle
          rw [List.drop_eq_nil_of_le (by omega)] at hrest
          cases hrest
        rw [List.length_take_of_le hle.le]
      have hsplit : t = t.take name.toList.length ++ d :: r := by
        rw [← hrest, List.take_append_drop]
      have htake : ∀ x, (t.take name.toList.length ++ d :: x).take (name.toList.length + 1)
          = t.take name.toList.length ++ [d] := by
        intro x
        rw [List.take_append, hlen, Nat.add_sub_cancel_left, List.take_of_length_le (by omega)]
        rfl
      rw [replaced_ofPresets_cons (by decide), replaced_ofPresets_cons (by decide), hsplit,
        replaced_ofPresets_left hshort, replaced_ofPresets_cons hat]
      rw [List.take_succ_cons, List.take_succ_cons, List.take_succ_cons, List.take_succ_cons, htake,
        htake]

/-- **Plain text stays plain**, whatever is replaced in it, if no bracket stands right before an
at-sign. -/
theorem textLength_replaced (hx : ¬ ['<', '@'] <:+: x) (hrest : rest = [] ∨ tagHere rest = true)
    (h : textLength (x ++ rest) = x.length) :
    textLength ((TagTable.ofPresets names).replaced x ++ (TagTable.ofPresets names).replaced rest)
      = ((TagTable.ofPresets names).replaced x).length := by
  have halike : Alike rest ((TagTable.ofPresets names).replaced rest) := alike_replaced rest
  have hrest' := hrest.imp halike.nil halike.tag
  -- from bracket to bracket
  induction hn : x.length using Nat.strongRecOn generalizing x with
  | ind n ih =>
    by_cases hmem : '<' ∈ x
    · obtain ⟨v, y, rfl, hv⟩ := List.eq_append_cons_of_mem hmem
      have hsep := replaced_ofPresets_separated hclass.toNameClass hnames (by decide)
        hclass.bracket v y
      rw [List.append_assoc, textLength_append hv, List.length_append, List.cons_append,
        List.length_cons, textLength] at h
      split at h
      · omega
      · next htag =>
        have hy := ih y.length (by rw [← hn, List.length_append, List.length_cons]; omega)
          (fun hinside => hx (hinside.trans ((List.suffix_cons '<' y).trans
            (List.suffix_append v _)).isInfix)) (by omega) rfl
        have htag' : tagHere ('<' :: ((TagTable.ofPresets names).replaced y
            ++ (TagTable.ofPresets names).replaced rest)) = false := by
          rw [Bool.not_eq_true] at htag
          cases y with
          | nil =>
            rw [replaced_ofPresets_nil]
            exact tagHere_alike (List.cons_ne_nil '<' []) hrest htag halike.nil halike.tag
          | cons d y =>
            have hd : d ≠ '@' := fun heq => hx ⟨v, y, by simp [heq]⟩
            rw [replaced_ofPresets_cons hd]
            exact htag
        rw [hsep, List.append_assoc, textLength_append (bracket_not_mem_replaced names hv),
          List.cons_append, textLength, if_neg (by simp [htag']), hy, List.length_append,
          List.length_cons]
    · rw [textLength_append (bracket_not_mem_replaced names hmem),
        textLength_of_rest hrest', Nat.add_zero]

end Names

/-- A lexeme in which a table changes nothing but attributes and plain text, with the attributes
that are written there. -/
inductive Marked (names : List String) : Lexeme → List Written → Prop where
  | tag {name nm u : List Char} {attributes : List Attribute} {closing : Bool} {ws : List Written} :
      TagOf u nm ws → Kept names nm → (∀ w ∈ ws, MarkedAttribute names w) →
      Marked names ⟨.startTag name attributes closing, '<' :: u⟩ ws
  | text {s raw : List Char} : ¬ ['<', '@'] <:+: raw → Marked names ⟨.text .plain s, raw⟩ []
  | other {x : Lexeme} : x.token.attributes = [] → Kept names x.raw → Marked names x []

structure MarkedText (names : List String) (text : List Char) (tags : List (List Written)) :
    Prop where
  lexemes : List.Forall₂ (Marked names) (lexemes text) tags
  unread : ∃ tail, (Html.lexemes text).flatMap (·.raw) ++ tail = text ∧ Kept names tail

def markerKeys (token : Token) : List (List Char) :=
  (token.attributes.map (·.key)).filter (·.head? = some '@')

def unknownKeys (names : List String) (ws : List Written) : List (List Char) :=
  ((ws.map Written.key).filter (unknownKey names)).map (·.map lowerAscii)

theorem lowerAscii_eq_atSign : lowerAscii c = '@' ↔ c = '@' := by
  refine ⟨fun h => ?_, fun h => by rw [h]; rfl⟩
  rcases Css.lowerAscii_eq_or h with heq | ⟨n, hlo, hhi, -, heq⟩
  · exact heq
  · have hnone : ∀ n, 65 ≤ n → n < 91 → '@' ≠ Char.ofNat (n + 32) := by decide
    exact absurd heq (hnone n hlo hhi)

theorem markerKeys_written (name : List Char) (ws : List Written) (closing : Bool) :
    markerKeys (.startTag name (ws.map Written.read) closing)
      = ((ws.map Written.key).filter (·.head? == some '@')).map (·.map lowerAscii) := by
  have hlower : (ws.map Written.read).map (·.key)
      = (ws.map Written.key).map (·.map lowerAscii) := by
    rw [List.map_map, List.map_map]
    rfl
  rw [markerKeys, Token.attributes, hlower, List.filter_map]
  congr 1
  refine List.filter_congr fun key _ => ?_
  cases key with
  | nil => rfl
  | cons c key => simp [lowerAscii_eq_atSign, Bool.beq_eq_decide_eq]

section Names

variable {isName : Char → Bool} (hclass : MarkerClass isName) {names : List String}
  (hnames : ∀ n ∈ names, ∀ c ∈ n.toList, isName c = true)
include hclass hnames

/-- **One lexeme becomes one lexeme.**  It opens the same element, and its markers are the unknown
ones of the former. -/
theorem exists_lexeme_replaced {inside : Option (List Char)} {token : Token}
    (hread : readToken inside c (u ++ rest) = some (token, u.length))
    (hlocal : ∀ t, Alike rest t → readToken inside c (u ++ t) = some (token, u.length))
    (h : Marked names ⟨token, c :: u⟩ ws) :
    ∃ x, lexemesFrom inside ((TagTable.ofPresets names).replaced (c :: u)
          ++ (TagTable.ofPresets names).replaced rest)
        = x :: lexemesFrom token.rawElement? ((TagTable.ofPresets names).replaced rest) ∧
      markerKeys x.token = unknownKeys names ws := by
  have hsame : Kept names (c :: u) →
      lexemesFrom inside ((TagTable.ofPresets names).replaced (c :: u)
          ++ (TagTable.ofPresets names).replaced rest)
        = ⟨token, c :: u⟩
          :: lexemesFrom token.rawElement? ((TagTable.ofPresets names).replaced rest) := by
    intro hkept
    rw [Kept] at hkept
    rw [hkept, List.cons_append, lexemesFrom_append (hlocal _ (alike_replaced rest))]
  cases h with
  | other hnone hkept => exact ⟨_, hsame hkept, by rw [markerKeys, hnone]; rfl⟩
  | text hbracket =>
    rcases readToken_plain hread with hcut | ⟨rfl, hlen, hend⟩
    · refine ⟨_, hsame ?_, rfl⟩
      rw [Kept, hcut, replaced_ofPresets_cons (by decide), replaced_ofPresets_cons (by decide),
        replaced_ofPresets_nil]
    · have hplain := textLength_replaced hclass hnames hbracket hend hlen
      have hne : (TagTable.ofPresets names).replaced (c :: u) ≠ [] := replaced_ofPresets_ne_nil c u
      obtain ⟨d, w, hreplaced⟩ := List.exists_cons_of_ne_nil hne
      rw [hreplaced] at hplain ⊢
      have hlexemes := lexemesFrom_append (readToken_of_textLength hplain)
      exact ⟨_, hlexemes, rfl⟩
  | @tag name nm _ attributes closing _ htag hnm hws =>
    obtain ⟨rfl, -, ⟨d, v, hhead, hd⟩, -⟩ := readToken_startTag hread
    obtain ⟨ws', htag', hmarkers⟩ := exists_replaced_tagOf hclass hnames htag hnm hws
    -- the letter that starts the name of the tag stays
    have hat : d ≠ '@' := by
      rintro rfl
      cases hd
    obtain ⟨w, rfl⟩ : ∃ w, u = d :: w := by
      obtain ⟨e, w, rfl⟩ := List.exists_cons_of_ne_nil htag.ne_nil
      exact ⟨w, by rw [(List.cons.inj hhead).1]⟩
    obtain rfl : nm.map lowerAscii = name := by
      obtain ⟨_, hlexemes⟩ := htag.lexemesFrom_append hd rest
      rw [lexemesFrom_append hread] at hlexemes
      injection hlexemes with hlexeme
      injection hlexeme with htoken
      injection htoken with hname
      exact hname.symm
    rw [replaced_ofPresets_cons hat] at htag'
    obtain ⟨closing', hlexemes⟩ := htag'.lexemesFrom_append hd
      ((TagTable.ofPresets names).replaced rest)
    rw [replaced_ofPresets_cons (by decide), replaced_ofPresets_cons hat, List.cons_append]
    exact ⟨_, hlexemes, by rw [markerKeys_written, hmarkers]; rfl⟩

theorem markerKeys_lexemesFrom {inside : Option (List Char)}
    (hinside : ∀ name, inside = some name → String.ofList name ∈ rawElements) {text : List Char}
    {tags : List (List Written)}
    (htags : List.Forall₂ (Marked names) (lexemesFrom inside text) tags)
    (htail : (lexemesFrom inside text).flatMap (·.raw) ++ tail = text) (hkept : Kept names tail) :
    (lexemesFrom inside ((TagTable.ofPresets names).replaced text)).flatMap
        (fun x => markerKeys x.token)
      = tags.flatMap (unknownKeys names) := by
  induction hn : text.length using Nat.strongRecOn generalizing inside text tags with
  | ind n ih =>
    subst hn
    cases text with
    | nil =>
      rw [lexemesFrom_nil] at htags
      cases htags
      rw [replaced_ofPresets_nil, lexemesFrom_nil]
      rfl
    | cons c cs =>
      cases hread : readToken inside c cs with
      | none =>
        rw [lexemesFrom_of_none hread] at htags htail
        cases htags
        obtain rfl : tail = c :: cs := htail
        rw [hkept, lexemesFrom_of_none hread]
        rfl
      | some read =>
        obtain ⟨token, n⟩ := read
        obtain ⟨u, rest, rfl, rfl, hparted, hlocal⟩ := readToken_alike hinside hread
        rw [lexemesFrom_append hread] at htags htail
        obtain ⟨ws, tags, hfirst, hrest, rfl⟩ := List.forall₂_cons_left_iff.mp htags
        have hrest' : (lexemesFrom token.rawElement? rest).flatMap (·.raw) ++ tail = rest := by
          rw [List.flatMap_cons, List.append_assoc, List.cons_append, List.cons.injEq] at htail
          exact List.append_cancel_left htail.2
        have hnext := ih rest.length (by simp only [List.length_cons, List.length_append]; omega)
          (fun name => mem_of_rawElement?) hrest hrest' rfl
        obtain ⟨x, hlexemes, hmarkers⟩ :=
          exists_lexeme_replaced hclass hnames hread hlocal hfirst
        rw [← List.cons_append, replaced_ofPresets_parted hclass hnames hparted, hlexemes,
          List.flatMap_cons, List.flatMap_cons, hmarkers, hnext]

end Names

theorem name_unknownMarkers (markup : List Char) :
    (unknownMarkers markup).map (·.name)
      = (Html.lexemes markup).flatMap fun x => markerKeys x.token := by
  have hnames : ∀ t : StartTag, (t.markers.map fun m =>
      Reference.mk m (.atOffset markup (t.markerOffset m))).map (·.name) = t.markers := by
    intro t
    rw [List.map_map]
    exact List.map_id _
  rw [unknownMarkers, List.map_flatMap]
  simp only [hnames]
  exact flatMap_startTags (f := fun attributes =>
    (attributes.map (·.key)).filter (·.head? = some '@')) rfl markup

/-- **The markers that are left and reported.**  A marker between separators is left in a text if
and only if neither a preset nor a built-in marker starts its name.  If a table changes nothing but
attributes and plain text, then the markers that are reported of the replaced text are the
attributes with that property, in order and in lower case.  A marker that is not known, but longer
than one that is, is neither left nor reported. -/
theorem unknownMarkers_replaced {isName : Char → Bool} (hclass : MarkerClass isName)
    (names : List String) (hnames : ∀ n ∈ names, ∀ c ∈ n.toList, isName c = true)
    (text : List Char) :
    (∀ before name after, text = before ++ '@' :: (name ++ after) →
      (∀ c, before.getLast? = some c → c ≠ '@' ∧ isName c = false) →
      (∀ c ∈ name, isName c = true) → (∀ c, after.head? = some c → c ≠ '@' ∧ isName c = false) →
      ((TagTable.ofPresets names).replaced text
          = (TagTable.ofPresets names).replaced before
            ++ '@' :: (name ++ (TagTable.ofPresets names).replaced after) ↔
        startsKnown names name = false)) ∧
    ∀ tags, MarkedText names text tags →
      (∀ refs, unknownMarkers? ((TagTable.ofPresets names).replaced text) = some refs →
        refs.map (·.name) = tags.flatMap (unknownKeys names)) ∧
      (Shrinks ((TagTable.ofPresets names).replaced text) →
        (unknownMarkers? ((TagTable.ofPresets names).replaced text)).isSome = true) := by
  refine ⟨?_, fun tags htext => ⟨fun refs hrefs => ?_, Shrinks.isSome_unknownMarkers?⟩⟩
  · rintro before name after rfl hbefore hname hafter
    have hat : '@' ∉ name := fun hmem => by simpa [hclass.atSign] using hname '@' hmem
    have hsplit : (TagTable.ofPresets names).replaced (before ++ '@' :: (name ++ after))
        = (TagTable.ofPresets names).replaced before
          ++ ((TagTable.ofPresets names).replaced ('@' :: name)
            ++ (TagTable.ofPresets names).replaced after) := by
      rw [← replaced_ofPresets_append hclass.toNameClass hnames _ hafter, List.cons_append]
      cases hlast : before.getLast? with
      | none => rw [List.getLast?_eq_none_iff.mp hlast, replaced_ofPresets_nil]; rfl
      | some c =>
        obtain ⟨x, rfl⟩ := List.getLast?_eq_some_iff.mp hlast
        obtain ⟨hc, hsep⟩ := hbefore c hlast
        exact replaced_ofPresets_concat hclass hnames hc hsep x _
    rw [hsplit, ← List.cons_append, List.append_cancel_left_eq, List.append_cancel_right_eq]
    exact kept_marker_iff hclass hnames hat
  · obtain ⟨tail, hread, hkept⟩ := htext.unread
    rw [eq_unknownMarkers hrefs, name_unknownMarkers]
    exact markerKeys_lexemesFrom hclass hnames (by simp) htext.lexemes hread hkept

/-- Of a marker with a known start and one without, the latter is left and reported.  That the text
has a known marker does no harm. -/
theorem unknownMarkers_replaced_misspelled :
    let names := ["hero"]
    let text := "<p @cards @crad>@hero</p>".toList
    let tags : List (List Written) :=
      [[⟨"@cards".toList, [], []⟩, ⟨"@crad".toList, [], []⟩], [], []]
    (MarkerClass isNameChar ∧ (∀ n ∈ names, ∀ c ∈ n.toList, isNameChar c = true) ∧
      MarkedText names text tags) ∧
      ((TagTable.ofPresets names).replaced text
          = (TagTable.ofPresets names).replaced "<p ".toList
            ++ '@' :: ("cards".toList
              ++ (TagTable.ofPresets names).replaced " @crad>@hero</p>".toList) ↔
        startsKnown names "cards".toList = false) ∧
      ∃ refs, unknownMarkers? ((TagTable.ofPresets names).replaced text) = some refs ∧
        refs.map (·.name) = ["@crad".toList] := by
  intro names text tags
  have hnames : ∀ n ∈ names, ∀ c ∈ n.toList, isNameChar c = true := isNameChar_of_all (by decide)
  have hmarker : ∀ (m : List Char) (c : Char) (s : List Char) (ws : List Written),
      m.all (fun d => !endsKey d) = true → endsName c = true →
      ((c :: s).dropWhile isTagSpace).head? ≠ some '=' → TagText (c :: s) ws →
      TagText ('@' :: m ++ ([] ++ c :: s)) (⟨'@' :: m, [], []⟩ :: ws) := by
    intro m c s ws hm hc hs htag
    refine .written (.intro (by decide) fun d hd => ?_) (.none (fun d hd => ?_) hs) htag
    · simpa using List.all_eq_true.mp hm d hd
    · rwa [← Option.some.inj hd]
  have htag : TagOf (['p'] ++ " @cards @crad>".toList) ['p']
      [⟨'@' :: "cards".toList, [], []⟩, ⟨'@' :: "crad".toList, [], []⟩] :=
    .intro (List.all_iff_forall_prop.mp rfl)
      (by simp [endsName, isTagSpace])
      (.space rfl (hmarker "cards".toList ' ' "@crad>".toList _ rfl rfl (by decide)
        (.space rfl (hmarker "crad".toList '>' [] _ rfl rfl (by decide) .close))))
  have hattributes : ∀ w ∈ [Written.mk "@cards".toList [] [], Written.mk "@crad".toList [] []],
      MarkedAttribute names w := by
    simp only [List.forall_mem_cons]
    exact ⟨.marker (by decide), .marker (by decide), by simp⟩
  have hlexemes : lexemes text = [
      ⟨.startTag ['p'] [⟨"@cards".toList, []⟩, ⟨"@crad".toList, []⟩] false,
        "<p @cards @crad>".toList⟩, ⟨.text .plain "@hero".toList, "@hero".toList⟩,
      ⟨.endTag ['p'], "</p>".toList⟩] := by decide +kernel
  have htext : MarkedText names text tags := by
    refine ⟨?_, [], by decide +kernel, by decide +kernel⟩
    rw [hlexemes]
    exact .cons (.tag htag (by decide +kernel) hattributes)
      (.cons (.text (by decide)) (.cons (.other rfl (by decide +kernel)) .nil))
  have hboth := unknownMarkers_replaced markerClass_isNameChar names hnames text
  have hblank : ∀ c, some ' ' = some c → c ≠ '@' ∧ isNameChar c = false := by
    rintro c hc
    obtain rfl := Option.some.inj hc
    decide
  have hsmall : ((startTags ((TagTable.ofPresets names).replaced text)).all fun t =>
      byteSize (t.raw.map lowerChar) ≤ byteSize t.raw) = true := by decide +kernel
  obtain ⟨hreported, hsome⟩ := hboth.2 tags htext
  obtain ⟨refs, hrefs⟩ := Option.isSome_iff_exists.mp
    (hsome fun t ht => of_decide_eq_true (List.all_eq_true.mp hsmall t ht))
  exact ⟨⟨markerClass_isNameChar, hnames, htext⟩,
    hboth.1 "<p ".toList "cards".toList " @crad>@hero</p>".toList rfl hblank
      (List.all_eq_true.mp (by decide)) hblank,
    refs, hrefs, (hreported refs hrefs).trans (by decide +kernel)⟩

/-- A plural of a known marker is no known name, but it is replaced in part and not reported. -/
theorem unknownMarkers_plural :
    let text := "<div @cards>".toList
    "cards" ∉ [] ++ builtinMarkers ∧
      (TagTable.ofPresets []).replaced text = "<div class=\"card\"s>".toList ∧
      unknownMarkers? ((TagTable.ofPresets []).replaced text) = some [] := by
  decide +kernel

end Pagesmith.Page
