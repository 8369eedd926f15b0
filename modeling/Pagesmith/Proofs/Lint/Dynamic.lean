import Pagesmith.Proofs.Html.Value
import Pagesmith.Proofs.Lint.Counts
import Pagesmith.Proofs.Lint.Place

/-!
# Class names with expressions

The name of a class that has an expression in it is known only when the page is rendered, so one
expects that it is not checked.  The check, however, reads the markup without its expressions.  What
is left of such a name is a name like any other: it is counted and looked for if it is not empty and
has no dollar sign and no brace.  Line breaks inside the expressions even part it.

* `Piece`: literal text or an expression inside a class name.
* `ClassValue`: the value of a class attribute, name by name.
* `ClassSlot`: the markup on the two sides of such a value, as of a tag (`classSlot_of_tag`).
* `staticOf_classValue`: the value without its expressions.
* `name_classRefs`: the class names of markup with a value in the slot.
* `refs_dynamic`: what is counted and reported of a page.
-/

namespace Pagesmith.Lint

open Pagesmith.Html
open Pagesmith.Page
open Pagesmith.Text

variable {q : Char}

/-! ### Values with expressions -/

inductive Piece where
  | literal (s : List Char)
  | expr (inner : List Char)
  deriving DecidableEq, Repr

namespace Piece

def text : Piece → List Char
  | .literal s => s
  | .expr inner => span inner

def rest : Piece → List Char
  | .literal s => s
  | .expr inner => inner.filter (· == '\n')

/-- Literal text has no blanks, no opening brace, no reference and no quote that ends the value.
An expression ends at the first closing brace and is not blank. -/
def Proper (q : Char) : Piece → Prop
  | .literal s => ∀ c ∈ s, isBlank c = false ∧ c ∉ ['\x7b', '&', q]
  | .expr inner => '\x7d' ∉ inner ∧ trim inner ≠ []

end Piece

inductive ClassValue (q : Char) : List Char → List (List Piece) → Prop where
  | blank {gap : List Char} : (∀ c ∈ gap, isBlank c = true) → ClassValue q gap []
  | name {gap s : List Char} {w : List Piece} {ws : List (List Piece)} :
      (∀ c ∈ gap, isBlank c = true) → (∀ p ∈ w, p.Proper q) →
      (∀ c, s.head? = some c → isBlank c = true) → ClassValue q s ws →
      ClassValue q (gap ++ (w.flatMap Piece.text ++ s)) (w :: ws)

def checkedNames (w : List Piece) : List (List Char) :=
  (fields (w.flatMap Piece.rest)).filter isFixedName

theorem not_mem_of_blank_gap {gap : List Char} (hgap : ∀ c ∈ gap, isBlank c = true) {c : Char}
    (hc : isBlank c = false) : c ∉ gap := by
  intro hmem
  rw [hgap c hmem] at hc
  cases hc

theorem staticOf_pieces {w : List Piece} (hw : ∀ p ∈ w, p.Proper q) (b : List Char) :
    staticOf (w.flatMap Piece.text ++ b) = w.flatMap Piece.rest ++ staticOf b := by
  induction w with
  | nil => rfl
  | cons p w ih =>
    rw [List.forall_mem_cons] at hw
    rw [List.flatMap_cons, List.flatMap_cons, List.append_assoc, List.append_assoc, ← ih hw.2]
    cases p with
    | literal s =>
      have hbrace : '\x7b' ∉ s := fun hmem => (hw.1 _ hmem).2 (by simp)
      exact staticOf_literal hbrace _
    | expr inner => exact staticOf_span hw.1.1 hw.1.2 _

theorem not_mem_rest {w : List Piece} (hw : ∀ p ∈ w, p.Proper q) {c : Char} (hc : c = '&' ∨ c = q)
    (hline : c ≠ '\n') : c ∉ w.flatMap Piece.rest := by
  rw [List.mem_flatMap]
  rintro ⟨p, hp, hmem⟩
  cases p with
  | literal s =>
    refine (hw _ hp c hmem).2 ?_
    rcases hc with rfl | rfl <;> simp
  | expr inner => exact hline (by simpa using (List.mem_filter.mp hmem).2)

/-- **The value of a class attribute without its expressions.** -/
theorem staticOf_classValue (hq : q = '"' ∨ q = '\'') {s : List Char} {ws : List (List Piece)}
    (h : ClassValue q s ws) :
    ∃ r, (∀ b, staticOf (s ++ b) = r ++ staticOf b) ∧
      fields r = ws.flatMap (fun w => fields (w.flatMap Piece.rest)) ∧ q ∉ r ∧ '&' ∉ r := by
  have hquote : isBlank q = false := by rcases hq with rfl | rfl <;> decide
  have hline : q ≠ '\n' := by rcases hq with rfl | rfl <;> decide
  induction h with
  | @blank gap hgap =>
    refine ⟨gap, fun b => staticOf_literal (not_mem_of_blank_gap hgap (by decide)) b, ?_,
      not_mem_of_blank_gap hgap hquote, not_mem_of_blank_gap hgap (by decide)⟩
    have hnone := fields_blank hgap []
    rwa [List.append_nil] at hnone
  | @name gap s w ws hgap hw hs _ ih =>
    obtain ⟨r, hstatic, hfields, hr, href⟩ := ih
    -- the next name is parted from this one by a blank, which stays
    have hhead : ∀ c, r.head? = some c → isBlank c = true := by
      have hself := hstatic []
      rw [List.append_nil, staticOf_nil, List.append_nil] at hself
      cases s with
      | nil =>
        rw [staticOf_nil] at hself
        rw [← hself]
        nofun
      | cons d s =>
        have hd : d ≠ '\x7b' := by
          rintro rfl
          exact absurd (hs _ rfl) (by decide)
        rw [staticOf_cons hd] at hself
        rw [← hself]
        exact hs
    refine ⟨gap ++ (w.flatMap Piece.rest ++ r), fun b => ?_, ?_, ?_, ?_⟩
    · rw [List.append_assoc, List.append_assoc,
        staticOf_literal (not_mem_of_blank_gap hgap (by decide)), staticOf_pieces hw, hstatic]
      simp
    · rw [fields_blank hgap, fields_append _ hhead, hfields, List.flatMap_cons]
    · simp only [List.mem_append, not_or]
      exact ⟨not_mem_of_blank_gap hgap hquote, not_mem_rest hw (.inr rfl) hline, hr⟩
    · simp only [List.mem_append, not_or]
      exact ⟨not_mem_of_blank_gap hgap (by decide), not_mem_rest hw (.inl rfl) (by decide), href⟩

/-! ### Markup around a value -/

/-- The markup on the two sides of the value of a class attribute.  With the empty value the tag is
a lexeme of the markup, and whatever value without the quote stands there is written as that of the
attribute. -/
inductive ClassSlot (q : Char) : List Char → List Char → Prop where
  | intro {xs ys : List Lexeme} {attributes : List Attribute} {closing : Bool}
      {left right after nm key : List Char} {ws ws' : List Written} (tail : List Char → List Char) :
      lexemes (xs.flatMap (·.raw) ++ '<' :: (left ++ right ++ after))
        = xs ++ ⟨.startTag (nm.map lowerAscii) attributes closing, '<' :: (left ++ right)⟩ :: ys →
      left ≠ [] → key.map lowerAscii = "class".toList →
      (∀ v, q ∉ v → TagOf (left ++ v ++ right) nm (ws ++ ⟨key, tail v, v⟩ :: ws')) →
      ClassSlot q (xs.flatMap (·.raw) ++ '<' :: left) (right ++ after)

theorem ClassSlot.bracket_mem {left right : List Char} (h : ClassSlot q left right) :
    '<' ∈ left := by
  obtain ⟨tail⟩ := h
  simp

theorem classSlot_of_tag (hq : q = '"' ∨ q = '\'') {d : Char} {nm s : List Char} {ws : List Written}
    (hd : isLetter d = true) (hnm : ∀ c ∈ d :: nm, endsName c = false) (hs : TagText s ws)
    (after : List Char) :
    ClassSlot q ('<' :: (d :: nm ++ " class=".toList ++ [q])) (q :: s ++ after) := by
  have htag : ∀ v, q ∉ v → TagOf (d :: nm ++ " class=".toList ++ [q] ++ v ++ (q :: s)) (d :: nm)
      ([] ++ ⟨"class".toList, '=' :: q :: (v ++ [q]), v⟩ :: ws) := by
    intro v hv
    have hkey : IsKey "class".toList := .intro (by decide) (List.all_iff_forall_prop.mp rfl)
    have hquoted : ValueText ([] ++ '=' :: [] ++ q :: v ++ [q]) v s :=
      .quoted s nofun nofun hq hv
    have hwhole : d :: nm ++ " class=".toList ++ [q] ++ v ++ (q :: s)
        = d :: nm ++ ' ' :: ("class".toList ++ ('=' :: q :: (v ++ [q]) ++ s)) := by simp
    rw [hwhole]
    exact .intro hnm (by simp [endsName, isTagSpace]) (.space rfl (.written hkey hquoted hs))
  have hempty := htag [] (by simp)
  rw [List.append_nil] at hempty
  obtain ⟨closing, hlexemes⟩ := hempty.lexemesFrom_append hd after
  have hslot : ClassSlot q (([] : List Lexeme).flatMap (·.raw)
      ++ '<' :: (d :: nm ++ " class=".toList ++ [q])) (q :: s ++ after) :=
    .intro _ hlexemes (by simp) (by decide) htag
  exact hslot

def listedNames (attributes : List Attribute) : List (List Char) :=
  (attributes.filter (·.key == "class".toList)).flatMap fun a =>
    (fields a.value).filter isFixedName

theorem listedNames_append (a b : List Attribute) :
    listedNames (a ++ b) = listedNames a ++ listedNames b := by
  rw [listedNames, List.filter_append, List.flatMap_append]
  rfl

theorem name_classRefs_eq (markup : List Char) :
    (classRefs markup).map (·.name)
      = (lexemes markup).flatMap fun x => listedNames x.token.attributes := by
  have hnames : ∀ t : StartTag, (t.classNames.map fun name =>
      Reference.mk name (.atOffset markup (t.classOffset name))).map (·.name) = t.classNames := by
    intro t
    rw [List.map_map]
    exact List.map_id _
  rw [classRefs, List.map_flatMap]
  simp only [hnames]
  exact flatMap_startTags (f := listedNames) rfl markup

theorem listedNames_cons_class {w : Written} (hkey : w.key.map lowerAscii = "class".toList)
    (hvalue : '&' ∉ w.value) (attributes : List Attribute) :
    listedNames (w.read :: attributes)
      = (fields w.value).filter isFixedName ++ listedNames attributes := by
  have hclass : (w.read.key == "class".toList) = true := by
    rw [beq_iff_eq]
    exact hkey
  rw [listedNames, List.filter_cons, if_pos hclass, List.flatMap_cons, fields_read hvalue]
  rfl

/-- **The class names of markup with a value in a slot** are some before it, its own words, and some
behind it. -/
theorem name_classRefs {left right : List Char} (h : ClassSlot q left right) :
    ∃ before after, ∀ v, q ∉ v → '&' ∉ v →
      (classRefs (left ++ v ++ right)).map (·.name)
        = before ++ (fields v).filter isFixedName ++ after := by
  obtain @⟨xs, ys, attributes, closing, left, right, after, nm, key, ws, ws', tail, hlexemes, hleft,
    hkey, htag⟩ := h
  obtain ⟨d, v', rest, hhead, -, hrest, hexchange⟩ :=
    lexemesFrom_exchange (by simp) (show lexemesFrom none _ = _ from hlexemes)
  obtain ⟨left, rfl⟩ : ∃ t, left = d :: t := by
    obtain ⟨e, t, rfl⟩ := List.exists_cons_of_ne_nil hleft
    exact ⟨t, by rw [(List.cons.inj hhead).1]⟩
  obtain rfl : after = rest := by simpa using hrest
  refine ⟨xs.flatMap (fun x => listedNames x.token.attributes) ++ listedNames (ws.map Written.read),
    listedNames (ws'.map Written.read) ++ ys.flatMap fun x => listedNames x.token.attributes,
    fun v hv href => ?_⟩
  obtain ⟨closing', hnew⟩ := hexchange (left ++ v ++ right) nm _ (by simpa using htag v hv) rfl
  have htext : xs.flatMap (·.raw) ++ '<' :: (d :: left) ++ v ++ (right ++ after)
      = xs.flatMap (·.raw) ++ '<' :: (d :: (left ++ v ++ right) ++ after) := by simp
  rw [htext, name_classRefs_eq, lexemes, hnew, List.flatMap_append, List.flatMap_cons,
    Token.attributes, List.map_append, List.map_cons, listedNames_append,
    listedNames_cons_class hkey href]
  simp only [List.append_assoc]

/-! ### A page -/

theorem trim_ne_nil_of_static {tags : TagTable} {keys : List String}
    (htags : tags = keys.map Tag.ofClass) {region : List Char}
    (h : '<' ∈ staticOf (tags.replaced region)) : trim region ≠ [] := by
  by_cases hat : '@' ∈ region
  · exact trim_ne_nil hat (by decide)
  · rw [htags, replaced_of_not_mem hat] at h
    obtain ⟨x, y, hsplit, -⟩ := List.eq_append_cons_of_mem h
    have hkeeps := keepsLines_staticOf region
    rw [hsplit] at hkeeps
    obtain ⟨u, v, rfl, -, -⟩ := hkeeps.split (by decide)
    exact trim_ne_nil (c := '<') (by simp) (by decide)

theorem texts_pageFindings (c : Compiler) (defined : List String) (path source : String) :
    ((pageFindings c defined path source).issues.filter (·.severity = .error)).map (·.text)
      = ((pageClasses c source).filter fun name => !defined.contains name).map fun name =>
        "class " ++ quoted name ++ " not found in stylesheet" := by
  rw [pageFindings, pageClasses]
  split
  · rfl
  · have hclass : ∀ lines at_ (refs : List Reference),
        (refs.map (unknownClass path lines at_ defined)).filter (·.severity = .error)
          = refs.map (unknownClass path lines at_ defined) := by
      intro lines at_ refs
      rw [List.filter_eq_self]
      intro issue hissue
      obtain ⟨ref, -, rfl⟩ := List.mem_map.mp hissue
      rfl
    have hmarker : ∀ lines at_ (refs : List Reference),
        (refs.map (unknownMarker path lines at_)).filter (·.severity = .error) = [] := by
      intro lines at_ refs
      rw [List.filter_eq_nil_iff]
      intro issue hissue
      obtain ⟨ref, -, rfl⟩ := List.mem_map.mp hissue
      intro hsevere
      cases hsevere
    rw [findingsFrom, List.filter_append, hclass, hmarker, List.append_nil, List.map_map,
      List.filter_map, List.map_map]
    rfl

/-- **What is checked of class names with expressions.**  Take all pages whose templates agree with
their markers replaced, but for the value of one class attribute.  They refer to the same classes
before and behind it, and in between to what is left of each of its names without the expressions,
unless that is empty or has a dollar sign or a brace.  A name with an expression makes no
difference: its rest is counted, and reported if no such class is defined.  The check of a page can
fail only if one of its tags is longer in lower case. -/
theorem refs_dynamic (c : Compiler) {q : Char} (hq : q = '"' ∨ q = '\'') {a b : List Char}
    (ha : ¬ LeavesOpen a) (hslot : ClassSlot q (staticOf a) (staticOf b)) :
    ∃ before after : List String, ∀ source value names, ClassValue q value names →
      c.tags.replaced (c.parse source).source = a ++ value ++ b → ∀ defined path,
      (∀ found, pageFindings? c defined path source = some found →
        found.refs
          = (before ++ (names.flatMap checkedNames).map String.ofList ++ after).map
            (fun name => (name, defined.contains name)) ∧
        (found.issues.filter (·.severity = .error)).map (·.text)
          = ((before ++ (names.flatMap checkedNames).map String.ofList ++ after).filter
            fun name => !defined.contains name).map
              fun name => "class " ++ quoted name ++ " not found in stylesheet") ∧
      (Shrinks (c.parse source).template.static →
        (pageFindings? c defined path source).isSome = true) := by
  obtain ⟨before, after, hnames⟩ := name_classRefs hslot
  refine ⟨before.map String.ofList, after.map String.ofList, ?_⟩
  intro source value names hvalue htemplate defined path
  obtain ⟨r, hstatic, hfields, hr, href⟩ := staticOf_classValue hq hvalue
  have hcompile : (c.parse source).template.static
      = staticOf (c.tags.replaced (c.parse source).source) := rfl
  have hmarkup : (c.parse source).template.static = staticOf a ++ r ++ staticOf b := by
    rw [hcompile, htemplate, List.append_assoc, staticOf_append ha, hstatic, List.append_assoc]
  have hclasses : pageClasses c source
      = before.map String.ofList ++ (names.flatMap checkedNames).map String.ofList
        ++ after.map String.ofList := by
    have htag : '<' ∈ staticOf (c.tags.replaced (c.parse source).source) := by
      rw [← hcompile, hmarkup]
      exact List.mem_append_left _ (List.mem_append_left _ hslot.bracket_mem)
    have hregion : ¬ (trim (c.parse source).source).isEmpty = true := by
      rw [List.isEmpty_iff]
      exact trim_ne_nil_of_static (ofPresets_eq c.catalog.styles.names) htag
    have hlist := congrArg (List.map String.ofList) (hnames r hr href)
    rw [List.map_map, ← hmarkup, hfields, List.map_append, List.map_append,
      List.filter_flatMap] at hlist
    rw [pageClasses]
    simp only [if_neg hregion]
    exact hlist
  refine ⟨fun found hfound => ?_, fun hsmall => isSome_pageFindings? hsmall defined path⟩
  rw [eq_pageFindings hfound, refs_pageFindings, texts_pageFindings, hclasses]
  exact ⟨rfl, rfl⟩

/-- A name that ends with an expression and one that starts with one, with a fixed name between. -/
theorem refs_dynamic_buttons :
    let c : Compiler := { catalog := ⟨[], [], []⟩ }
    let a := "<p class=\"".toList
    let b := "\">hi</p>".toList
    let value := "btn-\x7bkind\x7d big \x7bsize\x7d-xl".toList
    let names := [[Piece.literal "btn-".toList, .expr "kind".toList], [.literal "big".toList],
      [.expr "size".toList, .literal "-xl".toList]]
    let source := String.ofList ("<template>".toList ++ (a ++ value ++ b) ++ "</template>".toList)
    (¬ LeavesOpen a ∧ ClassSlot '"' (staticOf a) (staticOf b) ∧ ClassValue '"' value names ∧
      c.tags.replaced (c.parse source).source = a ++ value ++ b) ∧
      ∃ found, pageFindings? c ["big"] "a.max" source = some found ∧
        ∃ before after : List String, found.refs
          = (before ++ ["btn-", "big", "-xl"] ++ after).map
            fun name => (name, ["big"].contains name) := by
  intro c a b value names source
  have ha : ¬ LeavesOpen a := by
    rintro ⟨before, after, heq, -⟩
    have hbrace : '\x7b' ∈ a := by
      rw [heq]
      simp
    exact absurd hbrace (by decide)
  have hslot : ClassSlot '"' (staticOf a) (staticOf b) := by
    have hleft : staticOf a = '<' :: (['p'] ++ " class=".toList ++ ['"']) := by decide +kernel
    have hright : staticOf b = '"' :: ['>'] ++ "hi</p>".toList := by decide +kernel
    rw [hleft, hright]
    exact classSlot_of_tag (.inl rfl) (by decide) (List.all_iff_forall_prop.mp rfl) .close _
  have hvalue : ClassValue '"' value names := by
    have hliteral : ∀ s : List Char,
        s.all (fun c => !isBlank c && !(['\x7b', '&', '"'].contains c)) = true →
        Piece.Proper '"' (.literal s) :=
      fun s hs c hc => by simpa using List.all_eq_true.mp hs c hc
    have hblank : ∀ c ∈ [' '], isBlank c = true := List.all_iff_forall_prop.mp rfl
    have hspace : ∀ (s : List Char) (c : Char), (' ' :: s).head? = some c → isBlank c = true := by
      intro s c hc
      obtain rfl := Option.some.inj hc
      decide
    have hparts : value = []
        ++ ([Piece.literal "btn-".toList, .expr "kind".toList].flatMap Piece.text
        ++ ([' '] ++ ([Piece.literal "big".toList].flatMap Piece.text
        ++ ([' '] ++ ([Piece.expr "size".toList, .literal "-xl".toList].flatMap Piece.text
        ++ []))))) := by decide +kernel
    rw [hparts]
    refine .name nofun ?_ (hspace _) (.name hblank ?_ (hspace _)
      (.name hblank ?_ nofun (.blank nofun)))
    · simp only [List.forall_mem_cons]
      exact ⟨hliteral _ (by decide), ⟨by decide, by decide⟩, nofun⟩
    · simp only [List.forall_mem_cons]
      exact ⟨hliteral _ (by decide), nofun⟩
    · simp only [List.forall_mem_cons]
      exact ⟨⟨by decide, by decide⟩, hliteral _ (by decide), nofun⟩
  have htemplate : c.tags.replaced (c.parse source).source = a ++ value ++ b := by decide +kernel
  obtain ⟨before, after, hrefs⟩ := refs_dynamic c (.inl rfl) ha hslot
  have hchecked : (names.flatMap checkedNames).map String.ofList = ["btn-", "big", "-xl"] := by
    decide +kernel
  have hsmall : ((startTags (c.parse source).template.static).all fun t =>
      byteSize (t.raw.map lowerChar) ≤ byteSize t.raw) = true := by decide +kernel
  obtain ⟨hcounted, hsome⟩ := hrefs source value names hvalue htemplate ["big"] "a.max"
  obtain ⟨found, hfound⟩ := Option.isSome_iff_exists.mp
    (hsome fun t ht => of_decide_eq_true (List.all_eq_true.mp hsmall t ht))
  refine ⟨⟨ha, hslot, hvalue, htemplate⟩, found, hfound, before, after, ?_⟩
  rw [(hcounted found hfound).1, hchecked]

/-- The literal rest of a name with an expression is counted and reported. -/
theorem refs_dynamic_rest :
    let c : Compiler := { catalog := ⟨[], [], []⟩ }
    let source := "<template><p class=\"btn-\x7bkind\x7d\">hi</p></template>"
    (pageFindings? c [] "a.max" source).map (fun found => (found.refs, found.issues.map (·.text)))
      = some ([("btn-", false)], ["class \"btn-\" not found in stylesheet"]) := by
  decide +kernel

end Pagesmith.Lint
