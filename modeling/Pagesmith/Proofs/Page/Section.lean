import Mathlib.Data.Bool.AllAny
import Mathlib.Tactic
import Pagesmith.Proofs.Page.Region

/-!
# Pages written from their regions

A page is written as a sequence of regions with other text between them.  Reading it back gives the
regions: the first one of each kind counts, whatever follows the page is read as if it stood alone,
and a marker whose region is not closed is passed over.

* `Sections.orElse`: the regions of one page before those of another.
* `sectionsFrom_eq`: what was found earlier counts before what is found later.
* `Opens`, `Part`, `Source`: opening markers, regions with their delimiters, and sources.
* `sections_append`: the regions of a source and of the text behind it.
* `sections_unclosed`: a marker whose region is not closed.
* `extractSections_recovers`: the regions of a source with at most one region of each kind.
-/

namespace Pagesmith.Page

open Pagesmith.Text

variable {m s : List Char} {r : Region} {n : Nat}

/-! ### Sections -/

namespace Sections

def text? (s : Sections) : Region → Option (List Char)
  | .config => s.config
  | .logic => s.logic
  | .template => s.template

theorem get_eq (s : Sections) (r : Region) : s.get r = (s.text? r).getD [] := by
  cases r <;> rfl

theorem ext_text? {a b : Sections} (h : ∀ r, a.text? r = b.text? r) : a = b := by
  obtain ⟨ac, al, atm⟩ := a
  obtain ⟨bc, bl, btm⟩ := b
  have hc : ac = bc := h .config
  have hl : al = bl := h .logic
  have ht : atm = btm := h .template
  rw [hc, hl, ht]

@[simp] theorem text?_empty (r : Region) : ({} : Sections).text? r = none := by
  cases r <;> rfl

theorem text?_add (s : Sections) (t : List Char) (r k : Region) :
    (s.add t r).text? k = (s.text? k).or (if r = k then some t else none) := by
  cases r <;> cases k <;> simp [add, text?]

/-- The regions of one page, and of those that it does not have the regions of another. -/
def orElse (a b : Sections) : Sections where
  config := a.config.or b.config
  logic := a.logic.or b.logic
  template := a.template.or b.template

@[simp] theorem text?_orElse (a b : Sections) (r : Region) :
    (a.orElse b).text? r = (a.text? r).or (b.text? r) := by
  cases r <;> rfl

@[simp] theorem orElse_empty (a : Sections) : a.orElse {} = a :=
  ext_text? fun r => by simp

theorem orElse_assoc (a b c : Sections) : (a.orElse b).orElse c = a.orElse (b.orElse c) :=
  ext_text? fun r => by simp [Option.or_assoc]

theorem add_eq_orElse (a : Sections) (t : List Char) (r : Region) :
    a.add t r = a.orElse (({} : Sections).add t r) :=
  ext_text? fun k => by simp [text?_add]

end Sections

/-! ### One step of reading -/

theorem sectionsFrom_nil (found : Sections) : sectionsFrom found [] = found := by
  rw [sectionsFrom]

theorem sections_nil : sections [] = {} := sectionsFrom_nil _

theorem sectionsFrom_of_none {c : Char} {cs : List Char} (h : openingMarker? (c :: cs) = none)
    (found : Sections) : sectionsFrom found (c :: cs) = sectionsFrom found cs := by
  rw [sectionsFrom]
  split
  · rfl
  · next heq => rw [h] at heq; cases heq

theorem sectionsFrom_of_some (h : openingMarker? s = some (r, n)) {t rest : List Char}
    (hregion : regionFrom r.grammar 0 (s.drop n) = some (t, rest)) (found : Sections) :
    sectionsFrom found s = sectionsFrom (found.add t r) rest := by
  cases s with
  | nil => cases h
  | cons c cs =>
    rw [sectionsFrom]
    split
    · next heq => rw [h] at heq; cases heq
    · next heq =>
      rw [h] at heq
      cases heq
      split
      · next heq => rw [hregion] at heq; cases heq; rfl
      · next heq => rw [hregion] at heq; cases heq

theorem sectionsFrom_of_unclosed (h : openingMarker? s = some (r, n))
    (hregion : regionFrom r.grammar 0 (s.drop n) = none) (found : Sections) :
    sectionsFrom found s = sectionsFrom found (s.drop n) := by
  cases s with
  | nil => cases h
  | cons c cs =>
    rw [sectionsFrom]
    split
    · next heq => rw [h] at heq; cases heq
    · next heq =>
      rw [h] at heq
      cases heq
      split
      · next heq => rw [hregion] at heq; cases heq
      · rfl

theorem sectionsFrom_eq (found : Sections) (s : List Char) :
    sectionsFrom found s = found.orElse (sections s) := by
  rw [sections]
  induction hlen : s.length using Nat.strongRecOn generalizing s found with
  | ind len ih =>
    cases s with
    | nil => rw [sectionsFrom_nil, sectionsFrom_nil, Sections.orElse_empty]
    | cons c cs =>
      rw [List.length_cons] at hlen
      cases hmarker : openingMarker? (c :: cs) with
      | none =>
        rw [sectionsFrom_of_none hmarker, sectionsFrom_of_none hmarker]
        exact ih cs.length (by omega) found cs rfl
      | some m =>
        obtain ⟨r, n⟩ := m
        have hpos := openingMarker?_pos hmarker
        have hdrop : ((c :: cs).drop n).length < len := by
          rw [List.length_drop, List.length_cons]
          omega
        cases hregion : regionFrom r.grammar 0 ((c :: cs).drop n) with
        | none =>
          rw [sectionsFrom_of_unclosed hmarker hregion, sectionsFrom_of_unclosed hmarker hregion]
          exact ih _ hdrop found _ rfl
        | some p =>
          obtain ⟨t, rest⟩ := p
          have hrest := length_regionFrom_lt r.grammar 0 _ hregion
          rw [sectionsFrom_of_some hmarker hregion, sectionsFrom_of_some hmarker hregion,
            ih rest.length (by omega) (found.add t r) rest rfl,
            ih rest.length (by omega) (({} : Sections).add t r) rest rfl,
            Sections.add_eq_orElse found, Sections.orElse_assoc]

/-! ### Opening markers -/

inductive Opens : Region → List Char → Prop where
  | config (gap : List Char) (hgap : ∀ c ∈ gap, isMarkerSpace c = true) :
      Opens .config ("@page".toList ++ gap ++ ['\x7b'])
  | logic (gap : List Char) (hgap : ∀ c ∈ gap, isMarkerSpace c = true) :
      Opens .logic ("@backend".toList ++ gap ++ ['\x7b'])
  | template : Opens .template "<template>".toList

theorem braceMarkerLength?_append {gap : List Char} (hgap : ∀ c ∈ gap, isMarkerSpace c = true)
    (word s : List Char) : braceMarkerLength? word (word ++ gap ++ ['\x7b'] ++ s)
      = some (word ++ gap ++ ['\x7b']).length := by
  have hassoc : word ++ gap ++ ['\x7b'] ++ s = word ++ (gap ++ '\x7b' :: s) := by simp
  have hstarts : word.isPrefixOf (word ++ (gap ++ '\x7b' :: s)) = true :=
    List.isPrefixOf_iff_prefix.mpr (List.prefix_append _ _)
  have hspaces := takeWhile_gap hgap (m := '\x7b') (by decide) s
  rw [hassoc, braceMarkerLength?, if_pos hstarts, List.drop_left]
  simp only [hspaces, List.drop_left, List.head?_cons, if_true, List.length_append,
    List.length_singleton]

def Region.opener? : Region → List Char → Option Nat
  | .config => braceMarkerLength? "@page".toList
  | .logic => braceMarkerLength? "@backend".toList
  | .template =>
    fun s => if "<template>".toList.isPrefixOf s then some "<template>".length else none

theorem opener?_append (h : Opens r m) (s : List Char) : r.opener? (m ++ s) = some m.length := by
  cases h with
  | config gap hgap => exact braceMarkerLength?_append hgap "@page".toList s
  | logic gap hgap => exact braceMarkerLength?_append hgap "@backend".toList s
  | template => rfl

theorem openingMarker?_append (h : Opens r m) (s : List Char) :
    openingMarker? (m ++ s) = some (r, m.length) := by
  have hopener := opener?_append h s
  cases h with
  | config gap hgap =>
    rw [Region.opener?] at hopener
    simp only [openingMarker?, hopener]
  | logic gap hgap =>
    have hpage : braceMarkerLength? "@page".toList ("@backend".toList ++ gap ++ ['\x7b'] ++ s)
        = none := rfl
    rw [Region.opener?] at hopener
    simp only [openingMarker?, hpage, hopener]
  | template => rfl

theorem opener?_of_openingMarker? (h : openingMarker? s = some (r, n)) : r.opener? s = some n := by
  rw [openingMarker?] at h
  split at h
  · next hpage =>
    cases h
    exact hpage
  · split at h
    · next hbackend =>
      cases h
      exact hbackend
    · split at h
      · next htag =>
        cases h
        exact if_pos htag
      · cases h

theorem openingMarker?_of_ne {c : Char} (hat : c ≠ '@') (hlt : c ≠ '<') (s : List Char) :
    openingMarker? (c :: s) = none := by
  simp [openingMarker?, braceMarkerLength?, hat.symm, hlt.symm]

/-! ### Pages -/

/-- Text between regions: no marker can start in it. -/
abbrev Gap := { s : List Char // '@' ∉ s ∧ '<' ∉ s }

structure Part where
  region : Region
  opener : List Char
  text : List Char
  opens : Opens region opener

variable {parts : List (Part × Gap)}

def Part.written (p : Part) : List Char := p.opener ++ p.text ++ p.region.closer

theorem Part.written_append (p : Part) (s : List Char) :
    p.written ++ s = p.opener ++ (p.text ++ p.region.closer ++ s) := by
  simp [Part.written]

def Part.ReadBack (p : Part) (s : List Char) : Prop :=
  regionFrom p.region.grammar 0 (p.text ++ p.region.closer ++ s) = some (p.text, s)

structure Source where
  lead : Gap
  parts : List (Part × Gap)

variable {src : Source}

namespace Source

def partsText (parts : List (Part × Gap)) : List Char :=
  parts.flatMap fun p => p.1.written ++ p.2.1

def AllReadBack (s : List Char) : List (Part × Gap) → Prop
  | [] => True
  | p :: parts => p.1.ReadBack (p.2.1 ++ partsText parts ++ s) ∧ AllReadBack s parts

def text (src : Source) : List Char := src.lead.1 ++ partsText src.parts

def WellFormed (src : Source) : Prop := ∀ p ∈ src.parts, p.1.region.IsText p.1.text

def firstText? (src : Source) (r : Region) : Option (List Char) :=
  (src.parts.find? fun p => p.1.region == r).map fun p => p.1.text

end Source

theorem sectionsFrom_gap (found : Sections) (g : Gap) (s : List Char) :
    sectionsFrom found (g.1 ++ s) = sectionsFrom found s := by
  obtain ⟨g, hat, hlt⟩ := g
  induction g with
  | nil => rfl
  | cons c g ih =>
    rw [List.mem_cons, not_or] at hat hlt
    have hmarker := openingMarker?_of_ne (Ne.symm hat.1) (Ne.symm hlt.1) (g ++ s)
    rw [List.cons_append, sectionsFrom_of_none hmarker]
    exact ih hat.2 hlt.2

theorem sectionsFrom_written (found : Sections) {p : Part} (hp : p.ReadBack s) :
    sectionsFrom found (p.written ++ s) = sectionsFrom (found.add p.text p.region) s := by
  rw [p.written_append]
  refine sectionsFrom_of_some (openingMarker?_append p.opens _) ?_ found
  rw [List.drop_left]
  exact hp

theorem sections_cons {p : Part × Gap} (hp : p.1.ReadBack (p.2.1 ++ Source.partsText parts ++ s)) :
    sections (Source.partsText (p :: parts) ++ s)
      = (({} : Sections).add p.1.text p.1.region).orElse
        (sections (Source.partsText parts ++ s)) := by
  have hassoc : Source.partsText (p :: parts) ++ s
      = p.1.written ++ (p.2.1 ++ Source.partsText parts ++ s) := by
    simp [Source.partsText]
  rw [sections, hassoc, sectionsFrom_written _ hp, List.append_assoc, sectionsFrom_gap,
    sectionsFrom_eq]

/-- If all regions are read back, the first of each kind counts. -/
theorem text?_sections_partsText (h : Source.AllReadBack s parts) (r : Region) :
    (sections (Source.partsText parts ++ s)).text? r
      = ((parts.find? fun p => p.1.region == r).map fun p => p.1.text).or
        ((sections s).text? r) := by
  induction parts with
  | nil => rfl
  | cons p parts ih =>
    obtain ⟨hp, hparts⟩ := h
    rw [sections_cons hp, Sections.text?_orElse, Sections.text?_add, Sections.text?_empty,
      ih hparts, List.find?_cons]
    by_cases hr : p.1.region = r
    · simp [hr]
    · rw [if_neg hr, beq_false_of_ne hr]
      rfl

theorem allReadBack_of_isText (h : ∀ p ∈ parts, p.1.region.IsText p.1.text) (s : List Char) :
    Source.AllReadBack s parts := by
  induction parts with
  | nil => trivial
  | cons p parts ih =>
    refine ⟨regionFrom_closed p.1.region (h p List.mem_cons_self) _, ?_⟩
    exact ih fun q hq => h q (List.mem_cons_of_mem p hq)

/-- **The regions of a source and of the text behind it.**  A region that the source has is the
first of its kind there, even if it is empty; any other is that of the text. -/
theorem sections_append (h : src.WellFormed) (s : List Char) (r : Region) :
    (sections (src.text ++ s)).text? r = (src.firstText? r).or ((sections s).text? r) := by
  rw [Source.text, List.append_assoc, sections, sectionsFrom_gap]
  exact text?_sections_partsText (allReadBack_of_isText h s) r

theorem get_extractSections (src : Source) (h : src.WellFormed) (r : Region) :
    (extractSections .balanced src.text).get r = (src.firstText? r).getD [] := by
  have happend := sections_append h [] r
  rw [List.append_nil, sections_nil, Sections.text?_empty, Option.or_none] at happend
  rw [extractSections, Sections.get_eq, happend]

/-- **A region that is not closed** is passed over, and reading goes on behind its marker. -/
theorem sections_unclosed (hm : Opens r m) (hs : StaysOpen r.grammar 0 s) :
    sections (m ++ s) = sections s := by
  have hregion : regionFrom r.grammar 0 ((m ++ s).drop m.length) = none := by
    rw [List.drop_left]
    exact (regionFrom_eq_none_iff r.grammar 0 s).mpr hs
  rw [sections, sectionsFrom_of_unclosed (openingMarker?_append hm s) hregion, List.drop_left,
    sections]

theorem firstText?_of_mem (hdistinct : (src.parts.map fun p => p.1.region).Nodup) {p : Part × Gap}
    (hp : p ∈ src.parts) : src.firstText? p.1.region = some p.1.text := by
  obtain ⟨lead, parts⟩ := src
  rw [Source.firstText?]
  induction parts with
  | nil => cases hp
  | cons q parts ih =>
    rw [List.map_cons, List.nodup_cons] at hdistinct
    rcases List.mem_cons.mp hp with rfl | hp
    · simp
    · have hne : q.1.region ≠ p.1.region := fun h =>
        hdistinct.1 (List.mem_map.mpr ⟨p, hp, h.symm⟩)
      rw [List.find?_cons_of_neg (by simpa using hne)]
      exact ih hdistinct.2 hp

theorem firstText?_eq_none (hr : r ∉ src.parts.map fun p => p.1.region) :
    src.firstText? r = none := by
  rw [Source.firstText?, Option.map_eq_none_iff, List.find?_eq_none]
  intro p hp hregion
  exact hr (List.mem_map.mpr ⟨p, hp, by simpa using hregion⟩)

/-- **The regions of a source are recovered.**  A source with at most one region of each kind, in
any order, has the texts of its regions, and no text for a region that it lacks. -/
theorem extractSections_recovers (src : Source) (h : src.WellFormed)
    (hdistinct : (src.parts.map fun p => p.1.region).Nodup) :
    (∀ p ∈ src.parts, (extractSections .balanced src.text).get p.1.region = p.1.text) ∧
      ∀ r ∉ src.parts.map fun p => p.1.region,
        (extractSections .balanced src.text).get r = [] := by
  constructor
  · intro p hp
    rw [get_extractSections src h, firstText?_of_mem hdistinct hp, Option.getD_some]
  · intro r hr
    rw [get_extractSections src h, firstText?_eq_none hr, Option.getD_none]

/-- A template with a template in it, a logic block and a config block.  Strings and comments of the
blocks hold braces, and the inner template holds the marker of a config block. -/
theorem extractSections_recovers_nested :
    let markup : List Char := "<p><template x>@page \x7b</template></p>".toList
    let logic : List Char := "'\\''\x60\x7d\x60/*\x7d*/".toList
    let config : List Char := "a: \"\x7d\" \x7b/\x7d// \x7d\n".toList
    let src : Source := ⟨⟨[], by decide⟩,
      [(⟨.template, "<template>".toList, markup, .template⟩, ⟨['\n'], by decide⟩),
        (⟨.logic, "@backend\x7b".toList, logic, .logic [] (by simp)⟩, ⟨[], by decide⟩),
        (⟨.config, "@page \x7b".toList, config, .config [' '] (List.all_eq_true.mp rfl)⟩,
          ⟨[], by decide⟩)]⟩
    (src.WellFormed ∧ (src.parts.map fun p => p.1.region).Nodup) ∧
      (extractSections .balanced src.text).get .config = config ∧
      (extractSections .balanced src.text).get .logic = logic ∧
      (extractSections .balanced src.text).get .template = markup := by
  intro markup logic config src
  have hmarkup : TemplateText markup :=
    .nested "<p>".toList " x".toList "@page \x7b".toList [] "</p>".toList
      (plainMarkup_of_tagless (by decide) (by decide)) (by rintro _ ⟨⟩; rfl) (by decide)
      (.plain (plainMarkup_of_tagless (by decide) (by decide))) (by simp)
      (.plain (plainMarkup_of_tagless (by decide) (by decide)))
  have hlogic : BlockText logic :=
    .quoted (q := '\'') (t := ['\\', '\'']) (.inr rfl) (.escape (by decide) .nil)
      (.raw (t := ['\x7d']) (by decide) (.comment (t := ['\x7d']) (by decide) .nil))
  have hconfig : BlockText config :=
    .chars (w := "a: ".toList) (List.all_iff_forall_prop.mp rfl)
      (.quoted (q := '"') (t := ['\x7d']) (.inl rfl)
        (.char (by decide) (by decide) (by decide) .nil)
        (.char (by decide)
          (.braces (t := ['/']) (.slash (by decide) (by decide) .nil)
            (.lineComment (t := [' ', '\x7d']) (by decide) .nil))))
  have hwell : src.WellFormed := by
    intro p hp
    simp only [src, List.mem_cons, List.not_mem_nil, or_false] at hp
    rcases hp with rfl | rfl | rfl
    · exact hmarkup
    · exact hlogic
    · exact hconfig
  have hdistinct : (src.parts.map fun p => p.1.region).Nodup := by
    simp only [src]
    decide
  have hread := (extractSections_recovers src hwell hdistinct).1
  simp only [src, List.forall_mem_cons] at hread
  exact ⟨⟨hwell, hdistinct⟩, hread.2.2.1, hread.2.1, hread.1⟩

end Pagesmith.Page
