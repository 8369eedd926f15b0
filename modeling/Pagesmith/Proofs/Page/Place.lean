import Mathlib.Tactic
import Pagesmith.Proofs.Page.Section

/-!
# Where a template is taken from

The regions of a page are texts without places.  What follows the opening tag of the template that
counts tells the place: in balanced pages it is the first tag that is closed and stands in no other
region, in truncated ones the first tag of all.

* `templateOpened?`: what follows the opening tag of the template.
* `template_sections`: the template is what is read from there.
* `exists_templateOpened?`: a template stands right behind its opening tag.
-/

namespace Pagesmith.Page

open Pagesmith.Text

variable {rest s t : List Char} {n : Nat}

def openedFrom : List Char → Option (List Char)
  | [] => none
  | c :: cs =>
    match hm : openingMarker? (c :: cs) with
    | none => openedFrom cs
    | some (r, n) =>
      have := openingMarker?_pos hm
      match hr : regionFrom r.grammar 0 ((c :: cs).drop n) with
      | some (_, rest) =>
        have := length_regionFrom_lt r.grammar 0 _ hr
        if r = .template then some ((c :: cs).drop n) else openedFrom rest
      | none => openedFrom ((c :: cs).drop n)
termination_by s => s.length
decreasing_by
  all_goals simp_all only [List.length_drop, List.length_cons]
  all_goals omega

def templateOpened? (mode : Mode) (source : List Char) : Option (List Char) :=
  match mode with
  | .balanced => openedFrom source
  | .truncated => (cut "<template>".toList source).map Prod.snd

/-! ### One step -/

theorem openedFrom_nil : openedFrom [] = none := by rw [openedFrom]

theorem openedFrom_of_none {c : Char} {cs : List Char} (h : openingMarker? (c :: cs) = none) :
    openedFrom (c :: cs) = openedFrom cs := by
  rw [openedFrom]
  split
  · rfl
  · next heq => rw [h] at heq; cases heq

theorem openedFrom_of_some {r : Region} (h : openingMarker? s = some (r, n))
    (hregion : regionFrom r.grammar 0 (s.drop n) = some (t, rest)) :
    openedFrom s = if r = .template then some (s.drop n) else openedFrom rest := by
  cases s with
  | nil => cases h
  | cons c cs =>
    rw [openedFrom]
    split
    · next heq => rw [h] at heq; cases heq
    · next heq =>
      rw [h] at heq
      cases heq
      split
      · next heq => rw [hregion] at heq; cases heq; rfl
      · next heq => rw [hregion] at heq; cases heq

theorem openedFrom_of_unclosed {r : Region} (h : openingMarker? s = some (r, n))
    (hregion : regionFrom r.grammar 0 (s.drop n) = none) :
    openedFrom s = openedFrom (s.drop n) := by
  cases s with
  | nil => cases h
  | cons c cs =>
    rw [openedFrom]
    split
    · next heq => rw [h] at heq; cases heq
    · next heq =>
      rw [h] at heq
      cases heq
      split
      · next heq => rw [hregion] at heq; cases heq
      · rfl

/-! ### The template behind the tag -/

theorem prefix_of_readOn {w u : List Char} {r : Option (List Char × List Char)}
    (h : readOn w r = some (t, rest)) (hr : ∀ t', r = some (t', rest) → t' <+: u) :
    t <+: w ++ u := by
  obtain ⟨t', ht', rfl⟩ := readOn_eq_some.mp h
  exact (List.prefix_append_right_inj w).mpr (hr t' ht')

theorem start_of_regionFrom {g : Grammar} {d : Nat} (h : regionFrom g d s = some (t, rest)) :
    t <+: s := by
  induction hlen : s.length using Nat.strongRecOn generalizing s d t with
  | ind len ih =>
    cases s with
    | nil =>
      rw [regionFrom.eq_def] at h
      cases h
    | cons c cs =>
      obtain ⟨m, n, hg⟩ : ∃ m n, g c cs = (m, n) := ⟨_, _, rfl⟩
      have hnext : ∀ {k : Nat},
          readOn (c :: cs.take n) (regionFrom g k (cs.drop n)) = some (t, rest) →
          t <+: c :: cs := by
        intro k hk
        have hwhole : c :: cs = c :: cs.take n ++ cs.drop n := by simp
        rw [hwhole]
        refine prefix_of_readOn hk fun t' ht' => ih _ ?_ ht' rfl
        rw [← hlen, List.length_drop, List.length_cons]
        omega
      cases m with
      | text =>
        rw [regionFrom_text hg] at h
        exact hnext h
      | enter =>
        rw [regionFrom_enter hg] at h
        exact hnext h
      | leave =>
        cases d with
        | zero =>
          rw [regionFrom_leave hg] at h
          cases h
          exact List.nil_prefix
        | succ d =>
          rw [regionFrom_leave_succ hg] at h
          exact hnext h

/-- **The template of a page is read right behind its opening tag.** -/
theorem template_sections (s : List Char) :
    (sections s).template
      = (openedFrom s).bind fun o => (regionFrom templateGrammar 0 o).map Prod.fst := by
  induction hlen : s.length using Nat.strongRecOn generalizing s with
  | ind len ih =>
    cases s with
    | nil => rw [sections_nil, openedFrom_nil]; rfl
    | cons c cs =>
      rw [List.length_cons] at hlen
      cases hmarker : openingMarker? (c :: cs) with
      | none =>
        rw [sections, sectionsFrom_of_none hmarker, openedFrom_of_none hmarker]
        exact ih cs.length (by omega) cs rfl
      | some m =>
        obtain ⟨r, n⟩ := m
        have hpos := openingMarker?_pos hmarker
        have hdrop : ((c :: cs).drop n).length < len := by
          rw [List.length_drop, List.length_cons]
          omega
        cases hregion : regionFrom r.grammar 0 ((c :: cs).drop n) with
        | none =>
          rw [sections, sectionsFrom_of_unclosed hmarker hregion,
            openedFrom_of_unclosed hmarker hregion]
          exact ih _ hdrop _ rfl
        | some p =>
          obtain ⟨t, rest⟩ := p
          have hrest := length_regionFrom_lt r.grammar 0 _ hregion
          rw [sections, sectionsFrom_of_some hmarker hregion, sectionsFrom_eq,
            openedFrom_of_some hmarker hregion]
          have hnext := ih rest.length (by omega) rest rfl
          cases r with
          | template =>
            rw [if_pos rfl, Option.bind_some]
            have hread : regionFrom templateGrammar 0 ((c :: cs).drop n) = some (t, rest) := hregion
            rw [hread]
            rfl
          | config | logic =>
            rw [if_neg (by decide), ← hnext]
            rfl

theorem template_truncatedSections (s : List Char) :
    (truncatedSections s).template
      = ((cut "<template>".toList s).map Prod.snd).bind fun o =>
        (cut "</template>".toList o).map Prod.fst := by
  rw [truncatedSections]
  induction s with
  | nil => rfl
  | cons c cs ih =>
    simp only [truncatedRegion, cut]
    by_cases htag : "<template>".toList.isPrefixOf (c :: cs) = true
    · rw [if_pos htag, if_pos htag]
      rfl
    · rw [if_neg htag, if_neg htag, Option.map_map]
      exact ih

theorem take_of_openingMarker? (h : openingMarker? s = some (.template, n)) :
    s.take n = "<template>".toList := by
  have hopener := opener?_of_openingMarker? h
  simp only [Region.opener?] at hopener
  split at hopener
  · next htag =>
    obtain rfl := Option.some.inj hopener
    exact (List.prefix_iff_eq_take.mp (List.isPrefixOf_iff_prefix.mp htag)).symm
  · cases hopener

/-- What follows the opening tag of a template, with the tag before it. -/
theorem exists_lead {opened : List Char} (h : openedFrom s = some opened) :
    ∃ lead, s = lead ++ opened ∧ "<template>".toList <:+ lead := by
  induction hlen : s.length using Nat.strongRecOn generalizing s with
  | ind len ih =>
    cases s with
    | nil =>
      rw [openedFrom_nil] at h
      cases h
    | cons c cs =>
      have hlater : ∀ {t : List Char}, t <:+ c :: cs → t.length < (c :: cs).length →
          openedFrom t = some opened →
          ∃ lead, c :: cs = lead ++ opened ∧ "<template>".toList <:+ lead := by
        rintro t ⟨x, hx⟩ hlt ht
        obtain ⟨lead, rfl, htag⟩ := ih _ (hlen ▸ hlt) ht rfl
        exact ⟨x ++ lead, by rw [← hx, List.append_assoc],
          htag.trans (List.suffix_append x lead)⟩
      cases hmarker : openingMarker? (c :: cs) with
      | none =>
        rw [openedFrom_of_none hmarker] at h
        exact hlater (List.suffix_cons c cs) (Nat.lt_succ_self _) h
      | some m =>
        obtain ⟨r, n⟩ := m
        have hpos := openingMarker?_pos hmarker
        have hdrop : ((c :: cs).drop n).length < (c :: cs).length := by
          rw [List.length_drop, List.length_cons]
          omega
        cases hregion : regionFrom r.grammar 0 ((c :: cs).drop n) with
        | none =>
          rw [openedFrom_of_unclosed hmarker hregion] at h
          exact hlater (List.drop_suffix n _) hdrop h
        | some p =>
          obtain ⟨t, rest⟩ := p
          have hlt := length_regionFrom_lt r.grammar 0 _ hregion
          have hrest := (suffix_of_regionFrom hregion).trans (List.drop_suffix n (c :: cs))
          rw [openedFrom_of_some hmarker hregion] at h
          split at h
          · next hr =>
            rw [hr] at hmarker
            obtain rfl := Option.some.inj h
            refine ⟨(c :: cs).take n, (List.take_append_drop n _).symm, ?_⟩
            exact take_of_openingMarker? hmarker ▸ List.suffix_rfl
          · exact hlater hrest (by omega) h

theorem exists_templateOpened? {mode : Mode} {source region : List Char}
    (h : (extractSections mode source).template = some region) :
    ∃ lead opened, templateOpened? mode source = some opened ∧ source = lead ++ opened ∧
      "<template>".toList <:+ lead ∧ region <+: opened := by
  cases mode with
  | balanced =>
    have hsections : (sections source).template = some region := h
    rw [template_sections] at hsections
    obtain ⟨opened, hopened, hregion⟩ := Option.bind_eq_some_iff.mp hsections
    obtain ⟨⟨t, rest⟩, hread, rfl⟩ := Option.map_eq_some_iff.mp hregion
    obtain ⟨lead, hsource, htag⟩ := exists_lead hopened
    exact ⟨lead, opened, hopened, hsource, htag, start_of_regionFrom hread⟩
  | truncated =>
    have hsections : (truncatedSections source).template = some region := h
    rw [template_truncatedSections] at hsections
    obtain ⟨opened, hopened, hregion⟩ := Option.bind_eq_some_iff.mp hsections
    obtain ⟨⟨before, rest⟩, hcut, hrest⟩ := Option.map_eq_some_iff.mp hopened
    obtain rfl : rest = opened := hrest
    obtain ⟨⟨t, after⟩, hclose, rfl⟩ := Option.map_eq_some_iff.mp hregion
    refine ⟨before ++ "<template>".toList, rest, hopened, eq_of_cut hcut,
      List.suffix_append _ _, ?_⟩
    rw [eq_of_cut hclose, List.append_assoc]
    exact List.prefix_append _ _

end Pagesmith.Page
