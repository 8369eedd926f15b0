import Pagesmith.Lint.Check
import Pagesmith.Proofs.Page.Lines
import Pagesmith.Proofs.Page.Place
import Pagesmith.Proofs.Page.Reference

/-!
# Lines of issues

An issue should be on the line of the tag it is about.  The lines inside the template are right: the
checked markup keeps them, and the name that an issue is about is looked for inside its tag.  The
line of the template itself, however, is that of the first place in the page where its text occurs.
This is the template if and only if the text does not occur earlier.

* `OnLines`: the lines of a part of a text.
* `Blames`: the tag that an issue is about.
* `StandsFor`: the tag of the template that a tag of the checked markup comes from.
* `lint_of_lint?`, `lint?_eq_lint`: when a check breaks off, and what it gives otherwise.
* `exists_offset_of_mem_issues`: an issue is at an offset inside its tag.
* `issues_onLines`: the lines of the issues of a page.
-/

namespace Pagesmith.Lint

open Pagesmith.Page
open Pagesmith.Report (Issue Result)
open Pagesmith.Text

/-- Some of a text stands on a line, if another text is before it. -/
def OnLines (before text : List Char) (line : Int) : Prop :=
  (before.count '\n' : Int) < line ∧ line ≤ (before ++ text).count '\n' + 1

inductive Blames (t : StartTag) (issue : Issue) : Prop where
  | unknownClass (name : List Char) : name ∈ t.classNames → issue.severity = .error →
      issue.text = "class " ++ quoted (String.ofList name) ++ " not found in stylesheet" →
      Blames t issue
  | unknownMarker (marker : List Char) : marker ∈ t.markers → issue.severity = .warning →
      issue.text = "unknown marker " ++ quoted (String.ofList marker) → Blames t issue

theorem eq_pageFindings {c : Compiler} {defined : List String} {path source : String}
    {found : Findings} (h : pageFindings? c defined path source = some found) :
    found = pageFindings c defined path source := by
  rw [pageFindings?] at h
  rw [pageFindings]
  split at h
  · next hblank => rw [if_pos hblank, Option.some.inj h]
  · next hblank =>
    obtain ⟨refs, hrefs, h⟩ := Option.bind_eq_some_iff.mp h
    obtain ⟨markers, hmarkers, h⟩ := Option.bind_eq_some_iff.mp h
    rw [if_neg hblank, ← eq_classRefs hrefs, ← eq_unknownMarkers hmarkers, Option.some.inj h]

theorem isSome_pageFindings? {c : Compiler} {source : String}
    (h : Shrinks (c.parse source).template.static) (defined : List String) (path : String) :
    (pageFindings? c defined path source).isSome = true := by
  obtain ⟨refs, hrefs⟩ := Option.isSome_iff_exists.mp h.isSome_classRefs?
  obtain ⟨markers, hmarkers⟩ := Option.isSome_iff_exists.mp h.isSome_unknownMarkers?
  rw [pageFindings?, hrefs, hmarkers]
  split <;> rfl

theorem lint_of_lint? {config : LintConfig} {t : FileTree} {r : Result}
    (h : lint? config t = .ok (some r)) : lint config t = .ok r := by
  rw [lint?] at h
  rw [lint]
  cases hsurvey : survey config t with
  | error e =>
    rw [hsurvey] at h
    cases h
  | ok s =>
    rw [hsurvey] at h
    obtain ⟨found, hfound, rfl⟩ := Option.map_eq_some_iff.mp (Except.ok.inj h)
    rw [eq_map_of_mapM (fun page _ _ hpage => eq_pageFindings hpage) hfound]
    rfl

/-- **A check breaks off only at a tag that is longer in lower case.** -/
theorem lint?_eq_lint {config : LintConfig} {t : FileTree}
    (h : ∀ s, survey config t = .ok s → ∀ page ∈ s.sources,
      Shrinks (s.compiler.parse page.2).template.static) :
    lint? config t = (lint config t).map some := by
  cases hsurvey : survey config t with
  | error e =>
    rw [lint?, lint, hsurvey]
    rfl
  | ok s =>
    have hsome := isSome_mapM fun page hpage =>
      isSome_pageFindings? (h s hsurvey page hpage) s.defined page.1
    obtain ⟨found, hfound⟩ := Option.isSome_iff_exists.mp hsome
    have hrun : lint? config t = .ok (some (s.result found)) := by
      rw [lint?, hsurvey]
      exact congrArg (fun o => Except.ok (o.map s.result)) hfound
    rw [hrun, lint_of_lint? hrun]
    rfl

/-- **An issue is at an offset inside its tag.**  The offset of a marker is that in the tag in lower
case. -/
theorem exists_offset_of_mem_issues {c : Compiler} {defined : List String} {path source : String}
    {issue : Issue} (h : issue ∈ (pageFindings c defined path source).issues) :
    issue = missingTemplate path ∨
      ∃ t ∈ startTags (c.parse source).template.static, ∃ offset, Blames t issue ∧
        issue.position.line
          = (Position.atOffset (c.parse source).template.static offset).line
            + (Origin.locate source.toList (c.parse source).source).line ∧
        t.offset ≤ offset ∧
        (issue.severity = .error ∨ byteSize (t.raw.map lowerChar) ≤ byteSize t.raw →
          offset ≤ t.offset + byteSize t.raw) := by
  rw [pageFindings] at h
  split at h
  · exact .inl (List.mem_singleton.mp h)
  · right
    rcases List.mem_append.mp h with hclass | hmarker
    · obtain ⟨ref, href, rfl⟩ := List.mem_map.mp hclass
      obtain ⟨t, ht, href⟩ := List.mem_flatMap.mp (List.mem_filter.mp href).1
      obtain ⟨name, hname, rfl⟩ := List.mem_map.mp href
      obtain ⟨_, _, _, -, -, hraw⟩ := exists_split_of_mem_startTags ht
      obtain ⟨hlow, hhigh⟩ := classOffset_bounds (by rw [hraw]; exact List.cons_ne_nil _ _)
        (ne_nil_of_mem_classNames hname)
      exact ⟨t, ht, t.classOffset name, .unknownClass name hname rfl rfl, rfl, hlow,
        fun _ => hhigh.le⟩
    · obtain ⟨ref, href, rfl⟩ := List.mem_map.mp hmarker
      obtain ⟨t, ht, href⟩ := List.mem_flatMap.mp href
      obtain ⟨marker, hname, rfl⟩ := List.mem_map.mp href
      obtain ⟨hlow, hhigh⟩ := markerOffset_bounds t marker
      refine ⟨t, ht, t.markerOffset marker, .unknownMarker marker hname rfl rfl, rfl, hlow,
        fun hsize => ?_⟩
      rcases hsize with hsize | hsize
      · cases hsize
      · omega

/-- A tag of the checked markup and the tag of the template that it comes from: between them and on
both sides of them lines are kept, and brackets are brackets. -/
structure StandsFor (region tag markup : List Char) (u v : List Char) (t : StartTag) : Prop where
  region_eq : region = u ++ tag ++ v
  brackets : ∃ inner, tag = '<' :: (inner ++ ['>'])
  markup_eq : ∃ before after, markup = before ++ t.raw ++ after ∧ t.offset = byteSize before ∧
    KeepsLines u before ∧ KeepsLines v after
  keeps : KeepsLines tag t.raw

/-- A tag of the checked markup is found in the template again. -/
theorem exists_standsFor {region markup : List Char} (hkeeps : KeepsLines region markup)
    {t : StartTag} (ht : t ∈ startTags markup) :
    ∃ u tag v, StandsFor region tag markup u v t := by
  obtain ⟨before, inner, after, hmarkup, hoffset, hraw⟩ := exists_split_of_mem_startTags ht
  have hsplit := hkeeps
  rw [hmarkup, hraw, List.append_assoc, List.cons_append] at hsplit
  obtain ⟨u, w, rfl, hu, hw⟩ := hsplit.split (by decide)
  rw [List.append_assoc, List.singleton_append] at hw
  obtain ⟨x, v, rfl, hx, hv⟩ := hw.split (by decide)
  refine ⟨u, '<' :: (x ++ ['>']), v, by simp, ⟨x, rfl⟩,
    ⟨before, after, hmarkup, hoffset, hu, hv⟩, ?_⟩
  rw [hraw]
  exact .same '<' (hx.append (.refl _))

/-- **The lines of the issues of a page.**  The template of a page stands right behind the tag from
which it is taken.  Its text is located where it first occurs in the page, and this is its place if
and only if it does not occur earlier.  Each issue, except that of a missing template, is about a
tag of the template, and its line is a line of the tag if the template is counted from the first
occurrence.  For a marker this needs a tag that is not longer in lower case, and the check of a page
whose tags are so never fails. -/
theorem issues_onLines (c : Compiler) (defined : List String) (path source : String)
    (hregion : (c.parse source).source ≠ []) :
    ∃ lead opened first, templateOpened? c.mode source.toList = some opened ∧
      source.toList = lead ++ opened ∧ "<template>".toList <:+ lead ∧
      (c.parse source).source <+: opened ∧ FirstAt first (c.parse source).source source.toList ∧
      (Origin.locate source.toList (c.parse source).source = Origin.after lead ↔
        ∀ x, x ++ (c.parse source).source <+: source.toList → lead.length ≤ x.length) ∧
      (Shrinks (c.parse source).template.static →
        (pageFindings? c defined path source).isSome = true) ∧
      ∀ found, pageFindings? c defined path source = some found → ∀ issue ∈ found.issues,
        issue = missingTemplate path ∨
        ∃ t ∈ startTags (c.parse source).template.static, Blames t issue ∧ ∃ u tag v,
          StandsFor (c.parse source).source tag (c.parse source).template.static u v t ∧
          (issue.severity = .error ∨ byteSize (t.raw.map lowerChar) ≤ byteSize t.raw →
            OnLines (first ++ u) tag issue.position.line) := by
  obtain ⟨lead, opened, hopened, hsource, htag, hstart⟩ :
      ∃ lead opened, templateOpened? c.mode source.toList = some opened ∧
        source.toList = lead ++ opened ∧ "<template>".toList <:+ lead ∧
        (c.parse source).source <+: opened := by
    refine exists_templateOpened? ?_
    have hget : (c.parse source).source
        = ((extractSections c.mode source.toList).template).getD [] := rfl
    cases htemplate : (extractSections c.mode source.toList).template with
    | none =>
      rw [htemplate] at hget
      exact absurd hget hregion
    | some region => rw [hget, htemplate, Option.getD_some]
  have hlead : lead ++ (c.parse source).source <+: source.toList := by
    rw [hsource]
    exact (List.prefix_append_right_inj lead).mpr hstart
  have hinfix : (c.parse source).source <:+: source.toList :=
    (List.suffix_append lead _).isInfix.trans hlead.isInfix
  obtain ⟨first, hfirst, hlocate⟩ := exists_firstAt hregion hinfix
  refine ⟨lead, opened, first, hopened, hsource, htag, hstart, hfirst, ?_,
    fun hsmall => isSome_pageFindings? hsmall defined path, fun found hfound issue hissue => ?_⟩
  · rw [hlocate, ← hfirst.eq_iff hlead]
    refine ⟨fun h => ?_, fun h => by rw [h]⟩
    exact Origin.after_inj ((List.prefix_append _ _).trans hfirst.occurs)
      ((List.prefix_append _ _).trans hlead) h
  · rw [eq_pageFindings hfound] at hissue
    refine (exists_offset_of_mem_issues hissue).imp_right ?_
    rintro ⟨t, ht, offset, hblames, hline, hlow, hhigh⟩
    obtain ⟨u, tag, v, hstands⟩ := exists_standsFor
      (keepsLines_compile c.catalog.styles.names (c.parse source).source) ht
    refine ⟨t, ht, hblames, u, tag, v, hstands, fun hsize => ?_⟩
    obtain ⟨before, after, hmarkup, hoffset, hu, -⟩ := hstands.markup_eq
    rw [hoffset] at hlow hhigh
    have hlines := line_atOffset hlow (by rw [byteSize_append]; exact hhigh hsize) after
    have hstatic : (c.parse source).template.static = before ++ t.raw ++ after := hmarkup
    rw [← hstatic, List.count_append, hu.count_eq, hstands.keeps.count_eq] at hlines
    rw [hlocate, Origin.line_after] at hline
    simp only [OnLines, hline, List.count_append]
    omega

/-- A template that occurs once, with a class on its second line that is unknown: the issue is on
that line, and so is a tag of the template. -/
theorem issues_onLines_second :
    let c : Compiler := { catalog := ⟨[], [], []⟩ }
    let source := "<template><b></b>\n<p class=\"x\"></p></template>"
    (c.parse source).source ≠ [] ∧
      ∃ found issue first t u tag v, pageFindings? c [] "a.max" source = some found ∧
        issue ∈ found.issues ∧ issue.position.line = 2 ∧ Blames t issue ∧
        FirstAt first (c.parse source).source source.toList ∧
        StandsFor (c.parse source).source tag (c.parse source).template.static u v t ∧
        OnLines (first ++ u) tag 2 := by
  intro c source
  have hregion : (c.parse source).source ≠ [] := by decide +kernel
  have hissues : (pageFindings? c [] "a.max" source).map
      (fun found => found.issues.map fun i => (i.position.line, decide (i.severity = .error)))
      = some [(2, true)] := by decide +kernel
  obtain ⟨found, hfound, hlines⟩ := Option.map_eq_some_iff.mp hissues
  obtain ⟨issue, hissue, hplace⟩ := List.mem_map.mp (hlines ▸ List.mem_singleton.mpr rfl)
  obtain ⟨hline, hsevere⟩ := Prod.mk.inj hplace
  have hsevere : issue.severity = .error := of_decide_eq_true hsevere
  obtain ⟨_, _, first, -, -, -, -, hfirst, -, -, hall⟩ :=
    issues_onLines c [] "a.max" source hregion
  rcases hall found hfound issue hissue with rfl | ⟨t, -, hblames, u, tag, v, hstands, hon⟩
  · cases hsevere
  · refine ⟨hregion, found, issue, first, t, u, tag, v, hfound, hissue, hline, hblames, hfirst,
      hstands, ?_⟩
    exact hline ▸ hon (.inl hsevere)

/-- A template that occurs in the config as well is located there, and its issue is on the line of
the config. -/
theorem issues_offLines_config :
    let c : Compiler := { catalog := ⟨[], [], []⟩ }
    let lead := "@page \x7b title: <p class=\"x\"></p> \x7d\n<template>".toList
    let opened := "<p class=\"x\"></p></template>".toList
    let source := String.ofList (lead ++ opened)
    templateOpened? c.mode source.toList = some opened ∧
      Origin.locate source.toList (c.parse source).source ≠ Origin.after lead ∧
      (pageFindings c [] "a.max" source).issues.map (·.position.line) = [1] ∧
      (Origin.after lead).line = 1 := by
  decide +kernel

end Pagesmith.Lint
