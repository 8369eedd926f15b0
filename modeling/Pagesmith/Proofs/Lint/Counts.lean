import Mathlib.Algebra.BigOperators.Ring.Finset
import Pagesmith.Lint.Check
import Pagesmith.Proofs.Outcome
import Pagesmith.Proofs.Sheet.Content

/-!
# The numbers of a check add up

A page that can be read refers to class names.  Each one that the styles do not define is counted as
missing and gives one error, and all other issues are warnings; so the errors are the references
that are not resolved, and also the occurrences of the missing classes.  The list of the missing
classes that are used most is the start of their list by frequency.

* `classesOn`, `missingOn`: the class names that pages refer to, and those not defined.
* `errors_pageFindings`, `errors_checked`: the errors of one page, and of all pages.
* `Listed`: what the list of the classes used most says.
-/

namespace Pagesmith.Lint

open Pagesmith.Report
open Pagesmith.Style (firstOccurrences mem_firstOccurrences nodup_firstOccurrences)
open Pagesmith.Text (trim)

/-! ### Class names on pages -/

def pageClasses (c : Compiler) (source : String) : List String :=
  let d := c.parse source
  if (trim d.source).isEmpty then []
  else (Page.classRefs d.template.static).map fun r => String.ofList r.name

def classesOn (c : Compiler) (t : FileTree) (pages : List String) : List String :=
  pages.flatMap fun path => ((t.read path).toOption.map (pageClasses c)).getD []

def missingOn (c : Compiler) (t : FileTree) (defined pages : List String) : List String :=
  (classesOn c t pages).filter fun name => !defined.contains name

theorem classesOn_cons (c : Compiler) (t : FileTree) (path : String) (pages : List String) :
    classesOn c t (path :: pages) =
      ((t.read path).toOption.map (pageClasses c)).getD [] ++ classesOn c t pages :=
  List.flatMap_cons

def unreadable (t : FileTree) (pages : List String) : List String :=
  pages.filter fun path => (t.read path).toOption.isNone

theorem mem_missingOn {c : Compiler} {t : FileTree} {defined pages : List String} {name : String} :
    name ∈ missingOn c t defined pages ↔ name ∈ classesOn c t pages ∧ name ∉ defined := by
  simp [missingOn]

/-! ### One page -/

theorem countSeverity_append (s : Severity) (a b : List Issue) :
    countSeverity s (a ++ b) = countSeverity s a + countSeverity s b := by
  rw [countSeverity, List.filter_append, List.length_append]
  rfl

theorem countSeverity_map_eq_length {α : Type} {s : Severity} {f : α → Issue}
    (hf : ∀ a, (f a).severity = s) (as : List α) : countSeverity s (as.map f) = as.length := by
  rw [countSeverity, List.filter_eq_self.mpr (by simp [hf]), List.length_map]

theorem countSeverity_map_eq_zero {α : Type} {s : Severity} {f : α → Issue}
    (hf : ∀ a, (f a).severity ≠ s) (as : List α) : countSeverity s (as.map f) = 0 := by
  rw [countSeverity, List.filter_eq_nil_iff.mpr (by simp [hf]), List.length_nil]

theorem refs_pageFindings (c : Compiler) (defined : List String) (path source : String) :
    (pageFindings c defined path source).refs =
      (pageClasses c source).map fun name => (name, defined.contains name) := by
  rw [pageFindings, pageClasses]
  split
  · rfl
  · rw [findingsFrom, List.map_map]
    rfl

/-- A page has one error for each reference to a class that is not defined. -/
theorem errors_pageFindings (c : Compiler) (defined : List String) (path source : String) :
    countSeverity .error (pageFindings c defined path source).issues =
      ((pageClasses c source).filter fun name => !defined.contains name).length := by
  rw [pageFindings, pageClasses]
  split
  · rfl
  · have hclass : ∀ lines at_ ref, (unknownClass path lines at_ defined ref).severity = .error :=
      fun _ _ _ => rfl
    have hmarker : ∀ lines at_ ref, (unknownMarker path lines at_ ref).severity ≠ .error :=
      fun _ _ _ => nofun
    rw [findingsFrom, countSeverity_append, countSeverity_map_eq_length (hclass _ _),
      countSeverity_map_eq_zero (hmarker _ _), List.filter_map, List.length_map]
    rfl

theorem severity_pageFindings {c : Compiler} {defined : List String} {path source : String}
    {i : Issue} (hi : i ∈ (pageFindings c defined path source).issues) :
    i.severity = .error ∨ i.severity = .warning := by
  rw [pageFindings] at hi
  split at hi
  · obtain rfl := List.mem_singleton.mp hi
    exact .inr rfl
  · rcases List.mem_append.mp hi with hclass | hmarker
    · obtain ⟨ref, -, rfl⟩ := List.mem_map.mp hclass
      exact .inl rfl
    · obtain ⟨ref, -, rfl⟩ := List.mem_map.mp hmarker
      exact .inr rfl

/-! ### All pages -/

def checked (c : Compiler) (t : FileTree) (defined pages : List String) : List Findings :=
  (readPages t pages).1.map fun (path, source) => pageFindings c defined path source

theorem checked_cons (c : Compiler) (t : FileTree) (defined : List String) (path : String)
    (pages : List String) :
    checked c t defined (path :: pages) =
      ((t.read path).toOption.map (pageFindings c defined path)).toList ++
        checked c t defined pages := by
  rw [checked, readPages]
  cases t.read path with
  | ok source => rfl
  | error e => rfl

theorem length_checked (c : Compiler) (t : FileTree) (defined pages : List String) :
    (checked c t defined pages).length + (unreadable t pages).length = pages.length := by
  induction pages with
  | nil => rfl
  | cons path pages ih =>
    rw [checked_cons, List.length_append, unreadable, List.filter_cons]
    cases t.read path with
    | ok source =>
      show 1 + _ + (unreadable t pages).length = _
      rw [List.length_cons]
      omega
    | error e =>
      show 0 + _ + ((unreadable t pages).length + 1) = _
      rw [List.length_cons]
      omega

theorem refs_checked (c : Compiler) (t : FileTree) (defined pages : List String) :
    (checked c t defined pages).flatMap Findings.refs =
      (classesOn c t pages).map fun name => (name, defined.contains name) := by
  induction pages with
  | nil => rfl
  | cons path pages ih =>
    rw [checked_cons, List.flatMap_append, ih, classesOn_cons, List.map_append]
    cases t.read path with
    | ok source =>
      show [pageFindings c defined path source].flatMap Findings.refs ++ _ = _
      rw [List.flatMap_singleton, refs_pageFindings]
      rfl
    | error e => rfl

theorem missing_refs_checked (c : Compiler) (t : FileTree) (defined pages : List String) :
    (((checked c t defined pages).flatMap Findings.refs).filter (!·.2)).map (·.1) =
      missingOn c t defined pages := by
  rw [refs_checked, List.filter_map, List.map_map]
  exact List.map_id _

theorem resolved_refs_checked (c : Compiler) (t : FileTree) (defined pages : List String) :
    (((checked c t defined pages).flatMap Findings.refs).filter (·.2)).length +
      (missingOn c t defined pages).length = (classesOn c t pages).length := by
  rw [refs_checked, List.filter_map, List.length_map]
  exact (List.length_eq_length_filter_add _).symm

theorem errors_checked (c : Compiler) (t : FileTree) (defined pages : List String) :
    countSeverity .error ((checked c t defined pages).flatMap Findings.issues) =
      (missingOn c t defined pages).length := by
  induction pages with
  | nil => rfl
  | cons path pages ih =>
    rw [checked_cons, List.flatMap_append, countSeverity_append, ih, missingOn, missingOn,
      classesOn_cons, List.filter_append, List.length_append]
    cases t.read path with
    | ok source =>
      show countSeverity .error ([pageFindings c defined path source].flatMap Findings.issues) + _
        = _
      rw [List.flatMap_singleton, errors_pageFindings]
      rfl
    | error e => rfl

theorem severity_checked {c : Compiler} {t : FileTree} {defined pages : List String} {i : Issue}
    (hi : i ∈ (checked c t defined pages).flatMap Findings.issues) :
    i.severity = .error ∨ i.severity = .warning := by
  obtain ⟨f, hf, hi⟩ := List.mem_flatMap.mp hi
  obtain ⟨⟨path, source⟩, -, rfl⟩ := List.mem_map.mp hf
  exact severity_pageFindings hi

/-! ### The missing classes used most -/

theorem mostFrequent_iff {a b : MissingClass} :
    mostFrequent a b = true ↔
      b.occurrences < a.occurrences ∨ (a.occurrences = b.occurrences ∧ a.name ≤ b.name) := by
  rw [mostFrequent]
  split
  · next hne => simp [hne]
  · next heq =>
    have heq := not_not.mp heq
    simp [heq]

theorem mostFrequent_trans (a b c : MissingClass) (hab : mostFrequent a b = true)
    (hbc : mostFrequent b c = true) : mostFrequent a c = true := by
  rw [mostFrequent_iff] at *
  rcases hab with hab | ⟨hab, hnames⟩ <;> rcases hbc with hbc | ⟨hbc, hnames'⟩
  · exact .inl (by omega)
  · exact .inl (by omega)
  · exact .inl (by omega)
  · exact .inr ⟨by omega, String.le_trans hnames hnames'⟩

theorem mostFrequent_total (a b : MissingClass) :
    (mostFrequent a b || mostFrequent b a) = true := by
  rw [Bool.or_eq_true, mostFrequent_iff, mostFrequent_iff]
  by_cases heq : a.occurrences = b.occurrences
  · rcases String.le_total a.name b.name with hle | hle
    · exact .inl (.inr ⟨heq, hle⟩)
    · exact .inr (.inr ⟨heq.symm, hle⟩)
  · omega

theorem occurrences_le_of_mostFrequent {a b : MissingClass} (h : mostFrequent a b = true) :
    b.occurrences ≤ a.occurrences := by
  rw [mostFrequent_iff] at h
  omega

def ranked (missing defined : List String) : List MissingClass :=
  ((firstOccurrences missing).map fun name =>
    MissingClass.mk name (missing.count name) (closest? name defined)).mergeSort mostFrequent

theorem topMissing_tally (missing defined : List String) :
    topMissing (tally missing) defined = (ranked missing defined).take 10 := by
  rw [topMissing, tally, List.map_map]
  rfl

theorem pairwise_ranked (missing defined : List String) :
    (ranked missing defined).Pairwise fun a b => mostFrequent a b = true :=
  List.pairwise_mergeSort mostFrequent_trans mostFrequent_total _

theorem ranked_perm (missing defined : List String) :
    (ranked missing defined).Perm ((firstOccurrences missing).map fun name =>
      MissingClass.mk name (missing.count name) (closest? name defined)) :=
  List.mergeSort_perm _ _

theorem names_ranked_perm (missing defined : List String) :
    ((ranked missing defined).map MissingClass.name).Perm (firstOccurrences missing) := by
  have hperm := (ranked_perm missing defined).map MissingClass.name
  rw [List.map_map] at hperm
  exact hperm.trans (.of_eq (List.map_id _))

theorem of_mem_ranked {missing defined : List String} {m : MissingClass}
    (hm : m ∈ ranked missing defined) :
    m.name ∈ missing ∧ m.occurrences = missing.count m.name := by
  obtain ⟨name, hname, rfl⟩ := List.mem_map.mp ((ranked_perm missing defined).mem_iff.mp hm)
  exact ⟨mem_firstOccurrences.mp hname, rfl⟩

theorem nodup_names_ranked (missing defined : List String) :
    ((ranked missing defined).map MissingClass.name).Nodup :=
  (names_ranked_perm missing defined).nodup_iff.mpr (nodup_firstOccurrences missing)

theorem toFinset_names_ranked (missing defined : List String) :
    ((ranked missing defined).map MissingClass.name).toFinset = missing.toFinset := by
  ext name
  rw [List.mem_toFinset, List.mem_toFinset, (names_ranked_perm missing defined).mem_iff,
    mem_firstOccurrences]

theorem length_ranked (missing defined : List String) :
    (ranked missing defined).length = missing.toFinset.card := by
  rw [← toFinset_names_ranked missing defined,
    List.toFinset_card_of_nodup (nodup_names_ranked missing defined), List.length_map]

theorem sum_occurrences_ranked (missing defined : List String) :
    ((ranked missing defined).map MissingClass.occurrences).sum = missing.length := by
  have hoccurs : (ranked missing defined).map MissingClass.occurrences =
      ((ranked missing defined).map MissingClass.name).map fun name =>
        (missing.count name : Int) := by
    rw [List.map_map]
    exact List.map_congr_left fun m hm => (of_mem_ranked hm).2
  rw [hoccurs, ← List.sum_toFinset _ (nodup_names_ranked missing defined),
    toFinset_names_ranked, ← Nat.cast_sum, List.sum_toFinset_count_eq_length]

/-- What a list of the classes used most says about the missing names: it has ten of them if there
are so many, and none that it leaves out is used more than one that it has. -/
structure Listed (missing : List String) (listed : List MissingClass) : Prop where
  length_eq : listed.length = min 10 missing.toFinset.card
  nodup : (listed.map MissingClass.name).Nodup
  occurs : ∀ m ∈ listed, m.name ∈ missing ∧ m.occurrences = missing.count m.name
  omitted_le : ∀ name ∈ missing, name ∉ listed.map MissingClass.name →
    ∀ m ∈ listed, (missing.count name : Int) ≤ m.occurrences

theorem listed_topMissing (missing defined : List String) :
    Listed missing (topMissing (tally missing) defined) where
  length_eq := by
    rw [topMissing_tally, List.length_take, length_ranked]
  nodup := by
    rw [topMissing_tally, List.map_take]
    exact (nodup_names_ranked missing defined).sublist (List.take_sublist _ _)
  occurs := by
    intro m hm
    rw [topMissing_tally] at hm
    exact of_mem_ranked (List.mem_of_mem_take hm)
  omitted_le := by
    intro name hname homitted m hm
    rw [topMissing_tally] at homitted hm
    -- a name that is left out stands after the tenth, so after everything listed
    obtain ⟨other, hother, rfl⟩ : ∃ other ∈ ranked missing defined, other.name = name := by
      rw [← List.mem_toFinset, ← toFinset_names_ranked missing defined, List.mem_toFinset] at hname
      exact List.mem_map.mp hname
    rw [← List.take_append_drop 10 (ranked missing defined), List.mem_append] at hother
    have hrest : other ∈ (ranked missing defined).drop 10 :=
      hother.resolve_left fun h => homitted (List.mem_map_of_mem h)
    have hsorted := pairwise_ranked missing defined
    rw [← List.take_append_drop 10 (ranked missing defined), List.pairwise_append] at hsorted
    have hle := occurrences_le_of_mostFrequent (hsorted.2.2 m hm other hrest)
    rwa [(of_mem_ranked (List.mem_of_mem_drop hrest)).2] at hle

/-! ### The numbers of a result -/

/-- What the numbers of a result have to do with each other and with the pages, before limits. -/
structure Tallied (c : Compiler) (t : FileTree) (defined pages : List String) (r : Result) :
    Prop where
  classRefs_eq : r.classRefs = (classesOn c t pages).length
  errors_eq_unresolved : r.errors = r.classRefs - r.resolvedRefs
  errors_eq_sum : r.errors = ∑ name ∈ (missingOn c t defined pages).toFinset,
    ((missingOn c t defined pages).count name : Int)
  errors_eq_issues : r.errors = countSeverity .error r.issues
  error_or_warning : ∀ i ∈ r.issues, i.severity = .error ∨ i.severity = .warning
  resolved_le : r.resolvedRefs ≤ r.classRefs
  scanned_add : r.filesScanned + (unreadable t pages).length = pages.length
  listed : Listed (missingOn c t defined pages) r.topMissing
  undefined : ∀ m ∈ r.topMissing, m.name ∉ defined
  sum_listed : (missingOn c t defined pages).toFinset.card ≤ 10 →
    (r.topMissing.map MissingClass.occurrences).sum = r.errors

section Result

variable (config : LintConfig) (c : Compiler) (t : FileTree) (defined : List String)
  (styleFiles : Nat) (warnings pages : List String)

theorem errors_resultOf :
    (resultOf config c defined styleFiles warnings (checked c t defined pages)).errors =
      (missingOn c t defined pages).length :=
  congrArg Nat.cast (errors_checked c t defined pages)

theorem classRefs_resultOf :
    (resultOf config c defined styleFiles warnings (checked c t defined pages)).classRefs =
      (classesOn c t pages).length := by
  show (((checked c t defined pages).flatMap Findings.refs).length : Int) = _
  rw [refs_checked, List.length_map]

theorem resolvedRefs_resultOf :
    (resultOf config c defined styleFiles warnings (checked c t defined pages)).resolvedRefs +
      (missingOn c t defined pages).length = (classesOn c t pages).length := by
  have hsum := resolved_refs_checked c t defined pages
  show ((((checked c t defined pages).flatMap Findings.refs).filter (·.2)).length : Int) + _ = _
  omega

theorem topMissing_resultOf :
    (resultOf config c defined styleFiles warnings (checked c t defined pages)).topMissing =
      topMissing (tally (missingOn c t defined pages)) defined := by
  rw [← missing_refs_checked]
  rfl

theorem issues_resultOf_perm :
    (resultOf config c defined styleFiles warnings (checked c t defined pages)).issues.Perm
      ((checked c t defined pages).flatMap Findings.issues) :=
  List.mergeSort_perm _ _

theorem tallied_resultOf :
    Tallied c t defined pages
      (resultOf config c defined styleFiles warnings (checked c t defined pages)) where
  classRefs_eq := classRefs_resultOf config c t defined styleFiles warnings pages
  errors_eq_unresolved := by
    have hresolved := resolvedRefs_resultOf config c t defined styleFiles warnings pages
    rw [errors_resultOf, classRefs_resultOf]
    omega
  errors_eq_sum := by
    rw [errors_resultOf, ← Nat.cast_sum, List.sum_toFinset_count_eq_length]
  errors_eq_issues := by
    have hperm := issues_resultOf_perm config c t defined styleFiles warnings pages
    rw [errors_resultOf, ← errors_checked]
    exact congrArg Nat.cast (hperm.filter _).length_eq.symm
  error_or_warning := by
    intro i hi
    have hperm := issues_resultOf_perm config c t defined styleFiles warnings pages
    exact severity_checked (hperm.mem_iff.mp hi)
  resolved_le := by
    have hresolved := resolvedRefs_resultOf config c t defined styleFiles warnings pages
    rw [classRefs_resultOf]
    omega
  scanned_add := by
    have hlength := length_checked c t defined pages
    show ((checked c t defined pages).length : Int) + _ = _
    omega
  listed := by
    rw [topMissing_resultOf]
    exact listed_topMissing _ defined
  undefined := by
    intro m hm
    rw [topMissing_resultOf] at hm
    have hmissing := ((listed_topMissing _ defined).occurs m hm).1
    exact (mem_missingOn.mp hmissing).2
  sum_listed := by
    intro hfew
    rw [topMissing_resultOf, errors_resultOf, topMissing_tally, List.take_of_length_le,
      sum_occurrences_ranked]
    rwa [length_ranked]

end Result

/-- **The numbers of a check add up**, for every set of pages and every set of defined classes.  If
the pages and the styles of a project can be found, a check gives such a result, limited. -/
theorem lint_counts_add_up (config : LintConfig) (t : FileTree) :
    (∀ (c : Compiler) (defined : List String) (styleFiles : Nat) (warnings pages : List String),
      Tallied c t defined pages
        (resultOf config c defined styleFiles warnings (checked c t defined pages))) ∧
    ∀ found styles, t.discover config.complete.sourceDir config.complete.pages = .ok found →
      t.discover config.complete.sourceDir config.complete.styles = .ok styles →
      let c : Compiler := { truncated := config.truncated }
      ∃ r, lint config t = .ok (limited config.complete r) ∧
        Tallied c t (definedClasses config.complete c t styles.1).1 found.1 r := by
  refine ⟨fun c defined styleFiles warnings pages =>
    tallied_resultOf config c t defined styleFiles warnings pages, ?_⟩
  intro found styles hfound hstyles c
  refine ⟨_, ?_, tallied_resultOf config.complete c t _ styles.1.length
    ((definedClasses config.complete c t styles.1).2 ++ (readPages t found.1).2) found.1⟩
  rw [lint, survey, hfound, hstyles]
  rfl

/-- The first page refers to two missing classes, one of them twice, and to a class that is defined;
the second has no template; the third cannot be read.  The check looks at the second page only. -/
theorem lint_counts_add_up_card :
    let t : FileTree := .ofFiles ["w"]
      [("a.max", "<template><p class=\"x y x card\">hi</p></template>"),
        ("b.max", "<logic>let a = 1</logic>"), ("s.maxt", "@style card \x7b color: red \x7d")]
    let config : LintConfig := { pages := ["b.max"] }
    let c : Compiler := { catalog := ⟨[], [], []⟩ }
    let r := resultOf config c ["card"] 1 [] (checked c t ["card"] ["a.max", "b.max", "gone.max"])
    (r.errors = 3 ∧ r.resolvedRefs = 1 ∧ r.filesScanned = 2 ∧ r.topMissing.length = 2 ∧
      (r.topMissing.map MissingClass.occurrences).sum = 3) ∧
    ∃ r, lint config t = .ok (limited config.complete r) ∧ r.errors = 0 ∧ r.filesScanned = 1 := by
  intro t config c r
  obtain ⟨hpages, hlint⟩ := lint_counts_add_up config t
  constructor
  · have htallied : Tallied c t ["card"] ["a.max", "b.max", "gone.max"] r :=
      hpages c ["card"] 1 [] _
    have hmissing : missingOn c t ["card"] ["a.max", "b.max", "gone.max"] = ["x", "y", "x"] := by
      decide +kernel
    have hclasses : (classesOn c t ["a.max", "b.max", "gone.max"]).length = 4 := by
      decide +kernel
    have hgone : (unreadable t ["a.max", "b.max", "gone.max"]).length = 1 := by
      decide +kernel
    obtain ⟨hrefs, hunresolved, hsum, -, -, -, hscanned, hlisted, -, hfew⟩ := htallied
    have hlength := hlisted.length_eq
    rw [hmissing] at hsum hlength hfew
    rw [hclasses] at hrefs
    rw [hgone] at hscanned
    have herrors : r.errors = 3 := hsum
    have hnames : r.topMissing.length = 2 := hlength
    have hthree : (3 : Int) = ["a.max", "b.max", "gone.max"].length := rfl
    refine ⟨herrors, by omega, by omega, hnames, ?_⟩
    rw [hfew (by decide), herrors]
  · have hfound : (t.discover "." ["b.max"]).toOption.map Prod.fst = some ["b.max"] := by
      decide +kernel
    have hstyled : (t.discover "." defaultStylePatterns).toOption.isSome := by decide +kernel
    have hnone : classesOn {} t ["b.max"] = [] := by decide +kernel
    have hread : (unreadable t ["b.max"]).length = 0 := by decide +kernel
    obtain ⟨found, hfound, hnames⟩ := Option.map_eq_some_iff.mp hfound
    obtain ⟨styles, hstyles⟩ := Option.isSome_iff_exists.mp hstyled
    obtain ⟨r, hr, htallied⟩ :=
      hlint found styles (toOption_eq_some.mp hfound) (toOption_eq_some.mp hstyles)
    rw [hnames] at htallied
    obtain ⟨-, -, hsum, -, -, -, hscanned, -, -, -⟩ := htallied
    rw [missingOn, hnone] at hsum
    rw [hread] at hscanned
    exact ⟨r, hr, hsum, (Int.add_zero _).symm.trans hscanned⟩

end Pagesmith.Lint
