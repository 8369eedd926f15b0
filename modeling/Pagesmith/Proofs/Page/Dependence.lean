import Mathlib.Tactic.Common
import Pagesmith.Compiler
import Pagesmith.Proofs.Expr.Names
import Pagesmith.Proofs.Value.Field

/-!
# What a page depends on

A template that does not ask for its whole environment is filled in by a look at the names of its
expressions, so what other names mean cannot be seen in the markup.  The caller's data is laid over
what the logic of a page binds.  Where data has all the names of a template, the page is therefore
the same for every logic, whatever it binds and whether it runs to its end or fails.

* `Template.names`: the names that occur in the expressions of a template.
* `field?_merge`: what a name means on a page.
* `execute_depends_on_names`: the markup of a template and of a page depends on these names only.
-/

namespace Pagesmith.Page

open Pagesmith.Expr (Env sourceNames)
open Pagesmith.Logic (Surface)
open Pagesmith.Value (field? last? overlay)

def Template.names (t : Template) : List String := t.expressions.flatMap sourceNames

theorem shownSegment_congr {env env' : Env} {seg : Segment}
    (henv : ∀ source raw, seg = .expr source raw → "$env" ∉ sourceNames source)
    (hagree : ∀ source raw, seg = .expr source raw →
      ∀ name ∈ sourceNames source, field? env name = field? env' name) :
    shownSegment env seg = shownSegment env' seg := by
  cases seg with
  | text s => rfl
  | expr source raw =>
    have hrun := Expr.runTemplate_congr (henv source raw rfl) (hagree source raw rfl)
    rw [shownSegment, shownSegment, shownExpr, shownExpr, hrun]

theorem sourceNames_subset {t : Template} {source raw : List Char}
    (h : Segment.expr source raw ∈ t.segments) : sourceNames source ⊆ t.names := by
  intro name hname
  apply List.mem_flatMap.mpr
  refine ⟨source, ?_, hname⟩
  apply List.mem_filterMap.mpr
  exact ⟨.expr source raw, h, rfl⟩

theorem execute_congr {t : Template} (henv : "$env" ∉ t.names) {env env' : Env}
    (hagree : ∀ name ∈ t.names, field? env name = field? env' name) :
    t.execute env = t.execute env' := by
  have hsegments : ∀ seg ∈ t.segments, shownSegment env seg = shownSegment env' seg := by
    intro seg hseg
    apply shownSegment_congr
    · rintro source raw rfl hmem
      exact henv (sourceNames_subset hseg hmem)
    · rintro source raw rfl name hname
      exact hagree name (sourceNames_subset hseg hname)
  rw [Template.execute, Template.execute, mapM_congr hsegments]

theorem merge_eq_overlay (bindings data : Env) : merge bindings data = overlay bindings data := rfl

/-- A name of the data means what it means there, and any other name what logic has bound it to. -/
theorem field?_merge (bindings data : Env) (name : String) :
    field? (merge bindings data) name = (last? data name).or (field? bindings name) := by
  rw [merge_eq_overlay, Value.field?_overlay]

theorem field?_merge_of_isSome {data : Env} {name : String} (h : (field? data name).isSome)
    (bindings bindings' : Env) :
    field? (merge bindings data) name = field? (merge bindings' data) name := by
  rw [← Value.isSome_last?] at h
  obtain ⟨v, hv⟩ := Option.isSome_iff_exists.mp h
  rw [field?_merge, field?_merge, hv]
  rfl

theorem render_congr {t : Template} (henv : "$env" ∉ t.names) {data : Env}
    (hdata : ∀ name ∈ t.names, (field? data name).isSome) (bindings bindings' : Env) :
    t.render bindings data = t.render bindings' data := by
  have hexecute : t.execute (merge bindings data) = t.execute (merge bindings' data) := by
    apply execute_congr henv
    intro name hname
    exact field?_merge_of_isSome (hdata name hname) bindings bindings'
  rw [Template.render, Template.render, hexecute]

def cleaned (c : Compiler) (markup : String) : String :=
  if c.sanitized then String.ofList (Html.sanitize markup.toList) else markup

theorem render_fst (c : Compiler) {σ : Type} (w : Surface σ) (world : σ) (d : Document)
    (data : Env) :
    (c.render w world d data).1 =
      cleaned c (d.template.render (Logic.evaluate w c.limit d.logic world).1.1 data).1 := rfl

/-- **A page depends on the names of its template only.**  Two environments that agree on them give
the same markup, or the same failing expression and message.  If the data has all of them, every
logic of the page gives the markup that comes out if nothing is bound, as after a failure. -/
theorem execute_depends_on_names (t : Template) (henv : "$env" ∉ t.names) :
    (∀ env env' : Env, (∀ name ∈ t.names, field? env name = field? env' name) →
      t.execute env = t.execute env') ∧
    ∀ data : Env, (∀ name ∈ t.names, (field? data name).isSome) →
      (∀ bindings : Env, t.render bindings data = t.render [] data) ∧
      ∀ (c : Compiler) (d : Document) (σ : Type) (w : Surface σ) (world : σ), d.template = t →
        (c.render w world d data).1 = cleaned c (t.render [] data).1 := by
  refine ⟨fun env env' hagree => execute_congr henv hagree, fun data hdata => ⟨?_, ?_⟩⟩
  · intro bindings
    exact render_congr henv hdata bindings []
  · intro c d σ w world hd
    rw [render_fst, hd, render_congr henv hdata _ []]

/-- The logic of the first page binds the names of the template to something else, and that of the
second page is no logic at all. -/
theorem execute_depends_on_names_rows :
    let t : Template := .compile [] "<b>\x7buser?.name\x7d</b>\x7brows[0].id\x7d".toList
    let data : Env :=
      [("rows", .array [.map [("id", .int 7)]]), ("user", .map [("name", .str "<A>")])]
    let page (logic : String) : Document := ⟨.ofText [], logic.toList, [], t⟩
    let world : Logic.Recorder := ⟨[], 2000, 0, []⟩
    t.names = ["user", "rows"] ∧ (∀ name ∈ t.names, (field? data name).isSome) ∧
      ((Logic.run Logic.recording "user = nil; rows = []".toList world).1.toOption.map
        fun b => b.map Prod.fst) = some ["rows", "user"] ∧
      (Logic.run Logic.recording "user = (".toList world).1.toOption.isNone ∧
      (Compiler.render {} Logic.recording world (page "user = nil; rows = []") data).1 =
        "<b>&lt;A&gt;</b>7" ∧
      (Compiler.render {} Logic.recording world (page "user = (") data).1 =
        "<b>&lt;A&gt;</b>7" := by
  intro t data page world
  have hnames : t.names = ["user", "rows"] := by decide +kernel
  have henv : "$env" ∉ t.names := by
    rw [hnames]
    decide
  have hdata : ∀ name ∈ t.names, (field? data name).isSome := by
    rw [hnames]
    decide
  obtain ⟨-, hpages⟩ := execute_depends_on_names t henv
  obtain ⟨-, hpage⟩ := hpages data hdata
  have hmarkup : (t.render [] data).1 = "<b>&lt;A&gt;</b>7" := by decide +kernel
  refine ⟨hnames, hdata, ?_, ?_, ?_, ?_⟩
  · decide +kernel
  · decide +kernel
  · exact (hpage {} (page _) _ Logic.recording world rfl).trans hmarkup
  · exact (hpage {} (page _) _ Logic.recording world rfl).trans hmarkup

end Pagesmith.Page
