import Mathlib.Tactic.Common
import Pagesmith.Logic.Run
import Pagesmith.Proofs.Value.Field

/-!
# Runs of page logic are all or nothing

Statements run in their order, each in the globals overlaid with what the statements before it have
declared and assigned.  The first that fails ends the run: it gives the line of the failure, nothing
is bound, and no later statement is evaluated.  If none fails, a name is bound to its last export,
or to its last declaration or assignment if it is not exported.

* `Performed`: some statements were run one after another, with these values.
* `Outcome`: what a run of statements comes to, and which statements it has evaluated.
* `noting`: an evaluator that notes what it is asked for.
* `outcome_execute`: every run comes to an outcome, by the invariant that `scopeAfter` is the scope
  after the statements that were performed.
-/

namespace Pagesmith.Logic

open Pagesmith.Expr (Env Failure)
open Pagesmith.Value (Ordered field? field?_nil field?_overlay last? ordered_overlay overlay)

variable {st : Statement}

/-! ### What statements leave behind -/

def Role.assigned? : Role → Option String
  | .declare name | .assign name => some name
  | .expr | .exported _ => none

def Role.exported? : Role → Option String
  | .exported name => some name
  | .expr | .declare _ | .assign _ => none

def assigned (done : List (Statement × Value)) : Env :=
  done.filterMap fun (st, v) => st.role.assigned?.map fun name => (name, v)

def exported (done : List (Statement × Value)) : Env :=
  done.filterMap fun (st, v) => st.role.exported?.map fun name => (name, v)

def visible (globals : Env) (done : List (Statement × Value)) : Env :=
  overlay globals (assigned done)

def scopeAfter (globals : Env) (done : List (Statement × Value)) : Scope where
  env := visible globals done
  bound := overlay [] (assigned done)
  exports := overlay [] (exported done)

theorem field?_visible (globals : Env) (done : List (Statement × Value)) (name : String) :
    field? (visible globals done) name = (last? (assigned done) name).or (field? globals name) :=
  field?_overlay globals (assigned done) name

theorem record_scopeAfter (globals : Env) (done : List (Statement × Value)) (st : Statement)
    (v : Value) :
    (scopeAfter globals done).record st.role v = scopeAfter globals (done ++ [(st, v)]) := by
  have hassigned : assigned (done ++ [(st, v)]) = assigned done ++ assigned [(st, v)] :=
    List.filterMap_append
  have hexported : exported (done ++ [(st, v)]) = exported done ++ exported [(st, v)] :=
    List.filterMap_append
  simp only [scopeAfter, visible, overlay, hassigned, hexported, List.foldl_append]
  obtain ⟨role, source, line⟩ := st
  cases role <;> rfl

/-- A name is bound to its last export, and else to its last declaration or assignment. -/
theorem field?_bindings_scopeAfter (globals : Env) (done : List (Statement × Value))
    (name : String) :
    field? (scopeAfter globals done).bindings name =
      (last? (exported done) name).or (last? (assigned done) name) := by
  have hempty : Ordered [] := List.Pairwise.nil
  have hlast : ∀ top : Env, last? (overlay [] top) name = last? top name := by
    intro top
    rw [(ordered_overlay hempty top).last?_eq, field?_overlay, field?_nil, Option.or_none]
  show field? (overlay (overlay [] (assigned done)) (overlay [] (exported done))) name = _
  rw [field?_overlay, hlast, field?_overlay, field?_nil, Option.or_none]

theorem ordered_bindings_scopeAfter (globals : Env) (done : List (Statement × Value)) :
    Ordered (scopeAfter globals done).bindings := by
  have hempty : Ordered [] := List.Pairwise.nil
  exact ordered_overlay (ordered_overlay hempty (assigned done)) _

/-! ### Outcomes -/

variable {ε σ : Type}

/-- Some statements were run one after another from a world on, with these values and up to another
world.  A statement without expression has no value and is not evaluated; any other is evaluated
once, in the globals overlaid with what the statements before it have declared and assigned. -/
inductive Performed (ev : Evaluator ε σ) (globals : Env) (world : σ) :
    List (Statement × Value) → σ → Prop where
  | start : Performed ev globals world [] world
  | bare {done : List (Statement × Value)} {now : σ} {st : Statement}
      (hdone : Performed ev globals world done now) (hsource : st.source = []) :
      Performed ev globals world (done ++ [(st, .nil)]) now
  | evaluated {done : List (Statement × Value)} {now after : σ} {st : Statement} {v : Value}
      (hdone : Performed ev globals world done now) (hsource : st.source ≠ [])
      (hvalue : ev st.source (visible globals done) now = (.ok v, after)) :
      Performed ev globals world (done ++ [(st, v)]) after

/-- What a run of statements comes to, and the statements that it has run: all of them, or those up
to the first that fails. -/
inductive Outcome (ev : Evaluator ε σ) (globals : Env) (statements : List Statement) (world : σ) :
    List Statement → Except (Nat × ε) Env → σ → Prop where
  | finished {done : List (Statement × Value)} {after : σ} {bindings : Env}
      (hdone : Performed ev globals world done after) (hall : done.map Prod.fst = statements)
      (hordered : Ordered bindings)
      (hbindings : ∀ name, field? bindings name =
        (last? (exported done) name).or (last? (assigned done) name)) :
      Outcome ev globals statements world statements (.ok bindings) after
  | failed {done : List (Statement × Value)} {now after : σ} {st : Statement}
      {rest : List Statement} {e : ε} (hdone : Performed ev globals world done now)
      (hfirst : statements = done.map Prod.fst ++ st :: rest) (hsource : st.source ≠ [])
      (hfailure : ev st.source (visible globals done) now = (.error e, after)) :
      Outcome ev globals statements world (done.map Prod.fst ++ [st]) (.error (st.line, e)) after

theorem execute_cons_of_bare (ev : Evaluator ε σ) (s : Scope) (hsource : st.source = [])
    (rest : List Statement) (world : σ) :
    execute ev s (st :: rest) world = execute ev (s.record st.role .nil) rest world := by
  rw [execute, valueOf, hsource]
  rfl

theorem execute_cons_of_ok {ev : Evaluator ε σ} {s : Scope} (hsource : st.source ≠ [])
    {world after : σ} {v : Value} (hvalue : ev st.source s.env world = (.ok v, after))
    (rest : List Statement) :
    execute ev s (st :: rest) world = execute ev (s.record st.role v) rest after := by
  rw [execute, valueOf, if_neg (by simpa using hsource), hvalue]

theorem execute_cons_of_error {ev : Evaluator ε σ} {s : Scope} (hsource : st.source ≠ [])
    {world after : σ} {e : ε} (hvalue : ev st.source s.env world = (.error e, after))
    (rest : List Statement) : execute ev s (st :: rest) world = (.error (st.line, e), after) := by
  rw [execute, valueOf, if_neg (by simpa using hsource), hvalue]

/-- A run goes on from what was performed to an outcome.  The scope is that after the statements
performed, which is what one more statement keeps. -/
theorem outcome_execute (ev : Evaluator ε σ) (globals : Env) (world : σ) (rest : List Statement)
    {done : List (Statement × Value)} {now : σ} (hdone : Performed ev globals world done now) :
    ∃ ran, Outcome ev globals (done.map Prod.fst ++ rest) world ran
      ((execute ev (scopeAfter globals done) rest now).1.map Scope.bindings)
      (execute ev (scopeAfter globals done) rest now).2 := by
  induction rest generalizing done now with
  | nil =>
    refine ⟨_, .finished hdone (by simp) (ordered_bindings_scopeAfter globals done) ?_⟩
    intro name
    exact field?_bindings_scopeAfter globals done name
  | cons st rest ih =>
    have hsnoc : ∀ v : Value,
        (done ++ [(st, v)]).map Prod.fst ++ rest = done.map Prod.fst ++ st :: rest := by
      intro v
      simp
    by_cases hsource : st.source = []
    · have hrun := ih (hdone.bare hsource)
      rw [hsnoc, ← record_scopeAfter] at hrun
      rw [execute_cons_of_bare ev _ hsource]
      exact hrun
    · cases hvalue : ev st.source (visible globals done) now with
      | mk value after =>
        cases value with
        | ok v =>
          have hrun := ih (hdone.evaluated hsource hvalue)
          rw [hsnoc, ← record_scopeAfter] at hrun
          rw [execute_cons_of_ok hsource hvalue]
          exact hrun
        | error e =>
          rw [execute_cons_of_error hsource hvalue]
          exact ⟨_, .failed hdone rfl hsource hvalue⟩

/-! ### Each statement once -/

def noting (ev : Evaluator ε σ) : Evaluator ε (σ × List (List Char)) := fun source env world =>
  let (r, after) := ev source env world.1
  (r, after, world.2 ++ [source])

def sources (statements : List Statement) : List (List Char) :=
  (statements.map Statement.source).filter fun s => !s.isEmpty

theorem sources_append (a b : List Statement) : sources (a ++ b) = sources a ++ sources b := by
  rw [sources, List.map_append, List.filter_append]
  rfl

theorem sources_singleton (hsource : st.source ≠ []) : sources [st] = [st.source] := by
  simp [sources, hsource]

theorem execute_noting (ev : Evaluator ε σ) (s : Scope) (statements : List Statement)
    (world : σ × List (List Char)) :
    (execute (noting ev) s statements world).1 = (execute ev s statements world.1).1 ∧
      (execute (noting ev) s statements world).2.1 = (execute ev s statements world.1).2 := by
  induction statements generalizing s world with
  | nil => exact ⟨rfl, rfl⟩
  | cons st rest ih =>
    by_cases hsource : st.source = []
    · rw [execute_cons_of_bare _ _ hsource, execute_cons_of_bare _ _ hsource]
      exact ih _ world
    · cases hvalue : ev st.source s.env world.1 with
      | mk value after =>
        have hnoted : noting ev st.source s.env world = (value, after, world.2 ++ [st.source]) := by
          rw [noting, hvalue]
        cases value with
        | ok v =>
          rw [execute_cons_of_ok hsource hnoted, execute_cons_of_ok hsource hvalue]
          exact ih _ (after, world.2 ++ [st.source])
        | error e =>
          rw [execute_cons_of_error hsource hnoted, execute_cons_of_error hsource hvalue]
          exact ⟨rfl, rfl⟩

theorem eq_of_noting {ev : Evaluator ε σ} {source : List Char} {env : Env}
    {world after : σ × List (List Char)} {r : Except ε Value}
    (h : noting ev source env world = (r, after)) :
    ev source env world.1 = (r, after.1) ∧ after.2 = world.2 ++ [source] := by
  rw [noting] at h
  cases h
  exact ⟨rfl, rfl⟩

theorem Performed.of_noting {ev : Evaluator ε σ} {globals : Env} {world : σ}
    {done : List (Statement × Value)} {after : σ × List (List Char)}
    (h : Performed (noting ev) globals (world, []) done after) :
    Performed ev globals world done after.1 ∧ after.2 = sources (done.map Prod.fst) := by
  induction h with
  | start => exact ⟨.start, rfl⟩
  | @bare done now st _ hsource ih =>
    refine ⟨ih.1.bare hsource, ?_⟩
    have hnone : sources [st] = [] := by simp [sources, hsource]
    rw [List.map_append, sources_append, ih.2]
    show _ = _ ++ sources [st]
    rw [hnone, List.append_nil]
  | @evaluated done now after st v _ hsource hvalue ih =>
    obtain ⟨hvalue, hcalls⟩ := eq_of_noting hvalue
    refine ⟨ih.1.evaluated hsource hvalue, ?_⟩
    rw [hcalls, ih.2, List.map_append, sources_append, ← sources_singleton hsource]
    rfl

theorem Outcome.of_noting {ev : Evaluator ε σ} {globals : Env} {statements ran : List Statement}
    {world : σ} {r : Except (Nat × ε) Env} {after : σ × List (List Char)}
    (h : Outcome (noting ev) globals statements (world, []) ran r after) :
    Outcome ev globals statements world ran r after.1 ∧ after.2 = sources ran := by
  cases h with
  | finished hdone hall hordered hbindings =>
    obtain ⟨hdone, hcalls⟩ := hdone.of_noting
    exact ⟨.finished hdone hall hordered hbindings, hall ▸ hcalls⟩
  | failed hdone hfirst hsource hfailure =>
    obtain ⟨hdone, hcalls⟩ := hdone.of_noting
    obtain ⟨hfailure, hmore⟩ := eq_of_noting hfailure
    refine ⟨.failed hdone hfirst hsource hfailure, ?_⟩
    rw [hmore, hcalls, sources_append, sources_singleton hsource]

theorem outcome_run (ev : Evaluator ε σ) (globals : Env) (statements : List Statement)
    (world : σ) :
    ∃ ran, Outcome ev globals statements world ran
        ((execute ev { env := globals } statements world).1.map Scope.bindings)
        (execute ev { env := globals } statements world).2 ∧
      (execute (noting ev) { env := globals } statements (world, [])).2.2 = sources ran := by
  obtain ⟨ran, hran⟩ := outcome_execute (noting ev) globals (world, []) statements .start
  obtain ⟨houtcome, hcalls⟩ := hran.of_noting
  obtain ⟨hresult, hworld⟩ := execute_noting ev (scopeAfter globals []) statements (world, [])
  rw [hresult, hworld] at houtcome
  exact ⟨ran, houtcome, hcalls⟩

def ending : Except (Nat × Failure) Env → Except RunFailure Env
  | .ok bindings => .ok bindings
  | .error (line, .report message) => .error (.statement line message)
  | .error (_, .timeout) => .error .timeout

theorem run_eq_ending {w : Surface σ} {logic : List Char} {statements : List Statement}
    {user : Value} {world asked : σ} (hsplit : split logic = .ok statements)
    (huser : w.user world = (.value user, asked)) :
    let ran := execute (Expr.runLogic w.host) { env := globals user } statements asked
    run w logic world = (ending (ran.1.map Scope.bindings), ran.2) := by
  simp only [run, hsplit, huser]
  cases execute (Expr.runLogic w.host) { env := globals user } statements asked with
  | mk result after =>
    cases result with
    | ok s => rfl
    | error e =>
      obtain ⟨line, failure⟩ := e
      cases failure <;> rfl

/-- **Page logic runs in order, and all or nothing.**  A statement sees the globals overlaid with
what the statements before it have declared and assigned.  A run of statements, by any evaluator,
comes to an `Outcome` and evaluates the expressions of the statements that it has run, each once and
in their order.  A logic block is such a run from the globals of the user on, and a block that has
no statements evaluates nothing. -/
theorem run_all_or_nothing :
    (∀ (globals : Env) (done : List (Statement × Value)) (name : String),
      field? (visible globals done) name =
        (last? (assigned done) name).or (field? globals name)) ∧
    (∀ (ε σ : Type) (ev : Evaluator ε σ) (globals : Env) (statements : List Statement) (world : σ),
      ∃ ran, Outcome ev globals statements world ran
          ((execute ev { env := globals } statements world).1.map Scope.bindings)
          (execute ev { env := globals } statements world).2 ∧
        (execute (noting ev) { env := globals } statements (world, [])).2.2 = sources ran) ∧
    ∀ (σ : Type) (w : Surface σ) (logic : List Char) (world : σ),
      (∀ e, split logic = .error e → run w logic world = (.error (.malformed e), world)) ∧
      ∀ (statements : List Statement) (user : Value) (asked : σ),
        split logic = .ok statements → w.user world = (.value user, asked) →
        ∃ ran result after,
          Outcome (Expr.runLogic w.host) (globals user) statements asked ran result after ∧
          run w logic world = (ending result, after) := by
  refine ⟨field?_visible, fun ε σ ev globals statements world =>
    outcome_run ev globals statements world, fun σ w logic world => ⟨?_, ?_⟩⟩
  · intro e he
    rw [run, he]
  · intro statements user asked hsplit huser
    obtain ⟨ran, houtcome, -⟩ :=
      outcome_run (Expr.runLogic w.host) (globals user) statements asked
    exact ⟨ran, _, _, houtcome, run_eq_ending hsplit huser⟩

/-- The first block exports a name and assigns it again, the second fails between two requests, and
the third has no statements. -/
theorem run_all_or_nothing_requests :
    let world : Recorder := ⟨[("api.post", .failure "down")], 2000, 0, []⟩
    let asked : Recorder := (recording.user world).2
    let exporting : List Statement :=
      [⟨.declare "a", "1".toList, 1⟩, ⟨.exported "a", "a + 1".toList, 2⟩,
        ⟨.assign "a", "a + 2".toList, 3⟩, ⟨.declare "b", [], 4⟩]
    let failing : List Statement :=
      [⟨.declare "a", "1".toList, 1⟩, ⟨.expr, "api.post('x', a)".toList, 2⟩,
        ⟨.exported "a", "api.get('y')".toList, 3⟩]
    (∃ ran bindings after,
      Outcome (Expr.runLogic recording.host) (globals (.map [])) exporting asked ran
        (.ok bindings) after ∧
      bindings.map (fun f => (f.1, f.2.text)) = [("a", "2"), ("b", "<nil>")]) ∧
    (∃ ran after,
      Outcome (Expr.runLogic recording.host) (globals (.map [])) failing asked ran
        (.error (2, .report "down (1:5)\n | api.post('x', a)\n | ....^")) after ∧
      after.calls.map Prod.fst = ["auth.user", "api.post"]) ∧
    run recording "f(".toList world = (.error (.malformed .unbalanced), world) := by
  intro world asked exporting failing
  obtain ⟨-, -, hrun⟩ := run_all_or_nothing
  refine ⟨?_, ?_, ?_⟩
  · let logic := "let a = 1\nexports.a = a + 1\na = a + 2\nlet b".toList
    have hsplit : split logic = .ok exporting := by decide +kernel
    have hbound : (run recording logic world).1.toOption.map
        (fun bindings => bindings.map fun f => (f.1, f.2.text)) =
          some [("a", "2"), ("b", "<nil>")] := by
      decide +kernel
    obtain ⟨ran, result, after, houtcome, hresult⟩ :=
      (hrun _ recording logic world).2 exporting (.map []) asked hsplit rfl
    rw [hresult] at hbound
    rcases result with ⟨line, message | _⟩ | bindings
    · cases hbound
    · cases hbound
    · exact ⟨ran, bindings, after, houtcome, Option.some.inj hbound⟩
  · let logic := "let a = 1\napi.post('x', a)\nexports.a = api.get('y')".toList
    have hsplit : split logic = .ok failing := by decide +kernel
    have hcalls : (run recording logic world).2.calls.map Prod.fst = ["auth.user", "api.post"] := by
      decide +kernel
    have hfailed : (run recording logic world).1.map (fun _ => ()) =
        .error (.statement 2 "down (1:5)\n | api.post('x', a)\n | ....^") := by
      decide +kernel
    obtain ⟨ran, result, after, houtcome, hresult⟩ :=
      (hrun _ recording logic world).2 failing (.map []) asked hsplit rfl
    rw [hresult] at hcalls hfailed
    rcases result with ⟨line, message | _⟩ | bindings
    · cases hfailed
      exact ⟨ran, after, houtcome, hcalls⟩
    · cases hfailed
    · cases hfailed
  · exact (hrun _ recording _ world).1 .unbalanced (by decide +kernel)

end Pagesmith.Logic
