import Mathlib.Tactic.Common
import Pagesmith.Expr.Program
import Pagesmith.Proofs.Outcome

/-!
# An expression knows its own names only

The expressions of a template consist of names, members and literals.  Such an expression is checked
and run without a look at any other name of the environment than its own, unless it asks for the
whole environment by the name `$env`.

* `names`: the names that occur in an expression.
* `Plain`: expressions of names, members and literals.  `forbidden?` admits no others.
* `runTemplate_congr`: two environments that agree on the names of a source give the same value or
  the same failure.
-/

namespace Pagesmith.Expr

open Pagesmith.Value (field?)

variable {env env' : Env} {source : List Char}

mutual

/-- The names that occur in an expression, those it binds itself included. -/
def names : Expr → List String
  | .ident _ name => [name]
  | .nil _ | .bool .. | .int .. | .float .. | .str .. | .pointer .. | .const .. => []
  | .unary _ _ e | .chain _ e | .predicate _ e | .memInts _ e _ | .memStrs _ e _ => names e
  | .binary _ _ a b | .member _ a b _ _ | .pair _ a b => names a ++ names b
  | .slice _ e low high => names e ++ (boundNames low ++ boundNames high)
  | .call _ callee args => names callee ++ namesAmong args
  | .builtin _ _ items | .array _ items | .map _ items | .sequence _ items => namesAmong items
  | .cond _ c t e => names c ++ (names t ++ names e)
  | .binding _ name value body => name :: (names value ++ names body)

def namesAmong : List Expr → List String
  | [] => []
  | e :: es => names e ++ namesAmong es

def boundNames : Option Expr → List String
  | none => []
  | some e => names e

end

inductive Plain : Expr → Prop where
  | nil (p : Nat) : Plain (.nil p)
  | bool (p : Nat) (b : Bool) : Plain (.bool p b)
  | int (p : Nat) (n : Int) : Plain (.int p n)
  | float (p : Nat) (x : Float) : Plain (.float p x)
  | str (p : Nat) (s : String) : Plain (.str p s)
  | ident (p : Nat) (name : String) : Plain (.ident p name)
  | chain (p : Nat) {e : Expr} (he : Plain e) : Plain (.chain p e)
  | member (p : Nat) {e prop : Expr} (optional method : Bool) (he : Plain e) (hprop : Plain prop) :
      Plain (.member p e prop optional method)

theorem plain_of_forbidden? : ∀ e : Expr, forbidden? e = none → Plain e
  | .nil p, _ => .nil p
  | .bool p b, _ => .bool p b
  | .int p n, _ => .int p n
  | .float p x, _ => .float p x
  | .str p s, _ => .str p s
  | .ident p name, _ => .ident p name
  | .chain p e, h => .chain p (plain_of_forbidden? e (by simpa [forbidden?] using h))
  | .member p e prop o m, h => by
    rw [forbidden?, Option.or_eq_none_iff] at h
    exact .member p o m (plain_of_forbidden? e h.1) (plain_of_forbidden? prop h.2)
  | .unary .., h | .binary .., h | .slice .., h | .call .., h | .builtin .., h | .predicate .., h
  | .pointer .., h | .cond .., h | .array .., h | .map .., h | .pair .., h | .binding .., h
  | .sequence .., h | .const .., h | .memInts .., h | .memStrs .., h => by
    simp [forbidden?] at h

namespace Plain

variable {e : Expr}

/-! ### The check -/

theorem isEnv_eq_false (henv : "$env" ∉ e.names) : isEnv e = false := by
  cases e with
  | ident p name =>
    rw [names, List.mem_singleton] at henv
    exact beq_eq_false_iff_ne.mpr (Ne.symm henv)
  | _ => rfl

theorem eq_of_infer (he : Plain e) {c : Typing} {t : Ty} {e' : Expr} (henv : "$env" ∉ e.names)
    (h : infer c e = .ok (t, e')) : e' = e := by
  induction he generalizing t e' with
  | nil | bool | int | float | str =>
    cases h
    rfl
  | ident p name =>
    rw [infer] at h
    split at h
    · cases h
      rfl
    · split at h
      · cases h
        rfl
      · obtain ⟨u, -, h⟩ := bind_eq_ok.mp h
        cases h
        rfl
  | chain p _ ih =>
    rw [infer] at h
    obtain ⟨⟨u, e₁⟩, hinner, h⟩ := bind_eq_ok.mp h
    cases h
    rw [ih henv hinner]
  | member p o m _ _ ihe ihprop =>
    rw [names, List.mem_append, not_or] at henv
    rw [infer, isEnv_eq_false henv.1] at h
    obtain ⟨⟨u, e₁⟩, hbase, h⟩ := bind_eq_ok.mp h
    obtain ⟨⟨i, prop₁⟩, hprop, h⟩ := bind_eq_ok.mp h
    obtain ⟨v, -, h⟩ := bind_eq_ok.mp h
    cases h
    rw [ihe henv.1 hbase, ihprop henv.2 hprop]

theorem infer_congr (he : Plain e) {f g : String → Option Ty} (henv : "$env" ∉ e.names)
    (hfg : ∀ name ∈ e.names, f name = g name) : infer ⟨f, [], []⟩ e = infer ⟨g, [], []⟩ e := by
  induction he with
  | nil | bool | int | float | str => rfl
  | ident p name =>
    have hname : f name = g name := hfg name (by simp [names])
    simp only [infer, nameType, hname]
  | chain p _ ih =>
    rw [names] at henv hfg
    rw [infer, infer, ih henv hfg]
  | @member p e prop o m _ _ ihe ihprop =>
    rw [names, List.mem_append, not_or] at henv
    rw [names, List.forall_mem_append] at hfg
    rw [infer, infer, isEnv_eq_false henv.1, ihe henv.1 hfg.1, ihprop henv.2 hfg.2]
    rfl

/-! ### The run -/

theorem applyUp_constantRule (he : Plain e) : applyUp constantRule e = .ok e := by
  induction he with
  | nil | bool | int | float | str | ident => rfl
  | chain p _ ih =>
    rw [applyUp, ih]
    rfl
  | member p o m _ _ ihe ihprop =>
    rw [applyUp, ihe, ihprop]
    rfl

theorem applyUp_listRule (he : Plain e) : applyUp (fun e => .ok (listRule e)) e = .ok e := by
  induction he with
  | nil | bool | int | float | str | ident => rfl
  | chain p _ ih =>
    rw [applyUp, ih]
    rfl
  | member p o m he _ ihe ihprop =>
    rw [applyUp, ihe, ihprop]
    -- The rules on members are about passes over lists, and no base is one.
    cases he <;> rfl

theorem simplify_eq (he : Plain e) : simplify e = .ok e := by
  rw [simplify, he.applyUp_constantRule]
  exact he.applyUp_listRule

theorem eval_congr (he : Plain e) {σ : Type} (h : Host σ) (henv : "$env" ∉ e.names)
    (hagree : ∀ name ∈ e.names, field? env name = field? env' name) :
    eval h env e = eval h env' e := by
  induction he with
  | nil | bool | int | float | str => rfl
  | ident p name =>
    rw [names, List.mem_singleton] at henv
    have hname : field? env name = field? env' name := hagree name (by simp [names])
    funext fr
    show pure (nameValue env fr name) = pure (nameValue env' fr name)
    rw [nameValue, nameValue, if_neg (Ne.symm henv), if_neg (Ne.symm henv), hname]
  | chain p _ ih =>
    rw [eval, eval, ih henv hagree]
  | member p o m _ _ ihe ihprop =>
    rw [names, List.mem_append, not_or] at henv
    rw [names, List.forall_mem_append] at hagree
    rw [eval, eval, ihe henv.1 hagree.1, ihprop henv.2 hagree.2]

end Plain

/-! ### Sources -/

/-- The names that occur in a source text of a template; a text that is no expression has none. -/
def sourceNames (source : List Char) : List String :=
  match parse (fun _ => false) source with
  | .ok e => e.names
  | .error _ => []

theorem reported_eq_ok {ε α : Type} {message : ε → String} {r : Except (Located ε) α} {a : α} :
    reported source message r = .ok a ↔ r = .ok a := by
  cases r with
  | error e => simp [reported]
  | ok b => simp [reported]

theorem compile_congr (source : List Char) {e : Expr} (he : Plain e) (henv : "$env" ∉ e.names)
    (hagree : ∀ name ∈ e.names, field? env name = field? env' name) :
    compile source env e = compile source env' e := by
  have htypes : ∀ name ∈ e.names, typesOf env name = typesOf env' name := by
    intro name hname
    rw [typesOf, typesOf, hagree name hname]
  rw [compile, compile, he.infer_congr henv htypes]

theorem eq_of_compile {e e' : Expr} (he : Plain e) (henv : "$env" ∉ e.names)
    (h : compile source env e = .ok e') : e' = e := by
  obtain ⟨⟨t, e₁⟩, hinfer, h⟩ := bind_eq_ok.mp h
  have heq : e₁ = e := he.eq_of_infer henv (reported_eq_ok.mp hinfer)
  have hsimplify : simplify e₁ = .ok e' := reported_eq_ok.mp h
  rw [heq, he.simplify_eq] at hsimplify
  cases hsimplify
  rfl

theorem runCompiled_congr {σ : Type} (h : Host σ) (source : List Char) {e : Expr} (he : Plain e)
    (henv : "$env" ∉ e.names) (hagree : ∀ name ∈ e.names, field? env name = field? env' name)
    (world : σ) : runCompiled h source env e world = runCompiled h source env' e world := by
  rw [runCompiled, runCompiled, he.eval_congr h henv hagree]

theorem runTemplate_of_plain {e : Expr} (hparse : parse (fun _ => false) source = .ok e)
    (hforbidden : forbidden? e = none) (env : Env) :
    runTemplate source env =
      compile source env e >>= fun e => (runCompiled silentHost source env e ()).1 := by
  rw [runTemplate, hparse]
  simp only [reported, bind, Except.bind, hforbidden]

theorem runTemplate_congr (henv : "$env" ∉ sourceNames source)
    (hagree : ∀ name ∈ sourceNames source, field? env name = field? env' name) :
    runTemplate source env = runTemplate source env' := by
  cases hparse : parse (fun _ => false) source with
  | error x => rw [runTemplate, runTemplate, hparse]; rfl
  | ok e =>
    simp only [sourceNames, hparse] at henv hagree
    cases hforbidden : forbidden? e with
    | some part =>
      rw [runTemplate, runTemplate, hparse]
      simp only [reported, bind, Except.bind, hforbidden]
    | none =>
      have he : Plain e := plain_of_forbidden? e hforbidden
      rw [runTemplate_of_plain hparse hforbidden, runTemplate_of_plain hparse hforbidden,
        compile_congr source he henv hagree]
      cases hcompile : compile source env' e with
      | error f => rfl
      | ok e' =>
        have heq : e' = e := eq_of_compile he henv hcompile
        have hrun := runCompiled_congr silentHost source he henv hagree ()
        rw [heq]
        exact congrArg Prod.fst hrun

end Pagesmith.Expr
