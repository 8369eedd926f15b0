import Mathlib.Tactic
import Pagesmith.Page.Render
import Pagesmith.Proofs.Outcome

/-!
# Data cannot bring markup into a page

What a template shows consists of its own literal text, of markup that is trusted, and of data.
Data is escaped wherever it comes from: a text, a number, the elements of a list, or the JSON of a
map, also if that map holds trusted markup.

* `Markup.Escaped s`: no angle bracket and no quote stands in `s`, and every ampersand starts one of
  the five entities.
* `Markup.unescape`: the entities replaced; it undoes `escapeChars` on a text without NUL.
* `Value.trusted`: the trusted markup of a value outside its maps.
* `Markup.Composed ts s`: the text `s` is made of the texts `ts`, in their order, and of escaped
  texts around them.  `Value.composed_shown` says this of what is shown for a value.
* `Page.execute_composed`: every segment of a template is filled with its literal text, or with a
  text that is composed of the trusted markup of its value.
-/

namespace Pagesmith

variable {s : List Char} {e : Char × List Char} {env : Env}

namespace Markup

/-! ### Escaped texts -/

def entities : List (Char × List Char) :=
  [('&', ['&', 'a', 'm', 'p', ';']), ('<', ['&', 'l', 't', ';']), ('>', ['&', 'g', 't', ';']),
    ('"', ['&', '#', '3', '4', ';']), ('\'', ['&', '#', '3', '9', ';'])]

/-- No angle bracket and no quote, and every ampersand starts an entity. -/
structure Escaped (s : List Char) : Prop where
  inert : ∀ c ∈ s, c ∉ ['<', '>', '"', '\'']
  entity : ∀ r, '&' :: r <:+ s → ∃ e ∈ entities, e.2 <+: '&' :: r

theorem Escaped.nil : Escaped [] := ⟨by simp, by simp⟩

theorem Escaped.append {a b : List Char} (ha : Escaped a) (hb : Escaped b) : Escaped (a ++ b) := by
  constructor
  · intro c hc
    exact (List.mem_append.mp hc).elim (ha.inert c) (hb.inert c)
  · rintro r ⟨u, hu⟩
    -- The ampersand stands in `a`, and then its entity does too, or it stands in `b`.
    rcases List.append_eq_append_iff.mp hu with ⟨v, hv, hr⟩ | ⟨v, -, hv⟩
    · cases v with
      | nil => exact hb.entity r ⟨[], hr⟩
      | cons d v =>
        rw [List.cons_append, List.cons.injEq] at hr
        obtain ⟨rfl, rfl⟩ := hr
        obtain ⟨e, he, hstarts⟩ := ha.entity v ⟨u, hv.symm⟩
        exact ⟨e, he, hstarts.trans (List.prefix_append ('&' :: v) b)⟩
    · exact hb.entity r ⟨v, hv.symm⟩

theorem exists_of_mem_entities (he : e ∈ entities) :
    ∃ w, e.2 = '&' :: w ∧ '&' ∉ w ∧ ∀ c ∈ w, c ∉ ['<', '>', '"', '\''] := by
  simp only [entities, List.mem_cons, List.not_mem_nil, or_false] at he
  rcases he with rfl | rfl | rfl | rfl | rfl
  all_goals exact ⟨_, rfl, by decide, by simp⟩

theorem escaped_entity (he : e ∈ entities) : Escaped e.2 := by
  obtain ⟨w, hw, hamp, hinert⟩ := exists_of_mem_entities he
  constructor
  · rw [hw, List.forall_mem_cons]
    exact ⟨by decide, hinert⟩
  · intro r hr
    rw [hw, List.suffix_cons_iff] at hr
    rcases hr with hr | hr
    · refine ⟨e, he, ?_⟩
      rw [hr, ← hw]
    · exact absurd (hr.subset List.mem_cons_self) hamp

theorem escaped_singleton {c : Char} (hc : ∀ e ∈ entities, e.1 ≠ c) : Escaped [c] := by
  simp only [entities, List.forall_mem_cons] at hc
  obtain ⟨hamp, hlt, hgt, hdouble, hsingle, -⟩ := hc
  constructor
  · simp [hlt.symm, hgt.symm, hdouble.symm, hsingle.symm]
  · intro r hr
    have hmem := hr.subset List.mem_cons_self
    exact absurd (List.mem_singleton.mp hmem) hamp

/-- A character becomes its entity, the replacement character, or stays as it is. -/
theorem escapeChar_cases (c : Char) :
    (∃ e ∈ entities, e.1 = c ∧ escapeChar c = e.2) ∨
      (c = '\x00' ∧ escapeChar c = ['�']) ∨
      ((∀ e ∈ entities, e.1 ≠ c) ∧ escapeChar c = [c]) := by
  unfold escapeChar
  split
  · exact .inl ⟨('<', ['&', 'l', 't', ';']), by simp [entities], rfl, rfl⟩
  · exact .inl ⟨('>', ['&', 'g', 't', ';']), by simp [entities], rfl, rfl⟩
  · exact .inl ⟨('&', ['&', 'a', 'm', 'p', ';']), by simp [entities], rfl, rfl⟩
  · exact .inl ⟨('"', ['&', '#', '3', '4', ';']), by simp [entities], rfl, rfl⟩
  · exact .inl ⟨('\'', ['&', '#', '3', '9', ';']), by simp [entities], rfl, rfl⟩
  · exact .inr (.inl ⟨rfl, rfl⟩)
  · refine .inr (.inr ⟨?_, rfl⟩)
    simp_all [entities, eq_comm]

theorem escaped_escapeChar (c : Char) : Escaped (escapeChar c) := by
  rcases escapeChar_cases c with ⟨e, he, -, heq⟩ | ⟨-, heq⟩ | ⟨hc, heq⟩
  · rw [heq]
    exact escaped_entity he
  · rw [heq]
    exact escaped_singleton (by simp [entities])
  · rw [heq]
    exact escaped_singleton hc

theorem escapeChars_cons (c : Char) (s : List Char) :
    escapeChars (c :: s) = escapeChar c ++ escapeChars s := List.flatMap_cons

theorem escaped_escapeChars (s : List Char) : Escaped (escapeChars s) := by
  induction s with
  | nil => exact .nil
  | cons c s ih =>
    rw [escapeChars_cons]
    exact (escaped_escapeChar c).append ih

theorem toList_escape (s : String) : (escape s).toList = escapeChars s.toList :=
  String.toList_ofList

/-! ### Entities replaced -/

theorem length_drop_lt (c : Char) (cs : List Char) (n : Nat) :
    (cs.drop n).length < (c :: cs).length := by
  rw [List.length_drop, List.length_cons]
  omega

def unescape : List Char → List Char
  | [] => []
  | c :: cs =>
    match entities.find? fun e => e.2.isPrefixOf (c :: cs) with
    | some e => e.1 :: unescape (cs.drop (e.2.length - 1))
    | none => c :: unescape cs
termination_by s => s.length
decreasing_by
  · exact length_drop_lt c cs _
  · exact Nat.lt_succ_self _

theorem unescape_nil : unescape [] = [] := by rw [unescape]

theorem unescape_entity (he : e ∈ entities) (s : List Char) :
    unescape (e.2 ++ s) = e.1 :: unescape s := by
  simp only [entities, List.mem_cons, List.not_mem_nil, or_false] at he
  rcases he with rfl | rfl | rfl | rfl | rfl
  all_goals
    rw [List.cons_append, unescape]
    simp [entities]

theorem unescape_cons {c : Char} (hc : c ≠ '&') (s : List Char) :
    unescape (c :: s) = c :: unescape s := by
  have hnone : entities.find? (fun e => e.2.isPrefixOf (c :: s)) = none := by
    rw [List.find?_eq_none]
    intro e he
    obtain ⟨w, hw, -, -⟩ := exists_of_mem_entities he
    simp [hw, hc.symm]
  rw [unescape, hnone]

/-- **Escaping loses nothing** of a text without NUL. -/
theorem unescape_escapeChars (hs : '\x00' ∉ s) : unescape (escapeChars s) = s := by
  induction s with
  | nil => exact unescape_nil
  | cons c s ih =>
    rw [List.mem_cons, not_or] at hs
    rw [escapeChars_cons]
    rcases escapeChar_cases c with ⟨e, he, hchar, heq⟩ | ⟨hnul, -⟩ | ⟨hc, heq⟩
    · rw [heq, unescape_entity he, hchar, ih hs.2]
    · exact absurd hnul.symm hs.1
    · have hamp : c ≠ '&' := (hc _ List.mem_cons_self).symm
      rw [heq, List.singleton_append, unescape_cons hamp, ih hs.2]

/-! ### Texts composed of trusted and of escaped ones -/

/-- A text that is made of the given texts, in their order, and of escaped texts around them. -/
inductive Composed : List (List Char) → List Char → Prop where
  | nil : Composed [] []
  | verbatim {ts : List (List Char)} {s : List Char} (t : List Char) (hs : Composed ts s) :
      Composed (t :: ts) (t ++ s)
  | data {ts : List (List Char)} {t s : List Char} (ht : Escaped t) (hs : Composed ts s) :
      Composed ts (t ++ s)

theorem composed_of_escaped (h : Escaped s) : Composed [] s := by
  rw [← List.append_nil s]
  exact .data h .nil

theorem Composed.append {ts us : List (List Char)} {r : List Char} (hs : Composed ts s)
    (hr : Composed us r) : Composed (ts ++ us) (s ++ r) := by
  induction hs with
  | nil => exact hr
  | verbatim t _ ih =>
    rw [List.append_assoc]
    exact .verbatim t ih
  | data ht _ ih =>
    rw [List.append_assoc]
    exact .data ht ih

theorem Composed.escaped (h : Composed [] s) : Escaped s := by
  generalize hts : ([] : List (List Char)) = ts at h
  induction h with
  | nil => exact .nil
  | verbatim t _ _ => cases hts
  | data ht _ ih => exact ht.append (ih hts)

end Markup

/-! ### Values -/

namespace Value

open Markup

mutual

/-- The trusted markup of a value that stands outside its maps, in the order of the lists. -/
def trusted : Value → List (List Char)
  | .markup s => [s.toList]
  | .list _ items => trustedItems items
  | _ => []

def trustedItems : List Value → List (List Char)
  | [] => []
  | v :: vs => trusted v ++ trustedItems vs

end

theorem composed_escape (s : String) : Composed [] (escape s).toList := by
  rw [toList_escape]
  exact composed_of_escaped (escaped_escapeChars s.toList)

theorem ne_nil_of_shownItems {v : Value} {vs : List Value} {texts : List String}
    (h : shownItems (v :: vs) = .ok texts) : texts ≠ [] := by
  rw [shownItems, bind_eq_ok] at h
  obtain ⟨text, -, h⟩ := h
  rw [bind_eq_ok] at h
  obtain ⟨rest, -, h⟩ := h
  cases h
  simp

mutual

/-- **What is shown for a value** is its trusted markup, and escaped text around it. -/
theorem composed_shown : ∀ (v : Value) {s : String}, v.shown = .ok s →
    Composed v.trusted s.toList := by
  intro v s h
  cases v with
  | nil =>
    cases h
    exact .nil
  | markup t =>
    cases h
    have hcomposed := Composed.verbatim s.toList .nil
    rwa [List.append_nil] at hcomposed
  | list kind items =>
    rw [shown, bind_eq_ok] at h
    obtain ⟨texts, htexts, h⟩ := h
    cases h
    exact composed_shownItems items htexts
  | map fields =>
    rw [shown, bind_eq_ok] at h
    obtain ⟨text, -, h⟩ := h
    cases h
    exact composed_escape text
  | str t | described t | bool b | int n | float x | func f =>
    cases h
    exact composed_escape _

theorem composed_shownItems : ∀ (vs : List Value) {texts : List String},
    shownItems vs = .ok texts → Composed (trustedItems vs) (",".intercalate texts).toList := by
  intro vs texts h
  cases vs with
  | nil =>
    cases h
    exact .nil
  | cons v vs =>
    rw [shownItems, bind_eq_ok] at h
    obtain ⟨text, htext, h⟩ := h
    rw [bind_eq_ok] at h
    obtain ⟨rest, hrest, h⟩ := h
    cases h
    have hv := composed_shown v htext
    have hvs := composed_shownItems vs hrest
    rw [trustedItems]
    cases vs with
    | nil =>
      cases hrest
      rw [trustedItems, List.append_nil, String.intercalate_singleton]
      exact hv
    | cons w ws =>
      have hcomma : Composed [] ",".toList :=
        composed_of_escaped (escaped_singleton (c := ',') (by simp [entities]))
      rw [String.intercalate_cons_of_ne_nil (ne_nil_of_shownItems hrest), String.toList_append,
        String.toList_append, List.append_assoc]
      exact hv.append (hcomma.append hvs)

end

end Value

/-! ### Templates -/

namespace Page

open Pagesmith.Expr (Env)

/-- What can stand in the place of a segment: its literal text, or what is shown for the value of
its expression, where only the trusted markup of the value is not escaped. -/
inductive Fills (env : Env) : Segment → String → Prop where
  | text (s : List Char) : Fills env (.text s) (String.ofList s)
  | expr {source raw : List Char} {v : Value} {s : String}
      (hv : Expr.runTemplate source env = .ok v) (hs : v.shown = .ok s)
      (hcomposed : Markup.Composed v.trusted s.toList) : Fills env (.expr source raw) s

theorem shownExpr_eq_ok {source : List Char} {s : String} :
    shownExpr env source = .ok s ↔
      ∃ v, Expr.runTemplate source env = .ok v ∧ v.shown = .ok s := by
  rw [shownExpr]
  split
  · next hv => simp [hv]
  · next hv => simp [hv]
  · next v hv =>
    cases hs : v.shown <;> simp [hv, hs, Except.mapError]

theorem shownSegment_eq_ok {seg : Segment} {s : String} :
    shownSegment env seg = .ok s ↔ Fills env seg s := by
  cases seg with
  | text t =>
    constructor
    · intro h
      cases h
      exact .text t
    · rintro ⟨⟩
      rfl
  | expr source raw =>
    rw [shownSegment, shownExpr_eq_ok]
    constructor
    · rintro ⟨v, hv, hs⟩
      exact .expr hv hs (v.composed_shown hs)
    · rintro (_ | ⟨hv, hs, -⟩)
      exact ⟨_, hv, hs⟩

theorem execute_eq_ok {t : Template} {out : String} :
    t.execute env = .ok out ↔
      ∃ texts, List.Forall₂ (Fills env) t.segments texts ∧ out = String.join texts := by
  simp only [Template.execute, bind_eq_ok, mapM_eq_ok, shownSegment_eq_ok]
  refine exists_congr fun texts => and_congr_right fun _ => ?_
  constructor
  · intro h
    cases h
    rfl
  · rintro rfl
    rfl

/-- **Data cannot bring markup into a page.**  What is shown for a value without trusted markup
outside its maps is escaped, and a text can be recovered from what is shown for it.  The output of a
template is made of its literal texts and of what is shown for its values, where all but the trusted
markup of a value is escaped. -/
theorem execute_composed :
    (∀ (v : Value) (s : String), v.trusted = [] → v.shown = .ok s → Markup.Escaped s.toList) ∧
    (∀ s : String, '\x00' ∉ s.toList →
      ∃ u, (Value.str s).shown = .ok u ∧ Markup.unescape u.toList = s.toList) ∧
    ∀ (t : Template) (env : Env) (out : String), t.execute env = .ok out ↔
      ∃ texts, List.Forall₂ (Fills env) t.segments texts ∧ out = String.join texts := by
  refine ⟨fun v s htrusted hs => ?_, fun s hnul => ?_, fun t env out => execute_eq_ok⟩
  · have hcomposed := v.composed_shown hs
    rw [htrusted] at hcomposed
    exact hcomposed.escaped
  · refine ⟨Markup.escape s, rfl, ?_⟩
    rw [Markup.toList_escape, Markup.unescape_escapeChars hnul]

/-- Markup in a map is data, and markup in a list is trusted. -/
theorem execute_composed_list :
    let v : Value := .array [.str "<a b='\"&", .map [("k", .markup "<i>")], .array [.nil]]
    let t : Template := ⟨[.text "<b>".toList, .expr "d.m".toList "\x7bd.m\x7d".toList]⟩
    let env : Env := [("d", .map [("m",
      .array [.markup "<i>", .map [("k", .markup "<i>")], .str "<"])])]
    let out : String := "<b><i>,\x7b&#34;k&#34;:&#34;\\u003ci\\u003e&#34;\x7d,&lt;"
    (v.trusted = [] ∧ ∃ s, v.shown = .ok s ∧ Markup.Escaped s.toList) ∧
      ('\x00' ∉ "<a b='\"&".toList ∧ ∃ u, (Value.str "<a b='\"&").shown = .ok u ∧
        Markup.unescape u.toList = "<a b='\"&".toList) ∧
      t.execute env = .ok out ∧
        ∃ texts, List.Forall₂ (Fills env) t.segments texts ∧ out = String.join texts := by
  intro v t env out
  obtain ⟨hescaped, hrecovered, hfilled⟩ := execute_composed
  have htrusted : v.trusted = [] := rfl
  obtain ⟨s, hs⟩ : ∃ s, v.shown = .ok s := ⟨_, rfl⟩
  have hnul : '\x00' ∉ "<a b='\"&".toList := by decide
  have hout : t.execute env = .ok out := by decide +kernel
  exact ⟨⟨htrusted, s, hs, hescaped v s htrusted hs⟩, ⟨hnul, hrecovered _ hnul⟩, hout,
    (hfilled t env out).mp hout⟩

end Page

end Pagesmith
