import Pagesmith.Proofs.Html.Lexeme
import Pagesmith.Proofs.Text.Field

/-!
# One tag among lexemes

A start tag can be exchanged for another one of the same element, and the lexemes around it stay as
they are: those before it end where a tag starts, and those behind it depend on the element only.

* `alike_of_tag`: texts that agree up to the start of a tag.
* `lexemesFrom_exchange`: a tag exchanged for another one.
* `fields_read`: the words of the value of an attribute.
-/

namespace Pagesmith.Html

open Pagesmith.Text

variable {s : List Char}

/-! ### A tag exchanged -/

theorem length_le_of_closesHere {name : String} (hname : name ∈ rawElements) {w : List Char}
    {d : Char} (hd : isLetter d = true) (h : closesHere name.toList (w ++ '<' :: d :: s) = true) :
    name.toList.length + 3 ≤ w.length := by
  obtain ⟨t, heq, hnames⟩ := eq_of_closesHere h
  rw [namesHere, Bool.and_eq_true] at hnames
  obtain ⟨hfold, hends⟩ := hnames
  by_contra hlong
  cases w with
  | nil =>
    rw [List.nil_append, List.cons.injEq, List.cons.injEq] at heq
    rw [heq.2.1] at hd
    cases hd
  | cons a w =>
    cases w with
    | nil =>
      rw [List.cons_append, List.cons.injEq, List.nil_append, List.cons.injEq] at heq
      exact absurd heq.2.1 (by decide)
    | cons b w =>
      rw [List.cons_append, List.cons_append, List.cons.injEq, List.cons.injEq] at heq
      obtain ⟨-, -, rfl⟩ := heq
      rw [List.length_cons, List.length_cons, not_le] at hlong
      by_cases hlen : w.length < name.toList.length
      · have hmem : '<' ∈ (w ++ '<' :: d :: s).take name.toList.length := by
          rw [List.take_append, List.mem_append]
          refine .inr ?_
          obtain ⟨k, hk⟩ : ∃ k, name.toList.length - w.length = k + 1 :=
            ⟨name.toList.length - w.length - 1, by omega⟩
          rw [hk, List.take_succ_cons]
          exact List.mem_cons_self
        rw [eqFold_of_mem hmem (not_mem_of_rawElements hname rfl)] at hfold
        cases hfold
      · obtain hlen : name.toList.length = w.length := by omega
        rw [hlen, List.drop_left] at hends
        cases hends

/-- **Texts that agree up to the start of a tag** end a lexeme before them in the same way. -/
theorem alike_of_tag {d : Char} (hd : isLetter d = true) (w s t : List Char) :
    Alike (w ++ '<' :: d :: s) (w ++ '<' :: d :: t) where
  nil := by
    intro h
    cases w <;> cases h
  tag := by
    intro h
    cases w with
    | nil => exact h
    | cons a w =>
      obtain ⟨c, r, heq, hc⟩ := eq_of_tagHere h
      obtain ⟨rfl, hnext⟩ := List.cons.inj heq
      cases w with
      | nil =>
        obtain ⟨rfl, -⟩ := List.cons.inj hnext
        cases hc
      | cons b w =>
        obtain ⟨rfl, -⟩ := List.cons.inj hnext
        exact hc
  closes := by
    intro name hname h
    have hlen := length_le_of_closesHere hname hd h
    rw [List.take_append_of_le_length hlen, List.take_append_of_le_length hlen]

theorem exists_read_of_cons {inside : Option (List Char)}
    (hinside : ∀ name, inside = some name → String.ofList name ∈ rawElements) {x : Lexeme}
    {xs : List Lexeme} (h : lexemesFrom inside s = x :: xs) :
    ∃ c u rest, s = c :: (u ++ rest) ∧ x.raw = c :: u ∧
      lexemesFrom x.token.rawElement? rest = xs ∧
      readToken inside c (u ++ rest) = some (x.token, u.length) ∧
      ∀ t, Alike rest t → readToken inside c (u ++ t) = some (x.token, u.length) := by
  cases s with
  | nil =>
    rw [lexemesFrom_nil] at h
    cases h
  | cons c cs =>
    cases hread : readToken inside c cs with
    | none =>
      rw [lexemesFrom_of_none hread] at h
      cases h
    | some read =>
      obtain ⟨token, n⟩ := read
      obtain ⟨u, rest, rfl, rfl, -, hlocal⟩ := readToken_alike hinside hread
      rw [lexemesFrom_append hread] at h
      obtain ⟨rfl, rfl⟩ := List.cons.inj h
      exact ⟨c, u, rest, rfl, rfl, rfl, hread, hlocal⟩

/-- **A start tag exchanged for another one of its element.**  Its first letter stays, which tells
the lexeme before it that a tag starts. -/
theorem lexemesFrom_exchange {inside : Option (List Char)}
    (hinside : ∀ name, inside = some name → String.ofList name ∈ rawElements) {xs ys : List Lexeme}
    {name v : List Char} {attributes : List Attribute} {closing : Bool}
    (h : lexemesFrom inside s = xs ++ ⟨.startTag name attributes closing, '<' :: v⟩ :: ys) :
    ∃ d v' rest, v = d :: v' ∧ isLetter d = true ∧ s = xs.flatMap (·.raw) ++ '<' :: (v ++ rest) ∧
      ∀ w nm ws, TagOf (d :: w) nm ws → nm.map lowerAscii = name →
        ∃ closing', lexemesFrom inside (xs.flatMap (·.raw) ++ '<' :: (d :: w ++ rest))
          = xs ++ ⟨.startTag name (ws.map Written.read) closing', '<' :: d :: w⟩ :: ys := by
  induction xs generalizing inside s with
  | nil =>
    obtain ⟨c, u, rest, rfl, hraw, rfl, hread, -⟩ := exists_read_of_cons hinside h
    obtain ⟨rfl, rfl⟩ := List.cons.inj hraw
    obtain ⟨rfl, -, ⟨d, r, hhead, hd⟩, hmarkup⟩ := readToken_startTag hread
    obtain ⟨v', rfl⟩ : ∃ v', v = d :: v' := by
      cases v with
      | nil =>
        obtain ⟨nm, ws, htag, -, -⟩ := tagOf_of_readMarkup hmarkup
        exact absurd rfl htag.ne_nil
      | cons e v => exact ⟨v, by rw [(List.cons.inj hhead).1]⟩
    refine ⟨d, v', rest, rfl, hd, rfl, ?_⟩
    rintro w nm ws htag rfl
    exact htag.lexemesFrom_append hd rest
  | cons x xs ih =>
    obtain ⟨c, u, rest, rfl, hraw, hrest, -, hlocal⟩ := exists_read_of_cons hinside h
    obtain ⟨d, v', rest, rfl, hd, rfl, hexchange⟩ := ih (fun _ => mem_of_rawElement?) hrest
    refine ⟨d, v', rest, rfl, hd, by simp [hraw], fun w nm ws htag hname => ?_⟩
    obtain ⟨closing', hlexemes⟩ := hexchange w nm ws htag hname
    refine ⟨closing', ?_⟩
    have hagain := hlocal (xs.flatMap (·.raw) ++ '<' :: (d :: w ++ rest))
      (alike_of_tag hd _ _ _)
    rw [List.flatMap_cons, hraw, List.append_assoc, List.cons_append,
      lexemesFrom_append hagain, hlexemes, ← hraw]
    rfl

/-! ### Words of a value -/

theorem unescape_of_not_mem (place : Place) (h : '&' ∉ s) : unescape place s = s := by
  induction s with
  | nil => rw [unescape]
  | cons c s ih =>
    rw [List.mem_cons, not_or] at h
    rw [unescape, if_neg (Ne.symm h.1), ih h.2]

theorem mem_of_mem_unifyLines {c : Char} (hc : c ≠ '\n') (h : c ∈ unifyLines s) : c ∈ s := by
  induction s using unifyLines.induct with
  | case1 => cases h
  | case2 s ih =>
    rw [unifyLines] at h
    simpa [hc] using .inr (ih ((List.mem_cons.mp h).resolve_left hc))
  | case3 d s hnot ih =>
    rw [unifyLines.eq_3 _ _ hnot] at h
    rcases List.mem_cons.mp h with heq | h
    · split at heq
      · exact absurd heq hc
      · rw [heq]
        exact List.mem_cons_self
    · exact List.mem_cons_of_mem _ (ih h)

theorem fields_unifyLines (s : List Char) : fields (unifyLines s) = fields s := by
  -- the first word is the same, and so are the later ones without those that are empty
  have hsplit : (splitWhere isBlank (unifyLines s)).1 = (splitWhere isBlank s).1 ∧
      (splitWhere isBlank (unifyLines s)).2.filter (!·.isEmpty)
        = (splitWhere isBlank s).2.filter (!·.isEmpty) := by
    induction s using unifyLines.induct with
    | case1 => exact ⟨rfl, rfl⟩
    | case2 s ih =>
      rw [unifyLines, splitWhere_cons_of_pos (by decide), splitWhere_cons_of_pos (by decide),
        splitWhere_cons_of_pos (by decide)]
      refine ⟨rfl, ?_⟩
      rw [List.filter_cons, List.filter_cons, List.filter_cons, ih.1, ih.2]
      rfl
    | case3 c s hnot ih =>
      have hsame : isBlank (if c = '\r' then '\n' else c) = isBlank c := by
        split
        · next hc => rw [hc]; rfl
        · rfl
      rw [unifyLines.eq_3 _ _ hnot]
      cases hc : isBlank c with
      | true =>
        rw [splitWhere_cons_of_pos (hsame.trans hc), splitWhere_cons_of_pos hc]
        refine ⟨rfl, ?_⟩
        rw [List.filter_cons, List.filter_cons, ih.1, ih.2]
      | false =>
        have hplain : c ≠ '\r' := by
          rintro rfl
          cases hc
        rw [if_neg hplain, splitWhere_cons_of_neg hc, splitWhere_cons_of_neg hc]
        exact ⟨by rw [ih.1], ih.2⟩
  rw [fields_eq, fields_eq, List.filter_cons, List.filter_cons, hsplit.1, hsplit.2]

/-- **The words of the value of an attribute** without references are those that are written. -/
theorem fields_read {w : Written} (h : '&' ∉ w.value) : fields w.read.value = fields w.value := by
  have hplain : '&' ∉ unifyLines w.value := fun hmem => h (mem_of_mem_unifyLines (by decide) hmem)
  rw [Written.read, unescape_of_not_mem _ hplain, fields_unifyLines]

end Pagesmith.Html
