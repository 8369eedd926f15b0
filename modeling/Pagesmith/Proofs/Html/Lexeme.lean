import Pagesmith.Proofs.Html.Tag

/-!
# Lexemes on their own

Where a lexeme ends depends on its own characters and on how the text goes on right behind it: a
text ends before the next tag, and the text of an element such as `<style>` before the end tag of
the element.  A lexeme is therefore read in the same way from any text that goes on alike.

* `Alike`: texts that end the lexeme before them in the same way.
* `readMarkup_alike`: tags, comments and declarations.
* `rawTextLength_alike`: the text of an element without tags.
* `readToken_alike`: a token is read from its own characters.
-/

namespace Pagesmith.Html

open Pagesmith.Text

variable {cs name rest s t u v x : List Char} {c : Char} {dashes n : Nat} {ws : List Written}
  {inside : Option (List Char)} {token : Token} {closing : Bool} {part : ScriptPart}

structure Alike (s t : List Char) : Prop where
  nil : s = [] → t = []
  tag : tagHere s = true → tagHere t = true
  closes : ∀ name ∈ rawElements, closesHere name.toList s = true →
    t.take (name.toList.length + 3) = s.take (name.toList.length + 3)

/-! ### Tags, comments and declarations -/

/-- A tag, a comment or a declaration ends with its bracket, or where the text ends. -/
def Ended (u rest : List Char) : Prop := u.getLast? = some '>' ∨ rest = []

theorem Ended.cons (h : Ended u rest) (c : Char) : Ended (c :: u) rest := by
  refine h.imp_left fun h => ?_
  rw [List.getLast?_cons, h]
  rfl

theorem Ended.mem_or (h : Ended u rest) : '>' ∈ u ∨ rest = [] :=
  h.imp_left List.mem_of_getLast?

theorem commentLength_alike (fresh : Bool) (dashes : Nat) (s : List Char) :
    ∃ u rest, s = u ++ rest ∧ u.length = commentLength fresh dashes s ∧ Ended u rest ∧
      ∀ t, (rest = [] → t = []) → commentLength fresh dashes (u ++ t) = u.length := by
  fun_induction commentLength fresh dashes s with
  | case1 fresh dashes =>
    exact ⟨[], [], rfl, rfl, .inr rfl, fun t ht => by
      rw [ht rfl, List.append_nil, commentLength]
      rfl⟩
  | case2 fresh dashes cs ih =>
    obtain ⟨u, rest, rfl, hlen, hend, hlocal⟩ := ih
    exact ⟨'-' :: u, rest, rfl, by rw [List.length_cons, hlen], hend.cons _,
      fun t ht => by rw [List.cons_append, commentLength, hlocal t ht, List.length_cons]⟩
  | case3 fresh dashes cs h =>
    exact ⟨['!', '>'], cs, rfl, rfl, .inl rfl, fun t _ => by simp [commentLength, h]⟩
  | case4 fresh dashes cs h ih =>
    obtain ⟨u, rest, rfl, hlen, hend, hlocal⟩ := ih
    exact ⟨'!' :: '>' :: u, rest, rfl, by simp [hlen], (hend.cons _).cons _,
      fun t ht => by simp [commentLength, h, hlocal t ht]⟩
  | case5 fresh dashes cs ih =>
    obtain ⟨u, rest, rfl, hlen, hend, hlocal⟩ := ih
    exact ⟨'!' :: '-' :: u, rest, rfl, by simp [hlen], (hend.cons _).cons _,
      fun t ht => by simp [commentLength, hlocal t ht]⟩
  | case6 fresh dashes c cs hdash hclose hopen h =>
    have hc : c = '>' := by simp only [Bool.and_eq_true, decide_eq_true_eq] at h; exact h.1
    refine ⟨[c], cs, rfl, rfl, .inl (by simp [hc]), fun t _ => ?_⟩
    rw [List.singleton_append, commentLength.eq_5, if_pos h]
    · rfl
    · exact hdash
    · exact fun _ hbang => by simp [hc] at hbang
    · exact fun _ hbang => by simp [hc] at hbang
  | case7 fresh dashes c cs hdash hclose hopen h ih =>
    obtain ⟨u, rest, rfl, hlen, hend, hlocal⟩ := ih
    refine ⟨c :: u, rest, rfl, by rw [List.length_cons, hlen], hend.cons _, fun t ht => ?_⟩
    have hhead : (u ++ t).head? = (u ++ rest).head? := by
      cases u with
      | nil =>
        obtain rfl := hend.resolve_left (by simp)
        rw [ht rfl]
      | cons d u => rfl
    rw [List.cons_append, commentLength.eq_5 _ _ _ _ hdash, if_neg h, hlocal t ht, List.length_cons]
    · intro cs' hbang hcs
      rw [hcs] at hhead
      obtain ⟨cs'', hcs''⟩ := List.head?_eq_some_iff.mp hhead.symm
      exact hclose cs'' hbang hcs''
    · intro cs' hbang hcs
      rw [hcs] at hhead
      obtain ⟨cs'', hcs''⟩ := List.head?_eq_some_iff.mp hhead.symm
      exact hopen cs'' hbang hcs''

theorem bracketLength_alike (s : List Char) :
    ∃ u rest, s = u ++ rest ∧ u.length = bracketLength s ∧ Ended u rest ∧
      ∀ t, (rest = [] → t = []) → bracketLength (u ++ t) = u.length := by
  obtain ⟨v, rest, rfl, htake, hdrop, hv, hrest⟩ := exists_takeWhile (· != '>') s
  cases rest with
  | nil =>
    have hall : bracketLength (v ++ []) = v.length := by
      rw [bracketLength, htake, List.append_nil, if_neg (Nat.lt_irrefl _)]
    exact ⟨v, [], rfl, hall.symm, .inr rfl, fun t ht => by rw [ht rfl, hall]⟩
  | cons c rest =>
    obtain rfl : c = '>' := by simpa using hrest c rfl
    have hbracket : ∀ t, bracketLength (v ++ '>' :: t) = v.length + 1 := by
      intro t
      rw [bracketLength, takeWhile_value hv (by simp)]
      simp
    exact ⟨v ++ ['>'], rest, by simp, by simp [hbracket], .inl (by simp),
      fun t _ => by simp [hbracket]⟩

theorem eqFold_of_mem (hc : c ∈ s) (hname : lowerAscii c ∉ name.map lowerAscii) :
    eqFold s name = false := by
  rw [eqFold, beq_eq_false_iff_ne]
  intro heq
  exact hname (heq ▸ List.mem_map_of_mem hc)

theorem eqFold_take_alike (hu : Ended u rest) (ht : rest = [] → t = []) :
    eqFold ((u ++ t).take 7) "doctype".toList = eqFold ((u ++ rest).take 7) "doctype".toList := by
  rcases hu.mem_or with hu | hrest
  · by_cases hlen : 7 ≤ u.length
    · rw [List.take_append_of_le_length hlen, List.take_append_of_le_length hlen]
    · have hmem : ∀ r, '>' ∈ (u ++ r).take 7 := by
        intro r
        rw [List.take_append, List.take_of_length_le (by omega)]
        exact List.mem_append_left _ hu
      rw [eqFold_of_mem (hmem t) (by decide), eqFold_of_mem (hmem rest) (by decide)]
  · rw [hrest, ht hrest]

theorem readMarkup_bang (h : ¬ ['-', '-'] <+: s) :
    readMarkup ('!' :: s) = some (if eqFold (s.take 7) "doctype".toList then .doctype else .comment,
      bracketLength s + 1) := by
  rw [readMarkup]
  rintro rest rfl
  exact h ⟨rest, rfl⟩

/-- Two hyphens start a text that goes on alike if and only if they start the other. -/
theorem hyphens_alike (hu : Ended u rest) (ht : rest = [] → t = [])
    (h : ¬ ['-', '-'] <+: u ++ rest) :
    ¬ ['-', '-'] <+: u ++ t := by
  rcases hu.mem_or with hu | hrest
  · cases u with
    | nil => cases hu
    | cons c u =>
      cases u with
      | nil =>
        obtain rfl : '>' = c := by simpa using hu
        simp
      | cons d u => simpa using h
  · rw [hrest] at h
    rwa [ht hrest]

theorem TagOf.ne_nil (h : TagOf s name ws) : s ≠ [] := by
  obtain ⟨-, -, hu⟩ := h
  simp [hu.ne_nil]

theorem TagOf.getLast? (h : TagOf s name ws) : s.getLast? = some '>' := by
  obtain ⟨-, -, hu⟩ := h
  rw [List.getLast?_append, hu.getLast?]
  rfl

theorem TagOf.readTag_append (h : TagOf s name ws) (t : List Char) :
    readTag (s ++ t) = some (name.map lowerAscii, ws.map Written.read, t) :=
  readTag_eq_some_iff.mpr ⟨s, name, ws, rfl, h, rfl, rfl⟩

theorem TagOf.readMarkup_end (h : TagOf (c :: v) name ws) (hc : isLetter c = true) (t : List Char) :
    readMarkup ('/' :: (c :: v ++ t))
      = some (.endTag (name.map lowerAscii), (c :: v).length + 1) := by
  rw [List.cons_append, readMarkup]
  simp only [hc, if_true]
  rw [← List.cons_append, h.readTag_append, Option.map_some]
  simp only [List.length_cons, List.length_append]
  congr 2
  omega

theorem TagOf.readMarkup_start (h : TagOf (c :: v) name ws) (hbang : c ≠ '!') (hmark : c ≠ '?')
    (hslash : c ≠ '/') (t : List Char) :
    readMarkup (c :: v ++ t) = some (.startTag (name.map lowerAscii) (ws.map Written.read)
      ((c :: v).dropLast.getLast? = some '/'), (c :: v).length) := by
  rw [readMarkup.eq_def]
  split
  · next heq => exact absurd (List.cons.inj heq).1 hbang
  · next heq => exact absurd (List.cons.inj heq).1 hbang
  · next heq => exact absurd (List.cons.inj heq).1 hmark
  · next heq => exact absurd (List.cons.inj heq).1 hslash
  · have hlen : (c :: v ++ t).length - t.length = (c :: v).length := by
      rw [List.length_append, Nat.add_sub_cancel]
    rw [h.readTag_append, Option.map_some]
    simp only [hlen, List.take_left]

/-- **Tags, comments and declarations** are read from their own characters. -/
theorem readMarkup_alike (h : readMarkup s = some (token, n)) :
    ∃ u rest, s = u ++ rest ∧ u.length = n ∧ u ≠ [] ∧ Ended u rest ∧
      ∀ t, (rest = [] → t = []) → readMarkup (u ++ t) = some (token, n) := by
  rw [readMarkup.eq_def] at h
  split at h
  · next r =>
    obtain ⟨u, rest, rfl, hlen, hend, hlocal⟩ := commentLength_alike true 0 r
    obtain ⟨rfl, rfl⟩ := Prod.mk.inj (Option.some.inj h)
    refine ⟨'!' :: '-' :: '-' :: u, rest, rfl, by simp [hlen], by simp,
      ((hend.cons _).cons _).cons _, fun t ht => ?_⟩
    rw [List.cons_append, List.cons_append, List.cons_append, readMarkup, hlocal t ht, hlen]
  · next r hhyphens =>
    obtain ⟨u, rest, rfl, hlen, hend, hlocal⟩ := bracketLength_alike r
    obtain ⟨rfl, rfl⟩ := Prod.mk.inj (Option.some.inj h)
    have hnot : ¬ ['-', '-'] <+: u ++ rest := by
      rintro ⟨r, hr⟩
      exact hhyphens r hr.symm
    refine ⟨'!' :: u, rest, rfl, by simp [hlen], by simp, hend.cons _, fun t ht => ?_⟩
    rw [List.cons_append, readMarkup_bang (hyphens_alike hend ht hnot), eqFold_take_alike hend ht,
      hlocal t ht, hlen]
  · next r =>
    obtain ⟨u, rest, rfl, hlen, hend, hlocal⟩ := bracketLength_alike r
    obtain ⟨rfl, rfl⟩ := Prod.mk.inj (Option.some.inj h)
    refine ⟨'?' :: u, rest, rfl, by simp [hlen], by simp, hend.cons _, fun t ht => ?_⟩
    rw [List.cons_append, readMarkup, hlocal t ht, hlen]
  · next r =>
    cases r with
    | nil =>
      obtain ⟨rfl, rfl⟩ := Prod.mk.inj (Option.some.inj h)
      exact ⟨['/'], [], rfl, rfl, by simp, .inr rfl, fun t ht => by rw [ht rfl]; rfl⟩
    | cons c r =>
      simp only at h
      split at h
      · next hc =>
        obtain ⟨⟨name, attributes, rest⟩, hread, heq⟩ := Option.map_eq_some_iff.mp h
        obtain ⟨v, nm, ws, hsplit, hv, rfl, rfl⟩ := readTag_eq_some_iff.mp hread
        obtain ⟨d, v, rfl⟩ := List.exists_cons_of_ne_nil hv.ne_nil
        obtain ⟨rfl, rfl⟩ := List.cons.inj hsplit
        have hn : n = (c :: v).length + 1 := by
          rw [← (Prod.mk.inj heq).2]
          simp only [List.length_cons, List.append_eq, List.length_append]
          omega
        refine ⟨'/' :: c :: v, rest, rfl, hn.symm, by simp, Ended.cons (.inl hv.getLast?) _,
          fun t _ => ?_⟩
        rw [List.cons_append, hv.readMarkup_end hc, hn, ← (Prod.mk.inj heq).1]
      · next hc =>
        obtain ⟨u, rest, hsplit, hlen, hend, hlocal⟩ := bracketLength_alike (c :: r)
        obtain ⟨rfl, rfl⟩ := Prod.mk.inj (Option.some.inj h)
        have hu : u ≠ [] := by
          rintro rfl
          rcases hend with hend | rfl
          · cases hend
          · cases hsplit
        obtain ⟨d, u, rfl⟩ := List.exists_cons_of_ne_nil hu
        obtain ⟨rfl, rfl⟩ := List.cons.inj hsplit
        refine ⟨'/' :: c :: u, rest, rfl, by rw [← hlen]; rfl, by simp, hend.cons _,
          fun t ht => ?_⟩
        have hagain := hlocal t ht
        rw [List.cons_append] at hagain
        rw [List.cons_append, List.cons_append, readMarkup]
        simp only [hc, hagain, hlen]
        rfl
  · next _ hbang hmark hslash =>
    obtain ⟨⟨name, attributes, rest⟩, hread, heq⟩ := Option.map_eq_some_iff.mp h
    obtain ⟨v, nm, ws, rfl, hv, rfl, rfl⟩ := readTag_eq_some_iff.mp hread
    obtain ⟨c, v, rfl⟩ := List.exists_cons_of_ne_nil hv.ne_nil
    have hagain := fun t => hv.readMarkup_start (by rintro rfl; exact hbang _ rfl)
      (by rintro rfl; exact hmark _ rfl) (by rintro rfl; exact hslash _ rfl) t
    have hlen : (c :: v ++ rest).length - rest.length = (c :: v).length := by
      rw [List.length_append, Nat.add_sub_cancel]
    simp only [hlen, List.take_left] at heq
    obtain ⟨rfl, rfl⟩ := Prod.mk.inj heq
    exact ⟨c :: v, rest, rfl, rfl, by simp, .inl hv.getLast?, fun t _ => hagain t⟩

/-! ### Text -/

theorem tagHere_cons_of_ne (h : c ≠ '<') (s : List Char) : tagHere (c :: s) = false := by
  rw [tagHere.eq_def]
  split
  · next heq => exact absurd (List.cons.inj heq).1 h
  · rfl

theorem eq_of_tagHere (h : tagHere s = true) : ∃ c t, s = '<' :: c :: t ∧ opensTag c = true := by
  rw [tagHere.eq_def] at h
  split at h
  · next c t => exact ⟨c, t, rfl, h⟩
  · cases h

/-- A text that ends before a tag, or at the end, has no tag at its own start. -/
theorem tagHere_alike (hu : u ≠ []) (hrest : rest = [] ∨ tagHere rest = true)
    (h : tagHere (u ++ rest) = false) (hnil : rest = [] → t = [])
    (htag : tagHere rest = true → tagHere t = true) : tagHere (u ++ t) = false := by
  obtain ⟨c, u, rfl⟩ := List.exists_cons_of_ne_nil hu
  cases u with
  | nil =>
    rcases hrest with hrest | hrest
    · rw [hnil hrest]
      by_cases hc : c = '<'
      · rw [hc]; rfl
      · exact tagHere_cons_of_ne hc []
    · obtain ⟨d, t, rfl, -⟩ := eq_of_tagHere (htag hrest)
      by_cases hc : c = '<'
      · rw [hc]; rfl
      · exact tagHere_cons_of_ne hc _
  | cons d u =>
    by_cases hc : c = '<'
    · rw [hc] at h ⊢
      exact h
    · exact tagHere_cons_of_ne hc _

theorem textLength_append (hx : '<' ∉ x) (s : List Char) :
    textLength (x ++ s) = x.length + textLength s := by
  induction x with
  | nil => rw [List.nil_append, List.length_nil, Nat.zero_add]
  | cons c x ih =>
    rw [List.mem_cons, not_or] at hx
    rw [List.cons_append, textLength, if_neg (by simp [tagHere_cons_of_ne (Ne.symm hx.1)]), ih hx.2,
      List.length_cons]
    omega

theorem textLength_of_rest (h : rest = [] ∨ tagHere rest = true) : textLength rest = 0 := by
  rcases h with rfl | h
  · rfl
  · obtain ⟨c, t, rfl, -⟩ := eq_of_tagHere h
    rw [textLength, if_pos h]

theorem textLength_alike (s : List Char) :
    ∃ u rest, s = u ++ rest ∧ u.length = textLength s ∧ (rest = [] ∨ tagHere rest = true) ∧
      ∀ t, (rest = [] → t = []) → (tagHere rest = true → tagHere t = true) →
        textLength (u ++ t) = u.length := by
  induction s with
  | nil =>
    exact ⟨[], [], rfl, rfl, .inl rfl, fun t hnil _ => by rw [hnil rfl]; rfl⟩
  | cons c s ih =>
    cases htag : tagHere (c :: s) with
    | true =>
      refine ⟨[], c :: s, rfl, by rw [textLength, if_pos htag]; rfl, .inr htag, fun t _ h => ?_⟩
      obtain ⟨d, t, rfl, -⟩ := eq_of_tagHere (h htag)
      rw [List.nil_append, textLength, if_pos (h htag)]
      rfl
    | false =>
      obtain ⟨u, rest, rfl, hlen, hrest, hlocal⟩ := ih
      have hnot : ¬ tagHere (c :: (u ++ rest)) = true := by simp [htag]
      refine ⟨c :: u, rest, rfl, by rw [textLength, if_neg hnot, ← hlen]; rfl, hrest,
        fun t hnil h => ?_⟩
      have hsame := tagHere_alike (List.cons_ne_nil c u) hrest htag hnil h
      rw [List.cons_append] at hsame ⊢
      rw [textLength, if_neg (by simp [hsame]), hlocal t hnil h, List.length_cons]

/-! ### Elements without tags inside -/

theorem eq_of_closesHere (h : closesHere name s = true) :
    ∃ t, s = '<' :: '/' :: t ∧ namesHere name t = true := by
  rw [closesHere.eq_def] at h
  split at h
  · next t => exact ⟨t, rfl, h⟩
  · cases h

theorem namesHere_take (name : List Char) (hn : name.length < n) (s : List Char) :
    namesHere name (s.take n) = namesHere name s := by
  have htake : (s.take n).take name.length = s.take name.length := by
    rw [List.take_take, Nat.min_eq_left hn.le]
  have hhead : ((s.take n).drop name.length).head? = (s.drop name.length).head? := by
    rw [List.drop_take]
    obtain ⟨k, hk⟩ := Nat.exists_eq_add_of_lt hn
    rw [show n - name.length = k + 1 by omega]
    cases s.drop name.length <;> rfl
  rw [namesHere, htake, hhead, namesHere]

/-- An end tag is recognised by its name and the character behind it. -/
theorem closesHere_take (name : List Char) (hn : name.length + 2 < n) (s : List Char) :
    closesHere name (s.take n) = closesHere name s := by
  obtain ⟨n, rfl⟩ : ∃ m, n = m + 2 := ⟨n - 2, by omega⟩
  rw [Bool.eq_iff_iff]
  constructor
  · intro h
    obtain ⟨t, ht, hname⟩ := eq_of_closesHere h
    cases s with
    | nil => cases ht
    | cons c s =>
      cases s with
      | nil => cases ht
      | cons d s =>
        simp only [List.take_succ_cons, List.cons.injEq] at ht
        obtain ⟨rfl, rfl, rfl⟩ := ht
        rwa [namesHere_take name (by omega)] at hname
  · intro h
    obtain ⟨t, rfl, hname⟩ := eq_of_closesHere h
    rw [List.take_succ_cons, List.take_succ_cons]
    rwa [← namesHere_take name (n := n) (by omega)] at hname

theorem take_of_take {m : Nat} (h : t.take n = s.take n) (hm : m ≤ n) : t.take m = s.take m := by
  have hboth := congrArg (List.take m) h
  rwa [List.take_take, List.take_take, Nat.min_eq_left hm] at hboth

/-- Texts that agree up to the characters behind a name close an element alike. -/
theorem closesHere_congr (hn : name.length + 2 < n) (h : t.take n = s.take n) :
    closesHere name t = closesHere name s := by
  rw [← closesHere_take name hn, h, closesHere_take name hn]

theorem namesHere_congr (hn : name.length < n) (h : t.take n = s.take n) :
    namesHere name t = namesHere name s := by
  rw [← namesHere_take name hn, h, namesHere_take name hn]

theorem rawLength_le (name s : List Char) : rawLength name s ≤ s.length := by
  induction s with
  | nil => exact Nat.le_refl 0
  | cons c s ih =>
    rw [rawLength, List.length_cons]
    split <;> omega

theorem closesHere_drop_rawLength (h : rawLength name s < s.length) :
    closesHere name (s.drop (rawLength name s)) = true := by
  induction s with
  | nil => cases h
  | cons c s ih =>
    rw [rawLength] at h ⊢
    split at h
    · next hclose => rwa [if_pos hclose]
    · next hclose =>
      rw [if_neg hclose, List.drop_succ_cons]
      exact ih (Nat.lt_of_succ_lt_succ h)

theorem rawLength_congr (hclose : closesHere name (s.drop (rawLength name s)) = true)
    (h : t.take (rawLength name s + (name.length + 3))
      = s.take (rawLength name s + (name.length + 3))) : rawLength name t = rawLength name s := by
  induction s generalizing t with
  | nil => cases hclose
  | cons c s ih =>
    have hsame : closesHere name t = closesHere name (c :: s) :=
      closesHere_congr (by omega) (take_of_take h (Nat.le_add_left _ _))
    cases t with
    | nil =>
      rw [show rawLength name (c :: s) + (name.length + 3)
        = rawLength name (c :: s) + (name.length + 2) + 1 by omega, List.take_succ_cons] at h
      cases h
    | cons d t =>
      rw [rawLength] at h hclose ⊢
      rw [rawLength, hsame]
      split at h
      · next hhere => rw [if_pos hhere, if_pos hhere]
      · next hhere =>
        rw [if_neg hhere, List.drop_succ_cons] at hclose
        rw [if_neg hhere, if_neg hhere]
        rw [show rawLength name s + 1 + (name.length + 3)
          = rawLength name s + (name.length + 3) + 1 by omega, List.take_succ_cons,
          List.take_succ_cons] at h
        rw [ih hclose (List.cons.inj h).2]

/-! ### Scripts -/

/-- One step in a script: where the next character to be looked at stands, and how many characters
are passed over, unless the script ends. -/
def scriptStep (part : ScriptPart) (dashes : Nat) (c : Char) (cs : List Char) :
    Option (ScriptPart × Nat × Nat) :=
  let script := "script".toList
  match part with
  | .open =>
    if closesHere script (c :: cs) then none
    else if "<!--".toList.isPrefixOf (c :: cs) then some (.comment, 2, 3)
    else some (.open, 0, 0)
  | .comment =>
    if c = '-' then some (.comment, dashes + 1, 0)
    else if c = '>' && 2 ≤ dashes then some (.open, 0, 0)
    else if c = '<' then
      if closesHere script (c :: cs) then none
      else if namesHere script cs then some (.nested, 0, script.length + 1)
      else
        some (if (cs.head?.map fun d => d = '/' || isLetter d).getD false then .comment else .open,
          0, 0)
    else some (.comment, 0, 0)
  | .nested =>
    if c = '-' then some (.nested, dashes + 1, 0)
    else if c = '>' && 2 ≤ dashes then some (.open, 0, 0)
    else if closesHere script (c :: cs) then some (.comment, 0, script.length + 2)
    else some (.nested, 0, 0)

theorem scriptLength_nil (part : ScriptPart) (dashes : Nat) : scriptLength part dashes [] = 0 := by
  rw [scriptLength]

theorem scriptLength_cons (part : ScriptPart) (dashes : Nat) (c : Char) (cs : List Char) :
    scriptLength part dashes (c :: cs) = ((scriptStep part dashes c cs).map fun p =>
      scriptLength p.1 p.2.1 (cs.drop p.2.2) + (p.2.2 + 1)).getD 0 := by
  rcases part with _ | _ | _
  · rw [scriptLength, scriptStep]
    split_ifs <;> rfl
  · rw [scriptLength, scriptStep]
    split_ifs with hdash hclose hopen hhere hname hgoes
    · rfl
    · rfl
    · rfl
    · rfl
    · cases cs with
      | nil => cases hgoes
      | cons d cs => exact congrArg (scriptLength · 0 (d :: cs) + 1) (if_pos hgoes)
    · cases cs with
      | nil => exact (congrArg (· + 1) (scriptLength_nil .open 0)).symm
      | cons d cs => exact congrArg (scriptLength · 0 (d :: cs) + 1) (if_neg hgoes)
    · rfl
  · rw [scriptLength, scriptStep]
    split_ifs <;> rfl

theorem isPrefixOf_congr {w : List Char} (hn : w.length ≤ n) (h : t.take n = s.take n) :
    w.isPrefixOf t = w.isPrefixOf s := by
  rw [Bool.eq_iff_iff, List.isPrefixOf_iff_prefix, List.isPrefixOf_iff_prefix,
    List.prefix_iff_eq_take, List.prefix_iff_eq_take, take_of_take h hn]

/-- What a step does depends on the characters of an end tag only. -/
theorem scriptStep_congr (part : ScriptPart) (dashes : Nat) (c : Char) (h : t.take 8 = s.take 8) :
    scriptStep part dashes c t = scriptStep part dashes c s := by
  have hcloses : closesHere "script".toList (c :: t) = closesHere "script".toList (c :: s) :=
    closesHere_congr (n := 9) (by decide) (by rw [List.take_succ_cons, h, List.take_succ_cons])
  have hnames : namesHere "script".toList t = namesHere "script".toList s :=
    namesHere_congr (by decide) h
  have hhead : t.head? = s.head? := by
    have hboth := congrArg List.head? h
    rwa [List.head?_take, List.head?_take, if_neg (by decide), if_neg (by decide)] at hboth
  have hcomment : "<!--".toList.isPrefixOf (c :: t) = "<!--".toList.isPrefixOf (c :: s) :=
    isPrefixOf_congr (n := 9) (by decide) (by rw [List.take_succ_cons, h, List.take_succ_cons])
  rcases part with _ | _ | _ <;> simp only [scriptStep, hcloses, hnames, hhead, hcomment]

theorem closesHere_of_scriptStep (h : scriptStep part dashes c s = none) :
    closesHere "script".toList (c :: s) = true := by
  rcases part with _ | _ | _ <;> simp only [scriptStep] at h
  · split_ifs at h with hclose
    exact hclose
  · split_ifs at h with _ _ _ hclose
    exact hclose
  · split_ifs at h

theorem closesHere_drop_scriptLength (h : scriptLength part dashes s < s.length) :
    closesHere "script".toList (s.drop (scriptLength part dashes s)) = true := by
  induction hn : s.length using Nat.strongRecOn generalizing part dashes s with
  | ind n ih =>
    subst hn
    cases s with
    | nil => cases h
    | cons c s =>
      rw [scriptLength_cons] at h ⊢
      cases hstep : scriptStep part dashes c s with
      | none => exact closesHere_of_scriptStep hstep
      | some p =>
        rw [hstep, Option.map_some, Option.getD_some] at h
        rw [Option.map_some, Option.getD_some, ← Nat.add_assoc, List.drop_succ_cons, Nat.add_comm,
          ← List.drop_drop]
        refine ih _ ?_ ?_ rfl
        · simp only [List.length_drop, List.length_cons]
          omega
        · simp only [List.length_drop, List.length_cons] at h ⊢
          omega

theorem scriptLength_congr
    (hclose : closesHere "script".toList (s.drop (scriptLength part dashes s)) = true)
    (h : t.take (scriptLength part dashes s + 9) = s.take (scriptLength part dashes s + 9)) :
    scriptLength part dashes t = scriptLength part dashes s := by
  induction hn : s.length using Nat.strongRecOn generalizing part dashes s t with
  | ind n ih =>
    subst hn
    cases s with
    | nil =>
      rw [List.drop_nil] at hclose
      cases hclose
    | cons c s =>
      cases t with
      | nil => cases h
      | cons d t =>
        obtain ⟨rfl, htail⟩ := List.cons.inj h
        have hstep := scriptStep_congr part dashes d (take_of_take htail (Nat.le_add_left 8 _))
        rw [scriptLength_cons] at hclose htail
        rw [scriptLength_cons, scriptLength_cons, hstep]
        cases hnext : scriptStep part dashes d s with
        | none => rfl
        | some p =>
          rw [hnext, Option.map_some, Option.getD_some] at hclose htail
          rw [← Nat.add_assoc, List.drop_succ_cons, Nat.add_comm, ← List.drop_drop] at hclose
          simp only [Option.map_some, Option.getD_some]
          rw [ih _ (by simp only [List.length_drop, List.length_cons]; omega) hclose ?_ rfl]
          have hdrop := congrArg (List.drop p.2.2) htail
          rw [List.drop_take, List.drop_take] at hdrop
          exact take_of_take hdrop (by omega)

theorem rawTextLength_le (name s : List Char) : rawTextLength name s ≤ s.length := by
  rw [rawTextLength]
  split_ifs
  · exact Nat.le_refl _
  · exact Nat.min_le_left _ _
  · exact rawLength_le name s

theorem closesHere_drop_rawTextLength (h : rawTextLength name s < s.length) :
    closesHere name (s.drop (rawTextLength name s)) = true := by
  rw [rawTextLength] at h ⊢
  split_ifs at h ⊢ with hplain hscript
  · exact absurd h (Nat.lt_irrefl _)
  · have hshort : scriptLength .open 0 s < s.length := by omega
    rw [Nat.min_eq_right hshort.le, hscript]
    exact closesHere_drop_scriptLength hshort
  · exact closesHere_drop_rawLength h

theorem rawTextLength_congr (hshort : rawTextLength name s < s.length)
    (h : t.take (rawTextLength name s + (name.length + 3))
      = s.take (rawTextLength name s + (name.length + 3))) :
    rawTextLength name t = rawTextLength name s := by
  have hclose := closesHere_drop_rawTextLength hshort
  have hlen : rawTextLength name s ≤ t.length := by
    have hboth := congrArg List.length h
    rw [List.length_take, List.length_take] at hboth
    omega
  rw [rawTextLength] at hshort h hclose hlen ⊢
  rw [rawTextLength]
  split_ifs at hshort h hclose hlen ⊢ with hplain hscript
  · exact absurd hshort (Nat.lt_irrefl _)
  · have hmin : min s.length (scriptLength .open 0 s) = scriptLength .open 0 s := by omega
    rw [hmin] at h hclose hlen ⊢
    rw [hscript] at h hclose
    rw [scriptLength_congr hclose h, Nat.min_eq_right hlen]
  · exact rawLength_congr hclose h

theorem rawTextLength_lt (h : rawTextLength name (u ++ rest) = u.length) (hrest : rest ≠ []) :
    rawTextLength name (u ++ rest) < (u ++ rest).length := by
  have hpos : 0 < rest.length := List.length_pos_iff.mpr hrest
  rw [h, List.length_append]
  omega

/-- The end tag of an element follows its text, if anything does. -/
theorem closesHere_of_append (h : rawTextLength name (u ++ rest) = u.length) (hrest : rest ≠ []) :
    closesHere name rest = true := by
  have hclose := closesHere_drop_rawTextLength (rawTextLength_lt h hrest)
  rwa [h, List.drop_left] at hclose

/-- The text of an element without tags is read from its own characters. -/
theorem rawTextLength_alike (hname : String.ofList name ∈ rawElements)
    (h : rawTextLength name (u ++ rest) = u.length) (ht : Alike rest t) :
    rawTextLength name (u ++ t) = u.length := by
  by_cases hrest : rest = []
  · rw [ht.nil hrest, ← hrest, h]
  · have hshort := rawTextLength_lt h hrest
    have hclose := closesHere_of_append h hrest
    have hsame := ht.closes (String.ofList name) hname (by rwa [String.toList_ofList])
    rw [String.toList_ofList] at hsame
    rw [rawTextLength_congr hshort, h]
    rw [h, List.take_append, List.take_append, Nat.add_sub_cancel_left, hsame]

/-! ### Tokens -/

/-- A lexeme ends with a bracket, or what follows starts with one, or nothing follows. -/
def Parted (x rest : List Char) : Prop :=
  x.getLast? = some '>' ∨ rest = [] ∨ rest.head? = some '<'

theorem Ended.parted (h : Ended x rest) : Parted x rest := h.imp_right .inl

theorem Parted.of_tagHere (h : rest = [] ∨ tagHere rest = true) : Parted x rest := by
  refine .inr (h.imp_right fun h => ?_)
  obtain ⟨c, t, rfl, -⟩ := eq_of_tagHere h
  rfl

def readOutside (c : Char) (cs : List Char) : Option (Token × Nat) :=
  if tagHere (c :: cs) then readMarkup cs
  else some (.text .plain (c :: cs.take (textLength cs)), textLength cs)

theorem readToken_none (c : Char) (cs : List Char) : readToken none c cs = readOutside c cs := rfl

theorem readToken_of_zero (h : rawTextLength name (c :: cs) = 0) :
    readToken (some name) c cs = readOutside c cs := by
  unfold readToken
  rw [Option.map_some, Option.getD_some, h]
  rfl

theorem readToken_of_succ (h : rawTextLength name (c :: cs) = n + 1) :
    readToken (some name) c cs = some (.text (rawTextKind name) (c :: cs.take n), n) := by
  unfold readToken
  rw [Option.map_some, Option.getD_some, h]

theorem readOutside_alike (h : readOutside c cs = some (token, n)) :
    ∃ u rest, cs = u ++ rest ∧ u.length = n ∧ Parted (c :: u) rest ∧
      (tagHere (c :: cs) = true → Ended u rest) ∧
      ∀ t, Alike rest t → readOutside c (u ++ t) = some (token, n) := by
  cases htag : tagHere (c :: cs) with
  | true =>
    rw [readOutside, if_pos htag] at h
    obtain ⟨u, rest, rfl, hlen, hu, hend, hlocal⟩ := readMarkup_alike h
    refine ⟨u, rest, rfl, hlen, (hend.cons c).parted, fun _ => hend, fun t ht => ?_⟩
    have htag' : tagHere (c :: (u ++ t)) = true := by
      obtain ⟨d, r, heq, hd⟩ := eq_of_tagHere htag
      obtain ⟨e, v, rfl⟩ := List.exists_cons_of_ne_nil hu
      rw [List.cons_append, List.cons.injEq, List.cons.injEq] at heq
      obtain ⟨rfl, rfl, -⟩ := heq
      exact hd
    rw [readOutside, if_pos htag', hlocal t ht.nil]
  | false =>
    rw [readOutside, if_neg (by simp [htag])] at h
    obtain ⟨u, rest, rfl, hlen, hrest, hlocal⟩ := textLength_alike cs
    obtain ⟨rfl, rfl⟩ := Prod.mk.inj (Option.some.inj h)
    refine ⟨u, rest, rfl, hlen, .of_tagHere hrest, fun h => (by cases h), fun t ht => ?_⟩
    have htag' : tagHere (c :: (u ++ t)) = false :=
      tagHere_alike (List.cons_ne_nil c u) hrest htag ht.nil ht.tag
    rw [readOutside, if_neg (by simp [htag']), hlocal t ht.nil ht.tag, ← hlen, List.take_left,
      List.take_left]

theorem not_mem_of_rawElements {name : String} (h : name ∈ rawElements) (hc : isLetter c = false) :
    c ∉ name.toList.map lowerAscii := by
  have hall : rawElements.all (fun n => (n.toList.map lowerAscii).all isLetter) = true := by decide
  intro hmem
  have hletter := List.all_eq_true.mp (List.all_eq_true.mp hall name h) c hmem
  rw [hc] at hletter
  cases hletter

theorem Parted.of_rawTextLength (h : rawTextLength name (x ++ rest) = x.length) :
    Parted x rest := by
  refine .inr (or_iff_not_imp_left.mpr fun hrest => ?_)
  obtain ⟨t, rfl, -⟩ := eq_of_closesHere (closesHere_of_append h hrest)
  rfl

theorem closesHere_of_rawTextLength (h : rawTextLength name (c :: cs) = 0) :
    closesHere name (c :: cs) = true :=
  closesHere_of_append (u := []) h (List.cons_ne_nil c cs)

theorem rawTextLength_end (hname : String.ofList name ∈ rawElements) (hu : '>' ∈ u)
    (h : rawTextLength name (c :: (u ++ rest)) = 0) (t : List Char) :
    rawTextLength name (c :: (u ++ t)) = 0 := by
  have hclose := closesHere_of_rawTextLength h
  -- the name and the character behind it stand before the first bracket
  have hlen : name.length + 2 ≤ u.length := by
    obtain ⟨r, heq, hnames⟩ := eq_of_closesHere hclose
    rw [namesHere, Bool.and_eq_true] at hnames
    obtain ⟨-, heq⟩ := List.cons.inj heq
    cases u with
    | nil => cases hu
    | cons d v =>
      obtain ⟨rfl, rfl⟩ := List.cons.inj heq
      have hv : '>' ∈ v := by simpa using hu
      by_contra hlong
      have hstart : v <+: (v ++ rest).take name.length := by
        rw [List.take_append, List.take_of_length_le (by simp at hlong; omega)]
        exact List.prefix_append _ _
      have hfree : '>' ∉ name.map lowerAscii := by
        simpa using not_mem_of_rawElements hname (c := '>') rfl
      have hfold := eqFold_of_mem (hstart.subset hv) hfree
      simp only [List.append_eq] at hnames
      rw [hfold] at hnames
      cases hnames.1
  rw [rawTextLength_congr (h ▸ Nat.succ_pos _), h]
  rw [h, Nat.zero_add, List.take_succ_cons, List.take_succ_cons,
    List.take_append_of_le_length hlen, List.take_append_of_le_length hlen]

/-- **A token is read from its own characters**, and from how the text goes on behind it. -/
theorem readToken_alike (hinside : ∀ name, inside = some name → String.ofList name ∈ rawElements)
    (h : readToken inside c cs = some (token, n)) :
    ∃ u rest, cs = u ++ rest ∧ u.length = n ∧ Parted (c :: u) rest ∧
      ∀ t, Alike rest t → readToken inside c (u ++ t) = some (token, n) := by
  cases inside with
  | none =>
    obtain ⟨u, rest, hsplit, hlen, hparted, -, hlocal⟩ := readOutside_alike h
    exact ⟨u, rest, hsplit, hlen, hparted, hlocal⟩
  | some name =>
    have hname := hinside name rfl
    cases hraw : rawTextLength name (c :: cs) with
    | zero =>
      rw [readToken_of_zero hraw] at h
      obtain ⟨u, rest, rfl, hlen, hparted, hend, hlocal⟩ := readOutside_alike h
      refine ⟨u, rest, rfl, hlen, hparted, fun t ht => ?_⟩
      have htag : tagHere (c :: (u ++ rest)) = true := by
        obtain ⟨r, heq, -⟩ := eq_of_closesHere (closesHere_of_rawTextLength hraw)
        rw [heq]
        rfl
      have hraw' : rawTextLength name (c :: (u ++ t)) = 0 := by
        rcases (hend htag).mem_or with hend | hrest
        · exact rawTextLength_end hname hend hraw t
        · rw [ht.nil hrest, ← hrest, hraw]
      rw [readToken_of_zero hraw', hlocal t ht]
    | succ m =>
      rw [readToken_of_succ hraw] at h
      obtain ⟨rfl, rfl⟩ := Prod.mk.inj (Option.some.inj h)
      have hle := rawTextLength_le name (c :: cs)
      rw [hraw, List.length_cons] at hle
      have hlen : (cs.take m).length = m := List.length_take_of_le (by omega)
      have hwhole : rawTextLength name (c :: cs.take m ++ cs.drop m) = (c :: cs.take m).length := by
        rw [List.cons_append, List.take_append_drop, hraw, List.length_cons, hlen]
      refine ⟨cs.take m, cs.drop m, (List.take_append_drop m cs).symm, hlen,
        .of_rawTextLength hwhole, fun t ht => ?_⟩
      have hraw' := rawTextLength_alike hname hwhole ht
      rw [List.cons_append, List.length_cons, hlen] at hraw'
      rw [readToken_of_succ hraw', List.take_append_of_le_length (by omega), List.take_take,
        Nat.min_self]

theorem isLetter_of_readMarkup {d : Char} {r : List Char} {attributes : List Attribute}
    (hd : opensTag d = true)
    (h : readMarkup (d :: r) = some (.startTag name attributes closing, n)) :
    isLetter d = true := by
  rw [readMarkup.eq_def] at h
  split at h
  · cases h
  · split at h <;> cases h
  · cases h
  · next heq =>
    split at h
    · cases h
    · split at h
      · rw [Option.map_eq_some_iff] at h
        obtain ⟨_, -, heq⟩ := h
        cases heq
      · cases h
  · next hbang hmark hslash =>
    simp only [opensTag, Bool.or_eq_true, beq_iff_eq] at hd
    rcases hd with ((hd | rfl) | rfl) | rfl
    · exact hd
    · exact absurd rfl (hslash r)
    · exact absurd rfl (hbang r)
    · exact absurd rfl (hmark r)

/-- What follows a bracket is no plain text, unless it is the end of the markup. -/
theorem eq_of_readMarkup_plain {r : List Char} (h : readMarkup r = some (.text .plain s, n)) :
    r = ['/'] ∧ n = 1 := by
  rw [readMarkup.eq_def] at h
  split at h
  · cases h
  · split at h <;> cases h
  · cases h
  · split at h
    · cases h
      exact ⟨rfl, rfl⟩
    · split at h
      · rw [Option.map_eq_some_iff] at h
        obtain ⟨_, -, heq⟩ := h
        cases heq
      · cases h
  · rw [Option.map_eq_some_iff] at h
    obtain ⟨_, -, heq⟩ := h
    cases heq

/-- A start tag stands outside the elements without tags, and a letter starts its name. -/
theorem readToken_startTag {attributes : List Attribute}
    (h : readToken inside c cs = some (.startTag name attributes closing, n)) :
    inside = none ∧ c = '<' ∧ (∃ d r, cs = d :: r ∧ isLetter d = true) ∧
      readMarkup cs = some (.startTag name attributes closing, n) := by
  have houtside : readOutside c cs = some (.startTag name attributes closing, n) → c = '<' ∧
      (∃ d r, cs = d :: r ∧ isLetter d = true) ∧
      readMarkup cs = some (.startTag name attributes closing, n) := by
    intro houter
    cases htag : tagHere (c :: cs) with
    | false =>
      rw [readOutside, if_neg (by simp [htag])] at houter
      cases houter
    | true =>
      rw [readOutside, if_pos htag] at houter
      obtain ⟨d, r, heq, hd⟩ := eq_of_tagHere htag
      obtain ⟨rfl, rfl⟩ := List.cons.inj heq
      exact ⟨rfl, ⟨d, r, rfl, isLetter_of_readMarkup hd houter⟩, houter⟩
  cases inside with
  | none => exact ⟨rfl, houtside h⟩
  | some element =>
    cases hraw : rawTextLength element (c :: cs) with
    | zero =>
      rw [readToken_of_zero hraw] at h
      obtain ⟨-, ⟨d, r, rfl, hd⟩, -⟩ := houtside h
      obtain ⟨t, heq, -⟩ := eq_of_closesHere (closesHere_of_rawTextLength hraw)
      rw [List.cons.injEq, List.cons.injEq] at heq
      rw [heq.2.1] at hd
      cases hd
    | succ m =>
      rw [readToken_of_succ hraw] at h
      cases h

/-- Plain text stands outside the elements without tags, up to the next tag, unless the markup ends
inside an end tag. -/
theorem readToken_plain (h : readToken inside c (u ++ rest) = some (.text .plain s, u.length)) :
    c :: u = ['<', '/'] ∨ inside = none ∧ textLength (c :: (u ++ rest)) = u.length + 1 ∧
      (rest = [] ∨ tagHere rest = true) := by
  have houtside : readOutside c (u ++ rest) = some (.text .plain s, u.length) →
      c :: u = ['<', '/'] ∨ textLength (c :: (u ++ rest)) = u.length + 1 ∧
        (rest = [] ∨ tagHere rest = true) := by
    intro houter
    cases htag : tagHere (c :: (u ++ rest)) with
    | true =>
      obtain ⟨d, r, heq, -⟩ := eq_of_tagHere htag
      obtain ⟨rfl, heq⟩ := List.cons.inj heq
      rw [readOutside, if_pos htag] at houter
      obtain ⟨hwhole, hlen⟩ := eq_of_readMarkup_plain houter
      rw [List.append_eq_singleton_iff] at hwhole
      rcases hwhole with ⟨rfl, -⟩ | ⟨rfl, -⟩
      · cases hlen
      · exact .inl rfl
    | false =>
      rw [readOutside, if_neg (by simp [htag])] at houter
      obtain ⟨-, hlen⟩ := Prod.mk.inj (Option.some.inj houter)
      obtain ⟨v, t, hsplit, hv, ht, -⟩ := textLength_alike (u ++ rest)
      obtain ⟨rfl, rfl⟩ := List.append_inj hsplit (by rw [hv, hlen])
      exact .inr ⟨by rw [textLength, if_neg (by simp [htag]), hlen], ht⟩
  cases inside with
  | none => exact (houtside h).imp_right fun h => ⟨rfl, h⟩
  | some element =>
    cases hraw : rawTextLength element (c :: (u ++ rest)) with
    | zero =>
      rw [readToken_of_zero hraw] at h
      refine .inl ((houtside h).resolve_right fun hplain => ?_)
      obtain ⟨t, heq, -⟩ := eq_of_closesHere (closesHere_of_rawTextLength hraw)
      rw [heq] at hplain
      cases hplain.1
    | succ m =>
      rw [readToken_of_succ hraw, rawTextKind] at h
      split at h <;> cases h

theorem readToken_of_textLength (h : textLength (c :: (u ++ t)) = u.length + 1) :
    readToken none c (u ++ t) = some (.text .plain (c :: u), u.length) := by
  rw [textLength] at h
  split at h
  · cases h
  · next htag => rw [readToken_none, readOutside, if_neg htag, Nat.succ.inj h, List.take_left]

/-! ### Lexemes -/

def Token.attributes : Token → List Attribute
  | .startTag _ attributes _ => attributes
  | _ => []

theorem mem_of_rawElement? (h : token.rawElement? = some name) :
    String.ofList name ∈ rawElements := by
  cases token with
  | startTag element attributes closing =>
    rw [Token.rawElement?] at h
    split at h
    · next hmem =>
      obtain rfl := Option.some.inj h
      simpa using hmem
    · cases h
  | text | endTag | comment | doctype => cases h

theorem lexemesFrom_nil (inside : Option (List Char)) : lexemesFrom inside [] = [] := by
  rw [lexemesFrom]

theorem lexemesFrom_of_none (h : readToken inside c cs = none) :
    lexemesFrom inside (c :: cs) = [] := by
  rw [lexemesFrom, h]

theorem lexemesFrom_append (h : readToken inside c (u ++ rest) = some (token, u.length)) :
    lexemesFrom inside (c :: (u ++ rest))
      = ⟨token, c :: u⟩ :: lexemesFrom token.rawElement? rest := by
  rw [lexemesFrom, h]
  simp only [List.take_left, List.drop_left]

theorem exists_unread (inside : Option (List Char)) (s : List Char) :
    ∃ tail, s = (lexemesFrom inside s).flatMap (·.raw) ++ tail := by
  induction hn : s.length using Nat.strongRecOn generalizing inside s with
  | ind n ih =>
    cases s with
    | nil => exact ⟨[], by rw [lexemesFrom_nil]; rfl⟩
    | cons c cs =>
      cases hread : readToken inside c cs with
      | none => exact ⟨c :: cs, by rw [lexemesFrom_of_none hread]; rfl⟩
      | some read =>
        obtain ⟨token, k⟩ := read
        have hshort : (cs.drop k).length < n := by
          rw [← hn, List.length_drop, List.length_cons]
          omega
        obtain ⟨tail, htail⟩ := ih _ hshort token.rawElement? (cs.drop k) rfl
        refine ⟨tail, ?_⟩
        rw [lexemesFrom, hread]
        simp only [List.flatMap_cons, List.append_assoc, List.cons_append, ← htail,
          List.take_append_drop]

theorem tagOf_of_readMarkup {attributes : List Attribute}
    (h : readMarkup s = some (.startTag name attributes closing, n)) :
    ∃ nm ws, TagOf (s.take n) nm ws ∧ nm.map lowerAscii = name ∧
      ws.map Written.read = attributes := by
  rw [readMarkup.eq_def] at h
  split at h
  · cases h
  · split at h <;> cases h
  · cases h
  · split at h
    · cases h
    · split at h
      · obtain ⟨_, -, heq⟩ := Option.map_eq_some_iff.mp h
        cases heq
      · cases h
  · obtain ⟨⟨name, attributes, rest⟩, hread, heq⟩ := Option.map_eq_some_iff.mp h
    obtain ⟨v, nm, ws, rfl, hv, rfl, rfl⟩ := readTag_eq_some_iff.mp hread
    have hlen : (v ++ rest).length - rest.length = v.length := by
      rw [List.length_append, Nat.add_sub_cancel]
    obtain ⟨htoken, hn⟩ := Prod.mk.inj heq
    simp only [hlen] at hn
    injection htoken with hname hattributes
    refine ⟨nm, ws, ?_, hname, hattributes⟩
    rw [← hn, List.take_left]
    exact hv

theorem exists_tagOf_of_mem {x : Lexeme} (hx : x ∈ lexemesFrom inside s)
    {attributes : List Attribute} (htoken : x.token = .startTag name attributes closing) :
    ∃ v nm ws, x.raw = '<' :: v ∧ TagOf v nm ws ∧ nm.map lowerAscii = name ∧
      ws.map Written.read = attributes := by
  induction hn : s.length using Nat.strongRecOn generalizing inside s with
  | ind n ih =>
    cases s with
    | nil =>
      rw [lexemesFrom_nil] at hx
      cases hx
    | cons c cs =>
      cases hread : readToken inside c cs with
      | none =>
        rw [lexemesFrom_of_none hread] at hx
        cases hx
      | some read =>
        obtain ⟨token, k⟩ := read
        rw [lexemesFrom, hread] at hx
        rcases List.mem_cons.mp hx with rfl | hlater
        · obtain rfl : token = .startTag name attributes closing := htoken
          obtain ⟨-, rfl, -, hmarkup⟩ := readToken_startTag hread
          obtain ⟨nm, ws, htag, hname, hattributes⟩ := tagOf_of_readMarkup hmarkup
          exact ⟨cs.take k, nm, ws, rfl, htag, hname, hattributes⟩
        · refine ih _ ?_ hlater rfl
          rw [← hn, List.length_drop, List.length_cons]
          omega

theorem TagOf.lexemesFrom_append (h : TagOf (c :: v) name ws) (hc : isLetter c = true)
    (rest : List Char) :
    ∃ closing, lexemesFrom none ('<' :: (c :: v ++ rest))
      = ⟨.startTag (name.map lowerAscii) (ws.map Written.read) closing, '<' :: c :: v⟩
        :: lexemesFrom (Token.startTag (name.map lowerAscii) (ws.map Written.read)
          closing).rawElement? rest := by
  have hne : ∀ d, isLetter d = false → c ≠ d := by
    rintro d hd rfl
    rw [hd] at hc
    cases hc
  have htag : tagHere ('<' :: c :: (v ++ rest)) = true := by
    simp [tagHere, opensTag, hc]
  have hread := h.readMarkup_start (hne '!' (by decide)) (hne '?' (by decide)) (hne '/' (by decide))
    rest
  refine ⟨(c :: v).dropLast.getLast? = some '/', Html.lexemesFrom_append ?_⟩
  rw [readToken_none, readOutside, List.cons_append, if_pos htag, ← List.cons_append, hread]

end Pagesmith.Html
