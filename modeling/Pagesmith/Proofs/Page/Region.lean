import Mathlib.Data.List.Infix
import Pagesmith.Page.Section
import Pagesmith.Proofs.Text.Basic

/-!
# Texts of regions

A region ends at the delimiter that matches its opening marker, and the region is the text before
it.  This file says which texts keep to themselves, so that the delimiter behind them is the one
that ends the region.

* `BlockText`: texts of config and logic blocks, with nested braces, and with strings and comments
  that may hold any brace.
* `TemplateText`: texts of templates, with nested `<template>` tags.
* `Passed g m t`: where the character `m` follows, the tokens of `t` leave the nesting of a region
  as it was.  `BlockText.passed` and `TemplateText.passed` say this of the two kinds of text.
* `regionFrom_closed`: a region is read up to its own closing delimiter.
* `regionFrom_eq_none_iff`: a region is not closed if and only if at no place more closing than
  opening tokens were read.
-/

namespace Pagesmith.Page

open Pagesmith.Text

variable {s t w : List Char} {m : Char}

/-! ### One token -/

def readOn (w : List Char) (r : Option (List Char × List Char)) :
    Option (List Char × List Char) := r.map fun p => (w ++ p.1, p.2)

@[simp] theorem readOn_nil (r : Option (List Char × List Char)) : readOn [] r = r := by
  simp [readOn]

@[simp] theorem readOn_none (w : List Char) : readOn w none = none := rfl

@[simp] theorem readOn_some (w t s : List Char) : readOn w (some (t, s)) = some (w ++ t, s) := rfl

@[simp] theorem readOn_readOn (v w : List Char) (r : Option (List Char × List Char)) :
    readOn v (readOn w r) = readOn (v ++ w) r := by
  simp [readOn, Function.comp_def]

theorem readOn_eq_some {r : Option (List Char × List Char)} :
    readOn w r = some (t, s) ↔ ∃ u, r = some (u, s) ∧ t = w ++ u := by
  simp only [readOn, Option.map_eq_some_iff, Prod.exists, Prod.mk.injEq]
  constructor
  · rintro ⟨u, v, rfl, rfl, rfl⟩
    exact ⟨u, rfl, rfl⟩
  · rintro ⟨u, rfl, rfl⟩
    exact ⟨u, s, rfl, rfl, rfl⟩

@[simp] theorem readOn_eq_none {r : Option (List Char × List Char)} :
    readOn w r = none ↔ r = none := Option.map_eq_none_iff

section Token

variable {g : Grammar} {c : Char} {cs : List Char} {n : Nat}

theorem regionFrom_text (h : g c cs = (.text, n)) (d : Nat) :
    regionFrom g d (c :: cs) = readOn (c :: cs.take n) (regionFrom g d (cs.drop n)) := by
  rw [regionFrom.eq_def]
  simp [h, readOn]

theorem regionFrom_char (h : g c cs = (.text, 0)) (d : Nat) :
    regionFrom g d (c :: cs) = readOn [c] (regionFrom g d cs) := regionFrom_text h d

theorem regionFrom_token (h : g c (w ++ s) = (.text, w.length)) (d : Nat) :
    regionFrom g d (c :: w ++ s) = readOn (c :: w) (regionFrom g d s) := by
  rw [List.cons_append, regionFrom_text h, List.take_left, List.drop_left]

theorem regionFrom_enter (h : g c cs = (.enter, n)) (d : Nat) :
    regionFrom g d (c :: cs) = readOn (c :: cs.take n) (regionFrom g (d + 1) (cs.drop n)) := by
  rw [regionFrom.eq_def]
  simp [h, readOn]

theorem regionFrom_leave (h : g c cs = (.leave, n)) :
    regionFrom g 0 (c :: cs) = some ([], cs.drop n) := by
  rw [regionFrom.eq_def]
  simp [h]

theorem regionFrom_leave_succ (h : g c cs = (.leave, n)) (d : Nat) :
    regionFrom g (d + 1) (c :: cs) = readOn (c :: cs.take n) (regionFrom g d (cs.drop n)) := by
  rw [regionFrom.eq_def]
  simp [h, readOn]

end Token

theorem suffix_of_regionFrom {g : Grammar} {d : Nat} {rest : List Char}
    (h : regionFrom g d s = some (t, rest)) : rest <:+ s := by
  induction hlen : s.length using Nat.strongRecOn generalizing s d t with
  | ind len ih =>
    cases s with
    | nil =>
      rw [regionFrom.eq_def] at h
      cases h
    | cons c cs =>
      obtain ⟨m, n, hg⟩ : ∃ m n, g c cs = (m, n) := ⟨_, _, rfl⟩
      have hdrop : cs.drop n <:+ c :: cs := (List.drop_suffix n cs).trans (List.suffix_cons c cs)
      have hshorter : (cs.drop n).length < len := by
        rw [← hlen, List.length_drop, List.length_cons]
        omega
      have hnext : ∀ {k : Nat},
          readOn (c :: cs.take n) (regionFrom g k (cs.drop n)) = some (t, rest) →
            rest <:+ c :: cs := by
        intro k hk
        obtain ⟨u, hu, -⟩ := readOn_eq_some.mp hk
        exact (ih _ hshorter hu rfl).trans hdrop
      cases m with
      | text =>
        rw [regionFrom_text hg] at h
        exact hnext h
      | enter =>
        rw [regionFrom_enter hg] at h
        exact hnext h
      | leave =>
        cases d with
        | zero =>
          rw [regionFrom_leave hg] at h
          cases h
          exact hdrop
        | succ d =>
          rw [regionFrom_leave_succ hg] at h
          exact hnext h

/-- The tokens of `t` leave the nesting of a region as it was, where the character `m` follows. -/
def Passed (g : Grammar) (m : Char) (t : List Char) : Prop :=
  ∀ (d : Nat) (s : List Char), regionFrom g d (t ++ m :: s) = readOn t (regionFrom g d (m :: s))

theorem Passed.nil (g : Grammar) (m : Char) : Passed g m [] := by
  intro d s
  simp

theorem Passed.token {g : Grammar} {c : Char} (ht : Passed g m t)
    (h : ∀ s, g c (w ++ (t ++ m :: s)) = (.text, w.length)) : Passed g m (c :: w ++ t) := by
  intro d s
  rw [List.append_assoc, regionFrom_token (h s), ht, readOn_readOn]

/-- A text that starts with the character `m` stands behind a text that is passed. -/
theorem Passed.append_cons {g : Grammar} (ht : Passed g m t) (hs : Passed g m (m :: s)) :
    Passed g m (t ++ m :: s) := by
  intro d r
  rw [List.append_assoc, List.cons_append, ht, ← List.cons_append, hs, readOn_readOn]

/-- **Nesting.**  An inner text is read one level deeper, and the token that closes it leads
back. -/
theorem Passed.nest {g : Grammar} {c : Char} {v : List Char}
    (henter : ∀ r, g c (w ++ r) = (.enter, w.length))
    (hleave : ∀ r, g m (v ++ r) = (.leave, v.length)) (ht : Passed g m t) (hs : Passed g m s) :
    Passed g m (c :: w ++ (t ++ m :: v ++ s)) := by
  intro d r
  calc regionFrom g d (c :: w ++ (t ++ m :: v ++ s) ++ m :: r)
      = regionFrom g d (c :: w ++ (t ++ m :: (v ++ (s ++ m :: r)))) := by simp
    _ = readOn (c :: w) (regionFrom g (d + 1) (t ++ m :: (v ++ (s ++ m :: r)))) := by
        rw [List.cons_append, regionFrom_enter (henter _), List.take_left, List.drop_left]
    _ = readOn (c :: w ++ t) (regionFrom g (d + 1) (m :: (v ++ (s ++ m :: r)))) := by
        rw [ht, readOn_readOn]
    _ = readOn (c :: w ++ t ++ m :: v) (regionFrom g d (s ++ m :: r)) := by
        rw [regionFrom_leave_succ (hleave _), List.take_left, List.drop_left, readOn_readOn]
    _ = readOn (c :: w ++ (t ++ m :: v ++ s)) (regionFrom g d (m :: r)) := by
        rw [hs, readOn_readOn]
        simp

/-! ### Blocks -/

inductive QuotedText (q : Char) : List Char → Prop where
  | nil : QuotedText q []
  | char {c : Char} {t : List Char} (hquote : c ≠ q) (hslash : c ≠ '\\') (hline : c ≠ '\n')
      (ht : QuotedText q t) : QuotedText q (c :: t)
  | escape {c : Char} {t : List Char} (hline : c ≠ '\n') (ht : QuotedText q t) :
      QuotedText q ('\\' :: c :: t)

theorem quotedLength?_closed {q : Char} (hq : q ≠ '\\') (ht : QuotedText q t) (s : List Char) :
    quotedLength? q (t ++ q :: s) = some (t.length + 1) := by
  induction ht with
  | nil => simp [quotedLength?, hq]
  | @char c t hquote hslash hline _ ih =>
    rw [List.cons_append, quotedLength?]
    · simp [hquote, hslash, hline, ih]
    · intro d ds h _
      exact hslash h
  | @escape c t hline _ ih =>
    rw [List.cons_append, List.cons_append, quotedLength?]
    simp [hline, ih]

def blockMarks : List Char := ['\x7b', '\x7d', '"', '\'', '\x60', '/']

/-- The texts of config and logic blocks.  What is hidden in a string or a comment does not count
as a brace, and a line comment ends inside the text. -/
inductive BlockText : List Char → Prop where
  | nil : BlockText []
  | char {c : Char} {s : List Char} (hc : c ∉ blockMarks) (hs : BlockText s) : BlockText (c :: s)
  | slash {s : List Char} (hslash : s.head? ≠ some '/') (hstar : s.head? ≠ some '*')
      (hs : BlockText s) : BlockText ('/' :: s)
  | braces {t s : List Char} (ht : BlockText t) (hs : BlockText s) :
      BlockText ('\x7b' :: t ++ '\x7d' :: s)
  | quoted {q : Char} {t s : List Char} (hq : q = '"' ∨ q = '\'') (ht : QuotedText q t)
      (hs : BlockText s) : BlockText (q :: t ++ q :: s)
  | raw {t s : List Char} (ht : '\x60' ∉ t) (hs : BlockText s) :
      BlockText ('\x60' :: t ++ '\x60' :: s)
  | comment {t s : List Char} (ht : ¬ ['*', '/'] <:+: t) (hs : BlockText s) :
      BlockText ('/' :: '*' :: t ++ '*' :: '/' :: s)
  | lineComment {t s : List Char} (ht : '\n' ∉ t) (hs : BlockText s) :
      BlockText ('/' :: '/' :: t ++ '\n' :: s)

theorem BlockText.chars (hw : ∀ c ∈ w, c ∉ blockMarks) (hs : BlockText s) : BlockText (w ++ s) := by
  induction w with
  | nil => exact hs
  | cons c w ih =>
    exact .char (hw c List.mem_cons_self) (ih fun d hd => hw d (List.mem_cons_of_mem c hd))

theorem blockGrammar_char {c : Char} (hc : c ∉ blockMarks) (s : List Char) :
    blockGrammar c s = (.text, 0) := by
  simp only [blockMarks, List.mem_cons, List.not_mem_nil, or_false, not_or] at hc
  simp [blockGrammar, hc]

theorem blockGrammar_slash (hslash : s.head? ≠ some '/') (hstar : s.head? ≠ some '*') :
    blockGrammar '/' s = (.text, 0) := by
  cases s with
  | nil => rfl
  | cons c s =>
    have hc : c ≠ '/' ∧ c ≠ '*' := by simpa using And.intro hslash hstar
    simp [blockGrammar, hc]

theorem blockGrammar_quoted {q : Char} (hq : q = '"' ∨ q = '\'') (ht : QuotedText q t)
    (s : List Char) : blockGrammar q (t ++ q :: s) = (.text, t.length + 1) := by
  have hclosed : quotedLength? q (t ++ q :: s) = some (t.length + 1) :=
    quotedLength?_closed (by rcases hq with rfl | rfl <;> decide) ht s
  rcases hq with rfl | rfl <;> simp [blockGrammar, hclosed]

theorem blockGrammar_raw (ht : '\x60' ∉ t) (s : List Char) :
    blockGrammar '\x60' (t ++ '\x60' :: s) = (.text, t.length + 1) := by
  simp [blockGrammar, throughLength?, cut_append_cons ht]

theorem blockGrammar_comment (ht : ¬ ['*', '/'] <:+: t) (s : List Char) :
    blockGrammar '/' ('*' :: t ++ '*' :: '/' :: s) = (.text, t.length + 3) := by
  have hcut : cut ['*', '/'] (t ++ '*' :: '/' :: s) = some (t, s) := by
    simpa using cut_append (c := '*') (w := ['/']) (by decide) ht s
  simp [blockGrammar, throughLength?, hcut]

theorem blockGrammar_lineComment (ht : '\n' ∉ t) (s : List Char) :
    blockGrammar '/' ('/' :: t ++ '\n' :: s) = (.text, t.length + 1) := by
  have htake : (t ++ '\n' :: s).takeWhile (· != '\n') = t := by
    rw [List.takeWhile_append_of_pos, List.takeWhile_cons_of_neg (by simp), List.append_nil]
    intro c hc
    simpa using fun h : c = '\n' => ht (h ▸ hc)
  simp [blockGrammar, htake, Nat.add_comm]

/-- **The tokens of a block text** leave its block as it was, if a brace closes it. -/
theorem BlockText.passed (h : BlockText t) : Passed blockGrammar '\x7d' t := by
  induction h with
  | nil => exact Passed.nil _ _
  | @char c s hc _ ih => exact ih.token (w := []) fun r => blockGrammar_char hc _
  | @slash s hslash hstar _ ih =>
    refine ih.token (w := []) fun r => blockGrammar_slash ?_ ?_
    all_goals cases s <;> simp_all
  | @braces t s _ _ iht ihs =>
    have hnest := Passed.nest (c := '\x7b') (w := []) (v := []) (fun _ => rfl) (fun _ => rfl)
      iht ihs
    simpa using hnest
  | @quoted q t s hq ht _ ih =>
    have htoken := ih.token (c := q) (w := t ++ [q]) fun r => by
      simpa using blockGrammar_quoted hq ht (s ++ '\x7d' :: r)
    simpa using htoken
  | @raw t s ht _ ih =>
    have htoken := ih.token (c := '\x60') (w := t ++ ['\x60']) fun r => by
      simpa using blockGrammar_raw ht (s ++ '\x7d' :: r)
    simpa using htoken
  | @comment t s ht _ ih =>
    have htoken := ih.token (c := '/') (w := '*' :: t ++ ['*', '/']) fun r => by
      simpa using blockGrammar_comment ht (s ++ '\x7d' :: r)
    simpa using htoken
  | @lineComment t s ht _ ih =>
    -- The comment is a token, and the newline behind it is one of its own.
    have hnewline : Passed blockGrammar '\x7d' ('\n' :: s) :=
      ih.token (w := []) fun r => blockGrammar_char (by decide) _
    have htoken := hnewline.token (c := '/') (w := '/' :: t) fun r => by
      simpa using blockGrammar_lineComment ht (s ++ '\x7d' :: r)
    simpa using htoken

/-! ### Templates -/

def OpensTag (t : List Char) : Prop :=
  ∃ r, t = "template".toList ++ r ∧ ∀ c, r.head? = some c → isWordChar c = false

def ClosesTag (t : List Char) : Prop :=
  ∃ gap r, t = "/template".toList ++ gap ++ '>' :: r ∧ ∀ c ∈ gap, isMarkerSpace c = true

def PlainMarkup (s : List Char) : Prop :=
  ∀ t, '<' :: t <:+ s → ¬ OpensTag t ∧ ¬ ClosesTag t

/-- The texts of templates: plain markup, and in it further templates between their tags. -/
inductive TemplateText : List Char → Prop where
  | plain {s : List Char} (hs : PlainMarkup s) : TemplateText s
  | nested (s attrs t gap r : List Char) (hs : PlainMarkup s)
      (hword : ∀ c, attrs.head? = some c → isWordChar c = false) (hattrs : '>' ∉ attrs)
      (ht : TemplateText t) (hgap : ∀ c ∈ gap, isMarkerSpace c = true) (hr : TemplateText r) :
      TemplateText (s ++ "<template".toList ++ attrs ++ '>' :: t ++ "</template".toList ++ gap
        ++ '>' :: r)

theorem PlainMarkup.tail {c : Char} (h : PlainMarkup (c :: s)) : PlainMarkup s :=
  fun t ht => h t (ht.trans (List.suffix_cons c s))

theorem plainMarkup_of_tagless (hopen : ¬ "<template".toList <:+: s)
    (hclose : ¬ "</template".toList <:+: s) : PlainMarkup s := by
  intro t ht
  constructor
  · rintro ⟨r, rfl, -⟩
    have hstarts : "<template".toList <+: '<' :: ("template".toList ++ r) := ⟨r, rfl⟩
    exact hopen (hstarts.isInfix.trans ht.isInfix)
  · rintro ⟨gap, r, rfl, -⟩
    have hstarts : "</template".toList <+: '<' :: ("/template".toList ++ gap ++ '>' :: r) :=
      ⟨gap ++ '>' :: r, by simp⟩
    exact hclose (hstarts.isInfix.trans ht.isInfix)

theorem templateGrammar_of_ne {c : Char} (hc : c ≠ '<') (s : List Char) :
    templateGrammar c s = (.text, 0) := by
  simp [templateGrammar, nestedTagLength?, closingTagLength?, hc]

theorem nestedTagLength?_eq_none (h : ¬ OpensTag t) (s : List Char) :
    nestedTagLength? '<' (t ++ '<' :: s) = none := by
  rw [nestedTagLength?]
  split
  · next hname =>
    have hstarts : "template".toList <+: t ++ '<' :: s :=
      List.isPrefixOf_iff_prefix.mp (by simpa using hname)
    obtain ⟨r, rfl⟩ := prefix_of_append_cons (by decide) hstarts
    have hhead : ∃ c, r.head? = some c ∧ isWordChar c = true := by
      by_contra hnone
      refine h ⟨r, rfl, fun c hc => ?_⟩
      by_contra hword
      exact hnone ⟨c, hc, by simpa using hword⟩
    obtain ⟨c, hc, hword⟩ := hhead
    obtain ⟨u, rfl⟩ := List.head?_eq_some_iff.mp hc
    rw [List.append_assoc, List.drop_left]
    simp [hword]
  · rfl

theorem takeWhile_gap {gap : List Char} (hgap : ∀ c ∈ gap, isMarkerSpace c = true)
    (hm : isMarkerSpace m = false) (s : List Char) :
    (gap ++ m :: s).takeWhile isMarkerSpace = gap := by
  rw [List.takeWhile_append_of_pos hgap, List.takeWhile_cons_of_neg (by simp [hm]),
    List.append_nil]

theorem closingTagLength?_eq_none (h : ¬ ClosesTag t) (s : List Char) :
    closingTagLength? '<' (t ++ '<' :: s) = none := by
  rw [closingTagLength?]
  split
  · next hname =>
    have hstarts : "/template".toList <+: t ++ '<' :: s :=
      List.isPrefixOf_iff_prefix.mp (by simpa using hname)
    obtain ⟨r, rfl⟩ := prefix_of_append_cons (by decide) hstarts
    rw [List.append_assoc, List.drop_left]
    refine if_neg fun hend => h ?_
    generalize hgap : (r ++ '<' :: s).takeWhile isMarkerSpace = gap at hend
    have hspace : ∀ c ∈ gap, isMarkerSpace c = true := by
      rw [← hgap]
      exact List.all_eq_true.mp List.all_takeWhile
    obtain ⟨u, hu⟩ := List.head?_eq_some_iff.mp hend
    have hsplit : r ++ '<' :: s = gap ++ '>' :: u := by
      have := List.takeWhile_append_dropWhile (p := isMarkerSpace) (l := r ++ '<' :: s)
      rw [← this, hgap, List.drop_left] at hu
      rw [← this, hgap, hu]
    -- The white space ends inside `r`, because the `<` behind it is neither space nor the end.
    have hlt : '<' ∉ gap ++ ['>'] := by
      intro hmem
      rcases List.mem_append.mp hmem with hmem | hmem
      · exact absurd (hspace _ hmem) (by decide)
      · exact absurd hmem (by decide)
    have hinside : gap ++ ['>'] <+: r :=
      prefix_of_append_cons (r := s) hlt ⟨u, by simp [hsplit]⟩
    obtain ⟨v, rfl⟩ := hinside
    exact ⟨gap, v, by simp, hspace⟩
  · rfl

theorem templateGrammar_open {attrs : List Char}
    (hword : ∀ c, attrs.head? = some c → isWordChar c = false) (hattrs : '>' ∉ attrs)
    (s : List Char) :
    templateGrammar '<' ("template".toList ++ attrs ++ '>' :: s)
      = (.enter, attrs.length + 9) := by
  have hstarts : "template".toList.isPrefixOf ("template".toList ++ attrs ++ '>' :: s) = true :=
    List.isPrefixOf_iff_prefix.mpr (by rw [List.append_assoc]; exact List.prefix_append _ _)
  have hdrop : ("template".toList ++ attrs ++ '>' :: s).drop "template".toList.length
      = attrs ++ '>' :: s := by rw [List.append_assoc, List.drop_left]
  have hboundary : ((attrs ++ '>' :: s).head?.map isWordChar).getD false = false := by
    cases attrs with
    | nil => rfl
    | cons c attrs => simpa using hword c rfl
  have hlength : nestedTagLength? '<' ("template".toList ++ attrs ++ '>' :: s)
      = some (attrs.length + 9) := by
    simp only [nestedTagLength?, hstarts, hdrop, hboundary, throughLength?, cut_append_cons hattrs]
    rfl
  simp only [templateGrammar, hlength]

theorem templateGrammar_close {gap : List Char} (hgap : ∀ c ∈ gap, isMarkerSpace c = true)
    (s : List Char) :
    templateGrammar '<' ("/template".toList ++ gap ++ '>' :: s)
      = (.leave, gap.length + 10) := by
  have hstarts : "/template".toList.isPrefixOf ("/template".toList ++ gap ++ '>' :: s) = true :=
    List.isPrefixOf_iff_prefix.mpr (by rw [List.append_assoc]; exact List.prefix_append _ _)
  have hdrop : ("/template".toList ++ gap ++ '>' :: s).drop "/template".toList.length
      = gap ++ '>' :: s := by rw [List.append_assoc, List.drop_left]
  have hnested : nestedTagLength? '<' ("/template".toList ++ gap ++ '>' :: s) = none := rfl
  have hlength : closingTagLength? '<' ("/template".toList ++ gap ++ '>' :: s)
      = some (gap.length + 10) := by
    have hspaces := takeWhile_gap hgap (m := '>') (by decide) s
    simp only [closingTagLength?, hstarts, hdrop, hspaces, List.drop_left, List.head?_cons]
    simp
    omega
  simp only [templateGrammar, hnested, hlength]

theorem PlainMarkup.passed (h : PlainMarkup t) : Passed templateGrammar '<' t := by
  induction t with
  | nil => exact Passed.nil _ _
  | cons c t ih =>
    refine (ih h.tail).token (w := []) fun s => ?_
    by_cases hc : c = '<'
    · subst hc
      obtain ⟨hopen, hclose⟩ := h t List.suffix_rfl
      simp [templateGrammar, nestedTagLength?_eq_none hopen, closingTagLength?_eq_none hclose]
    · exact templateGrammar_of_ne hc _

/-- **The tokens of a template text** leave its template as it was, if a tag follows. -/
theorem TemplateText.passed (h : TemplateText t) : Passed templateGrammar '<' t := by
  induction h with
  | plain hs => exact hs.passed
  | nested s attrs t gap r hs hword hattrs _ hgap _ iht ihr =>
    have hnest := Passed.nest (c := '<') (w := "template".toList ++ attrs ++ ['>'])
      (v := "/template".toList ++ gap ++ ['>'])
      (fun u => by simpa using templateGrammar_open hword hattrs u)
      (fun u => by simpa using templateGrammar_close hgap u) iht ihr
    simpa using hs.passed.append_cons hnest

/-! ### Regions -/

def Region.IsText : Region → List Char → Prop
  | .config | .logic => BlockText
  | .template => TemplateText

def Region.closer : Region → List Char
  | .config | .logic => ['\x7d']
  | .template => "</template>".toList

theorem regionFrom_closed (r : Region) (ht : r.IsText t) (s : List Char) :
    regionFrom r.grammar 0 (t ++ r.closer ++ s) = some (t, s) := by
  have hblock : ∀ {t : List Char}, BlockText t →
      regionFrom blockGrammar 0 (t ++ ['\x7d'] ++ s) = some (t, s) := by
    intro t ht
    have hleave : blockGrammar '\x7d' s = (.leave, 0) := rfl
    rw [List.append_assoc, List.singleton_append, ht.passed, regionFrom_leave hleave, readOn_some,
      List.append_nil, List.drop_zero]
  cases r with
  | config => exact hblock ht
  | logic => exact hblock ht
  | template =>
    have hleave : templateGrammar '<' ("/template>".toList ++ s) = (.leave, 10) :=
      templateGrammar_close (List.forall_mem_nil _) s
    have hpassed := TemplateText.passed ht 0 ("/template>".toList ++ s)
    rw [List.append_assoc]
    refine hpassed.trans ?_
    rw [regionFrom_leave hleave, readOn_some, List.append_nil]
    rfl

def marks (g : Grammar) : List Char → List Mark
  | [] => []
  | c :: cs => (g c cs).1 :: marks g (cs.drop (g c cs).2)
termination_by s => s.length
decreasing_by
  simp only [List.length_drop, List.length_cons]
  omega

/-- The tokens of a text close none of the `d` levels that are open before it, nor the region
itself: at every place as many levels were opened as closed. -/
def StaysOpen (g : Grammar) (d : Nat) (s : List Char) : Prop :=
  ∀ a, a <+: marks g s → a.count .leave ≤ a.count .enter + d

theorem staysOpen_cons {g : Grammar} {d : Nat} {c : Char} {cs : List Char} :
    StaysOpen g d (c :: cs) ↔ ∀ a, a <+: marks g (cs.drop (g c cs).2) →
      ((g c cs).1 :: a).count .leave ≤ ((g c cs).1 :: a).count .enter + d := by
  rw [StaysOpen, marks]
  constructor
  · intro h a ha
    exact h _ (List.cons_prefix_cons.mpr ⟨rfl, ha⟩)
  · intro h a ha
    rcases List.prefix_cons_iff.mp ha with rfl | ⟨b, rfl, hb⟩
    · simp
    · exact h b hb

/-- **A region is not closed** if and only if no token of the text closes it. -/
theorem regionFrom_eq_none_iff (g : Grammar) (d : Nat) (s : List Char) :
    regionFrom g d s = none ↔ StaysOpen g d s := by
  induction hlen : s.length using Nat.strongRecOn generalizing s d with
  | ind len ih =>
    cases s with
    | nil => simp [regionFrom, StaysOpen, marks]
    | cons c cs =>
      have hnext : ∀ e, regionFrom g e (cs.drop (g c cs).2) = none ↔
          StaysOpen g e (cs.drop (g c cs).2) := by
        intro e
        refine ih _ ?_ e _ rfl
        rw [← hlen, List.length_drop, List.length_cons]
        omega
      rw [staysOpen_cons]
      cases hmark : (g c cs).1 with
      | enter =>
        rw [regionFrom_enter (Prod.ext hmark rfl), readOn_eq_none, hnext]
        refine forall₂_congr fun a _ => ?_
        simp
        omega
      | leave =>
        cases d with
        | zero =>
          rw [regionFrom_leave (Prod.ext hmark rfl)]
          simp only [reduceCtorEq, false_iff]
          intro h
          have hfirst := h [] List.nil_prefix
          simp at hfirst
        | succ d =>
          rw [regionFrom_leave_succ (Prod.ext hmark rfl), readOn_eq_none, hnext]
          refine forall₂_congr fun a _ => ?_
          simp
          omega
      | text =>
        rw [regionFrom_text (Prod.ext hmark rfl), readOn_eq_none, hnext]
        refine forall₂_congr fun a _ => ?_
        simp

end Pagesmith.Page
