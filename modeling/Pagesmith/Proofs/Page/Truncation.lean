import Mathlib.Tactic
import Pagesmith.Proofs.Page.Section

/-!
# Regions up to the first delimiter

Older pages end every region at its first closing delimiter.  Where nothing is nested the first
delimiter is the only one, and one expects the two ways of reading a page to agree.  They do, but
for comments: a comment that starts in a block and does not end there hides the brace that closes
it, for instance the `//` of an address on the last line of a block.

* `Region.IsFlat`: texts in which nothing is nested.
* `Unopened r w`: no marker of the region `r` starts in `w`.
* `text?_truncatedSections`: the first region of each kind, up to its first delimiter.
* `Commented after t`: every comment of a block ends in it, where `after` follows its brace.
* `Part.readBack_iff`: a block with nothing nested is read up to its own brace if and only if its
  comments end in it.
* `extractSections_agree_iff`: when the two ways agree.
-/

namespace Pagesmith.Page

open Pagesmith.Text

variable {r : Region} {after s t w : List Char} {p : Part} {c : Char} {parts : List (Part × Gap)}

/-! ### Texts with nothing nested -/

def flatMarks : List Char := ['\x7b', '\x7d', '"', '\'', '\x60', '@', '<']

def Region.IsFlat : Region → List Char → Prop
  | .config | .logic => fun t => ∀ c ∈ t, c ∉ flatMarks
  | .template => fun t => '@' ∉ t ∧ ¬ "<template".toList <:+: t ∧ ¬ "</template".toList <:+: t

structure Source.Flat (src : Source) : Prop where
  distinct : (src.parts.map fun p => p.1.region).Nodup
  isFlat : ∀ p ∈ src.parts, p.1.region.IsFlat p.1.text

/-! ### Where a marker does not start -/

def Region.first : Region → Char
  | .config | .logic => '@'
  | .template => '<'

def Unopened (r : Region) (w : List Char) : Prop :=
  ∀ (c : Char) (v s : List Char), c :: v <:+ w → r.opener? (c :: v ++ s) = none

theorem opener?_of_ne (hc : c ≠ r.first) (s : List Char) : r.opener? (c :: s) = none := by
  cases r <;> simp_all [Region.opener?, Region.first, braceMarkerLength?, Ne.symm]

theorem Unopened.of_not_mem (h : r.first ∉ w) : Unopened r w := by
  intro c v s hsuffix
  refine opener?_of_ne (fun hc => h ?_) (v ++ s)
  exact hc ▸ hsuffix.subset List.mem_cons_self

theorem Unopened.cons (h : Unopened r w) (hc : ∀ s, r.opener? (c :: w ++ s) = none) :
    Unopened r (c :: w) := by
  intro d v s hsuffix
  rcases List.suffix_cons_iff.mp hsuffix with heq | hsuffix
  · rw [heq]
    exact hc s
  · exact h d v s hsuffix

theorem Unopened.of_suffix {v : List Char} (h : Unopened r w) (hv : v <:+ w) :
    Unopened r v := fun c u s hsuffix => h c u s (hsuffix.trans hv)

theorem Unopened.append {v : List Char} (hv : Unopened r v) (hw : Unopened r w) :
    Unopened r (v ++ w) := by
  induction v with
  | nil => exact hw
  | cons c v ih =>
    refine (ih (hv.of_suffix (List.suffix_cons c v))).cons ?_
    intro s
    rw [← List.cons_append, List.append_assoc]
    exact hv c v (w ++ s) List.suffix_rfl

theorem not_mem_marker {gap : List Char} (hgap : ∀ c ∈ gap, isMarkerSpace c = true)
    (word : List Char) (hword : c ∉ word) (hspace : isMarkerSpace c = false) (hbrace : c ≠ '\x7b') :
    c ∉ word ++ gap ++ ['\x7b'] := by
  intro hmem
  simp only [List.mem_append, List.mem_singleton] at hmem
  rcases hmem with (hmem | hmem) | hmem
  · exact hword hmem
  · rw [hgap c hmem] at hspace
    cases hspace
  · exact hbrace hmem

theorem unopened_opener {k : Region} {m : List Char} (h : Opens k m) (hne : k ≠ r) :
    Unopened r m := by
  cases h with
  | config gap hgap =>
    cases r with
    | config => contradiction
    | logic =>
      have hat := not_mem_marker hgap "page".toList (c := '@') (by decide) rfl (by decide)
      exact Unopened.cons (.of_not_mem hat) fun s => rfl
    | template => exact .of_not_mem (not_mem_marker hgap _ (by decide) rfl (by decide))
  | logic gap hgap =>
    cases r with
    | config =>
      have hat := not_mem_marker hgap "backend".toList (c := '@') (by decide) rfl (by decide)
      exact Unopened.cons (.of_not_mem hat) fun s => rfl
    | logic => contradiction
    | template => exact .of_not_mem (not_mem_marker hgap _ (by decide) rfl (by decide))
  | template =>
    cases r with
    | config => exact .of_not_mem (by decide)
    | logic => exact .of_not_mem (by decide)
    | template => contradiction

theorem unopened_gap (r : Region) (g : Gap) : Unopened r g.1 := by
  refine .of_not_mem ?_
  cases r
  · exact g.2.1
  · exact g.2.1
  · exact g.2.2

/-- Behind the marker of a region starts no marker, unless both are templates. -/
theorem unopened_text {k : Region} (ht : k.IsFlat t) (hne : k ≠ .template ∨ r ≠ .template) :
    Unopened r (t ++ k.closer) := by
  have hblock : (∀ c ∈ t, c ∉ flatMarks) → r.first ∉ t ++ ['\x7d'] := by
    intro ht hmem
    rcases List.mem_append.mp hmem with hmem | hmem
    · exact ht _ hmem (by cases r <;> decide)
    · revert hmem
      cases r <;> decide
  refine .of_not_mem ?_
  cases k with
  | config => exact hblock ht
  | logic => exact hblock ht
  | template =>
    have hfirst : r.first = '@' := by
      cases r <;> simp_all [Region.first]
    rw [hfirst]
    intro hmem
    rcases List.mem_append.mp hmem with hmem | hmem
    · exact ht.1 hmem
    · exact absurd hmem (by decide)

theorem unopened_written (hp : p.region.IsFlat p.text) (hne : p.region ≠ r) :
    Unopened r p.written := by
  rw [Part.written, List.append_assoc]
  refine (unopened_opener p.opens hne).append (unopened_text hp ?_)
  by_contra hboth
  rw [not_or, not_not, not_not] at hboth
  exact hne (hboth.1.trans hboth.2.symm)

/-! ### The first delimiter -/

theorem text?_truncatedSections_eq (s : List Char) (r : Region) :
    (truncatedSections s).text? r = truncatedRegion r.opener? r.closer s := by
  cases r <;> rfl

theorem truncatedRegion_append (h : Unopened r w) (closer s : List Char) :
    truncatedRegion r.opener? closer (w ++ s) = truncatedRegion r.opener? closer s := by
  induction w with
  | nil => rfl
  | cons c w ih =>
    have hc : r.opener? (c :: (w ++ s)) = none := h c w s List.suffix_rfl
    rw [List.cons_append, truncatedRegion, hc]
    exact ih (h.of_suffix (List.suffix_cons c w))

theorem cut_closer (ht : r.IsFlat t) (s : List Char) :
    cut r.closer (t ++ r.closer ++ s) = some (t, s) := by
  have hblock : (∀ c ∈ t, c ∉ flatMarks) →
      cut ['\x7d'] (t ++ ['\x7d'] ++ s) = some (t, s) := by
    intro ht
    have hbrace : '\x7d' ∉ t := fun hmem => ht _ hmem (by decide)
    rw [List.append_assoc]
    exact cut_append_cons hbrace s
  cases r with
  | config => exact hblock ht
  | logic => exact hblock ht
  | template =>
    have htag : ¬ "</template>".toList <:+: t := by
      intro hinfix
      have hstarts : "</template".toList <+: "</template>".toList := by decide
      exact ht.2.2 (hstarts.isInfix.trans hinfix)
    exact cut_append (c := '<') (w := "/template>".toList) (by decide) htag s

theorem Opens.ne_nil {m : List Char} (h : Opens r m) : m ≠ [] := by
  cases h <;> simp

theorem truncatedRegion_written (hp : p.region.IsFlat p.text) (s : List Char) :
    truncatedRegion p.region.opener? p.region.closer (p.written ++ s) = some p.text := by
  have hopener := opener?_append p.opens (p.text ++ p.region.closer ++ s)
  have hdrop : (p.opener ++ (p.text ++ p.region.closer ++ s)).drop p.opener.length
      = p.text ++ p.region.closer ++ s := List.drop_left
  rw [p.written_append]
  generalize hw : p.opener ++ (p.text ++ p.region.closer ++ s) = w at hopener hdrop
  cases w with
  | nil => exact absurd (List.append_eq_nil_iff.mp hw).1 p.opens.ne_nil
  | cons c w =>
    rw [truncatedRegion, hopener]
    simp only [hdrop, cut_closer hp, Option.map_some]

/-- **Up to the first delimiter** the first region of each kind is found, if nothing is nested. -/
theorem text?_truncatedSections {src : Source} (h : ∀ p ∈ src.parts, p.1.region.IsFlat p.1.text)
    (r : Region) : (truncatedSections src.text).text? r = src.firstText? r := by
  obtain ⟨lead, parts⟩ := src
  rw [text?_truncatedSections_eq, Source.text, truncatedRegion_append (unopened_gap r lead),
    Source.firstText?]
  induction parts with
  | nil => rfl
  | cons p parts ih =>
    have hp := h p List.mem_cons_self
    rw [Source.partsText, List.flatMap_cons, List.append_assoc, List.find?_cons]
    by_cases hr : p.1.region = r
    · subst hr
      rw [truncatedRegion_written hp, beq_self_eq_true]
      rfl
    · rw [truncatedRegion_append (unopened_written hp hr),
        truncatedRegion_append (unopened_gap r p.2), beq_false_of_ne hr]
      exact ih fun q hq => h q (List.mem_cons_of_mem p hq)

/-! ### Comments of a block -/

/-- Every comment of a block ends in it, where the text `after` follows the brace that closes the
block.  What starts like a comment and is closed nowhere is none. -/
inductive Commented (after : List Char) : List Char → Prop where
  | nil : Commented after []
  | char {c : Char} {s : List Char} (hc : c ≠ '/') (hs : Commented after s) :
      Commented after (c :: s)
  | slash {s : List Char} (hslash : s.head? ≠ some '/') (hstar : s.head? ≠ some '*')
      (hs : Commented after s) : Commented after ('/' :: s)
  | comment {t s : List Char} (ht : ¬ ['*', '/'] <:+: t) (hs : Commented after s) :
      Commented after ('/' :: '*' :: t ++ '*' :: '/' :: s)
  | lineComment {t s : List Char} (ht : '\n' ∉ t) (hs : Commented after s) :
      Commented after ('/' :: '/' :: t ++ '\n' :: s)
  | unclosed {s : List Char} (hopen : ¬ ['*', '/'] <:+: s ++ '\x7d' :: after)
      (hs : Commented after ('*' :: s)) : Commented after ('/' :: '*' :: s)

theorem Commented.chars (hw : ∀ c ∈ w, c ≠ '/') (hs : Commented after s) :
    Commented after (w ++ s) := by
  induction w with
  | nil => exact hs
  | cons c w ih =>
    rw [List.forall_mem_cons] at hw
    exact .char hw.1 (ih hw.2)

theorem blockGrammar_unclosed (h : ¬ ['*', '/'] <:+: s) :
    blockGrammar '/' ('*' :: s) = (.text, 0) := by
  have hcut : cut ['*', '/'] s = none := (cut_eq_none_iff (by simp)).mpr h
  simp [blockGrammar, throughLength?, hcut]

theorem not_mem_blockMarks (hc : c ∉ flatMarks) (hslash : c ≠ '/') : c ∉ blockMarks := by
  simp only [flatMarks, List.mem_cons, List.not_mem_nil, or_false, not_or] at hc
  simp only [blockMarks, List.mem_cons, List.not_mem_nil, or_false, not_or]
  exact ⟨hc.1, hc.2.1, hc.2.2.1, hc.2.2.2.1, hc.2.2.2.2.1, hslash⟩

theorem regionFrom_comment (ht : ¬ ['*', '/'] <:+: t) (s : List Char) :
    regionFrom blockGrammar 0 ('/' :: '*' :: t ++ '*' :: '/' :: s)
      = readOn ('/' :: '*' :: t ++ ['*', '/']) (regionFrom blockGrammar 0 s) := by
  have htoken := regionFrom_token (g := blockGrammar) (c := '/') (w := '*' :: t ++ ['*', '/'])
    (s := s) (by simpa using blockGrammar_comment ht s) 0
  simpa using htoken

theorem regionFrom_lineComment (ht : '\n' ∉ t) (s : List Char) :
    regionFrom blockGrammar 0 ('/' :: '/' :: t ++ '\n' :: s)
      = readOn ('/' :: '/' :: t ++ ['\n']) (regionFrom blockGrammar 0 s) := by
  have htoken := regionFrom_token (g := blockGrammar) (c := '/') (w := '/' :: t)
    (s := '\n' :: s) (by simpa using blockGrammar_lineComment ht s) 0
  have hnewline := regionFrom_char (blockGrammar_char (c := '\n') (by decide) s) 0
  rw [hnewline, readOn_readOn] at htoken
  simpa using htoken

/-- A block whose comments end in it is read up to its own brace. -/
theorem Commented.regionFrom_eq (h : Commented after t) (hflat : ∀ c ∈ t, c ∉ flatMarks) :
    regionFrom blockGrammar 0 (t ++ '\x7d' :: after) = some (t, after) := by
  induction h with
  | nil =>
    have hleave : blockGrammar '\x7d' after = (.leave, 0) := rfl
    exact regionFrom_leave hleave
  | @char c s hc _ ih =>
    rw [List.forall_mem_cons] at hflat
    have hplain := blockGrammar_char (not_mem_blockMarks hflat.1 hc) (s ++ '\x7d' :: after)
    rw [List.cons_append, regionFrom_char hplain, ih hflat.2]
    rfl
  | @slash s hslash hstar _ ih =>
    rw [List.forall_mem_cons] at hflat
    have hplain : blockGrammar '/' (s ++ '\x7d' :: after) = (.text, 0) := by
      refine blockGrammar_slash ?_ ?_
      all_goals cases s <;> simp_all
    rw [List.cons_append, regionFrom_char hplain, ih hflat.2]
    rfl
  | @comment t s ht _ ih =>
    have hs : ∀ c ∈ s, c ∉ flatMarks := fun c hc => hflat c (by simp [hc])
    have hread := regionFrom_comment ht (s ++ '\x7d' :: after)
    rw [ih hs] at hread
    simpa using hread
  | @lineComment t s ht _ ih =>
    have hs : ∀ c ∈ s, c ∉ flatMarks := fun c hc => hflat c (by simp [hc])
    have hread := regionFrom_lineComment ht (s ++ '\x7d' :: after)
    rw [ih hs] at hread
    simpa using hread
  | @unclosed s hopen _ ih =>
    rw [List.forall_mem_cons] at hflat
    rw [List.cons_append, List.cons_append, regionFrom_char (blockGrammar_unclosed hopen),
      ← List.cons_append, ih hflat.2]
    rfl

/-- A reading that takes the closing brace of a block into its text, or finds no end. -/
def Swallows (r : Option (List Char × List Char)) : Prop := ∀ u s, r = some (u, s) → '\x7d' ∈ u

theorem Swallows.readOn_right {r : Option (List Char × List Char)} (h : Swallows r)
    (w : List Char) : Swallows (readOn w r) := by
  intro u s hu
  obtain ⟨v, hv, rfl⟩ := readOn_eq_some.mp hu
  exact List.mem_append_right w (h v s hv)

theorem swallows_readOn_left (hw : '\x7d' ∈ w) (r : Option (List Char × List Char)) :
    Swallows (readOn w r) := by
  intro u s hu
  obtain ⟨v, -, rfl⟩ := readOn_eq_some.mp hu
  exact List.mem_append_left v hw

/-- A token that takes more than the text of its block takes the brace behind it. -/
theorem brace_mem_take {n : Nat} (hn : t.length < n) : '\x7d' ∈ (t ++ '\x7d' :: after).take n := by
  rw [List.take_append, List.take_of_length_le hn.le]
  refine List.mem_append_right t ?_
  obtain ⟨k, hk⟩ : ∃ k, n - t.length = k + 1 := ⟨n - t.length - 1, by omega⟩
  rw [hk, List.take_succ_cons]
  exact List.mem_cons_self

theorem lineComment_swallows (ht : '\n' ∉ t) (after : List Char) :
    Swallows (regionFrom blockGrammar 0 ('/' :: '/' :: t ++ '\x7d' :: after)) := by
  have hlength : t.length < ((t ++ '\x7d' :: after).takeWhile (· != '\n')).length := by
    rw [List.takeWhile_append_of_pos, List.takeWhile_cons_of_pos (by decide), List.length_append,
      List.length_cons]
    · omega
    · intro c hc
      simpa using fun h : c = '\n' => ht (h ▸ hc)
  have hgrammar : blockGrammar '/' ('/' :: (t ++ '\x7d' :: after))
      = (.text, 1 + ((t ++ '\x7d' :: after).takeWhile (· != '\n')).length) := rfl
  rw [List.cons_append, List.cons_append, regionFrom_text hgrammar, Nat.add_comm 1,
    List.take_succ_cons]
  refine swallows_readOn_left ?_ _
  exact List.mem_cons_of_mem _ (List.mem_cons_of_mem _ (brace_mem_take hlength))

theorem comment_swallows (ht : ¬ ['*', '/'] <:+: t)
    (hclosed : ['*', '/'] <:+: t ++ '\x7d' :: after) :
    Swallows (regionFrom blockGrammar 0 ('/' :: '*' :: t ++ '\x7d' :: after)) := by
  obtain ⟨b, a, hcut⟩ := exists_cut (by simp) hclosed
  have hlength : t.length < b.length + 2 := by
    by_contra hle
    have hstarts : b ++ ['*', '/'] <+: t ++ '\x7d' :: after := ⟨a, (eq_of_cut hcut).symm⟩
    have hinside : b ++ ['*', '/'] <+: t :=
      List.prefix_of_prefix_length_le hstarts (List.prefix_append t _) (by simp; omega)
    exact ht ((List.suffix_append b ['*', '/']).isInfix.trans hinside.isInfix)
  have hgrammar : blockGrammar '/' ('*' :: (t ++ '\x7d' :: after)) = (.text, b.length + 2 + 1) := by
    simp [blockGrammar, throughLength?, hcut]
  rw [List.cons_append, List.cons_append, regionFrom_text hgrammar, List.take_succ_cons]
  refine swallows_readOn_left ?_ _
  exact List.mem_cons_of_mem _ (List.mem_cons_of_mem _ (brace_mem_take hlength))

inductive SlashStarts (after : List Char) : List Char → Prop where
  | nothing {t : List Char} (hslash : t.head? ≠ some '/') (hstar : t.head? ≠ some '*') :
      SlashStarts after t
  | lineComment {u s : List Char} (hu : '\n' ∉ u) : SlashStarts after ('/' :: u ++ '\n' :: s)
  | lastLine {u : List Char} (hu : '\n' ∉ u) : SlashStarts after ('/' :: u)
  | comment {u s : List Char} (hu : ¬ ['*', '/'] <:+: u) :
      SlashStarts after ('*' :: u ++ '*' :: '/' :: s)
  | closedBehind {u : List Char} (hu : ¬ ['*', '/'] <:+: u)
      (hclosed : ['*', '/'] <:+: u ++ '\x7d' :: after) : SlashStarts after ('*' :: u)
  | unclosed {u : List Char} (hopen : ¬ ['*', '/'] <:+: u ++ '\x7d' :: after) :
      SlashStarts after ('*' :: u)

theorem slashStarts (after t : List Char) : SlashStarts after t := by
  cases t with
  | nil => exact .nothing (by simp) (by simp)
  | cons d u =>
    by_cases hslash : d = '/'
    · subst hslash
      by_cases hu : '\n' ∈ u
      · obtain ⟨v, s, rfl, hv⟩ := List.eq_append_cons_of_mem hu
        exact .lineComment hv
      · exact .lastLine hu
    by_cases hstar : d = '*'
    · subst hstar
      by_cases hu : ['*', '/'] <:+: u
      · obtain ⟨v, s, hcut⟩ := exists_cut (by simp) hu
        rw [eq_of_cut hcut, List.append_assoc]
        exact .comment (not_infix_of_cut (by simp) hcut)
      by_cases hclosed : ['*', '/'] <:+: u ++ '\x7d' :: after
      · exact .closedBehind hu hclosed
      · exact .unclosed hclosed
    · exact .nothing (by simpa using hslash) (by simpa using hstar)

/-- **The comments of a block end in it, or one of them hides its brace.** -/
theorem commented_or_swallows (after : List Char) (hflat : ∀ c ∈ t, c ∉ flatMarks) :
    Commented after t ∨ Swallows (regionFrom blockGrammar 0 (t ++ '\x7d' :: after)) := by
  induction hlen : t.length using Nat.strongRecOn generalizing t with
  | ind len ih =>
    -- What stands behind a token `w` that is text decides, as the token ends before the brace.
    have hrest : ∀ {w s : List Char}, t = w ++ s → w ≠ [] →
        regionFrom blockGrammar 0 (t ++ '\x7d' :: after)
          = readOn w (regionFrom blockGrammar 0 (s ++ '\x7d' :: after)) →
        Commented after s ∨ Swallows (regionFrom blockGrammar 0 (t ++ '\x7d' :: after)) := by
      intro w s hsplit hw hread
      have hpos := List.length_pos_iff.mpr hw
      have hs : ∀ c ∈ s, c ∉ flatMarks := by
        intro c hc
        refine hflat c ?_
        rw [hsplit]
        exact List.mem_append_right w hc
      rw [hsplit, List.length_append] at hlen
      rw [hread]
      exact (ih s.length (by omega) hs rfl).imp_right fun h => h.readOn_right w
    cases t with
    | nil => exact .inl .nil
    | cons c t =>
      have hc := hflat c List.mem_cons_self
      by_cases hslash : c = '/'
      · subst hslash
        cases slashStarts after t with
        | nothing hslash hstar =>
          have hplain : blockGrammar '/' (t ++ '\x7d' :: after) = (.text, 0) := by
            refine blockGrammar_slash ?_ ?_
            all_goals cases t <;> simp_all
          exact (hrest (w := ['/']) rfl (by simp) (regionFrom_char hplain 0)).imp_left
            (.slash hslash hstar)
        | @lineComment u s hu =>
          have hread := regionFrom_lineComment hu (s ++ '\x7d' :: after)
          exact (hrest (w := '/' :: '/' :: u ++ ['\n']) (by simp) (by simp)
            (by simpa using hread)).imp_left (.lineComment hu)
        | lastLine hu => exact .inr (lineComment_swallows hu after)
        | @comment u s hu =>
          have hread := regionFrom_comment hu (s ++ '\x7d' :: after)
          exact (hrest (w := '/' :: '*' :: u ++ ['*', '/']) (by simp) (by simp)
            (by simpa using hread)).imp_left (.comment hu)
        | closedBehind hu hclosed => exact .inr (comment_swallows hu hclosed)
        | unclosed hopen =>
          exact (hrest (w := ['/']) rfl (by simp)
            (regionFrom_char (blockGrammar_unclosed hopen) 0)).imp_left (.unclosed hopen)
      · have hplain := blockGrammar_char (not_mem_blockMarks hc hslash) (t ++ '\x7d' :: after)
        exact (hrest (w := [c]) rfl (by simp) (regionFrom_char hplain 0)).imp_left (.char hslash)

/-! ### Where the two ways agree -/

theorem brace_not_mem (ht : r.IsFlat t) (hr : r ≠ .template) : '\x7d' ∉ t := by
  intro hmem
  cases r with
  | config => exact ht _ hmem (by decide)
  | logic => exact ht _ hmem (by decide)
  | template => contradiction

theorem Part.commented_or_swallows (hp : p.region.IsFlat p.text) (hr : p.region ≠ .template)
    (s : List Char) :
    Commented s p.text ∨
      Swallows (regionFrom p.region.grammar 0 (p.text ++ p.region.closer ++ s)) := by
  obtain ⟨r, opener, t, hopens⟩ := p
  rw [List.append_assoc]
  cases r with
  | config => exact Page.commented_or_swallows s hp
  | logic => exact Page.commented_or_swallows s hp
  | template => contradiction

theorem Part.readBack_of_commented (hp : p.region.IsFlat p.text)
    (h : p.region ≠ .template → Commented s p.text) : p.ReadBack s := by
  obtain ⟨r, opener, t, hopens⟩ := p
  rw [Part.ReadBack]
  cases r with
  | config =>
    rw [List.append_assoc]
    exact (h (by simp)).regionFrom_eq hp
  | logic =>
    rw [List.append_assoc]
    exact (h (by simp)).regionFrom_eq hp
  | template => exact regionFrom_closed .template (.plain (plainMarkup_of_tagless hp.2.1 hp.2.2)) s

/-- **A region with nothing nested is read up to its own delimiter** if and only if it is a template
or its comments end in it. -/
theorem Part.readBack_iff (hp : p.region.IsFlat p.text) (s : List Char) :
    p.ReadBack s ↔ (p.region ≠ .template → Commented s p.text) := by
  refine ⟨fun hread hr => ?_, readBack_of_commented hp⟩
  rcases commented_or_swallows hp hr s with h | h
  · exact h
  · exact absurd (h _ _ hread) (brace_not_mem hp hr)

namespace Source

def PartsCommented : List (Part × Gap) → Prop
  | [] => True
  | p :: parts =>
    (p.1.region ≠ .template → Commented (p.2.1 ++ partsText parts) p.1.text) ∧ PartsCommented parts

def CommentsEnd (src : Source) : Prop := PartsCommented src.parts

theorem allReadBack_iff (hflat : ∀ p ∈ parts, p.1.region.IsFlat p.1.text) :
    AllReadBack [] parts ↔ PartsCommented parts := by
  induction parts with
  | nil => exact Iff.rfl
  | cons p parts ih =>
    rw [List.forall_mem_cons] at hflat
    rw [AllReadBack, PartsCommented, ih hflat.2, Part.readBack_iff hflat.1, List.append_nil]

end Source

theorem text?_sections_of_unopened (h : Unopened r s) : (sections s).text? r = none := by
  induction hlen : s.length using Nat.strongRecOn generalizing s with
  | ind len ih =>
    cases s with
    | nil => rw [sections_nil, Sections.text?_empty]
    | cons c cs =>
      have hshorter : ∀ {t : List Char}, t <:+ c :: cs → t.length < (c :: cs).length →
          (sections t).text? r = none :=
        fun hsuffix hlt => ih _ (hlen ▸ hlt) (h.of_suffix hsuffix) rfl
      cases hmarker : openingMarker? (c :: cs) with
      | none =>
        rw [sections, sectionsFrom_of_none hmarker]
        exact hshorter (List.suffix_cons c cs) (by simp)
      | some m =>
        obtain ⟨k, n⟩ := m
        have hpos := openingMarker?_pos hmarker
        have hdrop : ((c :: cs).drop n).length < (c :: cs).length := by
          rw [List.length_drop, List.length_cons]
          omega
        have hkind : k ≠ r := by
          rintro rfl
          have hnone := h c cs [] List.suffix_rfl
          rw [List.append_nil, opener?_of_openingMarker? hmarker] at hnone
          cases hnone
        cases hregion : regionFrom k.grammar 0 ((c :: cs).drop n) with
        | none =>
          rw [sections, sectionsFrom_of_unclosed hmarker hregion]
          exact hshorter (List.drop_suffix n _) hdrop
        | some p =>
          obtain ⟨t, rest⟩ := p
          have hlt := length_regionFrom_lt k.grammar 0 _ hregion
          have hrest := (suffix_of_regionFrom hregion).trans (List.drop_suffix n (c :: cs))
          rw [sections, sectionsFrom_of_some hmarker hregion, sectionsFrom_eq,
            Sections.text?_orElse, Sections.text?_add, Sections.text?_empty, if_neg hkind,
            hshorter hrest (by omega)]
          rfl

theorem unopened_partsText (hflat : ∀ p ∈ parts, p.1.region.IsFlat p.1.text)
    (hr : r ∉ parts.map fun p => p.1.region) : Unopened r (Source.partsText parts) := by
  induction parts with
  | nil => exact .of_not_mem (by simp [Source.partsText])
  | cons p parts ih =>
    rw [List.forall_mem_cons] at hflat
    rw [List.map_cons, List.mem_cons, not_or] at hr
    rw [Source.partsText, List.flatMap_cons]
    refine .append (.append (unopened_written hflat.1 (Ne.symm hr.1)) (unopened_gap r p.2)) ?_
    exact ih hflat.2 hr.2

/-- A block that is not read up to its own brace is found with another text, or not at all. -/
theorem get_sections_written_ne (hp : p.region.IsFlat p.text) (hs : Unopened p.region s)
    (hread : ¬ p.ReadBack s) : (sections (p.written ++ s)).get p.region ≠ p.text := by
  rw [Part.readBack_iff hp, Classical.not_imp] at hread
  obtain ⟨hr, hcommented⟩ := hread
  have hswallows := (Part.commented_or_swallows hp hr s).resolve_left hcommented
  have hmarker := openingMarker?_append p.opens (p.text ++ p.region.closer ++ s)
  have hdrop : (p.opener ++ (p.text ++ p.region.closer ++ s)).drop p.opener.length
      = p.text ++ p.region.closer ++ s := List.drop_left
  rw [p.written_append, sections, Sections.get_eq]
  cases hregion : regionFrom p.region.grammar 0 (p.text ++ p.region.closer ++ s) with
  | none =>
    have hnone := text?_sections_of_unopened ((unopened_text hp (.inl hr)).append hs)
    rw [sectionsFrom_of_unclosed hmarker (hdrop.symm ▸ hregion), hdrop, ← sections, hnone]
    intro hnil
    exact hcommented (hnil ▸ .nil)
  | some q =>
    obtain ⟨u, rest⟩ := q
    rw [sectionsFrom_of_some hmarker (hdrop.symm ▸ hregion), sectionsFrom_eq,
      Sections.text?_orElse, Sections.text?_add, Sections.text?_empty, if_pos rfl]
    rintro rfl
    exact brace_not_mem hp hr (hswallows _ _ hregion)

theorem allReadBack_of_get (hflat : ∀ p ∈ parts, p.1.region.IsFlat p.1.text)
    (hdistinct : (parts.map fun p => p.1.region).Nodup)
    (h : ∀ p ∈ parts, (sections (Source.partsText parts)).get p.1.region = p.1.text) :
    Source.AllReadBack [] parts := by
  induction parts with
  | nil => trivial
  | cons p parts ih =>
    rw [List.forall_mem_cons] at hflat
    rw [List.map_cons, List.nodup_cons] at hdistinct
    have hbehind : Unopened p.1.region (p.2.1 ++ Source.partsText parts) :=
      (unopened_gap _ p.2).append (unopened_partsText hflat.2 hdistinct.1)
    have hread : p.1.ReadBack (p.2.1 ++ Source.partsText parts ++ []) := by
      rw [List.append_nil]
      by_contra hnot
      refine get_sections_written_ne hflat.1 hbehind hnot ?_
      have hfound := h p List.mem_cons_self
      rw [Source.partsText, List.flatMap_cons, List.append_assoc] at hfound
      exact hfound
    refine ⟨hread, ih hflat.2 hdistinct.2 fun q hq => ?_⟩
    have hne : p.1.region ≠ q.1.region := fun heq =>
      hdistinct.1 (List.mem_map.mpr ⟨q, hq, heq.symm⟩)
    have hfound := h q (List.mem_cons_of_mem p hq)
    have hcons := sections_cons hread
    rw [List.append_nil, List.append_nil] at hcons
    rw [hcons, Sections.get_eq, Sections.text?_orElse, Sections.text?_add, Sections.text?_empty,
      if_neg hne, Option.none_or, Option.none_or] at hfound
    rw [Sections.get_eq]
    exact hfound

/-- **Up to the first delimiter and up to the matching one.**  If a source has at most one region of
each kind and nothing is nested, the first delimiters give the texts of its regions, and the
matching ones give the same texts if and only if the comments of every block end in it. -/
theorem extractSections_agree_iff (src : Source) (h : src.Flat) :
    (∀ r, (extractSections .truncated src.text).get r = (src.firstText? r).getD []) ∧
      ((∀ r, (extractSections .balanced src.text).get r
          = (extractSections .truncated src.text).get r) ↔ src.CommentsEnd) := by
  have htruncated : ∀ r, (extractSections .truncated src.text).get r
      = (src.firstText? r).getD [] := by
    intro r
    rw [extractSections, Sections.get_eq, text?_truncatedSections h.isFlat]
  have hlead : extractSections .balanced src.text = sections (Source.partsText src.parts) := by
    rw [extractSections, sections, Source.text, sectionsFrom_gap, sections]
  refine ⟨htruncated, ?_⟩
  simp only [htruncated, hlead]
  rw [Source.CommentsEnd, ← Source.allReadBack_iff h.isFlat]
  constructor
  · intro hsame
    refine allReadBack_of_get h.isFlat h.distinct fun p hp => ?_
    rw [hsame, firstText?_of_mem h.distinct hp, Option.getD_some]
  · intro hread r
    have hfirst := text?_sections_partsText hread r
    rw [List.append_nil, sections_nil, Sections.text?_empty, Option.or_none] at hfirst
    rw [Sections.get_eq, hfirst, Source.firstText?]

/-- Both kinds of comments in a config block, and the start of a comment in a logic block that is
closed nowhere. -/
theorem extractSections_agree_iff_comments :
    let markup : List Char := "<p>//</p>".toList
    let config : List Char := "a: /* b */ c // d\n".toList
    let logic : List Char := "x /* y".toList
    let src : Source := ⟨⟨[], by decide⟩,
      [(⟨.template, "<template>".toList, markup, .template⟩, ⟨['\n'], by decide⟩),
        (⟨.config, "@page \x7b".toList, config, .config [' '] (List.all_eq_true.mp rfl)⟩,
          ⟨[], by decide⟩),
        (⟨.logic, "@backend\x7b".toList, logic, .logic [] (by simp)⟩, ⟨['*'], by decide⟩)]⟩
    (src.Flat ∧ src.CommentsEnd) ∧
      (extractSections .balanced src.text).get .config = config ∧
      (extractSections .balanced src.text).get .logic = logic ∧
      (extractSections .balanced src.text).get .template = markup := by
  intro markup config logic src
  have hflat : src.Flat := by
    refine ⟨by simp only [src]; decide, fun p hp => ?_⟩
    simp only [src, List.mem_cons, List.not_mem_nil, or_false] at hp
    rcases hp with rfl | rfl | rfl
    · exact ⟨by decide, by decide, by decide⟩
    · exact List.all_iff_forall_prop.mp rfl
    · exact List.all_iff_forall_prop.mp rfl
  have hcomments : src.CommentsEnd := by
    refine ⟨fun h => absurd rfl h, fun _ => ?_, fun _ => ?_, trivial⟩
    · exact .chars (w := "a: ".toList) (List.all_iff_forall_prop.mp rfl)
        (.comment (t := " b ".toList) (by decide)
          (.chars (w := " c ".toList) (List.all_iff_forall_prop.mp rfl)
            (.lineComment (t := " d".toList) (by decide) .nil)))
    · exact .chars (w := "x ".toList) (List.all_iff_forall_prop.mp rfl)
        (.unclosed (s := " y".toList) (by decide)
          (.chars (w := "* y".toList) (List.all_iff_forall_prop.mp rfl) .nil))
  obtain ⟨htruncated, hagree⟩ := extractSections_agree_iff src hflat
  have hsame := hagree.mpr hcomments
  simp only [htruncated] at hsame
  exact ⟨⟨hflat, hcomments⟩, hsame .config, hsame .logic, hsame .template⟩

/-- The slashes of an address hide the brace behind it: a block with nothing nested is found up to
its first brace and is not found up to the matching one. -/
theorem address_hides_brace :
    let config : List Char := "url: http://example.com".toList
    let src : Source := ⟨⟨[], by decide⟩,
      [(⟨.config, "@page \x7b".toList, config, .config [' '] (List.all_eq_true.mp rfl)⟩,
        ⟨[], by decide⟩)]⟩
    src.Flat ∧ (extractSections .truncated src.text).get .config = config ∧
      (extractSections .balanced src.text).get .config = [] := by
  have hunclosed : regionFrom blockGrammar 0 "url: http://example.com\x7d".toList = none := by cbv
  have hgap := sectionsFrom_gap {} ⟨"url: http://example.com\x7d".toList, by decide⟩ []
  rw [List.append_nil, sectionsFrom_nil] at hgap
  intro config src
  have hflat : src.Flat := by
    refine ⟨by simp only [src]; decide, fun p hp => ?_⟩
    simp only [src, List.mem_singleton] at hp
    subst hp
    exact List.all_iff_forall_prop.mp rfl
  have hopens : Opens .config "@page \x7b".toList := .config [' '] (List.all_eq_true.mp rfl)
  have htext : src.text = "@page \x7b".toList ++ "url: http://example.com\x7d".toList := rfl
  refine ⟨hflat, ?_, ?_⟩
  · rw [extractSections, Sections.get_eq, text?_truncatedSections hflat.isFlat]
    rfl
  · have hopen := (regionFrom_eq_none_iff _ 0 _).mp hunclosed
    rw [extractSections, htext, sections_unclosed hopens hopen, sections, hgap]
    rfl

end Pagesmith.Page
