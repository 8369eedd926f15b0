import Mathlib.Tactic
import Pagesmith.Proofs.Page.Lines
import Pagesmith.Proofs.Page.Reference

/-!
# Where the characters of the checked markup come from

The markup that is checked is made from a template in three steps: markers are replaced, the text is
cut at its expressions, and of an expression only the line breaks are left.  To say that lines keep
their numbers, every character is followed through these steps.  A character that is kept comes from
its own place in the template, and the characters of a replacement come from where the marker
starts.

* `TagTable.traced`: the template with its markers replaced, each character with its place.
* `tracedStatic`: the same for the markup without expressions.
* `Aligned`: each character stands on the line of its place.
* `Aligned.tracedAll`, `Aligned.tracedStatic`: what each step keeps.
* `static_lines`: lines of the markup, of the replaced text and of the template.
-/

namespace Pagesmith.Page

open Pagesmith.Text

variable {tags : TagTable} {segments : List Segment}

/-! ### Following characters -/

def locatedAt (place : Nat) (s : List Char) : List (Char × Nat) := s.map (·, place)

/-- Every occurrence of a non-empty `old` replaced in a text whose characters have places, where
`skip` characters of an occurrence remain to be passed over. -/
def tracedFrom (old new : List Char) (skip : Nat) : List (Char × Nat) → List (Char × Nat)
  | [] => []
  | x :: xs =>
    match skip with
    | k + 1 => tracedFrom old new k xs
    | 0 =>
      if old.isPrefixOf (x.1 :: xs.map Prod.fst) then
        locatedAt x.2 new ++ tracedFrom old new (old.length - 1) xs
      else x :: tracedFrom old new 0 xs

def tracedAll (old new : List Char) (stop : Nat) (xs : List (Char × Nat)) : List (Char × Nat) :=
  if old.isEmpty then xs.flatMap (fun x => locatedAt x.2 new ++ [x]) ++ locatedAt stop new
  else tracedFrom old new 0 xs

/-- The template with its markers replaced.  Each character has the number of characters that stand
before it in the template, or before the marker that gave way to it. -/
def TagTable.traced (tags : TagTable) (text : List Char) : List (Char × Nat) :=
  tags.foldl
    (fun xs t => tracedAll t.marker.toList t.replacement.toList text.length xs) text.zipIdx

def Segment.kept : Segment → List (Char × Nat) → List (Char × Nat)
  | .text _, xs => xs
  | .expr _ _, xs => xs.filter (·.1 == '\n')

def tracedStatic : List Segment → List (Char × Nat) → List (Char × Nat)
  | [], _ => []
  | segment :: segments, xs =>
    segment.kept (xs.take segment.raw.length) ++ tracedStatic segments (xs.drop segment.raw.length)

theorem map_fst_locatedAt (place : Nat) (s : List Char) :
    (locatedAt place s).map Prod.fst = s := by
  rw [locatedAt, List.map_map]
  exact List.map_id s

theorem map_fst_tracedFrom (old new : List Char) (skip : Nat) (xs : List (Char × Nat)) :
    (tracedFrom old new skip xs).map Prod.fst = replaceFrom old new skip (xs.map Prod.fst) := by
  induction xs generalizing skip with
  | nil => rfl
  | cons x xs ih =>
    cases skip with
    | succ k => exact ih k
    | zero =>
      rw [tracedFrom, List.map_cons, replaceFrom]
      split
      · rw [List.map_append, map_fst_locatedAt, ih]
      · rw [List.map_cons, ih]

theorem map_fst_tracedAll (old new : List Char) (stop : Nat) (xs : List (Char × Nat)) :
    (tracedAll old new stop xs).map Prod.fst = replaceAll old new (xs.map Prod.fst) := by
  rw [tracedAll, replaceAll]
  split
  · simp [List.map_flatMap, List.flatMap_map, map_fst_locatedAt]
  · exact map_fst_tracedFrom old new 0 xs

theorem map_fst_traced (tags : TagTable) (text : List Char) :
    (tags.traced text).map Prod.fst = tags.replaced text := by
  have hfold : ∀ xs : List (Char × Nat),
      (tags.foldl (fun xs t => tracedAll t.marker.toList t.replacement.toList text.length xs)
        xs).map Prod.fst = tags.replaced (xs.map Prod.fst) := by
    induction tags with
    | nil => intro xs; rfl
    | cons t tags ih =>
      intro xs
      rw [List.foldl_cons, ih, map_fst_tracedAll]
      rfl
  rw [TagTable.traced, hfold, List.zipIdx_map_fst]

/-- A replacement comes from where its marker starts; the empty marker occurs at the end as well. -/
example : TagTable.traced [⟨"@a", "xy"⟩, ⟨"", "-"⟩] "b@a".toList
    = [('-', 0), ('b', 0), ('-', 1), ('x', 1), ('-', 1), ('y', 1), ('-', 3)] := by
  decide +kernel

/-- What follows the characters of a segment are those of the other segments. -/
theorem map_fst_drop_raw {segment : Segment} {xs : List (Char × Nat)}
    (h : xs.map Prod.fst = (segment :: segments).flatMap Segment.raw) :
    (xs.drop segment.raw.length).map Prod.fst = segments.flatMap Segment.raw := by
  rw [List.map_drop, h, List.flatMap_cons, List.drop_left]

theorem map_fst_tracedStatic {xs : List (Char × Nat)}
    (h : xs.map Prod.fst = segments.flatMap Segment.raw) :
    (tracedStatic segments xs).map Prod.fst = Template.static ⟨segments⟩ := by
  induction segments generalizing xs with
  | nil => rfl
  | cons segment segments ih =>
    have hhead : (xs.take segment.raw.length).map Prod.fst = segment.raw := by
      rw [List.map_take, h, List.flatMap_cons, List.take_left]
    rw [tracedStatic, List.map_append, ih (map_fst_drop_raw h)]
    refine congrArg (· ++ _) ?_
    cases segment with
    | text s => exact hhead
    | expr source raw =>
      have hfilter := congrArg (List.filter (· == '\n')) hhead
      rwa [List.filter_map] at hfilter

/-! ### Lines of places -/

/-- Each character stands on the line of its place, where `n` line breaks are before the first one,
and `m` before the end. -/
def Aligned (line : Nat → Nat) : Nat → List (Char × Nat) → Nat → Prop
  | n, [], m => n = m
  | n, x :: xs, m => line x.2 = n ∧ Aligned line (n + if x.1 = '\n' then 1 else 0) xs m

section Aligned

variable {line : Nat → Nat} {n m : Nat} {xs ys : List (Char × Nat)}

theorem aligned_append :
    Aligned line n (xs ++ ys) m ↔ ∃ k, Aligned line n xs k ∧ Aligned line k ys m := by
  induction xs generalizing n with
  | nil => simp [Aligned]
  | cons x xs ih =>
    rw [List.cons_append, Aligned, ih]
    simp only [Aligned]
    exact ⟨fun ⟨hx, k, h⟩ => ⟨k, ⟨hx, h.1⟩, h.2⟩, fun ⟨k, h, h'⟩ => ⟨h.1, k, h.2, h'⟩⟩

theorem Aligned.count_eq (h : Aligned line n xs m) : m = n + (xs.map Prod.fst).count '\n' := by
  induction xs generalizing n with
  | nil => exact h.symm
  | cons x xs ih =>
    rw [ih h.2, List.map_cons, List.count_cons]
    simp only [beq_iff_eq]
    omega

theorem Aligned.line_eq {x : Char × Nat} (h : Aligned line n (xs ++ x :: ys) m) :
    line x.2 = n + (xs.map Prod.fst).count '\n' := by
  obtain ⟨k, hxs, hx, -⟩ := aligned_append.mp h
  rw [hx, hxs.count_eq]

theorem aligned_of_unbroken {new : List Char} (hnew : '\n' ∉ new) {i : Nat} (hi : line i = n) :
    Aligned line n (locatedAt i new) n := by
  induction new with
  | nil => rfl
  | cons c new ih =>
    rw [List.mem_cons, not_or] at hnew
    refine ⟨hi, ?_⟩
    rw [if_neg (Ne.symm hnew.1)]
    exact ih hnew.2

/-- Without the characters that break no line the others stay on their lines. -/
theorem Aligned.filter (h : Aligned line n xs m) :
    Aligned line n (xs.filter (·.1 == '\n')) m := by
  induction xs generalizing n with
  | nil => exact h
  | cons x xs ih =>
    have hrest := ih h.2
    by_cases hx : x.1 = '\n'
    · rw [List.filter_cons_of_pos (by simpa using hx)]
      exact ⟨h.1, hrest⟩
    · rw [if_neg hx] at hrest
      rw [List.filter_cons_of_neg (by simpa using hx)]
      exact hrest

/-! ### What each step keeps -/

variable {old new : List Char}

theorem tracedFrom_skip (k : Nat) (xs : List (Char × Nat)) :
    tracedFrom old new k xs = tracedFrom old new 0 (xs.drop k) := by
  induction xs generalizing k with
  | nil => rw [List.drop_nil]; rfl
  | cons x xs ih =>
    cases k with
    | zero => rfl
    | succ k => rw [tracedFrom, List.drop_succ_cons, ih]

/-- What precedes the rest of a text breaks no line, so the rest stays on its line. -/
theorem Aligned.drop (h : Aligned line n xs m) (hold : '\n' ∉ old)
    (hstart : old <+: xs.map Prod.fst) : Aligned line n (xs.drop old.length) m := by
  have hsplit : (xs.take old.length).map Prod.fst = old := by
    rw [List.map_take]
    exact (List.prefix_iff_eq_take.mp hstart).symm
  rw [← List.take_append_drop old.length xs] at h
  obtain ⟨k, htake, hdrop⟩ := aligned_append.mp h
  have hk := htake.count_eq
  rw [hsplit, List.count_eq_zero.mpr hold] at hk
  rwa [hk] at hdrop

theorem Aligned.tracedFrom (hold : '\n' ∉ old) (hne : old ≠ []) (hnew : '\n' ∉ new)
    (h : Aligned line n xs m) : Aligned line n (tracedFrom old new 0 xs) m := by
  -- on the length: an occurrence is passed over as a whole, and inside it nothing is aligned
  induction hlen : xs.length using Nat.strongRecOn generalizing n xs with
  | ind len ih =>
    cases xs with
    | nil => exact h
    | cons x xs =>
      rw [List.length_cons] at hlen
      rw [Page.tracedFrom]
      split
      · next hstart =>
        have hstart : old <+: (x :: xs).map Prod.fst := List.isPrefixOf_iff_prefix.mp hstart
        have hdrop : xs.drop (old.length - 1) = (x :: xs).drop old.length := by
          obtain ⟨c, w, rfl⟩ := List.exists_cons_of_ne_nil hne
          rfl
        have hpos := List.length_pos_iff.mpr hne
        rw [tracedFrom_skip, hdrop]
        refine aligned_append.mpr ⟨n, aligned_of_unbroken hnew h.1, ?_⟩
        refine ih _ ?_ (h.drop hold hstart) rfl
        rw [List.length_drop, List.length_cons]
        omega
      · exact ⟨h.1, ih xs.length (by omega) h.2 rfl⟩

theorem Aligned.tracedAll (hold : '\n' ∉ old) (hnew : '\n' ∉ new) {stop : Nat}
    (hstop : line stop = m) (h : Aligned line n xs m) :
    Aligned line n (tracedAll old new stop xs) m := by
  rw [Page.tracedAll]
  split
  · refine aligned_append.mpr ⟨m, ?_, aligned_of_unbroken hnew hstop⟩
    induction xs generalizing n with
    | nil => exact h
    | cons x xs ih =>
      rw [List.flatMap_cons, List.append_assoc]
      exact aligned_append.mpr ⟨n, aligned_of_unbroken hnew h.1, h.1, ih h.2⟩
  · next hne =>
    exact h.tracedFrom hold (by simpa using hne) hnew

theorem Aligned.tracedStatic (h : Aligned line n xs m)
    (hraw : xs.map Prod.fst = segments.flatMap Segment.raw) :
    Aligned line n (tracedStatic segments xs) m := by
  induction segments generalizing n xs with
  | nil =>
    obtain rfl := List.map_eq_nil_iff.mp hraw
    exact h
  | cons segment segments ih =>
    rw [← List.take_append_drop segment.raw.length xs] at h
    obtain ⟨k, htake, hdrop⟩ := aligned_append.mp h
    refine aligned_append.mpr ⟨k, ?_, ih hdrop (map_fst_drop_raw hraw)⟩
    cases segment with
    | text s => exact htake
    | expr source raw => exact htake.filter

end Aligned

/-! ### Templates -/

def lineBreaksBefore (text : List Char) (i : Nat) : Nat := (text.take i).count '\n'

theorem lineBreaksBefore_length (text : List Char) :
    lineBreaksBefore text text.length = text.count '\n' := by
  rw [lineBreaksBefore, List.take_length]

theorem aligned_zipIdx (text : List Char) :
    Aligned (lineBreaksBefore text) 0 text.zipIdx (text.count '\n') := by
  have hfrom : ∀ pre s : List Char, Aligned (lineBreaksBefore (pre ++ s)) (pre.count '\n')
      (s.zipIdx pre.length) ((pre ++ s).count '\n') := by
    intro pre s
    induction s generalizing pre with
    | nil => rw [List.append_nil]; rfl
    | cons c s ih =>
      have hnext := ih (pre ++ [c])
      rw [List.append_assoc, List.singleton_append, List.length_append, List.count_append,
        List.count_singleton] at hnext
      refine ⟨by rw [lineBreaksBefore, List.take_left], ?_⟩
      simpa using hnext
  exact hfrom [] text

def TagTable.Unbroken (tags : TagTable) : Prop :=
  ∀ t ∈ tags, '\n' ∉ t.marker.toList ∧ '\n' ∉ t.replacement.toList

theorem aligned_traced (htags : tags.Unbroken) (text : List Char) :
    Aligned (lineBreaksBefore text) 0 (tags.traced text) (text.count '\n') := by
  have hfold : ∀ xs, Aligned (lineBreaksBefore text) 0 xs (text.count '\n') →
      Aligned (lineBreaksBefore text) 0
        (tags.foldl (fun xs t => tracedAll t.marker.toList t.replacement.toList text.length xs) xs)
        (text.count '\n') := by
    induction tags with
    | nil => exact fun _ h => h
    | cons t tags ih =>
      obtain ⟨ht, htags⟩ := List.forall_mem_cons.mp htags
      intro xs h
      exact ih htags _ (h.tracedAll ht.1 ht.2 (lineBreaksBefore_length text))
  exact hfold _ (aligned_zipIdx text)

def TagTable.tracedMarkup (tags : TagTable) (text : List Char) : List (Char × Nat) :=
  tracedStatic (Template.compile tags text).segments (tags.traced text)

theorem flatMap_raw_compile (tags : TagTable) (text : List Char) :
    (Template.compile tags text).segments.flatMap Segment.raw = tags.replaced text := by
  have hcovers := (decomposes_segmentsFrom [] (tags.replaced text) calm_nil).covers
  rwa [List.reverse_nil, List.nil_append] at hcovers

theorem map_fst_traced_eq_raw (tags : TagTable) (text : List Char) :
    (tags.traced text).map Prod.fst
      = (Template.compile tags text).segments.flatMap Segment.raw := by
  rw [map_fst_traced, flatMap_raw_compile]

theorem map_fst_tracedMarkup (tags : TagTable) (text : List Char) :
    (tags.tracedMarkup text).map Prod.fst = (Template.compile tags text).static :=
  map_fst_tracedStatic (map_fst_traced_eq_raw tags text)

theorem aligned_tracedMarkup (htags : tags.Unbroken) (text : List Char) :
    Aligned (lineBreaksBefore text) 0 (tags.tracedMarkup text) (text.count '\n') :=
  (aligned_traced htags text).tracedStatic (map_fst_traced_eq_raw tags text)

/-- The byte at an offset of the checked markup belongs to a character that comes from a place of
the template; the end of the markup comes from the end of the template. -/
def ComesFrom (tags : TagTable) (text : List Char) (offset place : Nat) : Prop :=
  (∃ before c after, tags.tracedMarkup text = before ++ (c, place) :: after ∧
    byteSize (before.map Prod.fst) ≤ offset ∧
    offset < byteSize (before.map Prod.fst ++ [c])) ∨
  byteSize (Template.compile tags text).static ≤ offset ∧ place = text.length

theorem exists_char_at {xs : List (Char × Nat)} {offset : Nat}
    (h : offset < byteSize (xs.map Prod.fst)) :
    ∃ before c place after, xs = before ++ (c, place) :: after ∧
      byteSize (before.map Prod.fst) ≤ offset ∧
      offset < byteSize (before.map Prod.fst ++ [c]) := by
  induction xs generalizing offset with
  | nil => exact absurd h (Nat.not_lt_zero offset)
  | cons x xs ih =>
    rw [List.map_cons, byteSize_cons] at h
    by_cases hfirst : offset < x.1.utf8Size
    · refine ⟨[], x.1, x.2, xs, rfl, Nat.zero_le _, ?_⟩
      rw [List.map_nil, List.nil_append, byteSize_cons]
      omega
    · have hrest : offset - x.1.utf8Size < byteSize (xs.map Prod.fst) := by omega
      obtain ⟨before, c, place, after, rfl, hlow, hhigh⟩ := ih hrest
      refine ⟨x :: before, c, place, after, rfl, ?_, ?_⟩
      · rw [List.map_cons, byteSize_cons]
        omega
      · rw [List.map_cons, List.cons_append, byteSize_cons]
        omega

/-- **Every position of the checked markup is on the line of the place it comes from.** -/
theorem exists_comesFrom (htags : tags.Unbroken) (text : List Char) (offset : Nat) :
    ∃ place, ComesFrom tags text offset place ∧
      (Position.atOffset (Template.compile tags text).static offset).line
        = lineBreaksBefore text place + 1 := by
  have haligned := aligned_tracedMarkup htags text
  have hfst := map_fst_tracedMarkup tags text
  by_cases hinside : offset < byteSize (Template.compile tags text).static
  · rw [← hfst] at hinside ⊢
    obtain ⟨before, c, place, after, hsplit, hlow, hhigh⟩ := exists_char_at hinside
    refine ⟨place, .inl ⟨before, c, after, hsplit, hlow, hhigh⟩, ?_⟩
    rw [hsplit] at haligned ⊢
    rw [haligned.line_eq, Nat.zero_add, List.map_append, List.map_cons]
    exact line_atOffset_of_char hlow hhigh _
  · -- an offset behind the markup is on its last line, which is that of the template
    have hbeyond := Nat.le_of_not_lt hinside
    refine ⟨text.length, .inr ⟨hbeyond, rfl⟩, ?_⟩
    rw [line_atOffset_of_le hbeyond, lineBreaksBefore_length, ← hfst, haligned.count_eq,
      Nat.zero_add]

/-- A class name that markup lists is found at an offset inside the markup. -/
theorem exists_offset_of_mem_classRefs {markup : List Char} {r : Reference}
    (h : r ∈ classRefs markup) :
    ∃ offset < byteSize markup, r.position = .atOffset markup offset := by
  obtain ⟨t, ht, hr⟩ := List.mem_flatMap.mp h
  obtain ⟨name, hname, rfl⟩ := List.mem_map.mp hr
  obtain ⟨before, inner, after, hmarkup, hoffset, hraw⟩ := exists_split_of_mem_startTags ht
  have hlt := (classOffset_bounds (by rw [hraw]; exact List.cons_ne_nil _ _)
    (ne_nil_of_mem_classNames hname)).2
  refine ⟨t.classOffset name, ?_, rfl⟩
  have hsize := congrArg byteSize hmarkup
  rw [byteSize_append, byteSize_append] at hsize
  omega

theorem exists_offset_of_mem_unknownMarkers {markup : List Char} {r : Reference}
    (h : r ∈ unknownMarkers markup) : ∃ offset, r.position = .atOffset markup offset := by
  obtain ⟨t, -, hr⟩ := List.mem_flatMap.mp h
  obtain ⟨marker, -, rfl⟩ := List.mem_map.mp hr
  exact ⟨t.markerOffset marker, rfl⟩

/-- **A character of a literal text stands on one line** of the markup, of the template with its
markers replaced, and of the template. -/
theorem exists_place_of_literal (htags : tags.Unbroken) {text : List Char}
    {before after : List Segment} {u v : List Char} {c : Char}
    (h : (Template.compile tags text).segments = before ++ .text (u ++ c :: v) :: after) :
    ∃ xs place ys, tags.traced text = xs ++ (c, place) :: ys ∧
      xs.map Prod.fst = before.flatMap Segment.raw ++ u ∧
      (Template.static ⟨before⟩ ++ u).count '\n' = (before.flatMap Segment.raw ++ u).count '\n' ∧
      (before.flatMap Segment.raw ++ u).count '\n' = lineBreaksBefore text place := by
  have hfst := map_fst_traced_eq_raw tags text
  rw [h, List.flatMap_append, List.flatMap_cons, Segment.raw, List.append_assoc, List.cons_append,
    ← List.append_assoc] at hfst
  obtain ⟨xs, zs, hsplit, hxs, hzs⟩ := List.map_eq_append_iff.mp hfst
  obtain ⟨x, ys, rfl, rfl, -⟩ := List.map_eq_cons_iff.mp hzs
  have haligned := aligned_traced htags text
  rw [hsplit] at haligned
  refine ⟨xs, x.2, ys, hsplit, hxs, ?_, ?_⟩
  · rw [List.count_append, (keepsLines_static before).count_eq, List.count_append]
  · rw [haligned.line_eq, Nat.zero_add, hxs]

/-- **Leaving out expressions keeps every line number.**  The markup has the line breaks of its
template.  A literal text has as many line breaks before it in the markup as in the template with
its markers replaced and in the template, and so has every character in it.  Hence a reference that
is found on a line of the markup stands on that line of the template. -/
theorem static_lines (tags : TagTable) (htags : tags.Unbroken) (text : List Char) :
    (Template.compile tags text).static.count '\n' = text.count '\n' ∧
    (tags.traced text).map Prod.fst = tags.replaced text ∧
    (tags.tracedMarkup text).map Prod.fst = (Template.compile tags text).static ∧
    (∀ before u c v after,
      (Template.compile tags text).segments = before ++ .text (u ++ c :: v) :: after →
      (Template.compile tags text).static
        = Template.static ⟨before⟩ ++ u ++ c :: (v ++ Template.static ⟨after⟩) ∧
      ∃ xs place ys, tags.traced text = xs ++ (c, place) :: ys ∧
        xs.map Prod.fst = before.flatMap Segment.raw ++ u ∧
        (Template.static ⟨before⟩ ++ u).count '\n'
          = (before.flatMap Segment.raw ++ u).count '\n' ∧
        (before.flatMap Segment.raw ++ u).count '\n' = lineBreaksBefore text place) ∧
    (∀ r ∈ classRefs (Template.compile tags text).static, ∃ offset place,
      offset < byteSize (Template.compile tags text).static ∧
      r.position = .atOffset (Template.compile tags text).static offset ∧
      ComesFrom tags text offset place ∧ r.position.line = lineBreaksBefore text place + 1) ∧
    ∀ r ∈ unknownMarkers (Template.compile tags text).static, ∃ offset place,
      r.position = .atOffset (Template.compile tags text).static offset ∧
      ComesFrom tags text offset place ∧ r.position.line = lineBreaksBefore text place + 1 := by
  refine ⟨?_, map_fst_traced tags text, map_fst_tracedMarkup tags text, ?_, ?_, ?_⟩
  · rw [← map_fst_tracedMarkup, (aligned_tracedMarkup htags text).count_eq, Nat.zero_add]
  · intro before u c v after h
    refine ⟨?_, exists_place_of_literal htags h⟩
    have hstatic : (Template.compile tags text).static
        = Template.static ⟨(Template.compile tags text).segments⟩ := rfl
    rw [hstatic, h, static_append]
    simp [Template.static]
  · intro r hr
    obtain ⟨offset, hlt, hposition⟩ := exists_offset_of_mem_classRefs hr
    obtain ⟨place, hplace, hline⟩ := exists_comesFrom htags text offset
    exact ⟨offset, place, hlt, hposition, hplace, by rw [hposition, hline]⟩
  · intro r hr
    obtain ⟨offset, hposition⟩ := exists_offset_of_mem_unknownMarkers hr
    obtain ⟨place, hplace, hline⟩ := exists_comesFrom htags text offset
    exact ⟨offset, place, hposition, hplace, by rw [hposition, hline]⟩

/-- An expression with line breaks, a marker on a line of its own, and a blank span. -/
theorem static_lines_marker :
    let tags : TagTable := [⟨"@card", "class=\"card\""⟩]
    let text := "\x7ba\n\nb\x7d<p\n@card>\x7b \n\x7d".toList
    let markup := (Template.compile tags text).static
    tags.Unbroken ∧ markup = "\n\n<p\nclass=\"card\">\x7b \n\x7d".toList ∧
      markup.count '\n' = text.count '\n' ∧ (classRefs markup).map (·.position.line) = [4] ∧
      ∀ r ∈ classRefs markup, ∃ offset place, ComesFrom tags text offset place ∧
        r.position.line = lineBreaksBefore text place + 1 := by
  intro tags text markup
  have htags : tags.Unbroken := by
    intro t ht
    rw [List.mem_singleton.mp ht]
    decide
  obtain ⟨hcount, -, -, -, hrefs, -⟩ := static_lines tags htags text
  refine ⟨htags, by decide +kernel, hcount, by decide +kernel, fun r hr => ?_⟩
  obtain ⟨offset, place, -, -, hplace, hline⟩ := hrefs r hr
  exact ⟨offset, place, hplace, hline⟩

end Pagesmith.Page
