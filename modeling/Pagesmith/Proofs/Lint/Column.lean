import Mathlib.Data.Bool.AllAny
import Mathlib.Data.List.TakeWhile
import Mathlib.Tactic
import Pagesmith.Lint.Column
import Pagesmith.Proofs.Text.Position

/-!
# Columns of class names

The column of a class name is where the name occurs, and zero if it does not occur.  It should be
the column of the name as a word of a class attribute if there is one.  But the search reads one
quoted text only, the one behind the first `class=` of the line, up to a quotation mark of either
kind.  If the name is no word of it, its first occurrence counts, whatever it is a part of.

* `ClassWord`: a name as a word of a class attribute, behind some of the line.
* `classColumn_cases`: where the column comes from.
* `classColumn_classWord_iff`: when it is that of a word of a class attribute.
-/

namespace Pagesmith.Lint

open Pagesmith.Text

variable {before first line name text value : List Char} {last : Option Char} {i : Nat}

/-! ### Words -/

def WordBehind (last : Option Char) (text name before : List Char) : Prop :=
  ∃ after, text = before ++ name ++ after ∧ isWordEnd (before.getLast?.or last) = true ∧
    isWordEnd after.head? = true

/-- Behind `before`, a text has a name as a whole word: on both sides there is white space or the
text ends. -/
def WordAt (text name before : List Char) : Prop :=
  ∃ after, text = before ++ name ++ after ∧ isWordEnd before.getLast? = true ∧
    isWordEnd after.head? = true

structure FirstWordAt (text name before : List Char) : Prop where
  word : WordAt text name before
  least : ∀ x, WordAt text name x → before.length ≤ x.length

theorem wordBehind_none : WordBehind none text name before ↔ WordAt text name before := by
  rw [WordBehind, WordAt, Option.or_none]

theorem wordBehind_nil :
    WordBehind last text name [] ↔ (name.isPrefixOf text && isWordEnd last
      && isWordEnd (text.drop name.length).head?) = true := by
  rw [Bool.and_eq_true, Bool.and_eq_true, List.isPrefixOf_iff_prefix]
  constructor
  · rintro ⟨after, rfl, hlast, hafter⟩
    exact ⟨⟨⟨after, rfl⟩, hlast⟩, by rwa [List.nil_append, List.drop_left]⟩
  · rintro ⟨⟨⟨after, rfl⟩, hlast⟩, hafter⟩
    exact ⟨after, rfl, hlast, by rwa [List.drop_left] at hafter⟩

theorem wordBehind_cons {c d : Char} :
    WordBehind last (c :: text) name (d :: before) ↔
      d = c ∧ WordBehind (some c) text name before := by
  have hlast : ((d :: before).getLast?).or last = before.getLast?.or (some d) := by
    rw [List.getLast?_cons]
    cases before.getLast? <;> rfl
  constructor
  · rintro ⟨after, htext, hbefore, hafter⟩
    obtain ⟨rfl, htail⟩ := List.cons.inj htext
    exact ⟨rfl, after, htail, hlast ▸ hbefore, hafter⟩
  · rintro ⟨rfl, after, rfl, hbefore, hafter⟩
    exact ⟨after, rfl, hlast ▸ hbefore, hafter⟩

theorem not_wordBehind_nil (hname : name ≠ []) (before : List Char) :
    ¬ WordBehind last [] name before := by
  rintro ⟨after, h, -⟩
  simp [hname] at h

theorem tokenFrom_eq_none_iff (hname : name ≠ []) (last : Option Char) (offset : Nat)
    (text : List Char) :
    tokenFrom name last offset text = none ↔ ∀ before, ¬ WordBehind last text name before := by
  induction text generalizing last offset with
  | nil => simp [tokenFrom, hname, not_wordBehind_nil hname]
  | cons c text ih =>
    rw [tokenFrom]
    split
    · next h => simpa using ⟨[], wordBehind_nil.mpr h⟩
    · next h =>
      rw [ih]
      constructor
      · rintro hnone (_ | ⟨d, before⟩) hword
        · exact h (wordBehind_nil.mp hword)
        · exact hnone before (wordBehind_cons.mp hword).2
      · intro hnone before hword
        exact hnone (c :: before) (wordBehind_cons.mpr ⟨rfl, hword⟩)

theorem exists_of_tokenFrom (hname : name ≠ []) {offset : Nat}
    (h : tokenFrom name last offset text = some i) :
    ∃ before, WordBehind last text name before ∧
      (∀ x, WordBehind last text name x → before.length ≤ x.length) ∧
      i = offset + byteSize before := by
  induction text generalizing last offset with
  | nil => simp [tokenFrom, hname] at h
  | cons c text ih =>
    rw [tokenFrom] at h
    split at h
    · next hword =>
      obtain rfl := Option.some.inj h
      exact ⟨[], wordBehind_nil.mpr hword, fun x _ => Nat.zero_le _, rfl⟩
    · next hnot =>
      obtain ⟨before, hword, hleast, rfl⟩ := ih h
      refine ⟨c :: before, wordBehind_cons.mpr ⟨rfl, hword⟩, fun x hx => ?_, ?_⟩
      · cases x with
        | nil => exact absurd (wordBehind_nil.mp hx) hnot
        | cons d x => exact Nat.succ_le_succ (hleast x (wordBehind_cons.mp hx).2)
      · rw [byteSize_cons, Nat.add_assoc]

theorem tokenOffset?_eq_none_iff (hname : name ≠ []) (text : List Char) :
    tokenOffset? text name = none ↔ ∀ before, ¬ WordAt text name before := by
  simp only [tokenOffset?, tokenFrom_eq_none_iff hname, wordBehind_none]

theorem exists_of_tokenOffset? (hname : name ≠ []) (h : tokenOffset? text name = some i) :
    ∃ before, FirstWordAt text name before ∧ i = byteSize before := by
  obtain ⟨before, hword, hleast, rfl⟩ := exists_of_tokenFrom hname h
  simp only [wordBehind_none] at hword hleast
  exact ⟨before, ⟨hword, hleast⟩, Nat.zero_add _⟩

theorem WordAt.isPrefix (h : WordAt text name before) : before ++ name <+: text := by
  obtain ⟨after, rfl, -⟩ := h
  exact List.prefix_append _ after

theorem FirstWordAt.unique {before' : List Char} (h : FirstWordAt text name before)
    (h' : FirstWordAt text name before') : before = before' := by
  have hlength := Nat.le_antisymm (h.least _ h'.word) (h'.least _ h.word)
  exact (List.prefix_of_prefix_length_le ((List.prefix_append _ _).trans h.word.isPrefix)
    ((List.prefix_append _ _).trans h'.word.isPrefix) hlength.le).eq_of_length hlength

/-! ### The text that is searched -/

/-- The quoted text that is searched: it follows the first quotation mark behind the first `class=`
of the line and ends before the next one. -/
structure Searched (line lead gap : List Char) (quote : Char) (value after : List Char) : Prop where
  line_eq : line = lead ++ "class=".toList ++ (gap ++ quote :: (value ++ after))
  first : ¬ "class=".toList <:+: lead
  gap_unquoted : ∀ c ∈ gap, isQuote c = false
  quoted : isQuote quote = true
  value_unquoted : ∀ c ∈ value, isQuote c = false
  ended : ∀ c, after.head? = some c → isQuote c = true

theorem utf8Size_of_isQuote {c : Char} (h : isQuote c = true) : c.utf8Size = 1 := by
  rw [isQuote, Bool.or_eq_true, beq_iff_eq, beq_iff_eq] at h
  rcases h with rfl | rfl <;> rfl

theorem takeWhile_unquoted {a b : List Char} (ha : ∀ c ∈ a, isQuote c = false)
    (hb : ∀ c, b.head? = some c → isQuote c = true) :
    (a ++ b).takeWhile (fun c => !isQuote c) = a := by
  rw [List.takeWhile_append_of_pos (by simpa using ha)]
  cases b with
  | nil => rw [List.takeWhile_nil, List.append_nil]
  | cons c b => rw [List.takeWhile_cons_of_neg (by simp [hb c rfl]), List.append_nil]

theorem Searched.classAttribute? {lead gap after : List Char} {quote : Char}
    (h : Searched line lead gap quote value after) :
    classAttribute? line
      = some (byteSize (lead ++ "class=".toList ++ (gap ++ [quote])), value) := by
  have hcut : cut "class=".toList line = some (lead, gap ++ quote :: (value ++ after)) := by
    rw [h.line_eq]
    exact cut_append (c := 'c') (by decide) h.first _
  have hgap : (gap ++ quote :: (value ++ after)).takeWhile (fun c => !isQuote c) = gap := by
    refine takeWhile_unquoted h.gap_unquoted fun c hc => ?_
    obtain rfl := Option.some.inj hc
    exact h.quoted
  have hvalue := takeWhile_unquoted h.value_unquoted h.ended
  have hsix : byteSize "class=".toList = "class=".length := rfl
  rw [Lint.classAttribute?, hcut]
  simp only [hgap, List.drop_left, hvalue]
  rw [byteSize_append, byteSize_append, byteSize_append, byteSize_cons,
    utf8Size_of_isQuote h.quoted, hsix, Nat.add_assoc _ (byteSize gap)]
  rfl

theorem exists_searched {start : Nat} (h : classAttribute? line = some (start, value)) :
    ∃ lead gap quote after, Searched line lead gap quote value after := by
  rw [classAttribute?] at h
  split at h
  · cases h
  · next lead tail hcut =>
    have hsplit := List.takeWhile_append_dropWhile (p := fun c => !isQuote c) (l := tail)
    have hdrop : tail.drop (tail.takeWhile fun c => !isQuote c).length
        = tail.dropWhile fun c => !isQuote c := by
      nth_rewrite 2 [← hsplit]
      exact List.drop_left
    simp only [hdrop] at h
    cases hrest : tail.dropWhile fun c => !isQuote c with
    | nil =>
      rw [hrest] at h
      cases h
    | cons quote rest =>
      rw [hrest] at h hsplit
      obtain ⟨-, rfl⟩ := Prod.mk.inj (Option.some.inj h)
      have hquote := List.head?_dropWhile_not (fun c => !isQuote c) tail
      rw [hrest] at hquote
      have hended := List.head?_dropWhile_not (fun c => !isQuote c) rest
      refine ⟨lead, tail.takeWhile fun c => !isQuote c, quote,
        rest.dropWhile fun c => !isQuote c, ?_, ?_, ?_, ?_, ?_, ?_⟩
      · rw [List.takeWhile_append_dropWhile, hsplit]
        exact eq_of_cut hcut
      · exact not_infix_of_cut (by decide) hcut
      · intro c hc
        simpa using List.mem_takeWhile_imp hc
      · simpa using hquote
      · intro c hc
        simpa using List.mem_takeWhile_imp hc
      · intro c hc
        rw [hc] at hended
        simpa using hended

def SearchedWord (line name first : List Char) : Prop :=
  ∃ lead gap quote value after before, Searched line lead gap quote value after ∧
    FirstWordAt value name before ∧
    first = lead ++ "class=".toList ++ (gap ++ [quote]) ++ before

theorem SearchedWord.isPrefix (h : SearchedWord line name first) : first ++ name <+: line := by
  obtain ⟨lead, gap, quote, value, after, before, hsearched, hword, rfl⟩ := h
  obtain ⟨rest, hrest⟩ := hword.word.isPrefix
  refine ⟨rest ++ after, ?_⟩
  rw [hsearched.line_eq, ← hrest]
  simp

theorem attributeOffset?_eq_none_iff (hname : name ≠ []) (line : List Char) :
    attributeOffset? line name = none ↔ ∀ first, ¬ SearchedWord line name first := by
  constructor
  · rintro hnone first ⟨lead, gap, quote, value, after, before, hsearched, hword, -⟩
    rw [attributeOffset?, hsearched.classAttribute?] at hnone
    exact (tokenOffset?_eq_none_iff hname value).mp (Option.map_eq_none_iff.mp hnone) before
      hword.word
  · intro hnone
    rw [attributeOffset?]
    split
    · rfl
    · next start value hclass =>
      obtain ⟨lead, gap, quote, after, hsearched⟩ := exists_searched hclass
      cases htoken : tokenOffset? value name with
      | none => rfl
      | some i =>
        obtain ⟨before, hword, -⟩ := exists_of_tokenOffset? hname htoken
        exact absurd ⟨lead, gap, quote, value, after, before, hsearched, hword, rfl⟩ (hnone _)

theorem exists_of_attributeOffset? (hname : name ≠ []) (h : attributeOffset? line name = some i) :
    ∃ first, SearchedWord line name first ∧ i = byteSize first := by
  rw [attributeOffset?] at h
  split at h
  · cases h
  · next start value hclass =>
    obtain ⟨lead, gap, quote, after, hsearched⟩ := exists_searched hclass
    obtain ⟨k, htoken, rfl⟩ := Option.map_eq_some_iff.mp h
    obtain ⟨before, hword, rfl⟩ := exists_of_tokenOffset? hname htoken
    rw [hsearched.classAttribute?] at hclass
    obtain ⟨rfl, -⟩ := Prod.mk.inj (Option.some.inj hclass)
    exact ⟨_, ⟨lead, gap, quote, value, after, before, hsearched, hword, rfl⟩,
      (byteSize_append _ _).symm⟩

theorem SearchedWord.unique {first' : List Char} (h : SearchedWord line name first)
    (h' : SearchedWord line name first') : first = first' := by
  have hstart := (List.prefix_append _ _).trans h.isPrefix
  have hstart' := (List.prefix_append _ _).trans h'.isPrefix
  obtain ⟨lead, gap, quote, value, after, before, hsearched, hword, rfl⟩ := h
  obtain ⟨lead', gap', quote', value', after', before', hsearched', hword', rfl⟩ := h'
  have hsame := hsearched.classAttribute?.symm.trans hsearched'.classAttribute?
  obtain ⟨hbytes, rfl⟩ := Prod.mk.inj (Option.some.inj hsame)
  rw [hword.unique hword'] at hstart ⊢
  exact eq_of_byteSize_eq hstart hstart'
    (by rw [byteSize_append, hbytes, ← byteSize_append])

/-! ### Where the column comes from -/

/-- **Where the column of a class name comes from**: the name as a word of the text that is
searched, else as a marker, else anywhere. -/
theorem classColumn_cases (hname : name ≠ []) (line : List Char) :
    (∃ first, SearchedWord line name first ∧ classColumn line name = byteSize first + 1) ∨
    (∀ first, ¬ SearchedWord line name first) ∧
      ((∃ first, FirstAt first ('@' :: name) line ∧ classColumn line name = byteSize first + 2) ∨
      ¬ '@' :: name <:+: line ∧
        ((∃ first, FirstAt first name line ∧ classColumn line name = byteSize first + 1) ∨
        ¬ name <:+: line ∧ classColumn line name = 0)) := by
  rw [classColumn]
  cases hattribute : attributeOffset? line name with
  | some i =>
    obtain ⟨first, hfirst, rfl⟩ := exists_of_attributeOffset? hname hattribute
    exact .inl ⟨first, hfirst, rfl⟩
  | none =>
    refine .inr ⟨(attributeOffset?_eq_none_iff hname line).mp hattribute, ?_⟩
    cases hmarker : indexOfBytes? ('@' :: name) line with
    | some i =>
      obtain ⟨first, hfirst, rfl⟩ := exists_firstAt_of_indexOfBytes? hmarker
      exact .inl ⟨first, hfirst, rfl⟩
    | none =>
      refine .inr ⟨(indexOfBytes?_eq_none_iff (List.cons_ne_nil _ _)).mp hmarker, ?_⟩
      cases hplain : indexOfBytes? name line with
      | some i =>
        obtain ⟨first, hfirst, rfl⟩ := exists_firstAt_of_indexOfBytes? hplain
        exact .inl ⟨first, hfirst, rfl⟩
      | none => exact .inr ⟨(indexOfBytes?_eq_none_iff hname).mp hplain, rfl⟩

theorem marker_isPrefix (h : FirstAt first ('@' :: name) line) :
    (first ++ ['@']) ++ name <+: line := by
  rw [List.append_assoc]
  exact h.occurs

theorem byteSize_concat_at (first : List Char) : byteSize (first ++ ['@']) = byteSize first + 1 :=
  byteSize_append first ['@']

/-- **A column is one at which the name occurs**, and it is zero if and only if there is none. -/
theorem classColumn_occurs (hname : name ≠ []) (line : List Char) :
    (¬ name <:+: line ∧ classColumn line name = 0) ∨
      ∃ first, first ++ name <+: line ∧ classColumn line name = byteSize first + 1 := by
  rcases classColumn_cases hname line with
    ⟨first, hword, hcolumn⟩ | ⟨-, ⟨first, hmarker, hcolumn⟩ | ⟨-, ⟨first, hplain, hcolumn⟩ | hnone⟩⟩
  · exact .inr ⟨first, hword.isPrefix, hcolumn⟩
  · exact .inr ⟨first ++ ['@'], marker_isPrefix hmarker, by rw [hcolumn, byteSize_concat_at]⟩
  · exact .inr ⟨first, hplain.occurs, hcolumn⟩
  · exact .inl hnone

/-! ### Words of class attributes -/

/-- Whether the name of an attribute may start behind a character, or where there is none: behind
white space, a slash or a quotation mark. -/
def startsAttribute : Option Char → Bool
  | none => true
  | some c => isWordSpace c || c == '\x0c' || c == '/' || isQuote c

/-- A quoted class attribute of a line.  Its value ends at the next quotation mark of its kind, or
goes on behind the line. -/
structure ClassAttribute (line lead : List Char) (quote : Char) (value after : List Char) :
    Prop where
  line_eq : line = lead ++ "class=".toList ++ quote :: (value ++ after)
  named : startsAttribute lead.getLast? = true
  quoted : isQuote quote = true
  value_open : quote ∉ value
  ended : ∀ c, after.head? = some c → c = quote

def ClassWord (line name first : List Char) : Prop :=
  ∃ lead quote value after before, ClassAttribute line lead quote value after ∧
    WordAt value name before ∧ first = lead ++ "class=".toList ++ quote :: before

theorem ClassWord.isPrefix (h : ClassWord line name first) : first ++ name <+: line := by
  obtain ⟨lead, quote, value, after, before, hattribute, hword, rfl⟩ := h
  obtain ⟨rest, hrest⟩ := hword.isPrefix
  refine ⟨rest ++ after, ?_⟩
  rw [hattribute.line_eq, ← hrest]
  simp

theorem ClassWord.getLast? (h : ClassWord line name first) :
    ∃ c, first.getLast? = some c ∧ (isWordSpace c = true ∨ isQuote c = true) := by
  obtain ⟨lead, quote, value, after, before, hattribute, ⟨rest, -, hlast, -⟩, rfl⟩ := h
  rw [List.getLast?_append_of_ne_nil _ (List.cons_ne_nil _ _), List.getLast?_cons]
  cases hbefore : before.getLast? with
  | none => exact ⟨quote, rfl, .inr hattribute.quoted⟩
  | some c =>
    rw [hbefore] at hlast
    exact ⟨c, rfl, .inl hlast⟩

/-- A word of an attribute is followed by white space or a quotation mark, or ends the line. -/
theorem ClassWord.head? {rest : List Char} (h : ClassWord line name first)
    (hline : line = first ++ name ++ rest) :
    ∀ c, rest.head? = some c → isWordSpace c = true ∨ isQuote c = true := by
  obtain ⟨lead, quote, value, after, before, hattribute, ⟨tail, rfl, -, htail⟩, rfl⟩ := h
  have hrest : rest = tail ++ after := by
    have heq := hattribute.line_eq.symm.trans hline
    simpa using heq.symm
  intro c hc
  rw [hrest] at hc
  cases tail with
  | nil =>
    obtain rfl := hattribute.ended c hc
    exact .inr hattribute.quoted
  | cons d tail =>
    obtain rfl := Option.some.inj hc
    exact .inl htail

theorem ClassWord.eq_of_byteSize {first' : List Char} (h : ClassWord line name first)
    (h' : first' ++ name <+: line) (hbytes : byteSize first' = byteSize first) : first' = first :=
  eq_of_byteSize_eq ((List.prefix_append _ _).trans h')
    ((List.prefix_append _ _).trans h.isPrefix) hbytes

theorem ClassWord.not_marker {marked : List Char} (h : ClassWord line name first)
    (hmarker : FirstAt marked ('@' :: name) line) : byteSize marked + 2 ≠ byteSize first + 1 := by
  intro hbytes
  have heq := h.eq_of_byteSize (marker_isPrefix hmarker) (by rw [byteSize_concat_at]; omega)
  obtain ⟨c, hc, hword⟩ := h.getLast?
  -- the name would follow an at-sign, which neither parts words nor opens a value
  rw [← heq, List.getLast?_concat] at hc
  obtain rfl := Option.some.inj hc
  revert hword
  decide

/-- An attribute that the line has no `class=` before, with quotation marks of one kind, is what is
searched. -/
theorem ClassAttribute.searched {lead after : List Char} {quote : Char}
    (h : ClassAttribute line lead quote value after) (hfirst : ¬ "class=".toList <:+: lead)
    (hvalue : ∀ c ∈ value, isQuote c = false) : Searched line lead [] quote value after where
  line_eq := h.line_eq
  first := hfirst
  gap_unquoted := by simp
  quoted := h.quoted
  value_unquoted := hvalue
  ended c hc := h.ended c hc ▸ h.quoted

theorem exists_firstWordAt (hname : name ≠ []) (h : WordAt text name before) :
    ∃ first, FirstWordAt text name first := by
  cases htoken : tokenOffset? text name with
  | none => exact absurd h ((tokenOffset?_eq_none_iff hname text).mp htoken before)
  | some i =>
    obtain ⟨first, hfirst, -⟩ := exists_of_tokenOffset? hname htoken
    exact ⟨first, hfirst⟩

theorem SearchedWord.classColumn_eq (hname : name ≠ []) (h : SearchedWord line name first) :
    classColumn line name = byteSize first + 1 := by
  rcases classColumn_cases hname line with ⟨first', h', hcolumn⟩ | ⟨hnone, -⟩
  · rw [h.unique h', hcolumn]
  · exact absurd h (hnone first)

/-- **When the column of a class name is that of a word of a class attribute.**  The column is zero
if and only if the name does not occur, and otherwise the name occurs there.  A word of the first
attribute of a line is found if only one kind of quotation marks is used in it.  In general the
column is that of a word of a class attribute if and only if the first word of the text that is
searched is one, or the name is no word of that text, is no marker on the line, and its first
occurrence on the line is one. -/
theorem classColumn_classWord_iff (line name : List Char) (hname : name ≠ []) :
    (classColumn line name = 0 ↔ ¬ name <:+: line) ∧
    (classColumn line name ≠ 0 →
      ∃ first, first ++ name <+: line ∧ classColumn line name = byteSize first + 1) ∧
    (∀ lead quote value after before, ClassAttribute line lead quote value after →
      ¬ "class=".toList <:+: lead → (∀ c ∈ value, isQuote c = false) → WordAt value name before →
      ∃ least, FirstWordAt value name least ∧
        classColumn line name = byteSize (lead ++ "class=".toList ++ quote :: least) + 1) ∧
    ((∃ first, ClassWord line name first ∧ classColumn line name = byteSize first + 1) ↔
      (∃ first, SearchedWord line name first ∧ ClassWord line name first) ∨
      (∀ first, ¬ SearchedWord line name first) ∧ ¬ '@' :: name <:+: line ∧
        ∃ first, FirstAt first name line ∧ ClassWord line name first) := by
  have hoccurs := classColumn_occurs hname line
  refine ⟨⟨fun hzero => ?_, fun hnone => ?_⟩, fun hne => ?_, ?_, ⟨?_, ?_⟩⟩
  · rcases hoccurs with ⟨hnone, -⟩ | ⟨first, -, hcolumn⟩
    · exact hnone
    · omega
  · rcases hoccurs with ⟨-, hzero⟩ | ⟨first, hfirst, -⟩
    · exact hzero
    · exact absurd ((List.suffix_append first name).isInfix.trans hfirst.isInfix) hnone
  · rcases hoccurs with ⟨-, hzero⟩ | hfirst
    · exact absurd hzero hne
    · exact hfirst
  · intro lead quote value after before hattribute hfirst hvalue hword
    obtain ⟨least, hleast⟩ := exists_firstWordAt hname hword
    refine ⟨least, hleast, SearchedWord.classColumn_eq hname ?_⟩
    exact ⟨lead, [], quote, value, after, least, hattribute.searched hfirst hvalue, hleast,
      by simp⟩
  · rintro ⟨first, hclass, hcolumn⟩
    rcases classColumn_cases hname line with
      ⟨found, hword, heq⟩ | ⟨hnone, ⟨marked, hmarker, heq⟩ |
        ⟨hunmarked, ⟨found, hplain, heq⟩ | hzero⟩⟩
    · have hsame := hclass.eq_of_byteSize hword.isPrefix (by omega)
      exact .inl ⟨found, hword, hsame ▸ hclass⟩
    · exact absurd (heq.symm.trans hcolumn) (hclass.not_marker hmarker)
    · have hsame := hclass.eq_of_byteSize hplain.occurs (by omega)
      exact .inr ⟨hnone, hunmarked, found, hplain, hsame ▸ hclass⟩
    · omega
  · rintro (⟨first, hword, hclass⟩ | ⟨hnone, hunmarked, first, hplain, hclass⟩)
    · exact ⟨first, hclass, hword.classColumn_eq hname⟩
    · refine ⟨first, hclass, ?_⟩
      rcases classColumn_cases hname line with
        ⟨found, hword, -⟩ | ⟨-, ⟨marked, hmarker, -⟩ | ⟨-, ⟨found, hfound, heq⟩ | ⟨habsent, -⟩⟩⟩
      · exact absurd hword (hnone found)
      · exact absurd hmarker.isInfix hunmarked
      · rw [hplain.unique hfound, heq]
      · exact absurd hplain.isInfix habsent

/-- A word of the only attribute of a line, behind another word that starts with it. -/
theorem classColumn_classWord_iff_second :
    let lead := "<b ".toList
    let value := "btn-lg btn".toList
    let line := lead ++ "class=".toList ++ '"' :: (value ++ "\">".toList)
    let name := "btn".toList
    (name ≠ [] ∧ ClassAttribute line lead '"' value "\">".toList ∧
        WordAt value name "btn-lg ".toList) ∧
      (∃ least, FirstWordAt value name least ∧
        classColumn line name = byteSize (lead ++ "class=".toList ++ '"' :: least) + 1) ∧
      classColumn line name = 18 := by
  intro lead value line name
  have hattribute : ClassAttribute line lead '"' value "\">".toList := by
    refine ⟨rfl, rfl, rfl, by decide, fun c hc => ?_⟩
    exact (Option.some.inj hc).symm
  have hword : WordAt value name "btn-lg ".toList := ⟨[], rfl, rfl, rfl⟩
  have hname : name ≠ [] := by decide
  refine ⟨⟨hname, hattribute, hword⟩, ?_, by decide⟩
  exact (classColumn_classWord_iff line name hname).2.2.1 lead '"' value _ _ hattribute (by decide)
    (List.all_iff_forall_prop.mp rfl) hword

/-- The class stands alone in the second attribute of the line, but the column is that of the class
in the first one that starts with its name. -/
theorem second_attribute_passed_over :
    let line := "<b class=\"btn-lg\"></b><b class=\"btn\">".toList
    let name := "btn".toList
    ClassWord line name (line.take 32) ∧ classColumn line name = 11 ∧
      ∀ first, ClassWord line name first → classColumn line name ≠ byteSize first + 1 := by
  intro line name
  have hcolumn : classColumn line name = 11 := by decide
  refine ⟨?_, hcolumn, fun first hfirst heq => ?_⟩
  · refine ⟨"<b class=\"btn-lg\"></b><b ".toList, '"', name, "\">".toList, [], ?_,
      ⟨[], rfl, rfl, rfl⟩, rfl⟩
    refine ⟨rfl, rfl, rfl, by decide, fun c hc => ?_⟩
    exact (Option.some.inj hc).symm
  · -- a word at this column would be followed by a hyphen
    have hbytes : byteSize (line.take 10) = byteSize first := by
      have hten : byteSize (line.take 10) = 10 := by decide
      omega
    have hplace : line.take 10 ++ name <+: line := ⟨line.drop 13, by decide⟩
    have hsame := hfirst.eq_of_byteSize hplace hbytes
    rw [← hsame] at hfirst
    have hline : line = line.take 10 ++ name ++ line.drop 13 := by decide
    have hnext := hfirst.head? hline '-' (by decide)
    revert hnext
    decide

end Pagesmith.Lint
