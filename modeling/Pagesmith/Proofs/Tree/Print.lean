import Mathlib.Tactic
import Pagesmith.Proofs.Tree.Line
import Pagesmith.Proofs.Tree.Lookup
import Pagesmith.Style.Body

/-!
# Printed property trees

A property tree is printed with one line for each literal and a pair of braces for each block.
Reading the printed text gives the tree back, whatever the white space between the lines and
whether or not a colon stands before an opening brace.

* `Printed`: the texts of a tree.
* `Tree.print`: the text with two blanks more for each level.
* `action_literal`, `action_opening`: what the line of an entry does.
* `Frames.read_printed`: the reader adds the printed entries to the block being filled.
* `ofBody_printed`: reading undoes printing.
-/

namespace Pagesmith.Style

open Pagesmith.Css Pagesmith.Text

variable {c : Char} {t : Tree} {s : List Char}

/-! ### Keys and values -/

structure IsKey (k : String) : Prop where
  ne_empty : k ≠ ""
  chars : ∀ c ∈ k.toList, isNameChar c = true

/-- The values that can be printed: quiet text with balanced parentheses and no white space at its
ends. -/
structure IsValue (v : String) : Prop where
  ne_empty : v ≠ ""
  trimmed : trim v.toList = v.toList
  quiet : ∀ c ∈ v.toList, isQuiet c = true
  parens : Parens 0 v.toList

mutual

def Entry.Printable : Entry → Prop
  | .literal k v => IsKey k ∧ IsValue v
  | .block k es => IsKey k ∧ Tree.Printable es

def Tree.Printable : List Entry → Prop
  | [] => True
  | e :: es => e.Printable ∧ Tree.Printable es

end

theorem toNat_of_isNameChar (h : isNameChar c = true) : 45 ≤ c.toNat ∧ c.toNat ≤ 122 := by
  rw [isNameChar, Bool.or_eq_true, beq_iff_eq] at h
  rcases h with h | rfl
  · exact toNat_of_isWordChar h
  · decide

theorem isBlank_of_isNameChar (h : isNameChar c = true) : isBlank c = false := by
  rw [isNameChar, Bool.or_eq_true, beq_iff_eq] at h
  rcases h with h | rfl
  · exact isBlank_of_isWordChar h
  · decide

theorem isQuiet_of_isNameChar (h : isNameChar c = true) : isQuiet c = true := by
  have hle : ' ' ≤ c := by
    rw [Char.le_def, UInt32.le_iff_toNat_le]
    exact Nat.le_trans (by decide) (toNat_of_isNameChar h).1
  rw [isQuiet, decide_eq_true hle, not_contains_of_class h rfl]
  rfl

namespace IsKey

variable {k : String} (hk : IsKey k)

include hk

theorem toList_ne : k.toList ≠ [] := by simpa using hk.ne_empty

theorem not_mem (hc : isNameChar c = false) : c ∉ k.toList :=
  fun h => ne_of_class (hk.chars c h) hc rfl

theorem countP_eq_zero {d : Char} (hd : isNameChar d = false) : k.toList.countP (· == d) = 0 :=
  List.count_eq_zero.mpr (hk.not_mem hd)

theorem head_ne (hc : isNameChar c = false) (s : List Char) : (k.toList ++ s).head? ≠ some c := by
  obtain ⟨d, t, hd⟩ := List.exists_cons_of_ne_nil hk.toList_ne
  rw [hd, List.cons_append, List.head?_cons, Ne, Option.some.injEq]
  exact ne_of_class (hk.chars d (hd ▸ List.mem_cons_self)) hc

theorem trim_eq : trim k.toList = k.toList :=
  trim_eq_self (fun c h => isBlank_of_isNameChar (hk.chars c (List.mem_of_mem_head? h)))
    fun c h => isBlank_of_isNameChar (hk.chars c (List.mem_of_getLast? h))

end IsKey

/-! ### Texts of a tree -/

/-- The texts of a tree: white space of any kind stands before each line and at the end. -/
inductive Printed : Tree → List Char → Prop where
  | nil (gap : List Char) (hgap : ∀ c ∈ gap, isSpace c = true) : Printed [] gap
  | literal (gap : List Char) (hgap : ∀ c ∈ gap, isSpace c = true) (k v : String) {t : Tree}
      {s : List Char} (hs : Printed t s) :
      Printed (.literal k v :: t) (gap ++ (k.toList ++ ": ".toList ++ v.toList ++ ';' :: s))
  | block (gap : List Char) (hgap : ∀ c ∈ gap, isSpace c = true) (k : String)
      (opening : List Char) (hopening : opening = [' '] ∨ opening = [':', ' ']) {ds t : Tree}
      {inner s : List Char} (hinner : Printed ds inner) (hs : Printed t s) :
      Printed (.block k ds :: t)
        (gap ++ (k.toList ++ opening ++ '\x7b' :: (inner ++ '\x7d' :: s)))

mutual

def Entry.print (indent : List Char) : Entry → List Char
  | .literal k v => indent ++ k.toList ++ ": ".toList ++ v.toList ++ ";\n".toList
  | .block k es =>
    indent ++ k.toList ++ " \x7b\n".toList ++ Tree.print (indent ++ "  ".toList) es ++ indent
      ++ "\x7d\n".toList

def Tree.print (indent : List Char) : List Entry → List Char
  | [] => []
  | e :: es => e.print indent ++ Tree.print indent es

end

theorem Printed.gap_append (h : Printed t s) (gap : List Char)
    (hgap : ∀ c ∈ gap, isSpace c = true) :
    Printed t (gap ++ s) := by
  cases h with
  | nil _ hg => exact .nil (gap ++ s) (List.forall_mem_append.mpr ⟨hgap, hg⟩)
  | literal g hg k v hs =>
    rw [← List.append_assoc]
    exact .literal (gap ++ g) (List.forall_mem_append.mpr ⟨hgap, hg⟩) k v hs
  | block g hg k opening ho hinner hs =>
    rw [← List.append_assoc]
    exact .block (gap ++ g) (List.forall_mem_append.mpr ⟨hgap, hg⟩) k opening ho hinner hs

theorem Printed.append_gap {gap : List Char} (h : Printed t s)
    (hgap : ∀ c ∈ gap, isSpace c = true) :
    Printed t (s ++ gap) := by
  induction h with
  | nil g hg => exact .nil (g ++ gap) (List.forall_mem_append.mpr ⟨hg, hgap⟩)
  | literal g hg k v hs ih => simpa using Printed.literal g hg k v ih
  | block g hg k opening ho hinner hs _ ih =>
    simpa using Printed.block g hg k opening ho hinner ih

theorem printed_print (t : Tree) {indent : List Char} (hindent : ∀ c ∈ indent, isSpace c = true) :
    Printed t (Tree.print indent t) := by
  have hnewline : ∀ c ∈ ['\n'], isSpace c = true := List.all_eq_true.mp rfl
  induction t using Tree.ind generalizing indent with
  | nil => exact .nil [] fun c hc => nomatch hc
  | literal k v es ih =>
    have hrest := (ih hindent).gap_append ['\n'] hnewline
    simpa [Tree.print, Entry.print] using Printed.literal indent hindent k v hrest
  | block k ds es ihd ihe =>
    have hindent' : ∀ c ∈ indent ++ "  ".toList, isSpace c = true :=
      List.forall_mem_append.mpr ⟨hindent, List.all_eq_true.mp rfl⟩
    have hinner := ((ihd hindent').append_gap hindent).gap_append ['\n'] hnewline
    have hrest := (ihe hindent).gap_append ['\n'] hnewline
    simpa [Tree.print, Entry.print] using
      Printed.block indent hindent k [' '] (Or.inl rfl) hinner hrest

/-! ### Lines of a text -/

theorem flush_of_trim (h : trim s = s) (hne : s ≠ []) : flush s = [s] := by
  rw [flush, h]
  split
  · contradiction
  · rfl

/-- A line that starts with a key and does not end with white space is trimmed. -/
theorem trim_key {k : String} (hk : IsKey k) (s : List Char) (hc : isBlank c = false) :
    trim (k.toList ++ s ++ [c]) = k.toList ++ s ++ [c] := by
  refine trim_eq_self (fun d hd => ?_) fun d hd => ?_
  · obtain ⟨x, xs, hx⟩ := List.exists_cons_of_ne_nil hk.toList_ne
    rw [hx, List.cons_append, List.cons_append, List.head?_cons, Option.some.injEq] at hd
    exact isBlank_of_isNameChar (hk.chars d (hd ▸ hx ▸ List.mem_cons_self))
  · rw [List.getLast?_concat, Option.some.injEq] at hd
    exact hd ▸ hc

theorem ne_closeLine {k : String} (hk : IsKey k) (s : List Char) :
    ¬ (k.toList ++ s == closeLine) = true := by
  intro h
  rw [beq_iff_eq] at h
  exact hk.head_ne (c := '\x7d') rfl s (by rw [h]; rfl)

theorem declaration?_literal {k v : String} (hk : IsKey k) (hv : IsValue v) :
    declaration? (k.toList ++ (": ".toList ++ v.toList) ++ [';']) = some (k, v) := by
  have hline : k.toList ++ (": ".toList ++ v.toList) ++ [';']
      = k.toList ++ ':' :: ([' '] ++ (v.toList ++ [';'])) := by simp
  have hne : v.toList ≠ [] := by simpa using hv.ne_empty
  have hright : trim ([' '] ++ (v.toList ++ [';'])) = v.toList ++ [';'] := by
    rw [trim_append_left (List.all_eq_true.mp rfl)]
    refine trim_eq_self (fun c hc => ?_) fun c hc => ?_
    · rw [List.head?_append_of_ne_nil _ hne, ← hv.trimmed] at hc
      exact isBlank_of_head?_trim hc
    · rw [List.getLast?_concat, Option.some.injEq] at hc
      rw [← hc]
      rfl
  rw [declaration?, hline, cut_append_cons (hk.not_mem rfl)]
  simp only [hright, dropTrailing_concat, hv.trimmed, hk.trim_eq]
  rw [if_neg (by simp [hk.ne_empty, hv.ne_empty]), String.ofList_toList, String.ofList_toList]

theorem action_literal {k v : String} (hk : IsKey k) (hv : IsValue v) :
    Line.action (k.toList ++ (": ".toList ++ v.toList) ++ [';']) = .declare k v := by
  have hbrace : ¬ ['\x7b'].isSuffixOf (k.toList ++ (": ".toList ++ v.toList) ++ [';']) = true := by
    rw [List.isSuffixOf_iff_suffix]
    rintro ⟨t, ht⟩
    have hlast := congrArg List.getLast? ht
    rw [List.getLast?_concat, List.getLast?_concat] at hlast
    exact absurd hlast (by decide)
  have hcomment :
      ¬ ['/', '/'].isPrefixOf (k.toList ++ (": ".toList ++ v.toList) ++ [';']) = true := by
    rw [List.isPrefixOf_iff_prefix]
    rintro ⟨t, ht⟩
    rw [List.append_assoc] at ht
    exact hk.head_ne (c := '/') rfl _ (by rw [← ht]; rfl)
  rw [Line.action, if_neg hbrace, if_neg hcomment, declaration?_literal hk hv]
  rw [List.append_assoc, if_neg (ne_closeLine hk _)]

theorem blockKey_opening {k : String} (hk : IsKey k) {opening : List Char}
    (hopening : opening = [' '] ∨ opening = [':', ' ']) :
    blockKey (k.toList ++ opening ++ ['\x7b']) = k.toList := by
  rw [blockKey, dropTrailing_concat]
  rcases hopening with rfl | rfl
  · rw [trim_append_right (List.all_eq_true.mp rfl), hk.trim_eq,
      dropTrailing_of_not_mem (hk.not_mem rfl), hk.trim_eq]
  · have hsplit : k.toList ++ [':', ' '] = k.toList ++ [] ++ [':'] ++ [' '] := by simp
    rw [hsplit, trim_append_right (List.all_eq_true.mp rfl), trim_key hk [] (by decide),
      dropTrailing_concat, List.append_nil, hk.trim_eq]

theorem action_opening {k : String} (hk : IsKey k) {opening : List Char}
    (hopening : opening = [' '] ∨ opening = [':', ' ']) :
    Line.action (k.toList ++ opening ++ ['\x7b']) = .enter (some k) := by
  have hclose := ne_closeLine hk (opening ++ ['\x7b'])
  rw [← List.append_assoc] at hclose
  have hbrace : ['\x7b'].isSuffixOf (k.toList ++ opening ++ ['\x7b']) = true :=
    List.isSuffixOf_iff_suffix.mpr (List.suffix_append _ _)
  rw [Line.action, if_neg hclose, if_pos hbrace, blockKey_opening hk hopening]
  split
  · next h => exact absurd h hk.toList_ne
  · rw [String.ofList_toList]

/-! ### Reading a text -/

namespace Frames

def read (f : Frames) (s : List Char) : Frames :=
  (linesFrom [] 0 (tokens s)).foldl (fun f line => f.step (Line.action line)) f

theorem read_nil (f : Frames) : f.read [] = f := by
  rw [read, tokens_nil]
  rfl

theorem read_blank (f : Frames) {blank : List Char} (hb : ∀ c ∈ blank, isSpace c = true)
    (s : List Char) : f.read (blank ++ s) = f.read s := by
  rw [read, linesFrom_blank hb, read]

theorem read_line (f : Frames) {m : Char} (hm : m = ';' ∨ m = '\x7b') {k : String} (hk : IsKey k)
    (hs : ∀ c ∈ s, isQuiet c = true) (hn : Parens 0 s) (r : List Char) :
    f.read (k.toList ++ s ++ m :: r) = (f.step (Line.action (k.toList ++ s ++ [m]))).read r := by
  have hquiet : ∀ c ∈ k.toList ++ s, isQuiet c = true :=
    List.forall_mem_append.mpr ⟨fun c hc => isQuiet_of_isNameChar (hk.chars c hc), hs⟩
  have hblank : isBlank m = false := by rcases hm with rfl | rfl <;> rfl
  rw [read, linesFrom_quiet hm hquiet
    (hn.append_left (hk.countP_eq_zero rfl) (hk.countP_eq_zero rfl))
    (Nat.le_refl 0), List.nil_append, flush_of_trim (trim_key hk s hblank) (by simp)]
  rfl

theorem read_close (f : Frames) (s : List Char) : f.read ('\x7d' :: s) = f.close.read s := by
  rw [read, tokens_rightBrace]
  rfl

theorem put_fresh {es : Tree} {e : Entry} (h : ∀ k ∈ Tree.keys (e :: es), t.has k = false)
    (he : e.key ∉ es.keys) : t.put e = t ++ [e] ∧ ∀ k ∈ es.keys, Tree.has (t ++ [e]) k = false := by
  refine ⟨Tree.put_of_missing (h e.key List.mem_cons_self), fun k hk => ?_⟩
  rw [Tree.has_append, h k (List.mem_cons_of_mem _ hk), Bool.false_or, Tree.has]
  have hne : e.key ≠ k := fun heq => he (heq ▸ hk)
  simp [hne]

/-- **Reading a printed tree adds its entries to the block being filled.** -/
theorem read_printed {text : List Char} (h : Printed t text) (ht : Tree.Printable t)
    (hkeys : Tree.WellKeyed t) (f : Frames) (hf : ∀ k ∈ t.keys, f.current.has k = false)
    (rest : List Char) :
    f.read (text ++ rest) = read { f with current := f.current ++ t } rest := by
  induction h generalizing f rest with
  | nil gap hgap => rw [read_blank f hgap, List.append_nil]
  | @literal gap hgap k v t s hs ih =>
    obtain ⟨⟨hk, hv⟩, ht⟩ := ht
    obtain ⟨hfresh, -, hkeys⟩ := hkeys
    obtain ⟨hput, hf⟩ := put_fresh hf hfresh
    have htext : gap ++ (k.toList ++ ": ".toList ++ v.toList ++ ';' :: s) ++ rest
        = gap ++ (k.toList ++ (": ".toList ++ v.toList) ++ ';' :: (s ++ rest)) := by simp
    have hquiet : ∀ c ∈ ": ".toList ++ v.toList, isQuiet c = true :=
      List.forall_mem_append.mpr ⟨List.all_eq_true.mp rfl, hv.quiet⟩
    have hparens : Parens 0 (": ".toList ++ v.toList) :=
      hv.parens.append_left rfl rfl
    rw [htext, read_blank f hgap, read_line f (Or.inl rfl) hk hquiet hparens, action_literal hk hv]
    have hstep : f.step (.declare k v) = { f with current := f.current ++ [.literal k v] } := by
      rw [step, Tree.set, hput]
    rw [hstep, ih ht hkeys _ hf, List.append_assoc]
    rfl
  | @block gap hgap k opening hopening ds t inner s hinner hs ihd ih =>
    obtain ⟨⟨hk, hds⟩, ht⟩ := ht
    obtain ⟨hfresh, hdkeys, hkeys⟩ := hkeys
    obtain ⟨hput, hf⟩ := put_fresh hf hfresh
    have htext : gap ++ (k.toList ++ opening ++ '\x7b' :: (inner ++ '\x7d' :: s)) ++ rest
        = gap ++ (k.toList ++ opening ++ '\x7b' :: (inner ++ '\x7d' :: (s ++ rest))) := by simp
    have hquiet : (∀ c ∈ opening, isQuiet c = true) ∧ Parens 0 opening := by
      rcases hopening with rfl | rfl <;> exact ⟨List.all_eq_true.mp rfl, by decide⟩
    rw [htext, read_blank f hgap, read_line f (Or.inr rfl) hk hquiet.1 hquiet.2,
      action_opening hk hopening, ihd hds hdkeys _ (fun _ _ => rfl), read_close]
    have hclose : close ⟨[] ++ ds, (f.current, some k) :: f.around⟩
        = { f with current := f.current ++ [.block k ds] } :=
      congrArg (fun current => { f with current := current }) hput
    show read (close ⟨[] ++ ds, (f.current, some k) :: f.around⟩) (s ++ rest) = _
    rw [hclose, ih ht hkeys _ hf, List.append_assoc]
    rfl

end Frames

/-- **Reading undoes printing:** a tree is read back from every text of it. -/
theorem ofBody_printed {t : Tree} (hkeys : Tree.WellKeyed t) (ht : Tree.Printable t) :
    Tree.ofBody (String.ofList (Tree.print [] t)) = t ∧
      ∀ text, Printed t text → Tree.ofBody (String.ofList text) = t := by
  have hread : ∀ text, Printed t text → Tree.ofBody (String.ofList text) = t := by
    intro text h
    have := Frames.read_printed h ht hkeys Frames.start (fun _ _ => rfl) []
    rw [List.append_nil, Frames.read_nil] at this
    rw [Tree.ofBody, String.toList_ofList]
    exact congrArg Frames.finish this
  exact ⟨hread _ (printed_print t fun c hc => nomatch hc), hread⟩

/-- A tree with an empty block and parentheses inside parentheses and inside an address, in a text
with odd white space. -/
theorem ofBody_printed_nested :
    let t : Tree := [.literal "color" "rgb(0, 0) #fff",
      .block "states" [.block "hover" [], .literal "width" "calc(2 * (1 + 3))"],
      .literal "src" "url(a(b) c) d"]
    let text := "\tcolor: rgb(0, 0) #fff;states: \x7b\n hover \x7b\x7d".toList
      ++ "width: calc(2 * (1 + 3)); \x7d\r\nsrc: url(a(b) c) d;\n".toList
    (Tree.WellKeyed t ∧ Tree.Printable t ∧ Printed t text) ∧
      Tree.ofBody (String.ofList text) = t := by
  intro t text
  have hkeys : Tree.WellKeyed t := by decide
  have hkey : ∀ {k : String}, k ≠ "" → k.toList.all isNameChar = true → IsKey k :=
    fun hne hchars => ⟨hne, List.all_eq_true.mp hchars⟩
  have hcolor : IsValue "rgb(0, 0) #fff" := ⟨by decide, rfl, List.all_eq_true.mp rfl, by decide⟩
  have hwidth : IsValue "calc(2 * (1 + 3))" := ⟨by decide, rfl, List.all_eq_true.mp rfl, by decide⟩
  have hsrc : IsValue "url(a(b) c) d" := ⟨by decide, rfl, List.all_eq_true.mp rfl, by decide⟩
  have ht : Tree.Printable t :=
    ⟨⟨hkey (by decide) rfl, hcolor⟩,
      ⟨hkey (by decide) rfl, ⟨hkey (by decide) rfl, trivial⟩, ⟨hkey (by decide) rfl, hwidth⟩,
        trivial⟩,
      ⟨hkey (by decide) rfl, hsrc⟩, trivial⟩
  have hgap : ∀ {gap : List Char}, gap.all isSpace = true → ∀ c ∈ gap, isSpace c = true :=
    List.all_eq_true.mp
  have htext : Printed t text := by
    have hinner := Printed.block ['\n', ' '] (hgap rfl) "hover" [' '] (Or.inl rfl)
      (.nil [] (hgap rfl))
      (.literal [] (hgap rfl) "width" "calc(2 * (1 + 3))" (.nil [' '] (hgap rfl)))
    exact .literal ['\t'] (hgap rfl) "color" "rgb(0, 0) #fff"
      (.block [] (hgap rfl) "states" [':', ' '] (Or.inr rfl) hinner
        (.literal ['\r', '\n'] (hgap rfl) "src" "url(a(b) c) d" (.nil ['\n'] (hgap rfl))))
  exact ⟨⟨hkeys, ht, htext⟩, (ofBody_printed hkeys ht).2 text htext⟩

end Pagesmith.Style
