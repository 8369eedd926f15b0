import Mathlib.Tactic
import Pagesmith.Proofs.Page.Section

/-!
# Regions by a table of patterns

The regions of a page can be read in another way: a lexer with a stack of states cuts the source
into tokens, where each state has a table of patterns and the first pattern that matches counts, and
a scan over the tokens counts the levels of the region that is open.  The lexer can fail, namely
when no pattern matches, when a token is empty, or when the last state was left.  This file shows
that it never does, and that the scan finds the regions of the page.

* `lex`: the tokens of a source, or why there are none.
* `Scan`: the regions that were found, and the one that is open.
* `tableSections`: the regions of a source; a region that is open at the end is given up, and the
  source is read again behind its marker.
* `read_closed`, `read_unclosed`, `read_root`: what the tokens inside and outside a region do to a
  scan.
* `tableSections_eq`: the lexer never fails, and finds the regions of the page.
-/

namespace Pagesmith.Page

open Pagesmith.Text

variable {cs s : List Char} {c : Char} {n : Nat} {g : Grammar}

/-! ### Patterns -/

/-- How many characters match at the start of a text, if any do. -/
abbrev Pattern := List Char → Option Nat

namespace Pattern

def word (w : List Char) : Pattern := fun s => if w.isPrefixOf s then some w.length else none

def after (w : List Char) (p : Pattern) : Pattern := fun s =>
  if w.isPrefixOf s then (p (s.drop w.length)).map (· + w.length) else none

def run (p : Char → Bool) : Pattern := fun s =>
  if (s.takeWhile p).length = 0 then none else some (s.takeWhile p).length

def any : Pattern := fun s => if s = [] then none else some 1

def spaced (m : Char) : Pattern := fun s =>
  let spaces := (s.takeWhile isMarkerSpace).length
  if (s.drop spaces).head? = some m then some (spaces + 1) else none

def line : Pattern := fun s => some (s.takeWhile (· != '\n')).length

def attributes : Pattern := fun s =>
  if (s.head?.map isWordChar).getD false then none else throughLength? ['>'] s

def or (p q : Pattern) : Pattern := fun s => (p s).or (q s)

end Pattern

/-! ### The table -/

inductive State where
  | root
  | block
  | template
  deriving DecidableEq, Repr

inductive TokenKind where
  | opener (r : Region)
  | text
  | comment
  | string
  | leftBrace
  | rightBrace
  | nestedTag
  | closingTag
  deriving DecidableEq, Repr

def TokenKind.mark : TokenKind → Mark
  | .leftBrace | .nestedTag => .enter
  | .rightBrace | .closingTag => .leave
  | .opener _ | .text | .comment | .string => .text

inductive Action where
  | stay
  | push (s : State)
  | pop
  deriving DecidableEq, Repr

def Action.apply : Action → List State → List State
  | .stay, stack => stack
  | .push s, stack => s :: stack
  | .pop, stack => stack.tail

structure LexRule where
  kind : TokenKind
  pattern : Pattern
  action : Action := .stay

variable {rule : LexRule}

def LexRule.any : LexRule := ⟨.text, .any, .stay⟩

def LexRule.comment : LexRule :=
  ⟨.comment, .or (.after "//".toList .line) (.after "/*".toList (throughLength? "*/".toList)),
    .stay⟩

def LexRule.string : LexRule :=
  ⟨.string, .or (.after ['"'] (quotedLength? '"')) (.or (.after ['\''] (quotedLength? '\''))
    (.after ['\x60'] (throughLength? ['\x60']))), .stay⟩

def State.rules : State → List LexRule
  | .root =>
    [⟨.opener .config, .after "@page".toList (.spaced '\x7b'), .push .block⟩,
      ⟨.opener .logic, .after "@backend".toList (.spaced '\x7b'), .push .block⟩,
      ⟨.opener .template, .word "<template>".toList, .push .template⟩,
      ⟨.text, .run fun c => c != '@' && c != '<', .stay⟩, .any]
  | .block =>
    [.comment, .string, ⟨.leftBrace, .word ['\x7b'], .push .block⟩,
      ⟨.rightBrace, .word ['\x7d'], .pop⟩,
      ⟨.text, .run fun c => !blockMarks.contains c, .stay⟩, .any]
  | .template =>
    [⟨.nestedTag, .after "<template".toList .attributes, .push .template⟩,
      ⟨.closingTag, .after "</template".toList (.spaced '>'), .pop⟩,
      ⟨.text, .run (· != '<'), .stay⟩, .any]

def firstMatch (rules : List LexRule) (s : List Char) : Option (LexRule × Nat) :=
  rules.findSome? fun rule => (rule.pattern s).map fun n => (rule, n)

/-! ### Tokens -/

structure Lexed where
  kind : TokenKind
  text : List Char
  rest : List Char
  deriving DecidableEq, Repr

inductive LexError where
  | noState
  | noRule
  | emptyToken
  deriving DecidableEq, Repr

def lex : List State → List Char → Except LexError (List Lexed)
  | [], _ => .error .noState
  | _ :: _, [] => .ok []
  | state :: below, c :: cs =>
    match firstMatch state.rules (c :: cs) with
    | none => .error .noRule
    | some (_, 0) => .error .emptyToken
    | some (rule, n + 1) =>
      (lex (rule.action.apply (state :: below)) (cs.drop n)).map
        (⟨rule.kind, c :: cs.take n, cs.drop n⟩ :: ·)
termination_by _ s => s.length
decreasing_by
  simp only [List.length_drop, List.length_cons]
  omega

/-! ### Scans -/

/-- A region that is open: how many levels are, its text so far, and what follows its marker. -/
structure Opened where
  region : Region
  depth : Nat
  text : List Char
  rest : List Char
  deriving DecidableEq, Repr

variable {o : Opened}

structure Scan where
  found : Sections := {}
  opened : Option Opened := none
  deriving DecidableEq, Repr

def Opened.take (o : Opened) (depth : Nat) (t : Lexed) : Opened :=
  { o with depth := depth, text := o.text ++ t.text }

def Scan.step (st : Scan) (t : Lexed) : Scan :=
  match st.opened with
  | none =>
    match t.kind with
    | .opener r => { st with opened := some ⟨r, 1, [], t.rest⟩ }
    | _ => st
  | some o =>
    match t.kind.mark with
    | .enter => { st with opened := some (o.take (o.depth + 1) t) }
    | .leave =>
      if o.depth - 1 = 0 then ⟨st.found.add o.text o.region, none⟩
      else { st with opened := some (o.take (o.depth - 1) t) }
    | .text => { st with opened := some (o.take o.depth t) }

theorem length_rest_lt {stack : List State} {ts : List Lexed} (h : lex stack s = .ok ts) {t : Lexed}
    (ht : t ∈ ts) : t.rest.length < s.length := by
  fun_induction lex stack s generalizing ts with
  | case1 => cases h
  | case2 => cases h; cases ht
  | case3 => cases h
  | case4 => cases h
  | case5 state below c cs rule n _ ih =>
    cases hlex : lex (rule.action.apply (state :: below)) (cs.drop n) with
    | error e => rw [hlex] at h; cases h
    | ok us =>
      rw [hlex] at h
      cases h
      have hdrop : (cs.drop n).length < (c :: cs).length := by
        rw [List.length_drop, List.length_cons]
        omega
      rcases List.mem_cons.mp ht with rfl | ht
      · exact hdrop
      · exact (ih hlex ht).trans hdrop

theorem rest_step (st : Scan) (t : Lexed) (h : (st.step t).opened = some o) :
    o.rest = t.rest ∨ ∃ p, st.opened = some p ∧ p.rest = o.rest := by
  rw [Scan.step] at h
  split at h
  · next hnone =>
    split at h
    · cases h
      exact .inl rfl
    · rw [hnone] at h
      cases h
  · next p hp =>
    refine .inr ⟨p, hp, ?_⟩
    split at h
    · cases h
      rfl
    · split at h
      · cases h
      · cases h
        rfl
    · cases h
      rfl

/-- What follows the marker of the open region follows a token, or the region was open before. -/
theorem rest_foldl (ts : List Lexed) (st : Scan) (h : (ts.foldl Scan.step st).opened = some o) :
    (∃ t ∈ ts, o.rest = t.rest) ∨ ∃ p, st.opened = some p ∧ p.rest = o.rest := by
  induction ts generalizing st with
  | nil => exact .inr ⟨o, h, rfl⟩
  | cons t ts ih =>
    rcases ih (st.step t) h with ⟨u, hu, hrest⟩ | ⟨p, hp, hrest⟩
    · exact .inl ⟨u, List.mem_cons_of_mem t hu, hrest⟩
    · rcases rest_step st t hp with hfirst | ⟨q, hq, hfirst⟩
      · exact .inl ⟨t, List.mem_cons_self, hrest.symm.trans hfirst⟩
      · exact .inr ⟨q, hq, hfirst.trans hrest⟩

theorem length_opened_lt {ts : List Lexed} (hlex : lex [.root] s = .ok ts)
    (h : (ts.foldl Scan.step {}).opened = some o) : o.rest.length < s.length := by
  rcases rest_foldl ts {} h with ⟨t, ht, hrest⟩ | ⟨p, hp, -⟩
  · rw [hrest]
    exact length_rest_lt hlex ht
  · cases hp

def tableSections (source : List Char) : Except LexError Sections :=
  match hlex : lex [.root] source with
  | .error e => .error e
  | .ok ts =>
    match hopened : (ts.foldl Scan.step {}).opened with
    | none => .ok (ts.foldl Scan.step {}).found
    | some o =>
      have := length_opened_lt hlex hopened
      (tableSections o.rest).map (ts.foldl Scan.step {}).found.orElse
termination_by source.length
decreasing_by exact this

/-! ### Tokens of a region -/

inductive Follows (g : Grammar) (state : State) (c : Char) (cs : List Char) (rule : LexRule)
    (n : Nat) : Prop where
  | enter (hmark : rule.kind.mark = .enter) (haction : rule.action = .push state)
      (h : g c cs = (.enter, n))
  | leave (hmark : rule.kind.mark = .leave) (haction : rule.action = .pop)
      (h : g c cs = (.leave, n))
  | text (hmark : rule.kind.mark = .text) (haction : rule.action = .stay)
      (h : ∀ d, regionFrom g d (c :: cs) = readOn (c :: cs.take n) (regionFrom g d (cs.drop n)))

/-- A table has a line for every text, and its token does what the grammar says. -/
def Complete (g : Grammar) (state : State) (rules : List LexRule) (c : Char) (cs : List Char) :
    Prop :=
  ∃ rule n, firstMatch rules (c :: cs) = some (rule, n + 1) ∧ Follows g state c cs rule n

theorem firstMatch_of_some (h : rule.pattern s = some n) (rules : List LexRule) :
    firstMatch (rule :: rules) s = some (rule, n) := by
  simp [firstMatch, h]

theorem firstMatch_of_none (h : rule.pattern s = none) (rules : List LexRule) :
    firstMatch (rule :: rules) s = firstMatch rules s := by
  simp [firstMatch, h]

theorem Complete.of_none {state : State} {rules : List LexRule}
    (hrule : rule.pattern (c :: cs) = none) (h : Complete g state rules c cs) :
    Complete g state (rule :: rules) c cs := by
  obtain ⟨rule', n, hmatch, hfollows⟩ := h
  exact ⟨rule', n, (firstMatch_of_none hrule rules).trans hmatch, hfollows⟩

/-- A line of the table that may match at a character, and the character alone if it does not. -/
theorem complete_or_any {state : State} {len : Option Nat} (hgrammar : g c cs = (.text, len.getD 0))
    {rules : List LexRule} (hmark : rule.kind.mark = .text) (haction : rule.action = .stay)
    (hrule : rule.pattern (c :: cs) = len.map (· + 1))
    (hrules : firstMatch rules (c :: cs) = some (.any, 1)) :
    Complete g state (rule :: rules) c cs := by
  cases len with
  | none =>
    exact .of_none hrule ⟨.any, 0, hrules, .text rfl rfl (regionFrom_text hgrammar)⟩
  | some k =>
    exact ⟨rule, k, firstMatch_of_some hrule rules, .text hmark haction (regionFrom_text hgrammar)⟩

theorem complete_run {state : State} {p : Char → Bool} (hp : ∀ c s, p c = true → g c s = (.text, 0))
    (hc : p c = true) (cs : List Char) (rules : List LexRule) :
    Complete g state (⟨.text, .run p, .stay⟩ :: rules) c cs := by
  have hrun : ∀ d w s, (∀ x ∈ w, p x = true) →
      regionFrom g d (w ++ s) = readOn w (regionFrom g d s) := by
    intro d w s hw
    induction w with
    | nil => simp
    | cons x w ih =>
      rw [List.cons_append, regionFrom_char (hp x _ (hw x List.mem_cons_self)),
        ih fun y hy => hw y (List.mem_cons_of_mem x hy), readOn_readOn, List.singleton_append]
  refine ⟨_, (cs.takeWhile p).length, firstMatch_of_some ?_ rules, .text rfl rfl fun d => ?_⟩
  · simp [Pattern.run, hc]
  · have hall : ∀ x ∈ c :: cs.takeWhile p, p x = true := by
      intro x hx
      rcases List.mem_cons.mp hx with rfl | hx
      · exact hc
      · exact List.all_eq_true.mp List.all_takeWhile x hx
    have hstarts := List.takeWhile_prefix p (l := cs)
    have hread := hrun d (c :: cs.takeWhile p) (cs.drop (cs.takeWhile p).length) hall
    rw [List.cons_append, List.prefix_iff_eq_append.mp hstarts] at hread
    rwa [← List.prefix_iff_eq_take.mp hstarts]

theorem after_of_ne {d : Char} (h : c ≠ d) (w cs : List Char) (p : Pattern) :
    Pattern.after (d :: w) p (c :: cs) = none := by
  simp [Pattern.after, h.symm]

theorem word_of_ne {d : Char} (h : c ≠ d) (w cs : List Char) :
    Pattern.word (d :: w) (c :: cs) = none := by
  simp [Pattern.word, h.symm]

theorem commentRule_slash (cs : List Char) : ∃ len : Option Nat,
    LexRule.comment.pattern ('/' :: cs) = len.map (· + 1) ∧
      blockGrammar '/' cs = (.text, len.getD 0) := by
  cases cs with
  | nil => exact ⟨none, rfl, rfl⟩
  | cons c cs =>
    by_cases hslash : c = '/'
    · subst hslash
      exact ⟨some (1 + (cs.takeWhile (· != '\n')).length), by
        simp [LexRule.comment, Pattern.or, Pattern.after, Pattern.line]; omega, rfl⟩
    · by_cases hstar : c = '*'
      · subst hstar
        refine ⟨(throughLength? ['*', '/'] cs).map (· + 1), ?_, rfl⟩
        simp [LexRule.comment, Pattern.or, Pattern.after]
      · refine ⟨none, ?_, blockGrammar_slash (by simpa using hslash) (by simpa using hstar)⟩
        simp [LexRule.comment, Pattern.or, Pattern.after, Ne.symm hslash, Ne.symm hstar]

theorem stringRule_quote {q : Char} (hq : q ∈ ['"', '\'', '\x60']) (cs : List Char) :
    ∃ len : Option Nat, LexRule.string.pattern (q :: cs) = len.map (· + 1) ∧
      blockGrammar q cs = (.text, len.getD 0) := by
  simp only [List.mem_cons, List.not_mem_nil, or_false] at hq
  rcases hq with rfl | rfl | rfl
  · exact ⟨quotedLength? '"' cs, by simp [LexRule.string, Pattern.or, Pattern.after], rfl⟩
  · exact ⟨quotedLength? '\'' cs, by simp [LexRule.string, Pattern.or, Pattern.after], rfl⟩
  · exact ⟨throughLength? ['\x60'] cs, by simp [LexRule.string, Pattern.or, Pattern.after], rfl⟩

theorem complete_block (c : Char) (cs : List Char) :
    Complete blockGrammar .block State.block.rules c cs := by
  by_cases hc : c ∈ blockMarks
  · simp only [blockMarks, List.mem_cons, List.not_mem_nil, or_false] at hc
    rcases hc with rfl | rfl | rfl | rfl | rfl | rfl
    · exact ⟨_, 0, rfl, .enter rfl rfl rfl⟩
    · exact ⟨_, 0, rfl, .leave rfl rfl rfl⟩
    · obtain ⟨len, hrule, hgrammar⟩ := stringRule_quote (q := '"') (by decide) cs
      exact .of_none rfl (complete_or_any hgrammar rfl rfl hrule rfl)
    · obtain ⟨len, hrule, hgrammar⟩ := stringRule_quote (q := '\'') (by decide) cs
      exact .of_none rfl (complete_or_any hgrammar rfl rfl hrule rfl)
    · obtain ⟨len, hrule, hgrammar⟩ := stringRule_quote (q := '\x60') (by decide) cs
      exact .of_none rfl (complete_or_any hgrammar rfl rfl hrule rfl)
    · obtain ⟨len, hrule, hgrammar⟩ := commentRule_slash cs
      exact complete_or_any hgrammar rfl rfl hrule rfl
  · have hne := hc
    simp only [blockMarks, List.mem_cons, List.not_mem_nil, or_false, not_or] at hne
    obtain ⟨hleft, hright, hdouble, hsingle, hback, hslash⟩ := hne
    refine .of_none ?_ (.of_none ?_ (.of_none (word_of_ne hleft _ _)
      (.of_none (word_of_ne hright _ _) (complete_run (fun d s hd => ?_) ?_ cs _))))
    · exact congrArg₂ Option.or (after_of_ne hslash _ _ _) (after_of_ne hslash _ _ _)
    · exact congrArg₂ Option.or (after_of_ne hdouble _ _ _)
        (congrArg₂ Option.or (after_of_ne hsingle _ _ _) (after_of_ne hback _ _ _))
    · exact blockGrammar_char (by simpa using hd) s
    · simpa using hc

theorem after_cons (c : Char) (w cs : List Char) (p : Pattern) :
    Pattern.after (c :: w) p (c :: cs)
      = if w.isPrefixOf cs then (p (cs.drop w.length)).map (· + (w.length + 1)) else none := by
  simp [Pattern.after]

theorem after_attributes (cs : List Char) :
    Pattern.after "<template".toList .attributes ('<' :: cs)
      = (nestedTagLength? '<' cs).map (· + 1) := by
  have hword : "<template".toList = '<' :: "template".toList := rfl
  rw [hword, after_cons, nestedTagLength?, beq_self_eq_true, Bool.true_and]
  simp only [Pattern.attributes]
  split
  · split
    · rfl
    · rw [Option.map_map]
      rfl
  · rfl

theorem after_spaced (cs : List Char) :
    Pattern.after "</template".toList (.spaced '>') ('<' :: cs)
      = (closingTagLength? '<' cs).map (· + 1) := by
  have hword : "</template".toList = '<' :: "/template".toList := rfl
  rw [hword, after_cons, closingTagLength?, beq_self_eq_true, Bool.true_and]
  simp only [Pattern.spaced]
  split
  · split
    · rw [Option.map_some, Option.map_some]
      congr 1
      omega
    · rfl
  · rfl

theorem complete_template (c : Char) (cs : List Char) :
    Complete templateGrammar .template State.template.rules c cs := by
  by_cases hc : c = '<'
  · subst hc
    have hopen := after_attributes cs
    have hclose := after_spaced cs
    cases hnested : nestedTagLength? '<' cs with
    | some n =>
      rw [hnested] at hopen
      refine ⟨_, n, firstMatch_of_some hopen _, .enter rfl rfl ?_⟩
      simp [templateGrammar, hnested]
    | none =>
      rw [hnested] at hopen
      refine .of_none hopen ?_
      cases hclosing : closingTagLength? '<' cs with
      | some n =>
        rw [hclosing] at hclose
        refine ⟨_, n, firstMatch_of_some hclose _, .leave rfl rfl ?_⟩
        simp [templateGrammar, hnested, hclosing]
      | none =>
        rw [hclosing] at hclose
        refine .of_none hclose ⟨.any, 0, rfl, .text rfl rfl (regionFrom_text ?_)⟩
        simp [templateGrammar, hnested, hclosing]
  · refine .of_none (after_of_ne hc _ _ _) (.of_none (after_of_ne hc _ _ _)
      (complete_run (fun d s hd => templateGrammar_of_ne (by simpa using hd) s) ?_ cs _))
    simpa using hc

def Region.state : Region → State
  | .config | .logic => .block
  | .template => .template

theorem complete_region (r : Region) (c : Char) (cs : List Char) :
    Complete r.grammar r.state r.state.rules c cs := by
  cases r with
  | config => exact complete_block c cs
  | logic => exact complete_block c cs
  | template => exact complete_template c cs

/-! ### Reading inside a region -/

def Region.stack (r : Region) (d : Nat) : List State := List.replicate (d + 1) r.state ++ [.root]

theorem lex_cons {state : State} (h : firstMatch state.rules (c :: cs) = some (rule, n + 1))
    (below : List State) :
    lex (state :: below) (c :: cs)
      = (lex (rule.action.apply (state :: below)) (cs.drop n)).map
          (⟨rule.kind, c :: cs.take n, cs.drop n⟩ :: ·) := by
  rw [lex]
  simp [h]

/-- What a token does to a scan inside a region with `d` further levels: it closes the region, or
it leaves `e` levels and its text is in the region. -/
inductive Inside (r : Region) (d : Nat) (s : List Char) (t : Lexed) : Prop where
  | closes (hregion : regionFrom r.grammar d s = some ([], t.rest))
      (hlex : lex (r.stack d) s = (lex [.root] t.rest).map (t :: ·))
      (hstep : ∀ found text rest, Scan.step ⟨found, some ⟨r, d + 1, text, rest⟩⟩ t
        = ⟨found.add text r, none⟩)
  | goesOn (e : Nat)
      (hregion : regionFrom r.grammar d s = readOn t.text (regionFrom r.grammar e t.rest))
      (hlex : lex (r.stack d) s = (lex (r.stack e) t.rest).map (t :: ·))
      (hstep : ∀ found text rest, Scan.step ⟨found, some ⟨r, d + 1, text, rest⟩⟩ t
        = ⟨found, some ⟨r, e + 1, text ++ t.text, rest⟩⟩)

theorem exists_inside (r : Region) (d : Nat) (c : Char) (cs : List Char) :
    ∃ t : Lexed, t.rest.length ≤ cs.length ∧ Inside r d (c :: cs) t := by
  obtain ⟨rule, n, hmatch, hfollows⟩ := complete_region r c cs
  have hlength : (cs.drop n).length ≤ cs.length := by
    rw [List.length_drop]
    omega
  have hlex := lex_cons hmatch (List.replicate d r.state ++ [.root])
  refine ⟨⟨rule.kind, c :: cs.take n, cs.drop n⟩, hlength, ?_⟩
  cases hfollows with
  | enter hmark haction h =>
    rw [haction] at hlex
    refine .goesOn (d + 1) (regionFrom_enter h d) hlex fun found text rest => ?_
    simp [Scan.step, hmark, Opened.take]
  | leave hmark haction h =>
    rw [haction] at hlex
    cases d with
    | zero =>
      refine .closes (regionFrom_leave h) hlex fun found text rest => ?_
      simp [Scan.step, hmark]
    | succ d =>
      refine .goesOn d (regionFrom_leave_succ h d) hlex fun found text rest => ?_
      simp [Scan.step, hmark, Opened.take]
  | text hmark haction h =>
    rw [haction] at hlex
    refine .goesOn d (h d) hlex fun found text rest => ?_
    simp [Scan.step, hmark, Opened.take]

theorem map_append_cons (r : Except LexError (List Lexed)) (t : Lexed) (ts : List Lexed) :
    (r.map (ts ++ ·)).map (t :: ·) = r.map (t :: ts ++ ·) := by
  cases r <;> rfl

/-- **The tokens of a region that is closed** end with the region, and the scan has its text. -/
theorem read_closed (r : Region) (found : Sections) (rest : List Char) {d : Nat}
    {t after : List Char} (h : regionFrom r.grammar d s = some (t, after)) (text : List Char) :
    ∃ ts, lex (r.stack d) s = (lex [.root] after).map (ts ++ ·) ∧
      ts.foldl Scan.step ⟨found, some ⟨r, d + 1, text, rest⟩⟩
        = ⟨found.add (text ++ t) r, none⟩ := by
  induction hlen : s.length using Nat.strongRecOn generalizing s d t text with
  | ind len ih =>
    cases s with
    | nil => simp [regionFrom] at h
    | cons c cs =>
      obtain ⟨x, hshort, hinside⟩ := exists_inside r d c cs
      cases hinside with
      | closes hregion hlex hstep =>
        rw [hregion] at h
        cases h
        refine ⟨[x], hlex, ?_⟩
        rw [List.foldl_cons, List.foldl_nil, hstep, List.append_nil]
      | goesOn e hregion hlex hstep =>
        rw [hregion] at h
        obtain ⟨u, hu, rfl⟩ := readOn_eq_some.mp h
        have hless : x.rest.length < len := by
          rw [List.length_cons] at hlen
          omega
        obtain ⟨ts, hts, hfold⟩ := ih _ hless hu (text ++ x.text) rfl
        refine ⟨x :: ts, ?_, ?_⟩
        · rw [hlex, hts, map_append_cons]
        · rw [List.foldl_cons, hstep, hfold, List.append_assoc]

/-- **The tokens of a region that is not closed** leave it open, with what follows its marker. -/
theorem read_unclosed (r : Region) (found : Sections) (rest : List Char) {d : Nat}
    (h : regionFrom r.grammar d s = none) (text : List Char) :
    ∃ ts o, lex (r.stack d) s = .ok ts ∧ o.rest = rest ∧
      ts.foldl Scan.step ⟨found, some ⟨r, d + 1, text, rest⟩⟩ = ⟨found, some o⟩ := by
  induction hlen : s.length using Nat.strongRecOn generalizing s d text with
  | ind len ih =>
    cases s with
    | nil =>
      have hlex : lex (r.stack d) [] = .ok [] := by
        simp [Region.stack, List.replicate_succ, lex]
      exact ⟨[], ⟨r, d + 1, text, rest⟩, hlex, rfl, rfl⟩
    | cons c cs =>
      obtain ⟨x, hshort, hinside⟩ := exists_inside r d c cs
      cases hinside with
      | closes hregion =>
        rw [hregion] at h
        cases h
      | goesOn e hregion hlex hstep =>
        rw [hregion, readOn_eq_none] at h
        have hless : x.rest.length < len := by
          rw [List.length_cons] at hlen
          omega
        obtain ⟨ts, o, hts, ho, hfold⟩ := ih _ hless h (text ++ x.text) rfl
        refine ⟨x :: ts, o, ?_, ho, ?_⟩
        · rw [hlex, hts]
          rfl
        · rw [List.foldl_cons, hstep, hfold]

/-! ### Reading outside of regions -/

theorem after_brace (w s : List Char) :
    Pattern.after w (.spaced '\x7b') s = braceMarkerLength? w s := by
  simp only [Pattern.after, Pattern.spaced, braceMarkerLength?]
  split
  · split
    · rw [Option.map_some]
      congr 1
      omega
    · rfl
  · rfl

theorem firstMatch_opener {r : Region} (h : openingMarker? s = some (r, n)) :
    ∃ rule, firstMatch State.root.rules s = some (rule, n) ∧
      rule.kind = .opener r ∧ rule.action = .push r.state := by
  have hpage := after_brace "@page".toList s
  have hbackend := after_brace "@backend".toList s
  rw [openingMarker?] at h
  split at h
  · next m hm =>
    cases h
    rw [hm] at hpage
    exact ⟨_, firstMatch_of_some hpage _, rfl, rfl⟩
  · next hm =>
    rw [hm] at hpage
    split at h
    · next m hm =>
      cases h
      rw [hm] at hbackend
      exact ⟨_, (firstMatch_of_none hpage _).trans (firstMatch_of_some hbackend _), rfl, rfl⟩
    · next hm =>
      rw [hm] at hbackend
      split at h
      · next htag =>
        cases h
        have hword : Pattern.word "<template>".toList s = some 10 := if_pos htag
        exact ⟨_, (firstMatch_of_none hpage _).trans
          ((firstMatch_of_none hbackend _).trans (firstMatch_of_some hword _)), rfl, rfl⟩
      · cases h

theorem openingMarker?_eq_none (h : openingMarker? s = none) :
    braceMarkerLength? "@page".toList s = none ∧ braceMarkerLength? "@backend".toList s = none ∧
      Pattern.word "<template>".toList s = none := by
  rw [openingMarker?] at h
  split at h
  · cases h
  · next hpage =>
    split at h
    · cases h
    · next hbackend =>
      split at h
      · cases h
      · next htag => exact ⟨hpage, hbackend, if_neg htag⟩

theorem firstMatch_text (h : openingMarker? (c :: cs) = none) :
    ∃ rule n, firstMatch State.root.rules (c :: cs) = some (rule, n + 1) ∧ rule.kind = .text ∧
      rule.action = .stay ∧
      ∀ found, sectionsFrom found (c :: cs) = sectionsFrom found (cs.drop n) := by
  obtain ⟨hpage, hbackend, hword⟩ := openingMarker?_eq_none h
  rw [← after_brace] at hpage hbackend
  have hrules : ∀ {rule n}, firstMatch
      [⟨.text, .run fun d => d != '@' && d != '<', .stay⟩, .any] (c :: cs) = some (rule, n) →
      firstMatch State.root.rules (c :: cs) = some (rule, n) := fun hmatch =>
    (firstMatch_of_none hpage _).trans ((firstMatch_of_none hbackend _).trans
      ((firstMatch_of_none hword _).trans hmatch))
  generalize hp : (fun d : Char => d != '@' && d != '<') = p at hrules
  cases hc : p c with
  | true =>
    have hgap : ∀ d ∈ c :: cs.takeWhile p, d ≠ '@' ∧ d ≠ '<' := by
      intro d hd
      have hpd : p d = true := by
        rcases List.mem_cons.mp hd with rfl | hd
        · exact hc
        · exact List.all_eq_true.mp List.all_takeWhile d hd
      rw [← hp] at hpd
      simpa using hpd
    refine ⟨_, (cs.takeWhile p).length, hrules (firstMatch_of_some ?_ _), rfl, rfl, ?_⟩
    · simp [Pattern.run, hc]
    · intro found
      have hread := sectionsFrom_gap found
        ⟨c :: cs.takeWhile p, fun hat => (hgap _ hat).1 rfl, fun hlt => (hgap _ hlt).2 rfl⟩
        (cs.drop (cs.takeWhile p).length)
      rwa [List.cons_append, List.prefix_iff_eq_append.mp (List.takeWhile_prefix p)] at hread
  | false =>
    have hrun : Pattern.run p (c :: cs) = none := by simp [Pattern.run, hc]
    exact ⟨.any, 0, hrules ((firstMatch_of_none hrun _).trans rfl), rfl, rfl,
      sectionsFrom_of_none h⟩

def Scan.result (st : Scan) : Sections :=
  match st.opened with
  | none => st.found
  | some o => st.found.orElse (sections o.rest)

/-- **The tokens outside of a region** lead to the regions of the text. -/
theorem read_root (s : List Char) (found : Sections) :
    ∃ ts, lex [.root] s = .ok ts ∧
      (ts.foldl Scan.step ⟨found, none⟩).result = sectionsFrom found s := by
  induction hlen : s.length using Nat.strongRecOn generalizing s found with
  | ind len ih =>
    cases s with
    | nil => exact ⟨[], by rw [lex], (sectionsFrom_nil found).symm⟩
    | cons c cs =>
      rw [List.length_cons] at hlen
      cases hmarker : openingMarker? (c :: cs) with
      | none =>
        obtain ⟨rule, n, hmatch, hkind, haction, hsections⟩ := firstMatch_text hmarker
        have hless : (cs.drop n).length < len := by
          rw [List.length_drop]
          omega
        obtain ⟨ts, hts, hresult⟩ := ih _ hless (cs.drop n) found rfl
        have hlex := lex_cons hmatch []
        rw [haction, Action.apply, hts] at hlex
        refine ⟨_, hlex, ?_⟩
        rw [List.foldl_cons, hsections, ← hresult]
        simp only [Scan.step, hkind]
      | some m =>
        obtain ⟨r, n⟩ := m
        obtain ⟨k, rfl⟩ := Nat.exists_eq_succ_of_ne_zero (openingMarker?_pos hmarker).ne'
        obtain ⟨rule, hmatch, hkind, haction⟩ := firstMatch_opener hmarker
        have hlex := lex_cons hmatch []
        have hopens : Scan.step ⟨found, none⟩ ⟨rule.kind, c :: cs.take k, cs.drop k⟩
            = ⟨found, some ⟨r, 0 + 1, [], cs.drop k⟩⟩ := by
          simp only [Scan.step, hkind]
        have hstack : rule.action.apply [.root] = r.stack 0 := by
          rw [haction]
          rfl
        rw [hstack] at hlex
        cases hregion : regionFrom r.grammar 0 (cs.drop k) with
        | none =>
          obtain ⟨ts, o, hts, ho, hfold⟩ := read_unclosed r found (cs.drop k) hregion []
          rw [hts] at hlex
          refine ⟨_, hlex, ?_⟩
          rw [List.foldl_cons, hopens, hfold, sectionsFrom_of_unclosed hmarker hregion,
            sectionsFrom_eq]
          exact congrArg (fun u => found.orElse (sections u)) ho
        | some p =>
          obtain ⟨t, after⟩ := p
          have hshort := length_regionFrom_lt r.grammar 0 _ hregion
          have hless : after.length < len := by
            rw [List.length_drop] at hshort
            omega
          obtain ⟨us, hus, hresult⟩ := ih _ hless after (found.add t r) rfl
          obtain ⟨ts, hts, hfold⟩ := read_closed r found (cs.drop k) hregion []
          rw [hts, hus] at hlex
          refine ⟨_, hlex, ?_⟩
          rw [List.foldl_cons, hopens, List.foldl_append, hfold, List.nil_append, hresult,
            sectionsFrom_of_some hmarker hregion]

/-- **The lexer never fails,** and its tokens give the regions of the source. -/
theorem tableSections_eq (s : List Char) : tableSections s = .ok (sections s) := by
  induction hlen : s.length using Nat.strongRecOn generalizing s with
  | ind len ih =>
    obtain ⟨ts, hts, hresult⟩ := read_root s {}
    rw [sections, ← hresult, tableSections]
    split
    · next heq =>
      rw [hts] at heq
      cases heq
    · next us heq =>
      rw [hts] at heq
      cases heq
      split
      · next hnone => simp only [Scan.result, hnone]
      · next o hopened =>
        have hless := length_opened_lt hts hopened
        rw [ih _ (hlen ▸ hless) o.rest rfl]
        simp only [Scan.result, hopened, Except.map]

/-- **Regions compose.**  A well-formed source before any text has its own regions, the first of
each kind and also an empty one, and for the others those of the text; a marker between them whose
region is not closed changes nothing; and the lexer that finds the regions never fails. -/
theorem extractSections_composes (src : Source) (h : src.WellFormed) :
    (∀ (s : List Char) (r : Region), (extractSections .balanced (src.text ++ s)).get r
      = (src.firstText? r).getD ((extractSections .balanced s).get r)) ∧
    (∀ (k : Region) (m s : List Char), Opens k m → StaysOpen k.grammar 0 s → ∀ r,
      (extractSections .balanced (src.text ++ m ++ s)).get r
        = (src.firstText? r).getD ((extractSections .balanced s).get r)) ∧
    ∀ s, tableSections s = .ok (extractSections .balanced s) := by
  have happend : ∀ (s : List Char) (r : Region), (sections (src.text ++ s)).get r
      = (src.firstText? r).getD ((sections s).get r) := by
    intro s r
    rw [Sections.get_eq, sections_append h, Sections.get_eq, Option.getD_or]
  refine ⟨happend, fun k m s hm hs r => ?_, tableSections_eq⟩
  rw [extractSections, List.append_assoc, happend, sections_unclosed hm hs, extractSections]

/-- An empty config block hides a later one, and a logic block that is not closed does not hide the
template in it. -/
theorem extractSections_composes_unclosed :
    let src : Source := ⟨⟨[], by decide⟩,
      [(⟨.config, "@page \x7b".toList, [], .config [' '] (List.all_eq_true.mp rfl)⟩,
        ⟨['\n'], by decide⟩)]⟩
    let later : List Char := "@page \x7ba\x7d".toList
    let marker : List Char := "@backend \x7b".toList
    let rest : List Char := "\x7b <template>t</template> \x7d".toList
    (src.WellFormed ∧ Opens .logic marker ∧ StaysOpen Region.logic.grammar 0 rest) ∧
      (extractSections .balanced (src.text ++ later)).get .config = [] ∧
      (extractSections .balanced (src.text ++ marker ++ rest)).get .template = ['t'] ∧
      tableSections (src.text ++ marker ++ rest)
        = .ok (extractSections .balanced (src.text ++ marker ++ rest)) := by
  intro src later marker rest
  have hwell : src.WellFormed := List.forall_mem_singleton.mpr .nil
  have hopens : Opens .logic marker := .logic [' '] (List.all_eq_true.mp rfl)
  have hopen : StaysOpen Region.logic.grammar 0 rest := by
    refine (regionFrom_eq_none_iff _ _ _).mp ?_
    simp only [rest]
    cbv
  have hrest : (extractSections .balanced rest).get .template = ['t'] :=
    get_extractSections ⟨⟨['\x7b', ' '], by decide⟩,
      [(⟨.template, "<template>".toList, ['t'], .template⟩, ⟨[' ', '\x7d'], by decide⟩)]⟩
      (List.forall_mem_singleton.mpr (.plain (plainMarkup_of_tagless (by decide) (by decide))))
      .template
  obtain ⟨happend, hunclosed, htable⟩ := extractSections_composes src hwell
  refine ⟨⟨hwell, hopens, hopen⟩, happend later .config, ?_, htable _⟩
  exact (hunclosed .logic marker rest hopens hopen .template).trans hrest

end Pagesmith.Page
