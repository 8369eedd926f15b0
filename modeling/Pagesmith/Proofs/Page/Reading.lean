import Mathlib.Logic.Relation
import Pagesmith.Proofs.Page.Lexer

/-!
# Levels of the lexer and of the scan

The lexer keeps its levels on a stack, which its patterns push and pop; the scan counts the levels
of the open region by the kinds of the tokens.  The text of a region is right only if the two never
part.  This file reads a page token by token and shows that they do not, also on stray delimiters,
on the markers of other regions, and on the passes behind a region that was given up.

* `Reading`, `Reading.next?`: a page that is partly read, and one turn of reading it.
* `Reading.Agrees`: what the lexer and the scan know of each other between two turns.
* `Reading.Agrees.next`: a turn keeps it, and reading gets stuck nowhere.
* `exists_reachable_end`: reading ends, with the regions of the page.
-/

namespace Pagesmith.Page

variable {cs page : List Char} {c : Char} {o : Opened}

/-- A page that is partly read: the regions found by earlier passes, the stack of the lexer, the
text that it has not read, and the scan of this pass. -/
structure Reading where
  earlier : Sections
  stack : List State
  rest : List Char
  scan : Scan

namespace Reading

def start (earlier : Sections) (source : List Char) : Reading := ⟨earlier, [.root], source, {}⟩

/-- One turn: the lexer reads a token and the scan takes it.  At the end a region that is open is
given up, and a new pass starts behind its marker. -/
def next? (r : Reading) : Option Reading :=
  match r.stack, r.rest with
  | _, [] => r.scan.opened.map fun o => start (r.earlier.orElse r.scan.found) o.rest
  | [], _ :: _ => none
  | state :: below, c :: cs =>
    match firstMatch state.rules (c :: cs) with
    | some (rule, n + 1) =>
      some ⟨r.earlier, rule.action.apply (state :: below), cs.drop n,
        r.scan.step ⟨rule.kind, c :: cs.take n, cs.drop n⟩⟩
    | _ => none

abbrev Reaches : Reading → Reading → Prop := Relation.ReflTransGen fun r s => r.next? = some s

abbrev Reachable (page : List Char) (r : Reading) : Prop := Reaches (start {} page) r

theorem next?_cons {state : State} {rule : LexRule} {n : Nat}
    (h : firstMatch state.rules (c :: cs) = some (rule, n + 1)) (earlier : Sections)
    (below : List State) (scan : Scan) :
    next? ⟨earlier, state :: below, c :: cs, scan⟩
      = some ⟨earlier, rule.action.apply (state :: below), cs.drop n,
          scan.step ⟨rule.kind, c :: cs.take n, cs.drop n⟩⟩ := by
  simp [next?, h]

theorem next?_nil (earlier : Sections) (stack : List State) (scan : Scan) :
    next? ⟨earlier, stack, [], scan⟩
      = scan.opened.map fun o => start (earlier.orElse scan.found) o.rest := by
  simp [next?]

/-! ### What a turn keeps -/

/-- A marker of the region stands in the page, and what follows it is the text of the region so far
and then the text not read. -/
def Behind (page : List Char) (o : Opened) (rest : List Char) : Prop :=
  ∃ s n, s <:+ page ∧ openingMarker? s = some (o.region, n) ∧ o.rest = s.drop n ∧
    o.rest = o.text ++ rest

/-- Outside of regions the lexer is in its first state; inside of one it has a state of the region
for each level that the scan counts. -/
inductive Agrees (page : List Char) : Reading → Prop where
  | outside (earlier found : Sections) {rest : List Char} (hpage : rest <:+ page) :
      Agrees page ⟨earlier, [.root], rest, ⟨found, none⟩⟩
  | inside (earlier found : Sections) {o : Opened} {rest : List Char} (d : Nat)
      (hdepth : o.depth = d + 1) (hbehind : Behind page o rest) :
      Agrees page ⟨earlier, o.region.stack d, rest, ⟨found, some o⟩⟩

theorem Behind.suffix {rest : List Char} (h : Behind page o rest) : o.rest <:+ page := by
  obtain ⟨s, n, hs, -, ho, -⟩ := h
  exact ho ▸ (List.drop_suffix n s).trans hs

theorem Behind.suffix_drop (h : Behind page o (c :: cs)) (n : Nat) : cs.drop n <:+ page := by
  obtain ⟨-, -, -, -, -, htext⟩ := id h
  refine .trans ⟨o.text ++ c :: cs.take n, ?_⟩ h.suffix
  simp [htext]

theorem Behind.take (h : Behind page o (c :: cs)) (d n : Nat) (kind : TokenKind) :
    Behind page (o.take d ⟨kind, c :: cs.take n, cs.drop n⟩) (cs.drop n) := by
  obtain ⟨s, k, hs, hmarker, ho, htext⟩ := h
  refine ⟨s, k, hs, hmarker, ho, ?_⟩
  simp [Opened.take, htext]

theorem next_outside (hpage : c :: cs <:+ page) (earlier found : Sections) :
    ∃ s, next? ⟨earlier, [.root], c :: cs, ⟨found, none⟩⟩ = some s ∧ Agrees page s := by
  cases hmarker : openingMarker? (c :: cs) with
  | none =>
    obtain ⟨rule, n, hmatch, hkind, haction, -⟩ := firstMatch_text hmarker
    have hrest : cs.drop n <:+ page := (List.drop_suffix (n + 1) (c :: cs)).trans hpage
    refine ⟨_, ?_, .outside earlier found hrest⟩
    rw [next?_cons hmatch, haction]
    simp only [Scan.step, hkind]
    rfl
  | some m =>
    obtain ⟨region, n⟩ := m
    obtain ⟨k, rfl⟩ := Nat.exists_eq_succ_of_ne_zero (openingMarker?_pos hmarker).ne'
    obtain ⟨rule, hmatch, hkind, haction⟩ := firstMatch_opener hmarker
    refine ⟨_, ?_, .inside earlier found (o := ⟨region, 1, [], cs.drop k⟩) 0 rfl
      ⟨c :: cs, k + 1, hpage, hmarker, rfl, rfl⟩⟩
    rw [next?_cons hmatch, haction]
    simp only [Scan.step, hkind]
    rfl

/-- Inside of a region a token opens a level, closes one, the last of which closes the region, or
is text; the lexer does the same to its stack. -/
theorem next_inside {d : Nat} (hdepth : o.depth = d + 1) (hbehind : Behind page o (c :: cs))
    (earlier found : Sections) :
    ∃ s, next? ⟨earlier, o.region.stack d, c :: cs, ⟨found, some o⟩⟩ = some s ∧ Agrees page s := by
  obtain ⟨rule, n, hmatch, hfollows⟩ := complete_region o.region c cs
  have htake := fun e => hbehind.take e n rule.kind
  have hnext := next?_cons hmatch earlier (List.replicate d o.region.state ++ [.root])
    ⟨found, some o⟩
  cases hfollows with
  | enter hmark haction =>
    rw [haction] at hnext
    simp only [Scan.step, hmark] at hnext
    exact ⟨_, hnext, .inside earlier found (d + 1) (congrArg (· + 1) hdepth) (htake _)⟩
  | leave hmark haction =>
    rw [haction] at hnext
    simp only [Scan.step, hmark] at hnext
    cases d with
    | zero =>
      rw [if_pos (by omega)] at hnext
      exact ⟨_, hnext, .outside earlier _ (hbehind.suffix_drop n)⟩
    | succ d =>
      rw [if_neg (by omega)] at hnext
      exact ⟨_, hnext, .inside earlier found d (Nat.pred_eq_succ_iff.mpr hdepth) (htake _)⟩
  | text hmark haction =>
    rw [haction] at hnext
    simp only [Scan.step, hmark] at hnext
    exact ⟨_, hnext, .inside earlier found (o := o.take o.depth _) d hdepth (htake _)⟩

/-- **A turn keeps the lexer and the scan in agreement,** and there is one unless the page is read
and no region is open. -/
theorem Agrees.next {r : Reading} (h : Agrees page r) :
    (r.next? = none ∧ r.rest = [] ∧ r.scan.opened = none) ∨
      ∃ s, r.next? = some s ∧ Agrees page s := by
  cases h with
  | @outside earlier found rest hpage =>
    cases rest with
    | nil => exact .inl ⟨next?_nil _ _ _, rfl, rfl⟩
    | cons c cs => exact .inr (next_outside hpage earlier found)
  | @inside earlier found o rest d hdepth hbehind =>
    cases rest with
    | nil => exact .inr ⟨_, next?_nil _ _ _, .outside _ _ hbehind.suffix⟩
    | cons c cs => exact .inr (next_inside hdepth hbehind earlier found)

theorem Agrees.of_reachable {r : Reading} (h : Reachable page r) : Agrees page r := by
  induction h with
  | refl => exact .outside {} {} (List.suffix_refl page)
  | tail _ hnext ih =>
    rcases ih.next with ⟨hnone, -⟩ | ⟨s, hs, hagrees⟩
    · rw [hnone] at hnext
      cases hnext
    · rw [hs] at hnext
      cases hnext
      exact hagrees

/-! ### The end of reading -/

theorem reaches_of_lex {stack : List State} {s : List Char} {ts : List Lexed}
    (h : lex stack s = .ok ts) (earlier : Sections) (scan : Scan) :
    ∃ left, Reaches ⟨earlier, stack, s, scan⟩ ⟨earlier, left, [], ts.foldl Scan.step scan⟩ := by
  fun_induction lex stack s generalizing ts scan with
  | case1 => cases h
  | case2 state below =>
    cases h
    exact ⟨state :: below, .refl⟩
  | case3 => cases h
  | case4 => cases h
  | case5 state below c cs rule n hmatch ih =>
    cases hlex : lex (rule.action.apply (state :: below)) (cs.drop n) with
    | error e => rw [hlex] at h; cases h
    | ok us =>
      rw [hlex] at h
      cases h
      obtain ⟨left, hleft⟩ := ih hlex (scan.step ⟨rule.kind, c :: cs.take n, cs.drop n⟩)
      exact ⟨left, .head (next?_cons hmatch earlier below scan) hleft⟩

/-- **Reading ends,** and has then found the regions of the page. -/
theorem exists_reachable_end (s : List Char) (earlier : Sections) :
    ∃ r, Reaches (start earlier s) r ∧ r.next? = none ∧
      r.earlier.orElse r.scan.found = earlier.orElse (sections s) := by
  induction hlen : s.length using Nat.strongRecOn generalizing s earlier with
  | ind len ih =>
    obtain ⟨ts, hts, hresult⟩ := read_root s {}
    obtain ⟨left, hleft⟩ := reaches_of_lex hts earlier {}
    have hend := next?_nil earlier left (ts.foldl Scan.step {})
    rw [sections, ← hresult, Scan.result]
    cases hopened : (ts.foldl Scan.step {}).opened with
    | none => exact ⟨_, hleft, by rw [hend, hopened]; rfl, rfl⟩
    | some o =>
      have hless := length_opened_lt hts hopened
      obtain ⟨r, hr, hnone, hfound⟩ := ih _ (hlen ▸ hless) o.rest
        (earlier.orElse (ts.foldl Scan.step {}).found) rfl
      rw [hopened] at hend
      exact ⟨r, hleft.trans (.head hend hr), hnone, hfound.trans (Sections.orElse_assoc _ _ _)⟩

end Reading

/-- **The scan counts the levels of the lexer.**  In every state in which a page is read no region
is open exactly if the lexer is in its first state; otherwise the states above that one are as many
as the levels that the scan counts, and all of the kind of the region.  The first state is always at
the bottom of the stack and only there, the text of the open region is the text of the page from the
end of its marker on, and reading goes on until the regions of the page are found. -/
theorem reachable_levels (page : List Char) :
    (∀ r, Reading.Reachable page r →
      (r.scan.opened = none ↔ r.stack.head? = some .root) ∧
      (∀ o, r.scan.opened = some o →
        r.stack = List.replicate o.depth o.region.state ++ [.root] ∧
        ∃ s n, s <:+ page ∧ openingMarker? s = some (o.region, n) ∧ o.rest = s.drop n ∧
          o.rest = o.text ++ r.rest) ∧
      (∃ above, r.stack = above ++ [.root] ∧ .root ∉ above) ∧
      (r.next? = none → r.rest = [] ∧ r.scan.opened = none)) ∧
    ∃ r, Reading.Reachable page r ∧ r.next? = none ∧
      r.earlier.orElse r.scan.found = extractSections .balanced page := by
  have hroot : ∀ region : Region, region.state ≠ .root := by
    intro region
    cases region <;> decide
  refine ⟨fun r hr => ?_, Reading.exists_reachable_end page {}⟩
  have hagrees := Reading.Agrees.of_reachable hr
  have hend : r.next? = none → r.rest = [] ∧ r.scan.opened = none := by
    intro hnone
    rcases hagrees.next with ⟨-, hend⟩ | ⟨s, hs, -⟩
    · exact hend
    · rw [hs] at hnone
      cases hnone
  cases hagrees with
  | outside =>
    refine ⟨iff_of_true rfl rfl, ?_, ⟨[], rfl, List.not_mem_nil⟩, hend⟩
    intro o ho
    cases ho
  | @inside _ _ o rest d hdepth hbehind =>
    refine ⟨?_, ?_, ⟨List.replicate (d + 1) o.region.state, rfl, ?_⟩, hend⟩
    · simp [Region.stack, List.replicate_succ, hroot]
    · rintro p ⟨⟩
      exact ⟨by rw [hdepth, Region.stack], hbehind⟩
    · intro hmem
      exact hroot _ (List.eq_of_mem_replicate hmem).symm

end Pagesmith.Page
