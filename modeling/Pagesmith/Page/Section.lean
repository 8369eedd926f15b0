import Pagesmith.Text.Scan

/-!
# Regions of a page

A page source holds a config block after `@page`, a logic block after `@backend`, and a template
between `<template>` tags, in any order.  The first of each counts.

* `Grammar`: how a kind of region is read, token by token.
* `regionFrom`: the text of a region up to its closing token.
* `sections`: the regions of a page.  A region that is not closed is no region, and reading goes on
  right after its opening marker.
* `truncatedSections`: the regions as older pages have them, each up to its first closing
  delimiter.
-/

namespace Pagesmith.Page

open Pagesmith.Text

inductive Region where
  | config
  | logic
  | template
  deriving DecidableEq, Repr

structure Sections where
  config : Option (List Char) := none
  logic : Option (List Char) := none
  template : Option (List Char) := none
  deriving DecidableEq, Repr

namespace Sections

/-- The text of a region, empty if the page does not have it. -/
def get (s : Sections) : Region → List Char
  | .config => s.config.getD []
  | .logic => s.logic.getD []
  | .template => s.template.getD []

def add (s : Sections) (text : List Char) : Region → Sections
  | .config => { s with config := s.config.or (some text) }
  | .logic => { s with logic := s.logic.or (some text) }
  | .template => { s with template := s.template.or (some text) }

end Sections

/-! ### Tokens inside a region -/

inductive Mark where
  | enter
  | leave
  | text
  deriving DecidableEq, Repr

/-- How a kind of region is read: what the token that starts with a character does, and how many
further characters it has. -/
abbrev Grammar := Char → List Char → Mark × Nat

def isMarkerSpace (c : Char) : Bool :=
  c == ' ' || c == '\t' || c == '\n' || c == '\r' || c == '\x0c'

def isWordChar (c : Char) : Bool := isLetter c || isDigit c || c == '_'

/-- Config and logic blocks: braces nest, and strings and comments hide them.  A quote or a comment
that is not closed is a character like any other. -/
def blockGrammar : Grammar := fun c cs =>
  let run (n : Option Nat) : Mark × Nat := (.text, n.getD 0)
  if c == '\x7b' then (.enter, 0)
  else if c == '\x7d' then (.leave, 0)
  else if c == '"' || c == '\'' then run (quotedLength? c cs)
  else if c == '\x60' then run (throughLength? ['\x60'] cs)
  else if c == '/' then
    match cs with
    | '/' :: rest => (.text, 1 + (rest.takeWhile (· != '\n')).length)
    | '*' :: rest => run ((throughLength? ['*', '/'] rest).map (· + 1))
    | _ => (.text, 0)
  else (.text, 0)

/-- The number of further characters of a nested opening tag, whose name must end there. -/
def nestedTagLength? (c : Char) (cs : List Char) : Option Nat :=
  let name := "template".toList
  if c == '<' && name.isPrefixOf cs then
    let rest := cs.drop name.length
    if (rest.head?.map isWordChar).getD false then none
    else (throughLength? ['>'] rest).map (· + name.length)
  else none

def closingTagLength? (c : Char) (cs : List Char) : Option Nat :=
  let name := "/template".toList
  if c == '<' && name.isPrefixOf cs then
    let rest := cs.drop name.length
    let spaces := (rest.takeWhile isMarkerSpace).length
    if (rest.drop spaces).head? = some '>' then some (name.length + spaces + 1) else none
  else none

def templateGrammar : Grammar := fun c cs =>
  match nestedTagLength? c cs with
  | some n => (.enter, n)
  | none =>
    match closingTagLength? c cs with
    | some n => (.leave, n)
    | none => (.text, 0)

def Region.grammar : Region → Grammar
  | .config | .logic => blockGrammar
  | .template => templateGrammar

/-- The text of a region and what follows its closing token, where `depth` more tokens are open
inside it. -/
def regionFrom (g : Grammar) (depth : Nat) : List Char → Option (List Char × List Char)
  | [] => none
  | c :: cs =>
    let n := (g c cs).2
    let more (next : Option (List Char × List Char)) : Option (List Char × List Char) :=
      next.map fun (text, rest) => (c :: cs.take n ++ text, rest)
    match (g c cs).1, depth with
    | .enter, d => more (regionFrom g (d + 1) (cs.drop n))
    | .leave, 0 => some ([], cs.drop n)
    | .leave, d + 1 => more (regionFrom g d (cs.drop n))
    | .text, d => more (regionFrom g d (cs.drop n))
termination_by s => s.length
decreasing_by all_goals simp only [List.length_drop, List.length_cons]; omega

theorem length_regionFrom_lt (g : Grammar) (depth : Nat) (s : List Char) {text rest : List Char}
    (h : regionFrom g depth s = some (text, rest)) : rest.length < s.length := by
  induction hn : s.length using Nat.strongRecOn generalizing s depth text rest with
  | ind n ih =>
    subst hn
    cases s with
    | nil => unfold regionFrom at h; simp at h
    | cons c cs =>
      have shorter : (cs.drop (g c cs).2).length < (c :: cs).length := by
        simp only [List.length_drop, List.length_cons]; omega
      have key : ∀ d : Nat, (regionFrom g d (cs.drop (g c cs).2)).map
          (fun p => (c :: cs.take (g c cs).2 ++ p.1, p.2)) = some (text, rest) →
          rest.length < (c :: cs).length := by
        intro d hd
        obtain ⟨⟨a, b⟩, hab, heq⟩ := Option.map_eq_some_iff.1 hd
        have := ih _ shorter d _ hab rfl
        simp only [Prod.mk.injEq] at heq
        rw [← heq.2]
        omega
      unfold regionFrom at h
      simp only at h
      split at h
      · exact key _ h
      · simp only [Option.some.injEq, Prod.mk.injEq] at h
        rw [← h.2]
        exact shorter
      · exact key _ h
      · exact key _ h

/-! ### Regions of a page -/

/-- A marker word, white space and an opening brace: the number of characters they take. -/
def braceMarkerLength? (word : List Char) (s : List Char) : Option Nat :=
  if word.isPrefixOf s then
    let rest := s.drop word.length
    let spaces := (rest.takeWhile isMarkerSpace).length
    if (rest.drop spaces).head? = some '\x7b' then some (word.length + spaces + 1) else none
  else none

/-- The region whose opening marker stands at the start of a text, and the marker's length. -/
def openingMarker? (s : List Char) : Option (Region × Nat) :=
  match braceMarkerLength? "@page".toList s with
  | some n => some (.config, n)
  | none =>
    match braceMarkerLength? "@backend".toList s with
    | some n => some (.logic, n)
    | none =>
      if "<template>".toList.isPrefixOf s then some (.template, "<template>".length) else none

theorem openingMarker?_pos {s : List Char} {r : Region} {n : Nat}
    (h : openingMarker? s = some (r, n)) : 0 < n := by
  have brace : ∀ (w : List Char) (m : Nat), braceMarkerLength? w s = some m → 0 < m := by
    intro w m hm
    unfold braceMarkerLength? at hm
    split at hm
    · simp only at hm
      split at hm
      · simp only [Option.some.injEq] at hm; omega
      · simp at hm
    · simp at hm
  unfold openingMarker? at h
  split at h
  · next heq => simp only [Option.some.injEq, Prod.mk.injEq] at h; rw [← h.2]; exact brace _ _ heq
  · split at h
    · next heq => simp only [Option.some.injEq, Prod.mk.injEq] at h; rw [← h.2]; exact brace _ _ heq
    · split at h
      · simp only [Option.some.injEq, Prod.mk.injEq] at h
        rw [← h.2]
        decide
      · simp at h

/-- Reads the regions of a text that are not yet among those found. -/
def sectionsFrom (found : Sections) : List Char → Sections
  | [] => found
  | c :: cs =>
    match hm : openingMarker? (c :: cs) with
    | none => sectionsFrom found cs
    | some (r, n) =>
      have := openingMarker?_pos hm
      match hr : regionFrom r.grammar 0 ((c :: cs).drop n) with
      | some (text, rest) =>
        have := length_regionFrom_lt r.grammar 0 _ hr
        sectionsFrom (found.add text r) rest
      | none => sectionsFrom found ((c :: cs).drop n)
termination_by s => s.length
decreasing_by
  all_goals simp_all only [List.length_drop, List.length_cons]
  all_goals omega

def sections (source : List Char) : Sections := sectionsFrom {} source

/-! ### Regions up to the first delimiter -/

/-- The text after the first place where `opener?` gives the length of an opening marker, up to the
first `closer` after it. -/
def truncatedRegion (opener? : List Char → Option Nat) (closer : List Char) :
    List Char → Option (List Char)
  | [] => none
  | c :: cs =>
    match opener? (c :: cs) with
    | some n => (cut closer ((c :: cs).drop n)).map Prod.fst
    | none => truncatedRegion opener? closer cs

def truncatedSections (source : List Char) : Sections where
  config := truncatedRegion (braceMarkerLength? "@page".toList) ['\x7d'] source
  logic := truncatedRegion (braceMarkerLength? "@backend".toList) ['\x7d'] source
  template :=
    truncatedRegion
      (fun s => if "<template>".toList.isPrefixOf s then some "<template>".length else none)
      "</template>".toList source

inductive Mode where
  | balanced
  | truncated
  deriving DecidableEq, Repr

def extractSections (mode : Mode) (source : List Char) : Sections :=
  match mode with
  | .balanced => sections source
  | .truncated => truncatedSections source

end Pagesmith.Page
