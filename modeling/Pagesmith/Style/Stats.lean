import Pagesmith.Css.Token
import Pagesmith.Style.Property

/-!
# Statistics of a stylesheet

CSS text is read token by token, with a stack of the blocks that are open, to count its rules,
keyframes and declarations and to collect the classes of its selectors.

* `Scan`: what has been counted and what is being read.
* `Stats.ofCss`: the statistics of a text.
-/

namespace Pagesmith.Style

open Pagesmith.Css (Token Kind)

structure Stats where
  /-- Rules outside keyframes, at any depth. -/
  rules : Nat := 0
  /-- Keyframe groups. -/
  keyframes : Nat := 0
  /-- The category of every declaration. -/
  categories : List Category := []
  /-- The classes of all selectors, each once, in order of appearance. -/
  classes : List String := []
  /-- References to custom properties in values. -/
  tokenUses : Nat := 0
  deriving Repr

namespace Stats

def declarations (s : Stats) : Nat := s.categories.length

def count (s : Stats) (c : Category) : Nat := s.categories.count c

def sortedClasses (s : Stats) : List String := s.classes.mergeSort (fun a b => decide (a ≤ b))

def addClasses (s : Stats) (names : List String) : Stats :=
  { s with classes := names.foldl (fun cs n => if cs.contains n then cs else cs ++ [n]) s.classes }

end Stats

inductive Open where
  | rule
  | atRule
  | keyframes
  | frame
  deriving DecidableEq, Repr

/-- A reading of CSS text: the counts so far, the open blocks from the inside out, and the tokens
of the selector or declaration being read. -/
structure Scan where
  stats : Stats := {}
  stack : List Open := []
  prelude : List Token := []
  atRule : List Char := []
  inPrelude : Bool := false
  inDeclaration : Bool := false

/-- The classes of a selector: names directly after a point. -/
def classNames : List Token → List String
  | ⟨.delim, ['.']⟩ :: ⟨.ident, name⟩ :: rest => String.ofList name :: classNames rest
  | _ :: rest => classNames rest
  | [] => []

namespace Scan

def reset (s : Scan) : Scan :=
  { s with prelude := [], atRule := [], inPrelude := false, inDeclaration := false }

def push (s : Scan) (kind : Kind) (text : List Char) : Scan :=
  { s with prelude := s.prelude ++ [⟨kind, text⟩] }

/-- A block opens: keyframes or another at-rule by its keyword, a frame inside keyframes, else a
rule. -/
def enter (s : Scan) : Scan :=
  if s.atRule = "@keyframes".toList then
    { s with
      stats := { s.stats with keyframes := s.stats.keyframes + 1 }
      stack := .keyframes :: s.stack }
  else if !s.atRule.isEmpty then { s with stack := .atRule :: s.stack }
  else if s.stack.head? = some .keyframes then { s with stack := .frame :: s.stack }
  else
    let stats := s.stats.addClasses (classNames s.prelude)
    { s with stats := { stats with rules := stats.rules + 1 }, stack := .rule :: s.stack }

/-- Whether a colon at this place separates a property from its value. -/
def atProperty (s : Scan) : Bool :=
  !s.inDeclaration && (s.stack.head? = some .rule || s.stack.head? = some .frame)

def property (s : Scan) : String :=
  String.ofList (Text.trim (s.prelude.flatMap Token.text))

def step (s : Scan) (t : Token) : Scan :=
  match t.kind with
  | .comment => s
  | .leftBrace => s.enter.reset
  | .rightBrace => { s with stack := s.stack.tail }.reset
  | .semicolon => s.reset
  | .colon =>
    if s.atProperty then
      let category := Category.ofProperty s.property
      { s with
        stats := { s.stats with categories := s.stats.categories ++ [category] }
        inDeclaration := true }
    else { s.push .colon [':'] with inPrelude := true }
  | .function =>
    let uses := if s.inDeclaration && Text.eqFold t.text "var(".toList then 1 else 0
    { s.push .function t.text with
      stats := { s.stats with tokenUses := s.stats.tokenUses + uses }
      inPrelude := true }
  | .atKeyword =>
    if s.inPrelude then s else { s with atRule := t.text, inPrelude := true }
  | .whitespace => s.push .whitespace [' ']
  | kind => { s.push kind t.text with inPrelude := true }

end Scan

def Stats.ofCss (css : String) : Stats :=
  ((Css.tokens css.toList).foldl Scan.step {}).stats

end Pagesmith.Style
