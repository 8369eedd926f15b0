import Pagesmith.File.Tree
import Pagesmith.Regex.Basic

/-!
# File patterns

A pattern describes paths part by part: `*` and `?` stand for characters of a part, brackets for one
of some characters, braces for alternatives, and a part `**` for any number of parts.

* `isValidPattern`: whether brackets and braces are closed.
* `alternatives`: the patterns that braces stand for.
* `matchesName`, `matchesParts`: whether a name or a path fits.
* `FileTree.glob?`: the files that fit a pattern.
-/

namespace Pagesmith

namespace File

open Pagesmith.Text

/-! ### Well-formed patterns -/

/-- The text after the bracket that closes a class, if there is one. -/
def afterClass? : List Char → Option (List Char)
  | [] => none
  | '\\' :: _ :: cs => afterClass? cs
  | c :: cs => if c = ']' then some cs else afterClass? cs

theorem length_afterClass?_lt {s rest : List Char} (h : afterClass? s = some rest) :
    rest.length < s.length := by
  fun_induction afterClass? s with
  | case1 => simp at h
  | case2 c cs ih => have := ih h; simp only [List.length_cons]; omega
  | case3 c cs => simp only [Option.some.injEq] at h; subst h; simp
  | case4 c cs _ _ ih => have := ih h; simp only [List.length_cons]; omega

def dropNegation : List Char → List Char
  | '!' :: cs | '^' :: cs => cs
  | cs => cs

theorem length_dropNegation_le (s : List Char) : (dropNegation s).length ≤ s.length := by
  unfold dropNegation
  split <;> simp

/-- Whether brackets and braces are closed, with some braces open already, no class is empty and no
backslash stands at the end. -/
def isValidFrom (depth : Nat) (s : List Char) : Bool :=
  match s with
  | [] => depth == 0
  | '\\' :: rest =>
    match rest with
    | [] => false
    | _ :: cs => isValidFrom depth cs
  | '[' :: rest =>
    if (dropNegation rest).head? = some ']' then false
    else
      match h : afterClass? (dropNegation rest) with
      | none => false
      | some after =>
        have := length_afterClass?_lt h
        have := length_dropNegation_le rest
        isValidFrom depth after
  | '\x7b' :: cs => isValidFrom (depth + 1) cs
  | '\x7d' :: cs => if depth = 0 then false else isValidFrom (depth - 1) cs
  | _ :: cs => isValidFrom depth cs
termination_by s.length
decreasing_by all_goals simp_all only [List.length_cons]; omega

def isValidPattern (pattern : List Char) : Bool := isValidFrom 0 pattern

/-! ### Alternatives -/

/-- The alternatives inside braces, up to the closing one, and what follows it.  `depth` braces are
open inside them, and `current` is the alternative so far, last character first. -/
def readAlternatives (depth : Nat) (current : List Char) :
    List Char → Option (List (List Char) × List Char)
  | [] => none
  | '\\' :: c :: cs => readAlternatives depth (c :: '\\' :: current) cs
  | '\x7b' :: cs => readAlternatives (depth + 1) ('\x7b' :: current) cs
  | '\x7d' :: cs =>
    match depth with
    | 0 => some ([current.reverse], cs)
    | d + 1 => readAlternatives d ('\x7d' :: current) cs
  | ',' :: cs =>
    match depth with
    | 0 => (readAlternatives 0 [] cs).map fun (as, rest) => (current.reverse :: as, rest)
    | d + 1 => readAlternatives (d + 1) (',' :: current) cs
  | c :: cs => readAlternatives depth (c :: current) cs

/-- The first braces of a pattern: what stands before them, their alternatives and what stands after
them. -/
def firstBraces? : List Char → Option (List Char × List (List Char) × List Char)
  | [] => none
  | '\\' :: c :: cs => (firstBraces? cs).map fun (before, rest) => ('\\' :: c :: before, rest)
  | c :: cs =>
    if c = '\x7b' then (readAlternatives 0 [] cs).map fun found => ([], found)
    else (firstBraces? cs).map fun (before, rest) => (c :: before, rest)

/-- The patterns that a pattern with at most `n` braces stands for. -/
def expandBraces (pattern : List Char) (n : Nat) : List (List Char) :=
  match n with
  | 0 => [pattern]
  | n + 1 =>
    match firstBraces? pattern with
    | none => [pattern]
    | some (before, as, after) => as.flatMap fun a => expandBraces (before ++ a ++ after) n

def alternatives (pattern : List Char) : List (List Char) :=
  expandBraces pattern (countChar '\x7b' pattern)

/-! ### Names -/

inductive GlobItem where
  /-- Any number of characters. -/
  | run
  /-- One character of a class. -/
  | one (k : CharClass)
  deriving DecidableEq, Repr

/-- The ranges of a class up to its closing bracket, and what follows it.  `last` may begin a
range. -/
def classRangesFrom (last : Option Char) : List Char → List (Char × Char) × List Char
  | [] => ([], [])
  | ']' :: rest => ([], rest)
  | '-' :: '\\' :: hi :: cs =>
    match last with
    | some lo =>
      let (more, rest) := classRangesFrom none cs
      ((lo, hi) :: more, rest)
    | none =>
      let (more, rest) := classRangesFrom (some hi) cs
      (('-', '-') :: (hi, hi) :: more, rest)
  | '\\' :: c :: cs =>
    let (more, rest) := classRangesFrom (some c) cs
    ((c, c) :: more, rest)
  | '-' :: hi :: cs =>
    match last with
    | some lo =>
      if hi = ']' then ([('-', '-')], cs)
      else
        let (more, rest) := classRangesFrom none cs
        ((lo, hi) :: more, rest)
    | none =>
      let (more, rest) := classRangesFrom (some '-') (hi :: cs)
      (('-', '-') :: more, rest)
  | c :: cs =>
    let (more, rest) := classRangesFrom (some c) cs
    ((c, c) :: more, rest)

/-- The class after an opening bracket, and what follows it. -/
def globClass (s : List Char) : CharClass × List Char :=
  let body := dropNegation s
  let (ranges, rest) := classRangesFrom none body
  (⟨body.length < s.length, ranges⟩, rest)

def anyChar : CharClass := ⟨true, []⟩

def thisChar (c : Char) : CharClass := ⟨false, [(c, c)]⟩

/-- The pieces of a pattern for one name, which has at most `n` of them. -/
def globItems (s : List Char) (n : Nat) : List GlobItem :=
  match n, s with
  | 0, _ | _, [] => []
  | n + 1, '*' :: cs => .run :: globItems cs n
  | n + 1, '?' :: cs => .one anyChar :: globItems cs n
  | n + 1, '[' :: cs => .one (globClass cs).1 :: globItems (globClass cs).2 n
  | n + 1, '\\' :: c :: cs => .one (thisChar c) :: globItems cs n
  | n + 1, c :: cs => .one (thisChar c) :: globItems cs n

def matchesItems : List GlobItem → List Char → Bool
  | [], s => s.isEmpty
  | .run :: items, s => (List.range (s.length + 1)).any fun n => matchesItems items (s.drop n)
  | .one k :: items, s =>
    match s with
    | [] => false
    | c :: cs => k.holds c && matchesItems items cs

def matchesName (pattern name : String) : Bool :=
  matchesItems (globItems pattern.toList pattern.length) name.toList

/-! ### Paths -/

/-- Whether the parts of a pattern fit the path of a file.  A last part `**` stands for at least one
name. -/
def matchesParts : List String → List String → Bool
  | [], names => names.isEmpty
  | p :: ps, names =>
    if p = "**" then
      if ps.isEmpty then !names.isEmpty
      else (List.range (names.length + 1)).any fun n => matchesParts ps (names.drop n)
    else
      match names with
      | [] => false
      | name :: rest => matchesName p name && matchesParts ps rest

def matchesPath (pattern : List Char) (names : List String) : Bool :=
  (alternatives pattern).any fun p => matchesParts (parts (String.ofList p)) names

def isPatternChar (c : Char) : Bool := c ∈ ['*', '?', '[', '\x7b']

/-- The number of characters of a pattern up to and with the last slash before the first character
that means something. -/
def fixedLength (at_ slash : Nat) : List Char → Nat
  | [] => slash
  | '\\' :: _ :: cs => fixedLength (at_ + 2) slash cs
  | c :: cs =>
    if isPatternChar c then slash
    else fixedLength (at_ + 1) (if c = '/' then at_ + 1 else slash) cs

/-- A fixed text without the backslashes before characters that mean something. -/
def dropEscapes : List Char → List Char
  | [] => []
  | '\\' :: c :: cs =>
    if isPatternChar c || c = ']' || c = '\x7d' then c :: dropEscapes cs
    else '\\' :: dropEscapes (c :: cs)
  | c :: cs => c :: dropEscapes cs

/-- The folder that a pattern starts at, and the pattern below it. -/
def splitPattern (pattern : List Char) : String × List Char :=
  match fixedLength 0 0 pattern with
  | 0 => (".", pattern)
  | 1 => ("/", pattern.drop 1)
  | n + 1 => (String.ofList (dropEscapes (pattern.take n)), pattern.drop (n + 1))

end File

/-- The paths to the files that fit a pattern, in order.  There are none for a pattern that is not
well formed. -/
def FileTree.glob? (t : FileTree) (pattern : String) : Option (List String) :=
  if pattern = "" then some []
  else
    let (base, below) := File.splitPattern (File.clean pattern).toList
    if !File.isValidPattern below then none
    else
      match t.resolve base with
      | .error _ => some []
      | .ok place =>
        some (((t.filesBelow place).filterMap fun (names, _) =>
          if File.matchesPath below names then some (File.joinPaths base (File.joinParts names))
          else none).mergeSort fun a b => decide (a ≤ b))

end Pagesmith
