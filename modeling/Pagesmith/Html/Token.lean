import Pagesmith.Html.Reference

/-!
# Tokens of markup

Markup is cut into tags, texts, comments and document types.  The lexemes follow one another without
gaps: each is a token with the characters it was read from.  A tag that the end of the text cuts off
ends the reading.

* `Token`, `Lexeme`: what markup consists of.
* `attributesFrom`, `readTag`: a tag with its attributes.
* `rawLength`, `scriptLength`: the text inside an element such as `<style>`, in which no tags are
  read.
* `lexemes`: the lexemes of a markup text.
-/

namespace Pagesmith.Html

open Pagesmith.Text

/-- An attribute of a tag: its name in lower case, its value with the references replaced. -/
structure Attribute where
  key : List Char
  value : List Char
  deriving DecidableEq, Repr

inductive TextKind where
  /-- Text between tags. -/
  | plain
  /-- The text of an element that holds references and no tags. -/
  | escapable
  /-- The text of an element that holds neither references nor tags. -/
  | raw
  deriving DecidableEq, Repr

inductive Token where
  | text (kind : TextKind) (source : List Char)
  | startTag (name : List Char) (attributes : List Attribute) (selfClosing : Bool)
  | endTag (name : List Char)
  | comment
  | doctype
  deriving DecidableEq, Repr

structure Lexeme where
  token : Token
  raw : List Char
  deriving DecidableEq, Repr

/-! ### Tags -/

def isTagSpace (c : Char) : Bool := c == ' ' || c == '\n' || c == '\r' || c == '\t' || c == '\x0c'

def endsName (c : Char) : Bool := isTagSpace c || c == '/' || c == '>'

/-- A character that ends a name of an attribute which it does not begin. -/
def endsKey (c : Char) : Bool := endsName c || c == '='

/-- The written value of an attribute after its name, and what follows. -/
def readValue (s : List Char) : List Char × List Char :=
  match s.dropWhile isTagSpace with
  | '/' :: rest => ([], rest)
  | '=' :: rest =>
    match rest.dropWhile isTagSpace with
    | [] => ([], [])
    | c :: cs =>
      if c = '>' then ([], c :: cs)
      else if c = '"' || c = '\'' then (cs.takeWhile (· != c), (cs.dropWhile (· != c)).drop 1)
      else
        ((c :: cs).takeWhile fun d => !(isTagSpace d || d == '>'),
          (c :: cs).dropWhile fun d => !(isTagSpace d || d == '>'))
  | rest => ([], rest)

theorem length_readValue_le (s : List Char) : (readValue s).2.length ≤ s.length := by
  have hs := (List.dropWhile_sublist (l := s) isTagSpace).length_le
  unfold readValue
  split
  · next rest heq => rw [heq, List.length_cons] at hs; exact Nat.le_of_succ_le hs
  · next rest heq =>
    rw [heq, List.length_cons] at hs
    have hr := (List.dropWhile_sublist (l := rest) isTagSpace).length_le
    split
    · simp
    · next c cs hc =>
      rw [hc, List.length_cons] at hr
      split
      · simp only [List.length_cons]; omega
      · split
        · have := (List.dropWhile_sublist (l := cs) (· != c)).length_le
          simp only [List.length_drop]; omega
        · have := (List.dropWhile_sublist (l := c :: cs)
            fun d => !(isTagSpace d || d == '>')).length_le
          simp only [List.length_cons] at this ⊢; omega
  · next rest _ _ => simpa using hs

/-- The attributes up to the bracket that closes a tag, and what follows it, if the tag is
closed. -/
def attributesFrom (s : List Char) : Option (List Attribute × List Char) :=
  match h : s.dropWhile isTagSpace with
  | [] => none
  | c :: cs =>
    have hs : cs.length < s.length := by
      have := (List.dropWhile_sublist (l := s) isTagSpace).length_le
      rw [h, List.length_cons] at this
      omega
    if c = '>' then some ([], cs)
    else if c = '/' then attributesFrom cs
    else
      let rest := cs.dropWhile fun d => !endsKey d
      have : (readValue rest).2.length < s.length := by
        have h1 := length_readValue_le rest
        have h2 : rest.length ≤ cs.length := (List.dropWhile_sublist _).length_le
        omega
      (attributesFrom (readValue rest).2).map fun (attributes, rest') =>
        (⟨(c :: cs.takeWhile fun d => !endsKey d).map lowerAscii,
            unescape .attribute (unifyLines (readValue rest).1)⟩ :: attributes, rest')
termination_by s.length

/-- A tag after the bracket and, if it is an end tag, the slash: its name, its attributes and what
follows it, if it is closed. -/
def readTag (s : List Char) : Option (List Char × List Attribute × List Char) :=
  (attributesFrom (s.dropWhile fun c => !endsName c)).map fun (attributes, rest) =>
    ((s.takeWhile fun c => !endsName c).map lowerAscii, attributes, rest)

/-! ### Elements without tags inside -/

/-- The elements inside of which no tags are read. -/
def rawElements : List String := [
  "iframe", "noembed", "noframes", "noscript", "plaintext", "script", "style", "textarea", "title",
  "xmp"]

def escapableElements : List String := ["textarea", "title"]

/-- Whether a text goes on with a name, in any case, that ends there. -/
def namesHere (name : List Char) (s : List Char) : Bool :=
  eqFold (s.take name.length) name && ((s.drop name.length).head?.map endsName).getD false

def closesHere (name : List Char) (s : List Char) : Bool :=
  match s with
  | '<' :: '/' :: rest => namesHere name rest
  | _ => false

/-- The number of characters before the end tag of an element. -/
def rawLength (name : List Char) : List Char → Nat
  | [] => 0
  | c :: cs => if closesHere name (c :: cs) then 0 else rawLength name cs + 1

/-- Where in a script a character stands: outside a comment, inside one, or in a script that a
comment holds. -/
inductive ScriptPart where
  | open
  | comment
  | nested
  deriving DecidableEq, Repr

/-- The number of characters of a script before its end tag, where `dashes` stand just before the
text.  In a comment the start of a script hides the end tag that follows. -/
def scriptLength (part : ScriptPart) (dashes : Nat) : List Char → Nat
  | [] => 0
  | c :: cs =>
    let script := "script".toList
    match part with
    | .open =>
      if closesHere script (c :: cs) then 0
      else if "<!--".toList.isPrefixOf (c :: cs) then scriptLength .comment 2 (cs.drop 3) + 4
      else scriptLength .open 0 cs + 1
    | .comment =>
      if c = '-' then scriptLength .comment (dashes + 1) cs + 1
      else if c = '>' && 2 ≤ dashes then scriptLength .open 0 cs + 1
      else if c = '<' then
        if closesHere script (c :: cs) then 0
        else if namesHere script cs then
          scriptLength .nested 0 (cs.drop (script.length + 1)) + (script.length + 2)
        else
          match cs.head? with
          | none => 1
          | some d =>
            scriptLength (if d = '/' || isLetter d then .comment else .open) 0 cs + 1
      else scriptLength .comment 0 cs + 1
    | .nested =>
      if c = '-' then scriptLength .nested (dashes + 1) cs + 1
      else if c = '>' && 2 ≤ dashes then scriptLength .open 0 cs + 1
      else if closesHere script (c :: cs) then
        scriptLength .comment 0 (cs.drop (script.length + 2)) + (script.length + 3)
      else scriptLength .nested 0 cs + 1
termination_by s => s.length
decreasing_by all_goals simp only [List.length_drop, List.length_cons]; omega

/-- The number of characters inside an element without tags. -/
def rawTextLength (name : List Char) (s : List Char) : Nat :=
  if name = "plaintext".toList then s.length
  else if name = "script".toList then min s.length (scriptLength .open 0 s)
  else rawLength name s

/-- How the text of an element without tags is to be understood. -/
def rawTextKind (name : List Char) : TextKind :=
  if escapableElements.contains (String.ofList name) then .escapable else .raw

def Token.rawElement? : Token → Option (List Char)
  | .startTag name _ _ => if rawElements.contains (String.ofList name) then some name else none
  | _ => none

/-! ### Comments and declarations -/

/-- The number of characters of a comment after its opening, where `dashes` stand just before the
text and nothing else if `fresh`. -/
def commentLength (fresh : Bool) (dashes : Nat) : List Char → Nat
  | [] => 0
  | '-' :: cs => commentLength fresh (dashes + 1) cs + 1
  | '!' :: '>' :: cs => if 2 ≤ dashes then 2 else commentLength false 0 cs + 2
  | '!' :: '-' :: cs => commentLength false 1 cs + 2
  | c :: cs => if c = '>' && (2 ≤ dashes || fresh) then 1 else commentLength false 0 cs + 1

/-- The number of characters up to and with a closing bracket, or up to the end. -/
def bracketLength (s : List Char) : Nat :=
  let before := (s.takeWhile (· != '>')).length
  if before < s.length then before + 1 else before

/-! ### Lexemes -/

/-- A character that makes a tag or a declaration of a bracket before it. -/
def opensTag (c : Char) : Bool := isLetter c || c == '/' || c == '!' || c == '?'

def tagHere : List Char → Bool
  | '<' :: c :: _ => opensTag c
  | _ => false

def textLength : List Char → Nat
  | [] => 0
  | c :: cs => if tagHere (c :: cs) then 0 else textLength cs + 1

/-- The token after an opening bracket that starts one, and the number of its further characters.
There is none where the end of the text cuts off a tag. -/
def readMarkup (s : List Char) : Option (Token × Nat) :=
  match s with
  | '!' :: '-' :: '-' :: rest => some (.comment, commentLength true 0 rest + 3)
  | '!' :: rest =>
    some (if eqFold (rest.take 7) "doctype".toList then .doctype else .comment,
      bracketLength rest + 1)
  | '?' :: rest => some (.comment, bracketLength rest + 1)
  | '/' :: rest =>
    match rest with
    | [] => some (.text .plain ['<', '/'], 1)
    | c :: _ =>
      if isLetter c then
        (readTag rest).map fun (name, _, after) => (.endTag name, s.length - after.length)
      else some (.comment, bracketLength rest + 1)
  | _ =>
    (readTag s).map fun (name, attributes, after) =>
      let n := s.length - after.length
      (.startTag name attributes ((s.take n).dropLast.getLast? = some '/'), n)

/-- The token that a text starts with, inside an element without tags or outside one, and the
number of its characters after the first. -/
def readToken (inside : Option (List Char)) (c : Char) (cs : List Char) : Option (Token × Nat) :=
  let rawLen := (inside.map fun name => rawTextLength name (c :: cs)).getD 0
  match inside, rawLen with
  | some name, n + 1 => some (.text (rawTextKind name) (c :: cs.take n), n)
  | _, _ =>
    if tagHere (c :: cs) then readMarkup cs
    else
      let n := textLength cs
      some (.text .plain (c :: cs.take n), n)

/-- The lexemes of a text, which may stand inside an element without tags. -/
def lexemesFrom (inside : Option (List Char)) : List Char → List Lexeme
  | [] => []
  | c :: cs =>
    match readToken inside c cs with
    | none => []
    | some (token, n) =>
      ⟨token, c :: cs.take n⟩ :: lexemesFrom token.rawElement? (cs.drop n)
termination_by s => s.length
decreasing_by simp only [List.length_drop, List.length_cons]; omega

def lexemes (markup : List Char) : List Lexeme := lexemesFrom none markup

end Pagesmith.Html
