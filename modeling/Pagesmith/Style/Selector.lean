import Pagesmith.Text.Basic

/-!
# Selectors

How the name of a rule and the keys of its nested blocks become selectors.
-/

namespace Pagesmith.Style

open Pagesmith.Text

/-- The selector of a rule: a bare name is a class, a name that looks like a selector is kept. -/
def ruleSelector (name : String) : String :=
  match name.toList with
  | [] => name
  | c :: _ =>
    if c == '.' || c == '#' || c == ':' || c == '[' || c == '*' || c == '&' then name
    else "." ++ name

def selectorParts (s : List Char) : List (List Char) := (split [','] s).map trim

/-- One nested selector below one parent: an ampersand stands for the parent, a selector without
one becomes a descendant. -/
def nestPart (parent key : List Char) : List Char :=
  if contains ['&'] key then replaceAll ['&'] parent key
  else if parent.isEmpty then key
  else parent ++ ' ' :: key

/-- A nested selector below a parent.  A key that starts with a colon attaches to the parent, and
lists combine pairwise. -/
def nestChars (parent key : List Char) : List Char :=
  let key := if key.head? = some ':' then '&' :: key else key
  join [',', ' ']
    ((selectorParts parent).flatMap fun p => (selectorParts key).map fun k => nestPart p k)

def nestSelector (parent key : String) : String :=
  String.ofList (nestChars parent.toList key.toList)

/-- The media query of a breakpoint: a named one, or a query written out in parentheses. -/
def mediaQuery? (key : String) : Option String :=
  match key with
  | "mobile" => some "(max-width: 768px)"
  | "tablet" => some "(min-width: 769px) and (max-width: 1024px)"
  | "desktop" => some "(min-width: 1025px)"
  | _ => if key.toList.head? = some '(' then some key else none

end Pagesmith.Style
