import Pagesmith.Regex.Parser

/-!
# Ignore rules

A line of an ignore file is turned into a regular expression on paths.  A rule that starts with an
exclamation mark takes back what the rules before it ignore.

* `rulePattern`: the regular expression of a rule.
* `IgnoreRule.ofLine?`: the rule on a line.
* `isIgnored`: whether rules ignore a path.
-/

namespace Pagesmith.File

open Pagesmith.Text

/-- A rule: a pattern for paths, and whether what it finds is kept. -/
structure IgnoreRule where
  pattern : Regex
  keeps : Bool
  deriving Repr

/-- Whether a file name pattern with an extension stands below a folder. -/
def namesFolder : List Char → Bool
  | c :: '/' :: cs => (c != '/' && c != '+' && contains ['*', '.'] cs) || namesFolder ('/' :: cs)
  | _ :: cs => namesFolder cs
  | [] => false

/-- What stands for a star of the regular expression until the stars of the rule are replaced. -/
def starMark : List Char := "#$~".toList

/-- The regular expression of a rule without the marks in front of it. -/
def rulePattern (rule : List Char) : List Char :=
  let s := if namesFolder rule && rule.head? ≠ some '/' then '/' :: rule else rule
  let s := replaceAll ['.'] ['\\', '.'] s
  let s := if "/**/".toList.isPrefixOf s then s.drop 1 else s
  let s := replaceAll "/**/".toList "(/|/.+/)".toList s
  let s := replaceAll "**/".toList ("(|.".toList ++ starMark ++ "/)".toList) s
  let s := replaceAll "/**".toList ("(|/.".toList ++ starMark ++ ")".toList) s
  let s := replaceAll ['\\', '*'] ('\\' :: starMark) s
  let s := replaceAll ['*'] "([^/]*)".toList s
  let s := replaceAll ['?'] ['\\', '?'] s
  let s := replaceAll starMark ['*'] s
  let s := s ++ (if s.getLast? = some '/' then "(|.*)$" else "(|/.*)$").toList
  match s with
  | '/' :: rest => "^(|/)".toList ++ rest
  | _ => "^(|.*/)".toList ++ s

/-- The rule on a line.  A comment, a blank line and a rule that no pattern comes of are none. -/
def IgnoreRule.ofLine? (line : List Char) : Option IgnoreRule :=
  let line := (line.reverse.dropWhile (· == '\r')).reverse
  if line.head? = some '#' then none
  else
    let line := trimWhere (· == ' ') line
    if line.isEmpty then none
    else
      let keeps := line.head? = some '!'
      let rule := if keeps then line.drop 1 else line
      let rule := if rule.head? = some '#' || rule.head? = some '!' then rule.drop 1 else rule
      match Regex.parse (rulePattern rule) with
      | .ok pattern => some ⟨pattern, keeps⟩
      | .error _ => none

def ignoreRules (content : String) : List IgnoreRule :=
  (split ['\n'] content.toList).filterMap IgnoreRule.ofLine?

/-- Whether rules ignore a path: the last rule that finds it decides. -/
def isIgnored (rules : List IgnoreRule) (path : String) : Bool :=
  rules.foldl (fun ignored r => if r.pattern.found path.toList then !r.keeps else ignored) false

end Pagesmith.File
