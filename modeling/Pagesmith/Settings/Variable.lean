import Pagesmith.Settings.Basic
import Pagesmith.Text.Unicode.Case

/-!
# Settings from environment variables

A variable whose name starts with the name of the program is a setting.  The first word of the rest
may name a section; the others are joined by dashes: `ANIMAX_BUILD_OUT_DIR` is `build.out-dir`.

* `variableKey`: the key of a variable.
* `Settings.ofVariables`: the settings of an environment.
-/

namespace Pagesmith

open Pagesmith.Text

/-- What the names of the variables that are settings start with. -/
def variableLead : List Char := "ANIMAX_".toList

/-- The sections that the first word of a variable may name. -/
def variableSections : List (List Char) := ["build".toList, "render".toList, "lint".toList]

def variableKey (name : String) : String :=
  let key := (dropLeading variableLead name.toList).map lowerChar
  String.ofList (match cut ['_'] key with
    | none => key
    | some (first, rest) =>
      if variableSections.contains first then first ++ '.' :: replaceAll ['_'] ['-'] rest
      else replaceAll ['_'] ['-'] key)

/-- The settings of an environment.  A variable without a key is none. -/
def Settings.ofVariables (env : List (String × String)) : Settings :=
  env.foldl (fun s (name, v) =>
    if variableLead.isPrefixOf name.toList && variableKey name ≠ "" then
      s.insert (variableKey name) (.str v)
    else s) {}

end Pagesmith
