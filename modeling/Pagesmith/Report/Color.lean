import Pagesmith.Text.Basic

/-!
# Colors of terminal output

* `Styling`: what becomes of colors.
* `Color.paint`: a text in a color, or as it is where colors are off.
* `wantsColors`: whether output is to be colored.
* `Styling.ofEnv`: what becomes of colors that are wanted.
-/

namespace Pagesmith.Report

open Pagesmith.Text

inductive Color where
  | cyan
  | red
  | yellow
  | green
  | gray
  deriving DecidableEq, Repr

/-- The codes of a color: all but gray are bold. -/
def Color.codes : Color → String
  | .cyan => "1;36"
  | .red => "1;31"
  | .yellow => "1;33"
  | .green => "1;32"
  | .gray => "90"

/-- What becomes of colors: there are none, the text is laid out for them but shows none, or it has
the codes of a terminal. -/
inductive Styling where
  | off
  | bare
  | codes
  deriving DecidableEq, Repr

/-- One line in a color.  An empty line stays empty. -/
def Color.paintLine (c : Color) (styling : Styling) (line : List Char) : List Char :=
  if line.isEmpty || styling ≠ .codes then line
  else "\x1b[".toList ++ c.codes.toList ++ 'm' :: line ++ "\x1b[0m".toList

def expandTabs (s : List Char) : List Char :=
  s.flatMap fun c => if c = '\t' then rep 4 ' ' else [c]

/-- A text in a color, unless colors are off: every line by itself, all of them as wide as the
widest. -/
def Color.paint (c : Color) (styling : Styling) (s : String) : String :=
  if styling = .off then s
  else
    let lines := split ['\n'] (replaceAll ['\r', '\n'] ['\n'] (expandTabs s.toList))
    let width := lines.foldl (fun w l => max w l.length) 0
    String.ofList (join ['\n'] (lines.map fun l =>
      c.paintLine styling l ++ rep (width - l.length) ' '))

/-- The value of an environment variable, empty if it is not set. -/
def setting (env : List (String × String)) (name : String) : String := (env.lookup name).getD ""

/-- Whether output is to be colored: if it is asked for, or if the environment or the terminal says
so. -/
def wantsColors (forced : Bool) (env : List (String × String)) (terminal : Bool) : Bool :=
  forced || setting env "FORCE_COLOR" != "" || setting env "GITHUB_ACTIONS" == "true" || terminal

/-- What becomes of colors.  Their codes are for terminals, or where the environment forces them,
and never where it forbids them. -/
def Styling.ofEnv (wanted : Bool) (env : List (String × String)) (terminal : Bool) : Styling :=
  let force := setting env "CLICOLOR_FORCE"
  let forced := force != "" && force != "0"
  if !wanted then .off
  else if (terminal || forced) && setting env "NO_COLOR" == "" then .codes
  else .bare

end Pagesmith.Report
