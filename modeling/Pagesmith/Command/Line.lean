import Pagesmith.Command.Flag
import Pagesmith.Lint.Suggestion
import Pagesmith.Text.Unicode.Case

/-!
# Command lines

A command line names a command, and has flags and arguments for it.  Without a command a site is
built.

* `Verb`: the commands, and the program itself.
* `Verb.flags`: the flags of a command.  Those of the program go with every command.
* `UsageError`: what is wrong with a command line.
* `findCommand`: the command of a command line, and the arguments that are left.
* `parseLine`: the command with the values of its flags and its arguments.
-/

namespace Pagesmith.Command

open Pagesmith.Text

/-- The commands.  The first one is the program without a command. -/
inductive Verb where
  | program
  | build
  | render
  | css
  | lint
  | init
  | completion
  | version
  | help
  deriving DecidableEq, Repr

def programName : String := "animax"

namespace Verb

def word : Verb → String
  | .program => ""
  | .build => "build"
  | .render => "render"
  | .css => "css"
  | .lint => "lint"
  | .init => "init"
  | .completion => "completion"
  | .version => "version"
  | .help => "help"

/-- The commands that have a word, in the order in which they are suggested.  The one for help is
never suggested. -/
def suggested : List Verb := [.build, .render, .css, .lint, .init, .completion, .version]

def ofWord? (s : String) : Option Verb := (suggested ++ [Verb.help]).find? fun c => c.word = s

/-- The flags of the program, which go with every command. -/
def commonFlags : List Flag :=
  [⟨"verbose", .bool, some 'v'⟩, ⟨"quiet", .bool, none⟩, ⟨"source", .text, none⟩,
    ⟨"legacy-truncation", .bool, none⟩, ⟨"color", .bool, none⟩, ⟨"config", .text, none⟩]

def ownFlags : Verb → List Flag
  | .build =>
    [⟨"out-dir", .text, none⟩, ⟨"pages", .texts, none⟩, ⟨"styles", .texts, none⟩,
      ⟨"stylesheet", .text, none⟩, ⟨"emit-presets", .bool, none⟩, ⟨"concurrency", .int, none⟩,
      ⟨"timeout", .duration, none⟩, ⟨"sanitize", .bool, none⟩, ⟨"lint", .bool, none⟩]
  | .render =>
    [⟨"data", .text, none⟩, ⟨"document", .bool, none⟩, ⟨"stylesheet", .text, none⟩,
      ⟨"timeout", .duration, none⟩, ⟨"sanitize", .bool, none⟩]
  | .css => [⟨"presets", .bool, none⟩]
  | .lint =>
    [⟨"pages", .texts, none⟩, ⟨"styles", .texts, none⟩, ⟨"presets", .bool, none⟩,
      ⟨"strict", .bool, none⟩, ⟨"threshold", .float, none⟩, ⟨"output-format", .text, none⟩,
      ⟨"max-issues-per-linter", .int, none⟩, ⟨"max-same-issues", .int, none⟩,
      ⟨"print-lines", .bool, none⟩, ⟨"print-linter-name", .bool, none⟩]
  | .init => [⟨"force", .bool, none⟩]
  | .program | .completion | .version | .help => []

def helpFlag : Flag := ⟨"help", .bool, some 'h'⟩

def flags (c : Verb) : List Flag := helpFlag :: c.ownFlags ++ commonFlags

end Verb

/-! ### Errors -/

inductive UsageError where
  | flag (e : FlagError)
  | unknownCommand (name : String)
  | exactly (wanted received : Nat)
  | atLeast (wanted received : Nat)
  | badArgument (arg : String) (c : Verb)
  deriving DecidableEq, Repr

/-- How far a command may be from the word that it is suggested for. -/
def suggestionReach : Nat := 2

/-- The commands that a word may be meant for: those near to it, and those that start with it. -/
def suggestionsFor (word : String) : List String :=
  let lower := word.toList.map lowerChar
  (Verb.suggested.map Verb.word).filter fun name =>
    Lint.nameDistance (String.ofList lower) name ≤ suggestionReach || lower.isPrefixOf name.toList

def UsageError.message : UsageError → String
  | .flag e => e.message
  | .unknownCommand name =>
    let names := suggestionsFor name
    "unknown command " ++ quoted name ++ " for " ++ quoted programName
      ++ if names.isEmpty then "" else
        "\n\nDid you mean this?\n" ++ String.join (names.map fun n => "\t" ++ n ++ "\n")
  | .exactly wanted received =>
    "accepts " ++ toString wanted ++ " arg(s), received " ++ toString received
  | .atLeast wanted received =>
    "requires at least " ++ toString wanted ++ " arg(s), only received " ++ toString received
  | .badArgument arg c =>
    "invalid argument " ++ quoted arg ++ " for " ++ quoted (programName ++ " " ++ c.word)

/-! ### Commands -/

/-- Whether the word after an argument belongs to it: after a flag without a value, unless it is one
of the program's flags that are on or off. -/
def takesNext (arg : List Char) : Bool :=
  if arg.contains '=' then false
  else
    match arg with
    | '-' :: '-' :: name =>
      ((flagOf? Verb.commonFlags name).map fun f => decide (f.kind ≠ .bool)).getD true
    | ['-', c] => c.toNat < 0x80 && (flagOfLetter? Verb.commonFlags c).isNone
    | _ => false

/-- The words of a command line that are no flags and belong to none.  A flag that takes the last
word ends them. -/
def plainWords : List String → List String
  | [] => []
  | arg :: rest =>
    if arg = "--" then []
    else if takesNext arg.toList then
      match rest with
      | _ :: second :: rest => plainWords (second :: rest)
      | _ => []
    else if arg ≠ "" && arg.toList.head? ≠ some '-' then arg :: plainWords rest
    else plainWords rest

/-- A command line without the first word that is equal to one and no flag and belongs to none. -/
def dropWord (word : String) : List String → List String
  | [] => []
  | arg :: rest =>
    if arg = "--" then arg :: rest
    else if takesNext arg.toList then
      match rest with
      | value :: rest => arg :: value :: dropWord word rest
      | [] => [arg]
    else if arg = word then rest
    else arg :: dropWord word rest

def findCommand (args : List String) : Except UsageError (Verb × List String) :=
  match plainWords args with
  | [] => .ok (.program, args)
  | word :: _ =>
    match Verb.ofWord? word with
    | some c => .ok (c, dropWord word args)
    | none => .error (.unknownCommand word)

def shells : List String := ["bash", "zsh", "fish", "powershell"]

def checkArgs (c : Verb) (args : List String) : Except UsageError Unit :=
  match c with
  | .render => if args.length = 1 then .ok () else .error (.exactly 1 args.length)
  | .css => if args.isEmpty then .error (.atLeast 1 0) else .ok ()
  | .completion =>
    match args with
    | [arg] => if shells.contains arg then .ok () else .error (.badArgument arg c)
    | _ => .error (.exactly 1 args.length)
  | _ => .ok ()

/-- A command with the values of its flags and its arguments. -/
structure Line where
  command : Verb
  parsed : Parsed

/-- The command of a command line.  A line that asks for help is one for the command of that. -/
def parseLine (args : List String) : Except UsageError Line := do
  let (c, rest) ← findCommand args
  let parsed ← (parseFlags c.flags rest {}).mapError .flag
  if parsed.isOn "help" then return ⟨.help, parsed⟩
  checkArgs c parsed.args
  return ⟨c, parsed⟩

end Pagesmith.Command
