import Pagesmith.Settings.Basic
import Pagesmith.Text.Quoted
import Pagesmith.Text.Record
import Pagesmith.Text.Utf8

/-!
# Flags

Flags of a command line: `--name value`, `--name=value`, and for those that are on or off `--name`
alone or one letter after a dash.  Flags and other arguments may be mixed; two dashes alone end the
flags.

* `Flag`: a flag with its name and what its value is.
* `FlagError`: what is wrong with the flags of a command line.
* `Flag.read`: the value of a flag from its text.
* `parseFlags`: the values of the flags of a command line, and the other arguments.
-/

namespace Pagesmith.Command

open Pagesmith.Text

inductive FlagKind where
  | bool
  | text
  | texts
  | int
  | float
  | duration
  deriving DecidableEq, Repr

structure Flag where
  name : String
  kind : FlagKind
  letter : Option Char := none
  deriving DecidableEq, Repr

def Flag.title (f : Flag) : String :=
  match f.letter with
  | some c => "-" ++ String.singleton c ++ ", --" ++ f.name
  | none => "--" ++ f.name

inductive FlagError where
  | malformed (arg : String)
  | unknown (name : String)
  | unknownLetter (letters : List Char)
  | missingValue (name : String)
  | badValue (flag : Flag) (value cause : String)
  deriving DecidableEq, Repr

def quotedLetter (c : Char) : String :=
  "'" ++ (if c = '\'' then "\\'" else if c = '"' then "\"" else String.ofList (quotedChar c)) ++ "'"

/-- The character with the number of the first byte of another one. -/
def leadChar (c : Char) : Char := Char.ofNat ((encodeChar c).headD 0)

def FlagError.message : FlagError → String
  | .malformed arg => "bad flag syntax: " ++ arg
  | .unknown name => "unknown flag: --" ++ name
  | .unknownLetter letters =>
    "unknown shorthand flag: " ++ quotedLetter (leadChar (leadChar (letters.headD ' ')))
      ++ " in -" ++ String.ofList letters
  | .missingValue name => "flag needs an argument: --" ++ name
  | .badValue flag value cause =>
    "invalid argument " ++ quoted value ++ " for " ++ quoted flag.title ++ " flag: " ++ cause

/-! ### Values -/

def numberFailure (reader text : String) (e : NumberError) : String :=
  "strconv." ++ reader ++ ": parsing " ++ quoted text ++ ": " ++ e.message

/-- The value of a flag from its text.  Texts follow those that the flag has already. -/
def Flag.read (f : Flag) (old : Option Value) (s : String) : Except FlagError Value :=
  let bad (cause : String) : Except FlagError Value := .error (.badValue f s cause)
  match f.kind with
  | .bool =>
    if Value.trueTexts.contains s then .ok (.bool true)
    else if Value.falseTexts.contains s then .ok (.bool false)
    else bad (numberFailure "ParseBool" s .malformed)
  | .text => .ok (.str s)
  | .texts =>
    match if s = "" then .ok [] else readRecord s.toList with
    | .ok fields =>
      .ok (.list .str (((old.map Value.asTexts).getD [] ++ fields.map String.ofList).map .str))
    | .error e => bad e.message
  | .int =>
    match readLiteral s.toList with
    | .ok n => .ok (.int n)
    | .error e => bad (numberFailure "ParseInt" s e)
  | .float =>
    match readFloat s.toList with
    | .ok x => .ok (.float x)
    | .error e => bad (numberFailure "ParseFloat" s e)
  | .duration =>
    match Time.readDuration s with
    | .ok n => .ok (.int n)
    | .error e => bad e.message

/-! ### Command lines -/

structure Parsed where
  values : List (String × Value) := []
  args : List String := []

namespace Parsed

def set (p : Parsed) (f : Flag) (s : String) : Except FlagError Parsed :=
  (f.read (Value.field? p.values f.name) s).map fun v =>
    { p with values := Value.setField f.name v p.values }

def isOn (p : Parsed) (name : String) : Bool :=
  ((Value.field? p.values name).map Value.asBool).getD false

/-- The text of a flag, empty if it is not given. -/
def text (p : Parsed) (name : String) : String :=
  ((Value.field? p.values name).map Value.asText).getD ""

end Parsed

def flagOf? (flags : List Flag) (name : List Char) : Option Flag :=
  flags.find? fun f => f.name.toList = name

def flagOfLetter? (flags : List Flag) (c : Char) : Option Flag :=
  flags.find? fun f => f.letter = some c

/-- The flags of some letters behind a dash.  The flags with letters are on or off, so that only an
equals sign gives one a value. -/
def parseLetters (flags : List Flag) : List Char → Parsed → Except FlagError Parsed
  | [], p => .ok p
  | c :: cs, p =>
    match flagOfLetter? flags c with
    | none => .error (.unknownLetter (c :: cs))
    | some f =>
      match cs with
      | '=' :: d :: value => p.set f (String.ofList (d :: value))
      | _ => (p.set f "true").bind (parseLetters flags cs)

/-- What stands for a long flag: an error, a flag with its value, or a flag whose value follows. -/
inductive LongFlag where
  | fault (e : FlagError)
  | given (f : Flag) (value : String)
  | open (f : Flag)

def longFlag (flags : List Flag) (body : List Char) : LongFlag :=
  match body with
  | '-' :: _ | '=' :: _ => .fault (.malformed ("--" ++ String.ofList body))
  | _ =>
    let name := body.takeWhile (· != '=')
    match flagOf? flags name, body.drop name.length with
    | none, _ => .fault (.unknown (String.ofList name))
    | some f, _ :: value => .given f (String.ofList value)
    | some f, [] => if f.kind = .bool then .given f "true" else .open f

def parseFlags (flags : List Flag) : List String → Parsed → Except FlagError Parsed
  | [], p => .ok p
  | arg :: rest, p =>
    match arg.toList with
    | ['-', '-'] => .ok { p with args := p.args ++ rest }
    | '-' :: '-' :: body =>
      match longFlag flags body with
      | .fault e => .error e
      | .given f value => (p.set f value).bind (parseFlags flags rest)
      | .open f =>
        match rest with
        | [] => .error (.missingValue f.name)
        | value :: rest => (p.set f value).bind (parseFlags flags rest)
    | '-' :: c :: cs => (parseLetters flags (c :: cs) p).bind (parseFlags flags rest)
    | _ => parseFlags flags rest { p with args := p.args ++ [arg] }

end Pagesmith.Command
