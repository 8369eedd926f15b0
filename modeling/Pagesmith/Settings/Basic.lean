import Pagesmith.Decimal.Reader
import Pagesmith.Time.Duration
import Pagesmith.Value.Basic

/-!
# Settings

Values by key.  A key with dots leads through sections: `build.pages` is the value `pages` of the
section `build`, and so is a value that has the whole key as its name.

* `Settings.find?`: the value of a key.
* `Settings.layer`: settings with others below them; a section of both has the values of both.
* `Settings.insert`: settings with a value at a path.
* `Value.asText`, `Value.asTexts`, `Value.asBool`, `Value.asInt`, `Value.asFloat`,
  `Value.asDuration`: what a setting is read as.  What cannot be read so counts as empty.
* `Settings.text`, `Settings.texts`, `Settings.bool`, …: the setting under one key, or else under
  another one, or else as it is by default.
-/

namespace Pagesmith

open Pagesmith.Text

/-! ### Readings -/

namespace Value

def asText : Value → String
  | .nil => ""
  | v => v.text

def asTexts : Value → List String
  | .list _ items => items.map text
  | _ => []

def trueTexts : List String := ["1", "t", "T", "TRUE", "true", "True"]

def falseTexts : List String := ["0", "f", "F", "FALSE", "false", "False"]

def asBool : Value → Bool
  | .bool b => b
  | v => trueTexts.contains v.text

/-- A float without its fraction.  The least integer stands for all that do not fit. -/
def truncated (x : Float) : Int :=
  if x < 9223372036854775808 && -9223372036854775808 < x then
    if x < 0 then -((-x).toUInt64.toNat : Int) else x.toUInt64.toNat
  else leastInt

def asInt : Value → Int
  | .int n => if n < intBound then n else leastInt
  | v =>
    match readFloat v.text.toList with
    | .ok x => truncated x
    | .error _ => 0

/-- A setting as a float.  A number that is too large is infinite. -/
def asFloat : Value → Float
  | .float x => x
  | v =>
    match readFloat v.text.toList with
    | .ok x => x
    | .error .range => if v.text.toList.head? = some '-' then -1 / 0 else 1 / 0
    | .error .malformed => 0

/-- A setting as nanoseconds: a number of them, or a duration. -/
def asDuration (v : Value) : Int :=
  let n := v.asInt
  if n ≠ 0 then n else (Time.readDuration v.asText).toOption.getD 0

end Value

/-! ### Keys -/

structure Settings where
  fields : List (String × Value) := []

namespace Settings

def below? (name : String) (key : List Char) : Option (List Char) :=
  let lead := name.toList ++ ['.']
  if lead.isPrefixOf key then some (key.drop lead.length) else none

mutual

def findIn : Value → List Char → Option Value
  | .map fields, key => findField fields key
  | _, _ => none

def findField : List (String × Value) → List Char → Option Value
  | [], _ => none
  | (name, v) :: rest, key =>
    if name.toList = key then some v
    else
      match (below? name key).bind (findIn v) with
      | some found => some found
      | none => findField rest key

end

def find? (s : Settings) (key : String) : Option Value := findField s.fields key.toList

mutual

/-- A value over another one: sections are joined, anything else takes its place. -/
def mergeValue : Value → Option Value → Value
  | .map upper, some (.map lower) => .map (mergeFields upper lower)
  | v, _ => v

def mergeFields : List (String × Value) → List (String × Value) → List (String × Value)
  | [], lower => lower
  | (name, v) :: upper, lower =>
    mergeFields upper (Value.setField name (mergeValue v (Value.field? lower name)) lower)

end

def layer (upper lower : Settings) : Settings := ⟨mergeFields upper.fields lower.fields⟩

/-- Fields with a value at a path.  What is no section is passed by. -/
def insertAt (v : Value) : List String → List (String × Value) → List (String × Value)
  | [], fields => fields
  | [name], fields => Value.setField name v fields
  | name :: path, fields =>
    match Value.field? fields name with
    | none => Value.setField name (.map (insertAt v path [])) fields
    | some (.map sub) => Value.setField name (.map (insertAt v path sub)) fields
    | some _ => insertAt v path fields

def insert (s : Settings) (key : String) (v : Value) : Settings :=
  ⟨insertAt v ((split ['.'] key.toList).map String.ofList) s.fields⟩

/-! ### Look-ups -/

/-- The reading of the value that is there under one key, or else under another one. -/
def pick {α : Type} (s : Settings) (read : Value → α) (first second : String) (usual : α) : α :=
  match s.find? first, s.find? second with
  | some v, _ => read v
  | none, some v => read v
  | none, none => usual

/-- The text under a key, empty if there is none. -/
def textAt (s : Settings) (key : String) : String := ((s.find? key).map Value.asText).getD ""

def textsAt (s : Settings) (key : String) : List String :=
  ((s.find? key).map Value.asTexts).getD []

/-- The text under one key, or else under another one.  An empty text counts for nothing. -/
def text (s : Settings) (first second usual : String) : String :=
  if s.textAt first ≠ "" then s.textAt first
  else if s.textAt second ≠ "" then s.textAt second
  else usual

/-- The texts under one key, or else under another one.  No text counts for nothing. -/
def texts (s : Settings) (first second : String) (usual : List String) : List String :=
  if !(s.textsAt first).isEmpty then s.textsAt first
  else if !(s.textsAt second).isEmpty then s.textsAt second
  else usual

/-- The truth value under one key, or else under another one. -/
def bool (s : Settings) (first second : String) (usual : Bool) : Bool :=
  s.pick Value.asBool first second usual

/-- The integer under one key, or else under another one. -/
def int (s : Settings) (first second : String) (usual : Int) : Int :=
  s.pick Value.asInt first second usual

/-- The float under one key, or else under another one. -/
def float (s : Settings) (first second : String) (usual : Float) : Float :=
  s.pick Value.asFloat first second usual

/-- The nanoseconds under one key, or else under another one. -/
def duration (s : Settings) (first second : String) (usual : Int) : Int :=
  s.pick Value.asDuration first second usual

end Settings

end Pagesmith
