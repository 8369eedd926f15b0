import Pagesmith.Decimal.Reader
import Pagesmith.Text.Quoted
import Pagesmith.Value.Basic

/-!
# Values from JSON

A JSON text is read into a value; its numbers are floats, and the last field of a name counts.

* `ReadError`: what is wrong with a text, and the character where it shows.
* `read`: the value of a JSON text.
-/

namespace Pagesmith.Json

open Pagesmith.Text

inductive ReadError where
  | ended
  | character (c : Char) (place : String)
  | number (text : String)
  deriving DecidableEq, Repr

/-- A character in messages.  One beyond ASCII is shown by the first byte of its UTF-8 form. -/
def showChar (c : Char) : String :=
  let c := if c.toNat < 0x80 then c
    else if c.toNat < 0x800 then Char.ofNat (0xc0 + c.toNat / 0x40)
    else if c.toNat < 0x10000 then Char.ofNat (0xe0 + c.toNat / 0x1000)
    else Char.ofNat (0xf0 + c.toNat / 0x40000)
  let text := match c with
    | '\'' => ['\\', '\'']
    | '"' => ['"']
    | _ => quotedChar c
  "'" ++ String.ofList text ++ "'"

def ReadError.message : ReadError → String
  | .ended => "unexpected end of JSON input"
  | .character c place => "invalid character " ++ showChar c ++ " " ++ place
  | .number text => "json: cannot unmarshal number " ++ text ++ " into Go value of type float64"

def isJsonSpace (c : Char) : Bool := c == ' ' || c == '\t' || c == '\r' || c == '\n'

def skipSpace (s : List Char) : List Char := s.dropWhile isJsonSpace

def failAt {α : Type} (place : String) : List Char → Except ReadError α
  | [] => .error .ended
  | c :: _ => .error (.character c place)

/-- The rest of a literal word after its first character. -/
def literal (word : String) : List Char → List Char → Except ReadError (List Char)
  | [], s => .ok s
  | w :: ws, s =>
    match s with
    | [] => .error .ended
    | c :: cs =>
      if c == w then literal word ws cs
      else .error (.character c
        ("in literal " ++ word ++ " (expecting '" ++ String.singleton w ++ "')"))

def hexEscape (s : List Char) : Except ReadError (Nat × List Char) :=
  let ds := (s.take 4).takeWhile isHexDigit
  if ds.length = 4 then .ok (ds.foldl (fun n d => n * 16 + hexValue d) 0, s.drop 4)
  else failAt "in \\u hexadecimal character escape" (s.drop ds.length)

/-- The character of two units of UTF-16, if they are a pair. -/
def pairUnits? (a b : Nat) : Option Char :=
  if 0xd800 ≤ a && a < 0xdc00 && 0xdc00 ≤ b && b < 0xe000 then
    some (Char.ofNat (0x10000 + (a - 0xd800) * 0x400 + (b - 0xdc00)))
  else none

def unitChar (n : Nat) : Char := if 0xd800 ≤ n && n < 0xe000 then '�' else Char.ofNat n

/-- A string after its opening quote; `text` is what was read of it, last character first. -/
def readString (text : List Char) : Nat → List Char → Except ReadError (List Char × List Char)
  | 0, _ => .error .ended
  | _ + 1, [] => .error .ended
  | fuel + 1, c :: cs => do
    if c == '"' then return (text.reverse, cs)
    else if c.toNat < 0x20 then .error (.character c "in string literal")
    else if c != '\\' then readString (c :: text) fuel cs
    else
      match cs with
      | [] => .error .ended
      | e :: rest =>
        let plain (d : Char) := readString (d :: text) fuel rest
        match e with
        | '"' | '\\' | '/' => plain e
        | 'b' => plain '\x08'
        | 'f' => plain '\x0c'
        | 'n' => plain '\n'
        | 'r' => plain '\r'
        | 't' => plain '\t'
        | 'u' =>
          let (a, rest) ← hexEscape rest
          let second := match rest with
            | '\\' :: 'u' :: more => (hexEscape more).toOption
            | _ => none
          match second.bind fun (b, more) => (pairUnits? a b).map fun d => (d, more) with
          | some (d, more) => readString (d :: text) fuel more
          | none => readString (unitChar a :: text) fuel rest
        | _ => .error (.character e "in string escape code")

/-- The digits that a text starts with, at least one. -/
def someDigits (place : String) (s : List Char) : Except ReadError (List Char × List Char) :=
  match s.takeWhile isDigit with
  | [] => failAt place s
  | ds => .ok (ds, s.drop ds.length)

def numberText (s : List Char) : Except ReadError (List Char × List Char) := do
  let (sign, body) := match s with
    | '-' :: b => (['-'], b)
    | b => ([], b)
  let (whole, rest) ← match body with
    | '0' :: r => pure (['0'], r)
    | _ => someDigits "in numeric literal" body
  let (fraction, rest) ← match rest with
    | '.' :: r => do
      let (ds, r) ← someDigits "after decimal point in numeric literal" r
      pure ('.' :: ds, r)
    | _ => pure ([], rest)
  let (exponent, rest) ← match rest with
    | e :: r =>
      if e == 'e' || e == 'E' then do
        let (mark, r) := match r with
          | '+' :: r => (['+'], r)
          | '-' :: r => (['-'], r)
          | _ => ([], r)
        let (ds, r) ← someDigits "in exponent of numeric literal" r
        pure (e :: mark ++ ds, r)
      else pure ([], rest)
    | [] => pure ([], rest)
  return (sign ++ whole ++ fraction ++ exponent, rest)

def readNumber (s : List Char) : Except ReadError (Value × List Char) := do
  let (text, rest) ← numberText s
  match readFloat text with
  | .ok x => return (.float x, rest)
  | .error _ => .error (.number (String.ofList text))

mutual

def readValue : Nat → List Char → Except ReadError (Value × List Char)
  | 0, _ => .error .ended
  | fuel + 1, s => do
    match skipSpace s with
    | [] => .error .ended
    | c :: cs =>
      if c == '\x7b' then
        match skipSpace cs with
        | '\x7d' :: rest => return (.map [], rest)
        | _ =>
          let (fields, rest) ← readFields "looking for beginning of object key string" fuel cs
          return (Value.object fields, rest)
      else if c == '[' then
        match skipSpace cs with
        | ']' :: rest => return (.array [], rest)
        | _ =>
          let (items, rest) ← readItems fuel cs
          return (.array items, rest)
      else if c == '"' then
        let (text, rest) ← readString [] (cs.length + 1) cs
        return (.str (String.ofList text), rest)
      else if c == 't' then return (.bool true, ← literal "true" "rue".toList cs)
      else if c == 'f' then return (.bool false, ← literal "false" "alse".toList cs)
      else if c == 'n' then return (.nil, ← literal "null" "ull".toList cs)
      else if c == '-' || isDigit c then readNumber (c :: cs)
      else .error (.character c "looking for beginning of value")
termination_by structural n => n

def readItems : Nat → List Char → Except ReadError (List Value × List Char)
  | 0, _ => .error .ended
  | fuel + 1, s => do
    let (v, rest) ← readValue fuel s
    match skipSpace rest with
    | ',' :: rest =>
      let (vs, rest) ← readItems fuel rest
      return (v :: vs, rest)
    | ']' :: rest => return ([v], rest)
    | rest => failAt "after array element" rest
termination_by structural n => n

def readFields (place : String) : Nat → List Char →
    Except ReadError (List (String × Value) × List Char)
  | 0, _ => .error .ended
  | fuel + 1, s => do
    match skipSpace s with
    | '"' :: rest =>
      let (name, rest) ← readString [] (rest.length + 1) rest
      match skipSpace rest with
      | ':' :: rest =>
        let (v, rest) ← readValue fuel rest
        let field := (String.ofList name, v)
        match skipSpace rest with
        | ',' :: rest =>
          let (more, rest) ← readFields "looking for beginning of object key string" fuel rest
          return (field :: more, rest)
        | '\x7d' :: rest => return ([field], rest)
        | rest => failAt "after object key:value pair" rest
      | rest => failAt "after object key" rest
    | rest => failAt place rest
termination_by structural n => n

end

def read (s : List Char) : Except ReadError Value := do
  let (v, rest) ← readValue (s.length + 1) s
  match skipSpace rest with
  | [] => return v
  | rest => failAt "after top-level value" rest

end Pagesmith.Json
