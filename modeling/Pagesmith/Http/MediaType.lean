import Pagesmith.Text.Basic

/-!
# Media types

The type of a body: two tokens with a slash between them, and parameters after semicolons.
-/

namespace Pagesmith.Http

open Pagesmith.Text

def isTokenChar (c : Char) : Bool :=
  0x20 < c.toNat && c.toNat < 0x7f
    && c ∉ ['(', ')', '<', '>', '@', ',', ';', ':', '\\', '"', '/', '[', ']', '?', '=']

def splitToken (s : List Char) : List Char × List Char :=
  (s.takeWhile isTokenChar, s.dropWhile isTokenChar)

/-- A quoted value after its opening quote, and what follows. -/
def quotedValue? : List Char → Option (List Char × List Char)
  | [] => none
  | '"' :: rest => some ([], rest)
  | '\\' :: c :: rest =>
    if isTokenChar c then (quotedValue? (c :: rest)).map fun (v, r) => ('\\' :: v, r)
    else (quotedValue? rest).map fun (v, r) => (c :: v, r)
  | c :: rest =>
    if c == '\r' || c == '\n' then none
    else (quotedValue? rest).map fun (v, r) => (c :: v, r)

def parameter? (s : List Char) : Option ((List Char × List Char) × List Char) :=
  match trimStart s with
  | ';' :: rest =>
    let (name, rest) := splitToken (trimStart rest)
    if name.isEmpty then none
    else
      match trimStart rest with
      | '=' :: rest =>
        match trimStart rest with
        | '"' :: rest =>
          (quotedValue? rest).map fun (value, rest) => ((name.map lowerAscii, value), rest)
        | rest =>
          let (value, rest) := splitToken rest
          if value.isEmpty then none else some ((name.map lowerAscii, value), rest)
      | _ => none
  | _ => none

/-- Whether a text is a list of parameters, where no name has two values.  One semicolon may stand
at the end. -/
def parametersOk (seen : List (List Char × List Char)) : Nat → List Char → Bool
  | 0, _ => false
  | fuel + 1, s =>
    if (trimStart s).isEmpty then true
    else
      match parameter? s with
      | none => trim s == [';']
      | some ((name, value), rest) =>
        (seen.all fun (n, v) => n != name || v == value)
          && parametersOk ((name, value) :: seen) fuel rest

/-- The media type of a header, in lower case, if the header is well formed. -/
def mediaType? (header : List Char) : Option (List Char) :=
  let base := header.takeWhile (· != ';')
  let name := (trim base).map lowerAscii
  let (main, rest) := splitToken name
  let wellFormed := match rest with
    | [] => !main.isEmpty
    | '/' :: sub => !main.isEmpty && !sub.isEmpty && sub.all isTokenChar
    | _ => false
  if wellFormed && parametersOk [] (header.length + 1) (header.drop base.length) then some name
  else none

end Pagesmith.Http
