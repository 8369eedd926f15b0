import Pagesmith.Text.Quoted
import Pagesmith.Value.Basic

/-!
# Values as JSON

JSON text that is safe inside markup: angle brackets, ampersands and the two Unicode line
separators are written by their code points.  The fields of a map come in increasing order.

* `Json.quote`: a text as a JSON string.
* `Value.json`: a value as JSON, unless it holds a function or a number that JSON lacks.
-/

namespace Pagesmith

namespace Json

open Pagesmith.Text

def quoteChar (c : Char) : List Char :=
  match c with
  | '"' => ['\\', '"']
  | '\\' => ['\\', '\\']
  | '\n' => ['\\', 'n']
  | '\r' => ['\\', 'r']
  | '\t' => ['\\', 't']
  | '\x08' => ['\\', 'b']
  | '\x0c' => ['\\', 'f']
  | _ =>
    if c.toNat < 0x20 || c == '<' || c == '>' || c == '&' || c.toNat == 0x2028 || c.toNat == 0x2029
    then '\\' :: 'u' :: hexDigits 4 c.toNat
    else [c]

def quote (s : String) : String := String.ofList ('"' :: s.toList.flatMap quoteChar ++ ['"'])

inductive WriteError where
  | function
  | number (x : Float)
  deriving Repr

def WriteError.message : WriteError → String
  | .function => "json: unsupported type: " ++ Value.typeName (.func .collection)
  | .number x => "json: unsupported value: " ++ floatText x

end Json

namespace Value

open Pagesmith.Json (WriteError)

mutual

def json : Value → Except WriteError String
  | .nil => .ok "null"
  | .bool b => .ok (if b then "true" else "false")
  | .int n => .ok (toString n)
  | .float x =>
    if isFinite x then .ok (String.ofList (finiteText .json x)) else .error (.number x)
  | .str s | .markup s => .ok (Json.quote s)
  | .described _ => .ok "\x7b\x7d"
  | .list _ items => do
    let texts ← jsonItems items
    return "[" ++ ",".intercalate texts ++ "]"
  | .map fields => do
    let texts ← jsonFields fields
    return "\x7b" ++ ",".intercalate texts ++ "\x7d"
  | .func _ => .error .function

def jsonItems : List Value → Except WriteError (List String)
  | [] => .ok []
  | v :: vs => do
    let text ← json v
    let texts ← jsonItems vs
    return text :: texts

def jsonFields : List (String × Value) → Except WriteError (List String)
  | [] => .ok []
  | (k, v) :: fs => do
    let text ← json v
    let texts ← jsonFields fs
    return (Json.quote k ++ ":" ++ text) :: texts

end

end Value

end Pagesmith
