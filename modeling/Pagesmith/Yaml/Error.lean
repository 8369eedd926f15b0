import Pagesmith.Text.Quoted
import Pagesmith.Text.Utf8
import Pagesmith.Yaml.Fault
import Pagesmith.Yaml.Resolve

/-!
# Errors of documents

Why a document has no value: its text is wrong, or what it says cannot be a value.

* `Mismatch`: a node that has the wrong kind for its place, or a key that is there twice.
* `Error`: the first error, or all mismatches.
-/

namespace Pagesmith.Yaml

open Pagesmith.Text

inductive Target where
  | mapping
  | text
  deriving DecidableEq, Repr

def Target.name : Target → String
  | .mapping => "map[string]interface \x7b\x7d"
  | .text => "string"

inductive Mismatch where
  | kind (line : Nat) (tag text : String) (target : Target)
  | repeatedKey (line : Nat) (key : String) (first : Nat)
  deriving DecidableEq, Repr

/-- The text of a scalar in a message, cut after ten bytes. -/
def excerpt (text : String) : String :=
  let shown :=
    if 10 < text.utf8ByteSize then String.ofList (takeBytes 7 text.toList) ++ "..." else text
  " \x60" ++ shown ++ "\x60"

def Mismatch.message : Mismatch → String
  | .kind line tag text target =>
    let tag := shortTag tag
    "line " ++ toString line ++ ": cannot unmarshal " ++ tag
      ++ (if tag = TagName.seq || tag = TagName.map then text else excerpt text)
      ++ " into " ++ target.name
  | .repeatedKey line key first =>
    "line " ++ toString line ++ ": mapping key " ++ quoted key ++ " already defined at line "
      ++ toString first

inductive Error where
  | malformed (e : SyntaxError)
  | unknownAnchor (name : String)
  | selfContained (name : String)
  | tooManyReferences
  | mergedNonMapping
  | invalidKey (text : String)
  | unresolved (e : ResolveError)
  | badBytes
  | mismatched (ms : List Mismatch)
  deriving DecidableEq, Repr

def Error.message (e : Error) : String :=
  "yaml: " ++ match e with
  | .malformed e => e.message
  | .unknownAnchor name => "unknown anchor '" ++ name ++ "' referenced"
  | .selfContained name => "anchor '" ++ name ++ "' value contains itself"
  | .tooManyReferences => "document contains excessive aliasing"
  | .mergedNonMapping => "map merge requires map or sequence of maps as the value"
  | .invalidKey text => "invalid map key: " ++ text
  | .unresolved e =>
    "cannot decode " ++ e.found ++ " \x60" ++ e.text ++ "\x60 as a " ++ e.wanted
  | .badBytes => "!!binary value contains invalid base64 data"
  | .mismatched ms => "unmarshal errors:\n  " ++ "\n  ".intercalate (ms.map Mismatch.message)

end Pagesmith.Yaml
