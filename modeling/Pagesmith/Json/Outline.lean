import Pagesmith.Json.Writer

/-!
# Indented JSON

JSON text for readers, with every field and element on a line of its own.  The fields of an object
stay in their order.
-/

namespace Pagesmith.Json

inductive Outline where
  | literal (text : String)
  | items (elements : List Outline)
  | fields (entries : List (String × Outline))

namespace Outline

def str (s : String) : Outline := .literal (quote s)

def int (n : Int) : Outline := .literal (toString n)

def indent (depth : Nat) : String := "\n" ++ String.ofList (List.replicate (2 * depth) ' ')

/-- Texts between brackets, each on a line of its own one level deeper. -/
def enclose (opening closing : String) (depth : Nat) (texts : List String) : String :=
  if texts.isEmpty then opening ++ closing
  else
    opening ++ ",".intercalate (texts.map (indent (depth + 1) ++ ·)) ++ indent depth ++ closing

mutual

def text (depth : Nat) : Outline → String
  | .literal s => s
  | .items elements => enclose "[" "]" depth (elementTexts (depth + 1) elements)
  | .fields entries => enclose "\x7b" "\x7d" depth (entryTexts (depth + 1) entries)

def elementTexts (depth : Nat) : List Outline → List String
  | [] => []
  | e :: es => text depth e :: elementTexts depth es

def entryTexts (depth : Nat) : List (String × Outline) → List String
  | [] => []
  | (k, v) :: es => (quote k ++ ": " ++ text depth v) :: entryTexts depth es

end

end Outline

end Pagesmith.Json
