import Pagesmith.Json.Writer

/-!
# Values in markup

What a template shows for a value.  Trusted markup stands as it is; everything else is escaped, so
that data cannot bring tags or attributes into a page.

* `escape`: the five characters that mean something in markup, written as entities.
* `Value.shown`: nothing for an absent value, texts escaped, the elements of a list with commas
  between them, and maps as JSON.
-/

namespace Pagesmith

namespace Markup

/-- A character inside text or a quoted attribute.  A NUL becomes the replacement character. -/
def escapeChar (c : Char) : List Char :=
  match c with
  | '<' => "&lt;".toList
  | '>' => "&gt;".toList
  | '&' => "&amp;".toList
  | '"' => "&#34;".toList
  | '\'' => "&#39;".toList
  | '\x00' => ['�']
  | _ => [c]

def escapeChars (s : List Char) : List Char := s.flatMap escapeChar

def escape (s : String) : String := String.ofList (escapeChars s.toList)

end Markup

namespace Value

open Pagesmith.Json (WriteError)

mutual

def shown : Value → Except WriteError String
  | .nil => .ok ""
  | .markup s => .ok s
  | .str s | .described s => .ok (Markup.escape s)
  | .list _ items => do
    let texts ← shownItems items
    return ",".intercalate texts
  | .map fields => do
    let text ← json (.map fields)
    return Markup.escape text
  | v => .ok (Markup.escape v.text)

def shownItems : List Value → Except WriteError (List String)
  | [] => .ok []
  | v :: vs => do
    let text ← shown v
    let texts ← shownItems vs
    return text :: texts

end

end Value

end Pagesmith
