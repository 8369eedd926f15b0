import Pagesmith.Page.Config
import Pagesmith.Text.Quoted
import Pagesmith.Text.Utf8

/-!
# Document shells

A rendered page becomes the body of an HTML document.  The head comes from the page configuration;
every value in it is escaped for the place where it stands.

* `attributeText`: text in a quoted attribute or a title.
* `isSafeUrl`, `urlText`: an address in an attribute.  One whose scheme could run code is replaced.
* `Shell.wrap`: the document around some markup.
-/

namespace Pagesmith.Page

open Pagesmith.Text

def attributeChar (c : Char) : List Char :=
  match c with
  | '<' => "&lt;".toList
  | '>' => "&gt;".toList
  | '&' => "&amp;".toList
  | '"' => "&#34;".toList
  | '\'' => "&#39;".toList
  | '+' => "&#43;".toList
  | '\x00' => ['�']
  | _ => [c]

def attributeText (s : String) : String := String.ofList (s.toList.flatMap attributeChar)

def safeSchemes : List String := ["http", "https", "mailto"]

/-- Whether an address has one of the safe schemes, or none. -/
def isSafeUrl (s : List Char) : Bool :=
  match cut [':'] s with
  | none => true
  | some (scheme, _) => scheme.contains '/' || isWordOf safeSchemes scheme

/-- What stands in place of an address that is not safe. -/
def unsafeUrlMark : String := "#ZgotmplZ"

/-- The characters of an address that are not escaped, letters and digits apart. -/
def urlChars : List Char := [
  '!', '#', '$', '&', '*', '+', ',', '/', ':', ';', '=', '?', '@', '[', ']', '-', '.', '_', '~']

/-- An address with every other byte escaped.  An escape that is there already stays. -/
def normalizeUrl : List Char → List Char
  | [] => []
  | c :: cs =>
    let keep :=
      if c = '%' then cs.length ≥ 2 && (cs.take 2).all isHexDigit
      else isLetter c || isDigit c || c ∈ urlChars
    (if keep then [c] else (encodeChar c).flatMap fun b => '%' :: hexDigits 2 b) ++ normalizeUrl cs

def urlText (s : String) : String :=
  attributeText (String.ofList
    (normalizeUrl (if isSafeUrl s.toList then s.toList else unsafeUrlMark.toList)))

def defaultTitle : String := "AniMax App"

def defaultLanguage : String := "en"

structure Shell where
  title : String
  language : String
  description : String
  stylesheet : String
  script : String
  deriving DecidableEq, Repr

namespace Shell

def ofConfig (c : Config) (stylesheet : String) : Shell where
  title := if c.get "title" = "" then defaultTitle else c.get "title"
  language := if c.get "lang" = "" then defaultLanguage else c.get "lang"
  description := c.get "description"
  stylesheet := stylesheet
  script := c.get "script"

def optional (value : String) (line : String) : String := if value = "" then "" else "\n  " ++ line

def wrap (s : Shell) (markup : String) : String :=
  "<!DOCTYPE html>\n<html lang=\"" ++ attributeText s.language ++ "\">\n<head>\n"
    ++ "  <meta charset=\"UTF-8\">\n"
    ++ "  <meta name=\"viewport\" content=\"width=device-width, initial-scale=1.0\">\n"
    ++ "  <title>" ++ attributeText s.title ++ "</title>"
    ++ optional s.description
      ("<meta name=\"description\" content=\"" ++ attributeText s.description ++ "\">")
    ++ optional s.stylesheet ("<link rel=\"stylesheet\" href=\"" ++ urlText s.stylesheet ++ "\">")
    ++ "\n</head>\n<body>\n" ++ markup
    ++ optional s.script ("<script src=\"" ++ urlText s.script ++ "\"></script>")
    ++ "\n</body>\n</html>\n"

end Shell

end Pagesmith.Page
