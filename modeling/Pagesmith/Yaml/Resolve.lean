import Pagesmith.Decimal.Reader
import Pagesmith.Time.Moment
import Pagesmith.Value.Basic

/-!
# What scalars mean

A scalar without quotes is read as nothing, a truth value, a number or a date if it looks like one,
and as a text otherwise.  A tag can ask for one of these.

* `shortTag`: a tag with two marks in place of its standard address.
* `resolvePlain`: the tag and the value of a scalar by its looks.
* `resolve`: the same for a scalar with a tag.
-/

namespace Pagesmith.Yaml

open Pagesmith.Text

/-! ### Tags -/

def standardAddress : String := "tag:yaml.org,2002:"

def shortTag (tag : String) : String :=
  let s := tag.toList
  if standardAddress.toList.isPrefixOf s then
    "!!" ++ String.ofList (s.drop standardAddress.length)
  else tag

namespace TagName

def null : String := "!!null"

def bool : String := "!!bool"

def str : String := "!!str"

def int : String := "!!int"

def float : String := "!!float"

def timestamp : String := "!!timestamp"

def seq : String := "!!seq"

def map : String := "!!map"

def binary : String := "!!binary"

def merge : String := "!!merge"

end TagName

/-! ### Looks -/

structure Resolved where
  tag : String
  value : Value

def wordValue? (s : String) : Option Resolved :=
  if s ∈ ["true", "True", "TRUE"] then some ⟨TagName.bool, .bool true⟩
  else if s ∈ ["false", "False", "FALSE"] then some ⟨TagName.bool, .bool false⟩
  else if s ∈ ["", "~", "null", "Null", "NULL"] then some ⟨TagName.null, .nil⟩
  else if s ∈ [".nan", ".NaN", ".NAN"] then some ⟨TagName.float, .float (0 / 0)⟩
  else if s ∈ [".inf", ".Inf", ".INF", "+.inf", "+.Inf", "+.INF"] then
    some ⟨TagName.float, .float (1 / 0)⟩
  else if s ∈ ["-.inf", "-.Inf", "-.INF"] then some ⟨TagName.float, .float (-1 / 0)⟩
  else none

/-- Whether a text looks like a decimal: digits with an optional point, one digit at least, and an
optional exponent. -/
def looksDecimal (s : List Char) : Bool :=
  let (_, body) := splitSign s
  let (whole, fraction, rest) := splitPoint isDigit body
  !(whole.isEmpty && fraction.isEmpty) && (readExponent? 'e' rest).isSome

/-- An integer in a base after its mark, with a sign on either side of the mark. -/
def readMarked? (s : List Char) : Option Int :=
  let read (base : Nat) (body : List Char) : Option Int :=
    match readInt base body with
    | .ok n => some n
    | .error _ =>
      match readNat? base body with
      | some n => if n < wordCount then some n else none
      | none => none
  match s with
  | '0' :: 'b' :: body => read 2 body
  | '-' :: '0' :: 'b' :: body => (readInt 2 ('-' :: body)).toOption
  | '0' :: 'o' :: body => read 8 body
  | '-' :: '0' :: 'o' :: body => (readInt 8 ('-' :: body)).toOption
  | _ => none

/-- The number that a text looks like, with underscores anywhere. -/
def numberValue? (s : List Char) : Option Resolved :=
  let plain := s.filter (· != '_')
  match readLiteral plain with
  | .ok n => some ⟨TagName.int, .int n⟩
  | .error _ =>
    match readLiteralNat plain with
    | .ok n => some ⟨TagName.int, .int n⟩
    | .error _ =>
      match if looksDecimal plain then (readFloat plain).toOption else none with
      | some x => some ⟨TagName.float, .float x⟩
      | none => (readMarked? plain).map fun n => ⟨TagName.int, .int n⟩

/-- The value of a scalar by its looks, which may be a date or not. -/
def resolveLooks (dates : Bool) (text : String) : Resolved :=
  let plain : Resolved := ⟨TagName.str, .str text⟩
  match wordValue? text, text.toList with
  | some r, _ => r
  | none, [] => plain
  | none, c :: cs =>
    if c = '.' then
      match readFloat (c :: cs) with
      | .ok x => ⟨TagName.float, .float x⟩
      | .error _ => plain
    else if isDigit c || c = '+' || c = '-' then
      match if dates then Time.readMoment? (c :: cs) else none with
      | some m => ⟨TagName.timestamp, .described m.text⟩
      | none => (numberValue? (c :: cs)).getD plain
    else plain

def resolvePlain (text : String) : Resolved := resolveLooks true text

/-! ### Tagged scalars -/

structure ResolveError where
  found : String
  text : String
  wanted : String
  deriving DecidableEq, Repr

/-- The value of a scalar with a tag.  A tag that is not known makes a text. -/
def resolve (tag text : String) : Except ResolveError Resolved :=
  let tag := shortTag tag
  if tag = TagName.str then .ok ⟨TagName.str, .str text⟩
  else if !([TagName.bool, TagName.int, TagName.float, TagName.null, TagName.timestamp, ""].contains
      tag) then .ok ⟨tag, .str text⟩
  else
    let r := resolveLooks (tag = "" || tag = TagName.timestamp) text
    if tag = "" || tag = r.tag then .ok r
    else
      match decide (tag = TagName.float), r.value with
      | true, .int n =>
        if r.tag = TagName.int && n < intBound then .ok ⟨TagName.float, .float (.ofInt n)⟩
        else .error ⟨r.tag, text, tag⟩
      | _, _ => .error ⟨r.tag, text, tag⟩

end Pagesmith.Yaml
