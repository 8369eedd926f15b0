import Pagesmith.Text.Quoted
import Pagesmith.Text.Utf8

/-!
# Addresses

An address is taken apart into scheme, user, host, path, query and fragment, and put together again
with its path and host escaped.

* `UrlError`: what is wrong with an address.
* `Url.parse`: the parts of an address.
* `Url.text`: the address that the parts make.
-/

namespace Pagesmith.Http

open Pagesmith.Text

inductive UrlError where
  | control
  | noScheme
  | colonInPath
  | badUser
  | missingBracket
  | badPort (port : List Char)
  | badEscape (text : List Char)
  | badHost (c : Char)
  deriving DecidableEq, Repr

def UrlError.message : UrlError → String
  | .control => "net/url: invalid control character in URL"
  | .noScheme => "missing protocol scheme"
  | .colonInPath => "first path segment in URL cannot contain colon"
  | .badUser => "net/url: invalid userinfo"
  | .missingBracket => "missing ']' in host"
  | .badPort p => "invalid port " ++ String.ofList (quotedChars p) ++ " after host"
  | .badEscape t => "invalid URL escape " ++ String.ofList (quotedChars t)
  | .badHost c => "invalid character " ++ String.ofList (quotedChars [c]) ++ " in host name"

inductive UrlPart where
  | path
  | host
  | user
  | fragment
  deriving DecidableEq, Repr

def shouldEscape (part : UrlPart) (b : Nat) : Bool :=
  let c := Char.ofNat b
  if 0x80 ≤ b then true
  else if c.isAlphanum || c ∈ ['-', '_', '.', '~'] then false
  else
    match part with
    | .host =>
      c ∉ ['!', '$', '&', '\'', '(', ')', '*', '+', ',', ';', '=', ':', '[', ']', '<', '>', '"']
    | .path => c ∉ ['$', '&', '+', ',', '/', ':', ';', '=', '@']
    | .user => c ∉ ['$', '&', '+', ',', ';', '=']
    | .fragment =>
      c ∉ ['$', '&', '+', ',', '/', ':', ';', '=', '?', '@', '!', '(', ')', '*']

/-- Two hexadecimal digits in upper case after a percent sign. -/
def percent (b : Nat) : List Char := '%' :: (hexDigits 2 b).map Char.toUpper

/-- A text with the bytes escaped that a part of an address does not hold. -/
def escapeUrl (part : UrlPart) (bytes : List Nat) : List Char :=
  bytes.flatMap fun b => if shouldEscape part b then percent b else [Char.ofNat b]

def unescapeUrl (part : UrlPart) : List Char → Except UrlError (List Nat)
  | [] => .ok []
  | '%' :: a :: b :: rest => do
    if !(isHexDigit a && isHexDigit b) then .error (.badEscape ['%', a, b])
    else if part = .host && hexValue a < 8 && !(a == '2' && b == '5') then
      .error (.badEscape ['%', a, b])
    else return (hexValue a * 16 + hexValue b) :: (← unescapeUrl part rest)
  | c :: rest => do
    if c == '%' then .error (.badEscape (c :: rest))
    else if part = .host && c.toNat < 0x80 && shouldEscape .host c.toNat then .error (.badHost c)
    else return encodeChar c ++ (← unescapeUrl part rest)

/-- Whether a written path is already escaped well enough to be kept. -/
def keepsForm (part : UrlPart) (s : List Char) : Bool :=
  s.all fun c =>
    c ∈ ['!', '$', '&', '\'', '(', ')', '*', '+', ',', ';', '=', ':', '@', '[', ']', '%']
      || !(encodeChar c).any (shouldEscape part)

structure UrlUser where
  name : List Nat
  password : Option (List Nat)
  deriving DecidableEq, Repr

/-- An address in its parts.  `bare` tells that a scheme is followed by a path and no host. -/
structure Url where
  scheme : List Char := []
  rootless : List Char := []
  user : Option UrlUser := none
  host : List Nat := []
  bare : Bool := false
  path : List Char := []
  emptyQuery : Bool := false
  query : List Char := []
  fragment : List Char := []
  deriving Repr

namespace Url

/-- Splits the scheme off an address.  A text that does not start like one has none. -/
def splitScheme (s : List Char) : Except UrlError (List Char × List Char) :=
  let lead := s.takeWhile fun c => c.isAlphanum || c == '+' || c == '-' || c == '.'
  match s.drop lead.length, lead with
  | ':' :: _, [] => .error .noScheme
  | ':' :: rest, c :: _ =>
    if isLetter c then .ok (lead.map lowerAscii, rest) else .ok ([], s)
  | _, _ => .ok ([], s)

/-- Whether a text is empty or a colon and digits. -/
def isPort : List Char → Bool
  | [] => true
  | c :: ds => c == ':' && ds.all isDigit

/-- Splits a text at the last occurrence of a character, which stays with the second part. -/
def splitLast? (c : Char) (s : List Char) : Option (List Char × List Char) :=
  let tail := (s.reverse.takeWhile (· != c)).reverse
  if tail.length < s.length then
    some (s.take (s.length - tail.length - 1), c :: tail)
  else none

def parseHost (s : List Char) : Except UrlError (List Nat) := do
  if s.head? = some '[' then
    match splitLast? ']' s with
    | none => .error .missingBracket
    | some (_, tail) => if !isPort (tail.drop 1) then .error (.badPort (tail.drop 1))
  else
    match splitLast? ':' s with
    | some (_, port) => if !isPort port then .error (.badPort port)
    | none => pure ()
  unescapeUrl .host s

def isUserChar (c : Char) : Bool :=
  c.isAlphanum || c ∈ ['-', '.', '_', ':', '~', '!', '$', '&', '\'', '(', ')', '*', '+', ',', ';',
    '=', '%', '@']

def parseUser (s : List Char) : Except UrlError UrlUser := do
  if !s.all isUserChar then .error .badUser
  match cut [':'] s with
  | none => return ⟨← unescapeUrl .user s, none⟩
  | some (name, password) =>
    let name ← unescapeUrl .user name
    return ⟨name, some (← unescapeUrl .user password)⟩

def parseAuthority (s : List Char) : Except UrlError (Option UrlUser × List Nat) := do
  match splitLast? '@' s with
  | none => return (none, ← parseHost s)
  | some (user, host) =>
    let host ← parseHost (host.drop 1)
    return (some (← parseUser user), host)

def written (part : UrlPart) (s : List Char) : Except UrlError (List Char) := do
  let bytes ← unescapeUrl part s
  return if keepsForm part s then s else escapeUrl part bytes

def parseMain (s : List Char) : Except UrlError Url := do
  if s.any fun c => c.toNat < 0x20 || c.toNat == 0x7f then .error .control
  if s = ['*'] then return { path := s }
  let (scheme, rest) ← splitScheme s
  let (rest, query, emptyQuery) :=
    match cut ['?'] rest with
    | none => (rest, [], false)
    | some (before, []) => (before, [], true)
    | some (before, query) => (before, query, false)
  let url : Url := { scheme, query, emptyQuery }
  if rest.head? ≠ some '/' then
    if !scheme.isEmpty then return { url with rootless := rest }
    if (rest.takeWhile (· != '/')).contains ':' then .error .colonInPath
  if ['/', '/'].isPrefixOf rest
      && (!scheme.isEmpty || !(['/', '/', '/'].isPrefixOf rest)) then
    let authority := (rest.drop 2).takeWhile (· != '/')
    let (user, host) ← parseAuthority authority
    let path ← written .path (rest.drop (2 + authority.length))
    return { url with user, host, path }
  else
    let path ← written .path rest
    return { url with path, bare := !scheme.isEmpty && rest.head? = some '/' }

/-- A host without the colon of an empty port. -/
def dropEmptyPort (host : List Nat) : List Nat :=
  if host.getLast? = some ':'.toNat then host.dropLast else host

/-- The parts of an address, or what is wrong and with which text. -/
def parse (s : List Char) : Except (List Char × UrlError) Url := do
  let (main, fragment) := (cut ['#'] s).getD (s, [])
  let url ← (parseMain main).mapError fun e => (main, e)
  let fragment ← (written .fragment fragment).mapError fun e => (s, e)
  return { url with fragment, host := dropEmptyPort url.host }

/-- A user as it is written, its password perhaps hidden. -/
def userText (hide : Bool) (u : UrlUser) : List Char :=
  escapeUrl .user u.name
    ++ match u.password with
      | none => []
      | some p => ':' :: if hide then ['*', '*', '*'] else escapeUrl .user p

def text (u : Url) (hide : Bool := false) : List Char :=
  let scheme := if u.scheme.isEmpty then [] else u.scheme ++ [':']
  let tail := (if u.emptyQuery || !u.query.isEmpty then '?' :: u.query else [])
    ++ if u.fragment.isEmpty then [] else '#' :: u.fragment
  if !u.rootless.isEmpty then scheme ++ u.rootless ++ tail
  else
    let authority :=
      if u.scheme.isEmpty && u.host.isEmpty && u.user.isNone then []
      else if u.bare && u.host.isEmpty && u.user.isNone then []
      else
        (if !u.host.isEmpty || !u.path.isEmpty || u.user.isSome then ['/', '/'] else [])
          ++ (match u.user with
            | some user => userText hide user ++ ['@']
            | none => [])
          ++ escapeUrl .host u.host
    let path := if !u.path.isEmpty && u.path.head? ≠ some '/' && !u.host.isEmpty
      then '/' :: u.path else u.path
    let lead := scheme ++ authority
    let dot := if lead.isEmpty && (u.path.takeWhile (· != '/')).contains ':' then ['.', '/'] else []
    lead ++ dot ++ path ++ tail

end Url

end Pagesmith.Http
