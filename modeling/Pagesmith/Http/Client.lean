import Pagesmith.Http.MediaType
import Pagesmith.Http.Url
import Pagesmith.Json.Reader
import Pagesmith.Json.Writer

/-!
# Requests and responses

A request carries its body as JSON. A response is a value with its status, headers and body; a JSON
body is decoded, any other is a text.  A status that tells of an error is no failure.

* `Transport`: what the network answers, and the requests it has seen.
* `HttpError`: why there is no response.
* `send`: the response to a request.
-/

namespace Pagesmith.Http

open Pagesmith.Text

inductive Method where
  | get
  | post
  | put
  | delete
  deriving DecidableEq, Repr

def Method.name : Method → String
  | .get => "GET"
  | .post => "POST"
  | .put => "PUT"
  | .delete => "DELETE"

def Method.title : Method → String
  | .get => "Get"
  | .post => "Post"
  | .put => "Put"
  | .delete => "Delete"

structure Request where
  method : Method
  url : String
  contentType : String
  body : String
  deriving DecidableEq, Repr

/-- What the network does with a request: it fails, or it gives a response, whose body may break
off. -/
inductive Reply where
  | failure (message : String)
  | response (status : Int) (headers : List (String × String)) (body : String)
      (broken : Option String)
  deriving Repr

/-- The network: its replies by method and address, and the requests it has seen. -/
structure Transport where
  replies : List (String × Reply)
  seen : List Request := []

inductive HttpError where
  | encode (method : Method) (cause : Json.WriteError)
  | address (text : List Char) (cause : UrlError)
  | network (method : Method) (url message : String)
  | broken (method : Method) (url message : String)
  deriving Repr

def HttpError.message : HttpError → String
  | .encode m e => "encode " ++ m.name ++ " body: " ++ e.message
  | .address t e => "parse " ++ String.ofList (quotedChars t) ++ ": " ++ e.message
  | .network m url text => m.title ++ " " ++ quoted url ++ ": " ++ text
  | .broken m url text => "read " ++ m.name ++ " " ++ url ++ ": " ++ text

/-- The name of a header: words with hyphens between them, each in capitals at its start.  A name
with other characters stays as it is. -/
def headerName (s : String) : String :=
  let valid (c : Char) : Bool := isTokenChar c && c ∉ ['\x7b', '\x7d']
  if s.toList.all valid then
    let rec go (start : Bool) : List Char → List Char
      | [] => []
      | c :: cs => (if start then c.toUpper else c.toLower) :: go (c == '-') cs
    String.ofList (go true s.toList)
  else s

def headerFields (headers : List (String × String)) : List (String × String) :=
  headers.map fun (k, v) => (headerName k, v)

def decodeBody (contentType body : String) : Value :=
  if mediaType? contentType.toList = some "application/json".toList then
    match Json.read body.toList with
    | .ok v => v
    | .error _ => .str body
  else .str body

def responseValue (status : Int) (headers : List (String × String)) (body : String) : Value :=
  let headers := headerFields headers
  let contentType := ((headers.find? (·.1 == "Content-Type")).map Prod.snd).getD ""
  Value.object
    [("status", .int status),
      ("ok", .bool (200 ≤ status && status < 300)),
      ("headers", Value.object (headers.map fun (k, v) => (k, .str v))),
      ("body", decodeBody contentType body)]

def requestBody (method : Method) (body : Value) : Except HttpError (Option String) :=
  if body.isNil then .ok none
  else
    match body.json with
    | .ok text => .ok (some text)
    | .error e => .error (.encode method e)

def prepare (method : Method) (url : String) (body : Value) : Except HttpError (Request × Url) := do
  let text ← requestBody method body
  match Url.parse url.toList with
  | .error (t, e) => throw (.address t e)
  | .ok address =>
    let contentType := if text.isSome then "application/json" else ""
    return (⟨method, String.ofList address.text, contentType, text.getD ""⟩, address)

def send (net : Transport) (method : Method) (url : String) (body : Value) :
    Except HttpError Value × Transport :=
  match prepare method url body with
  | .error e => (.error e, net)
  | .ok (request, address) =>
    let net := { net with seen := net.seen ++ [request] }
    let shown := String.ofList (address.text true)
    match (net.replies.find? (·.1 == method.name ++ " " ++ request.url)).map Prod.snd with
    | none => (.error (.network method shown "no route"), net)
    | some (.failure message) => (.error (.network method shown message), net)
    | some (.response status headers text broken) =>
      match broken with
      | some message => (.error (.broken method url message), net)
      | none => (.ok (responseValue status headers text), net)

end Pagesmith.Http
