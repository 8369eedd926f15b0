import Pagesmith.Expr.Eval
import Pagesmith.Http.Client

/-!
# Capabilities of page logic

Logic sees four globals: `db`, `api`, `socket` and `auth`.  Their functions are the capabilities,
and each has fixed parameters: an argument that is missing is absent, one too many is ignored, and
names and addresses are taken as texts.

* `Surface`: what the capabilities and the current user are in a world.
* `globals`: the environment that logic starts from.
* `inert`: a surface that stores nothing and knows nobody, with a network for requests.
* `recording`: a surface that answers from a script and notes every call.
-/

namespace Pagesmith.Logic

structure Surface (σ : Type) where
  user : σ → Answer × σ
  call : Capability → List Value → σ → Answer × σ

/-! ### Arguments -/

def argument (args : List Value) (i : Nat) : Value := args.getD i .nil

def textArgument (args : List Value) (i : Nat) : String :=
  match argument args i with
  | .nil => ""
  | v => v.text

def parameters (c : Capability) (args : List Value) : List Value :=
  match c with
  | .collection | .httpGet | .httpDelete => [.str (textArgument args 0)]
  | .find | .findOne | .insert | .remove | .login | .register => [argument args 0]
  | .update => [argument args 0, argument args 1]
  | .httpPost | .httpPut | .socketOn | .socketEmit | .socketBroadcast =>
    [.str (textArgument args 0), argument args 1]
  | .logout => []

def Surface.host {σ : Type} (s : Surface σ) : Host σ where
  call c args world := s.call c (parameters c args) world

/-! ### Globals -/

def collectionValue : Value :=
  Value.object
    [("find", .func .find), ("findOne", .func .findOne), ("insert", .func .insert),
      ("update", .func .update), ("delete", .func .remove)]

def globals (user : Value) : List (String × Value) :=
  Value.sortFields
    [("db", Value.object [("collection", .func .collection)]),
      ("api", Value.object
        [("get", .func .httpGet), ("post", .func .httpPost), ("put", .func .httpPut),
          ("delete", .func .httpDelete)]),
      ("socket", Value.object
        [("on", .func .socketOn), ("emit", .func .socketEmit),
          ("broadcast", Value.object [("emit", .func .socketBroadcast)])]),
      ("auth", Value.object
        [("user", user), ("login", .func .login), ("logout", .func .logout),
          ("register", .func .register)])]

/-! ### Surfaces -/

def anonymous : Value :=
  Value.object [("isAuthenticated", .bool false), ("id", .nil), ("roles", .array [])]

def request (method : Http.Method) (args : List Value) (net : Http.Transport) :
    Answer × Http.Transport :=
  match Http.send net method (textArgument args 0) (argument args 1) with
  | (.ok v, net) => (.value v, net)
  | (.error e, net) => (.failure e.message, net)

/-- Collections are empty and echo what is written, events go nowhere, and nobody is logged in. -/
def inert : Surface Http.Transport where
  user net := (.value anonymous, net)
  call c args net :=
    match c with
    | .collection => (.value collectionValue, net)
    | .find => (.value (.array []), net)
    | .findOne => (.value (.map []), net)
    | .insert => (.value (argument args 0), net)
    | .update => (.value (argument args 1), net)
    | .remove => (.value (.bool true), net)
    | .httpGet => request .get args net
    | .httpPost => request .post args net
    | .httpPut => request .put args net
    | .httpDelete => request .delete args net
    | .socketOn | .socketEmit | .socketBroadcast | .login | .logout | .register =>
      (.value .nil, net)

inductive Scripted where
  | value (v : Value)
  | failure (message : String)
  /-- Works for some milliseconds and gives nothing. -/
  | delay (ms : Nat)
  deriving Repr

/-- A script for calls by their names, the time a run may take, the time it has taken, and the calls
so far. -/
structure Recorder where
  script : List (String × Scripted)
  limit : Nat
  elapsed : Nat := 0
  calls : List (String × List Value) := []

def capabilityName : Capability → String
  | .collection => "db.collection"
  | .find => "db.find"
  | .findOne => "db.findOne"
  | .insert => "db.insert"
  | .update => "db.update"
  | .remove => "db.delete"
  | .httpGet => "api.get"
  | .httpPost => "api.post"
  | .httpPut => "api.put"
  | .httpDelete => "api.delete"
  | .socketOn => "socket.on"
  | .socketEmit => "socket.emit"
  | .socketBroadcast => "socket.broadcast.emit"
  | .login => "auth.login"
  | .logout => "auth.logout"
  | .register => "auth.register"

/-- A value if it is a list of anything, else an empty one. -/
def listOrEmpty : Value → Value
  | .list .any items => .array items
  | _ => .array []

def mapOrEmpty : Value → Value
  | .map fields => .map fields
  | _ => .map []

/-- A value if it is a truth value, else false. -/
def boolOrFalse : Value → Value
  | .bool b => .bool b
  | _ => .bool false

/-- What a capability gives, made from what the script says. -/
def scriptedResult (c : Capability) (v : Option Value) : Value :=
  match c with
  | .collection => collectionValue
  | .find => listOrEmpty (v.getD (.array []))
  | .findOne => mapOrEmpty (v.getD (.map []))
  | .remove => boolOrFalse (v.getD (.bool true))
  | .socketOn | .socketEmit | .socketBroadcast | .logout => .nil
  | _ => v.getD .nil

def Recorder.perform (r : Recorder) (name : String) (args : List Value)
    (result : Option Value → Value) : Answer × Recorder :=
  let r := { r with calls := r.calls ++ [(name, args)] }
  match (r.script.find? (·.1 == name)).map Prod.snd with
  | none => (.value (result none), r)
  | some (.value v) => (.value (result (some v)), r)
  | some (.failure message) => (.failure message, r)
  | some (.delay ms) =>
    let r := { r with elapsed := r.elapsed + ms }
    if r.limit ≤ r.elapsed then (.timeout, r) else (.value (result (some .nil)), r)

def recording : Surface Recorder where
  user r := r.perform "auth.user" [] fun v => mapOrEmpty (v.getD (.map []))
  call c args r :=
    if c = .collection then
      (.value collectionValue, { r with calls := r.calls ++ [(capabilityName c, args)] })
    else r.perform (capabilityName c) args (scriptedResult c)

end Pagesmith.Logic
