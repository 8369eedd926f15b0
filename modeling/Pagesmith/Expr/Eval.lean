import Pagesmith.Expr.Builtin

/-!
# Running expressions

An expression runs in an environment of named values and may call capabilities, which change the
world outside.  It can stop before it has a value: an operation fails at a node, time runs out while
a capability works, or an optional chain meets an absent value.

Lists, maps and ranges that an expression makes are counted, and too many elements stop it.

* `Host`: what the capabilities do to a world.
* `eval`: the value of an expression.
-/

namespace Pagesmith

inductive Answer where
  | value (v : Value)
  | failure (message : String)
  | timeout
  deriving Repr

structure Host (σ : Type) where
  call : Capability → List Value → σ → Answer × σ

namespace Expr

inductive Stop where
  | fault (pos : Nat) (cause : RunError)
  /-- An optional chain met an absent value. -/
  | broken
  | timeout
  deriving Repr

structure Machine (σ : Type) where
  world : σ
  made : Nat := 0

/-- Runs.  What they did to the world stays done when they stop. -/
abbrev Eval (σ : Type) := ExceptT Stop (StateM (Machine σ))

/-- The names and elements that predicates and bindings give to an expression. -/
structure Frame where
  vars : List (String × Value) := []
  /-- For each predicate around an expression, the element, its index, and the value gathered. -/
  elements : List (Value × Nat × Value) := []

abbrev Suspended (σ : Type) := Frame → Eval σ Value

/-! ### Steps -/

def stopAt {σ α : Type} (pos : Nat) (cause : RunError) : Eval σ α := throw (.fault pos cause)

def attempt {σ α : Type} (pos : Nat) (r : Except RunError α) : Eval σ α :=
  match r with
  | .ok a => pure a
  | .error cause => stopAt pos cause

/-- The greatest number of elements that a run may make, and one more. -/
def budget : Nat := 1000000

def grow {σ : Type} (pos n : Nat) : Eval σ Unit := do
  modify fun m => { m with made := m.made + n }
  if budget ≤ (← get).made then stopAt pos .memory

def rangeValue {σ : Type} (pos : Nat) (a b : Value) : Eval σ Value := do
  let low ← attempt pos a.toInt
  let high ← attempt pos b.toInt
  let n := (high - low + 1).toNat
  grow pos n
  return .list .int ((List.range n).map fun (i : Nat) => .int (low + i))

/-- The map of some pairs, given as lists of a name and a value.  The first pair of a name
counts. -/
def mapValue {σ : Type} (pos : Nat) (pairs : List Value) : Eval σ Value := do
  grow pos pairs.length
  let fields ← pairs.foldrM (fun pair fields => do
    match pair with
    | .list _ [k, v] =>
      let name ← attempt pos k.toStr
      return fields ++ [(name, v)]
    | _ => return fields) []
  return Value.object fields

/-- The kind of a value that is no function, in messages about calls. -/
def kindName : Value → String
  | .nil => "zero Value"
  | .bool _ => "bool Value"
  | .int _ => "int Value"
  | .float _ => "float64 Value"
  | .str _ | .markup _ => "string Value"
  | .described _ => "struct Value"
  | .list .. => "slice Value"
  | .map _ => "map Value"
  | .func _ => "func Value"

/-- The arguments of a capability.  A first argument that is absent counts as an empty list, and no
later one may be absent. -/
def passArguments (args : List Value) : Except RunError (List Value) :=
  match (args.zipIdx.reverse.find? fun (v, i) => v.isNil && 0 < i) with
  | some (_, i) => .error (.argumentIndex i)
  | none => .ok (args.map fun v => if v.isNil then .array [] else v)

def callFailure (v : Value) (args : List Value) : RunError :=
  if args.any Value.isNil then
    if v.isNil then .reflected "Type" (kindName v) else .parameterOf v.typeName
  else .reflected "Call" (kindName v)

def callValue {σ : Type} (h : Host σ) (pos : Nat) (f : Value) (args : List Value) :
    Eval σ Value := do
  match f with
  | .func c =>
    let args ← attempt pos (passArguments args)
    let m ← get
    let (answer, world) := h.call c args m.world
    set { m with world := world }
    match answer with
    | .value v => return v
    | .failure message => stopAt pos (.outside message)
    | .timeout => throw .timeout
  | _ => stopAt pos (callFailure f args)

/-! ### Passes over lists -/

def passItems {σ : Type} (pos : Nat) (v : Value) : Eval σ (List Value) :=
  match v with
  | .list _ items => return items
  | .str s | .markup s => return (Text.encode s.toList).map fun (b : Nat) => .int b
  | .map [] => return []
  | .map _ => stopAt pos (.reflected "Index" (kindName v))
  | _ => stopAt pos (.reflected "Len" (kindName v))

def onElement {σ : Type} (fr : Frame) (body : Suspended σ) (v : Value) (i : Nat)
    (gathered : Value := .nil) : Eval σ Value :=
  body { fr with elements := (v, i, gathered) :: fr.elements }

def holdsFor {σ : Type} (pos : Nat) (fr : Frame) (body : Suspended σ) (v : Value) (i : Nat) :
    Eval σ Bool := do
  attempt pos (← onElement fr body v i).toBool

/-- The first element that a predicate holds for, with its index. -/
def findElement {σ : Type} (pos : Nat) (fr : Frame) (body : Suspended σ) :
    List (Value × Nat) → Eval σ (Option (Value × Nat))
  | [] => return none
  | (v, i) :: rest => do
    if ← holdsFor pos fr body v i then return some (v, i) else findElement pos fr body rest

def keepElements {σ : Type} (pos : Nat) (fr : Frame) (body : Suspended σ)
    (items : List (Value × Nat)) : Eval σ (List Value) := do
  let kept ← items.filterM fun (v, i) => holdsFor pos fr body v i
  return kept.map Prod.fst

/-- The value gathered from the elements, one after another. -/
def gather {σ : Type} (fr : Frame) (body : Suspended σ) (start : Value)
    (items : List (Value × Nat)) : Eval σ Value :=
  items.foldlM (fun acc (v, i) => onElement fr body v i acc) start

def passValue {σ : Type} (pos : Nat) (name : String) (fr : Frame) (items : List (Value × Nat))
    (body : Suspended σ) (rest : List (Suspended σ)) : Eval σ Value := do
  let found (r : Option (Value × Nat)) (insist : Bool) : Eval σ Value :=
    match r with
    | some (v, _) => return v
    | none => if insist then stopAt pos .sliceIndex else return .nil
  let index (r : Option (Value × Nat)) : Value := (r.map fun (_, i) => Value.int i).getD .nil
  match name with
  | "all" => do
    let r ← findElement pos fr (fun f => do return .bool !(← attempt pos (← body f).toBool)) items
    return .bool r.isNone
  | "none" => return .bool (← findElement pos fr body items).isNone
  | "any" => return .bool (← findElement pos fr body items).isSome
  | "one" => return .bool ((← keepElements pos fr body items).length == 1)
  | "count" => return .int (← keepElements pos fr body items).length
  | "filter" =>
    let kept ← keepElements pos fr body items
    grow pos kept.length
    return .array kept
  | "map" =>
    let vs ← items.mapM fun (v, i) => onElement fr body v i
    grow pos vs.length
    return .array vs
  | "filter+map" =>
    let vs ← items.filterMapM fun (v, i) => do
      if ← holdsFor pos fr body v i then
        match rest with
        | f :: _ => return some (← onElement fr f v i)
        | [] => return some v
      else return none
    grow pos vs.length
    return .array vs
  | "find" => found (← findElement pos fr body items) false
  | "find+" => found (← findElement pos fr body items) true
  | "findLast" => found (← findElement pos fr body items.reverse) false
  | "findLast+" => found (← findElement pos fr body items.reverse) true
  | "findIndex" => return index (← findElement pos fr body items)
  | "findLastIndex" => return index (← findElement pos fr body items.reverse)
  | "sum" =>
    items.foldlM (fun acc (v, i) => do attempt pos ((← onElement fr body v i).add acc)) (.int 0)
  | "reduce" =>
    match rest, items with
    | start :: _, _ => gather fr body (← start fr) items
    | [], (v, _) :: items => gather fr body v items
    | [], [] => stopAt pos (.outside "reduce of empty array with no initial value")
  | _ => stopAt pos (.unsupported name)

def isPass (name : String) : Bool :=
  (predicateParameters? name).isSome || name ∈ ["filter+map", "find+", "findLast+"]

def builtinCall {σ : Type} (pos : Nat) (name : String) (args : List (Suspended σ)) (fr : Frame) :
    Eval σ Value := do
  if isPass name then
    match args with
    | list :: rest =>
      let items ← passItems pos (← list fr)
      let element : Suspended σ := fun f => return (f.elements.head?.map Prod.fst).getD .nil
      match rest with
      | body :: more => passValue pos name fr items.zipIdx body more
      | [] => passValue pos name fr items.zipIdx element []
    | [] => stopAt pos (.unsupported name)
  else
    let values ← args.mapM fun a => a fr
    attempt pos (builtinValue name values)

def pointerValue (fr : Frame) (name : String) : Value :=
  match fr.elements, name with
  | (v, _, _) :: _, "" => v
  | (_, i, _) :: _, "index" => .int i
  | (_, _, acc) :: _, "acc" => acc
  | _, _ => .nil

def nameValue (env : List (String × Value)) (fr : Frame) (name : String) : Value :=
  match fr.vars.find? (·.1 == name) with
  | some (_, v) => v
  | none => if name = "$env" then .map env else (Value.field? env name).getD .nil

def memberOfTexts (v : Value) (set : List String) : Except RunError Value :=
  match v with
  | .str s => .ok (.bool (set.contains s))
  | .nil => .ok (.bool (set.contains ""))
  | _ => .error (.keyType v)

def memberOfInts (v : Value) (set : List Int) : Value :=
  match v with
  | .int n => .bool (set.contains n)
  | _ => .bool false

/-! ### Expressions -/

mutual

/-- The value of an expression.  A pair has the list of its name and its value. -/
def eval {σ : Type} (h : Host σ) (env : List (String × Value)) : Expr → Suspended σ
  | .nil _ => fun _ => return .nil
  | .bool _ b => fun _ => return .bool b
  | .int _ n => fun _ => return .int n
  | .float _ x => fun _ => return .float x
  | .str _ s => fun _ => return .str s
  | .const _ v => fun _ => return v
  | .ident _ name => fun fr => return nameValue env fr name
  | .unary p op e => fun fr => do attempt p (unaryValue op (← eval h env e fr))
  | .binary p op l r => fun fr => do
    let a ← eval h env l fr
    match op with
    | .and | .amps => if ← attempt p a.toBool then eval h env r fr else return a
    | .or | .bars => if ← attempt p a.toBool then return a else eval h env r fr
    | .coalesce => if a.isNil then eval h env r fr else return a
    | .range => rangeValue p a (← eval h env r fr)
    | _ => attempt p (binaryValue op a (← eval h env r fr))
  | .chain _ e => fun fr => tryCatch (eval h env e fr) fun
    | .broken => return .nil
    | stop => throw stop
  | .member p e prop optional _ => fun fr => do
    let base ← eval h env e fr
    if optional && base.isNil then throw .broken
    attempt p (base.fetch (← eval h env prop fr))
  | .slice p e low high => fun fr => do
    let v ← eval h env e fr
    let b ← match ← evalBound h env high fr with
      | some b => pure b
      | none => do pure (.int (← attempt p v.size))
    let a := (← evalBound h env low fr).getD (.int 0)
    attempt p (v.cut a b)
  | .call p callee args => fun fr => do
    let values ← (suspend h env args).mapM fun a => a fr
    callValue h p (← eval h env callee fr) values
  | .builtin p name args => fun fr => builtinCall p name (suspend h env args) fr
  | .predicate _ e => fun fr => eval h env e fr
  | .pointer _ name => fun fr => return pointerValue fr name
  | .cond p c t e => fun fr => do
    let v ← eval h env c fr
    if ← attempt p v.toBool then eval h env t fr else eval h env e fr
  | .array p items => fun fr => do
    let values ← (suspend h env items).mapM fun a => a fr
    grow p values.length
    return .array values
  | .map p pairs => fun fr => do
    let values ← (suspend h env pairs).mapM fun a => a fr
    mapValue p values
  | .pair _ key value => fun fr => do
    let k ← eval h env key fr
    return .array [k, ← eval h env value fr]
  | .binding _ name value body => fun fr => do
    let v ← eval h env value fr
    eval h env body { fr with vars := (name, v) :: fr.vars }
  | .sequence _ items => fun fr => do
    let values ← (suspend h env items).mapM fun a => a fr
    return values.getLastD .nil
  | .memInts _ e set => fun fr => do return memberOfInts (← eval h env e fr) set
  | .memStrs p e set => fun fr => do attempt p (memberOfTexts (← eval h env e fr) set)

def suspend {σ : Type} (h : Host σ) (env : List (String × Value)) :
    List Expr → List (Suspended σ)
  | [] => []
  | e :: es => eval h env e :: suspend h env es

def evalBound {σ : Type} (h : Host σ) (env : List (String × Value)) :
    Option Expr → Frame → Eval σ (Option Value)
  | none => fun _ => return none
  | some e => fun fr => do return some (← eval h env e fr)

end

end Expr

end Pagesmith
