import Pagesmith.Expr.Place
import Pagesmith.Expr.Syntax
import Pagesmith.Expr.Type
import Pagesmith.Regex.Parser

/-!
# Type check

An expression is checked against the types of its environment before it runs.  Where nothing is
known about an operand, every operation on it is admitted.

The check also settles two tests for membership that it alone can settle: an integer in a list of
integer literals, and anything in a list of text literals, become look-ups in a set.

* `TypeError`: what the check finds wrong.
* `Typing`: the names that an expression can use.
* `infer`: the type of an expression, and the expression with its settled membership tests.
-/

namespace Pagesmith.Expr

inductive TypeError where
  | unknownName (name : String)
  | unary (op : UnaryOp) (t : Ty)
  | binary (op : BinaryOp) (l r : Ty)
  | mapKey (t : Ty)
  | listElement (t elem : Ty)
  | pattern (e : RegexError)
  | nilField (name : String)
  | noField (t : Ty) (name : String)
  | noMethod (t : Ty) (name : String)
  | noIndex (t index : Ty)
  | badMapIndex (index t : Ty)
  | badListIndex (index : Ty)
  | notSliceable (t : Ty)
  | badBound (t : Ty)
  | callNil (name : String)
  | notCallable (t : Ty)
  | fewArguments (name : String)
  | manyArguments (name : String)
  | badArgument (t param : Ty) (name : String)
  | nilArgument (param : Ty) (name : String)
  | notList (name : String) (t : Ty)
  | predicateType (t : Ty)
  | predicateShape
  | condition (t : Ty)
  | redeclared (what name : String)
  | strayPointer
  | unknownPointer (name : String)
  | argumentCount (expected : String) (n : Nat)
  | invalidArgument (name typeName : String)
  | noElement (which typeName : String)
  | notSortable (typeName : String)
  | sortOrder (typeName : String)
  deriving Repr

def TypeError.message : TypeError → String
  | .unknownName n => "unknown name " ++ n
  | .unary op t => "invalid operation: " ++ op.text ++ " (mismatched type " ++ t.name ++ ")"
  | .binary op l r =>
    "invalid operation: " ++ op.text ++ " (mismatched types " ++ l.name ++ " and " ++ r.name ++ ")"
  | .mapKey t => "cannot use " ++ t.name ++ " as type string in map key"
  | .listElement t e => "cannot use " ++ t.name ++ " as type " ++ e.name ++ " in array"
  | .pattern e => e.message
  | .nilField n => "type nil has no field " ++ n
  | .noField t n => "type " ++ t.name ++ " has no field " ++ n
  | .noMethod t n => "type " ++ t.name ++ " has no method " ++ n
  | .noIndex t i => "type " ++ t.name ++ "[" ++ i.name ++ "] is undefined"
  | .badMapIndex i t => "cannot use " ++ i.name ++ " to get an element from " ++ t.name
  | .badListIndex i =>
    "array elements can only be selected using an integer (got " ++ i.name ++ ")"
  | .notSliceable t => "cannot slice " ++ t.name
  | .badBound t => "non-integer slice index " ++ t.name
  | .callNil n => n ++ " is nil; cannot call nil as function"
  | .notCallable t => t.name ++ " is not callable"
  | .fewArguments n => "not enough arguments to call " ++ n
  | .manyArguments n => "too many arguments to call " ++ n
  | .badArgument t p n =>
    "cannot use " ++ t.name ++ " as argument (type " ++ p.name ++ ") to call " ++ n ++ " "
  | .nilArgument p n => "cannot use nil as argument (type " ++ p.name ++ ") to call " ++ n
  | .notList n t => "builtin " ++ n ++ " takes only array (got " ++ t.name ++ ")"
  | .predicateType t => "predicate should return boolean (got " ++ t.name ++ ")"
  | .predicateShape => "predicate should has one input and one output param"
  | .condition t => "non-bool expression (type " ++ t.name ++ ") used as condition"
  | .redeclared what n => "cannot redeclare " ++ what ++ n
  | .strayPointer => "cannot use pointer accessor outside predicate"
  | .unknownPointer n => "unknown pointer #" ++ n
  | .argumentCount e n =>
    "invalid number of arguments (expected " ++ e ++ ", got " ++ toString n ++ ")"
  | .invalidArgument n t => "invalid argument for " ++ n ++ " (type " ++ t ++ ")"
  | .noElement which t => "cannot get " ++ which ++ " element from " ++ t
  | .notSortable t => "cannot sort " ++ t
  | .sortOrder t => "invalid argument for sort (expected string, got " ++ t ++ ")"

/-- The names that an expression can use: those of the environment, those it binds itself, and for
each predicate around it the type of its list and its named values. -/
structure Typing where
  env : String → Option Ty
  vars : List (String × Ty) := []
  scopes : List (Ty × List (String × Ty)) := []

abbrev Checked := Except (Located TypeError)

def wrong {α : Type} (pos : Nat) (cause : TypeError) : Checked α := .error ⟨pos, cause⟩

/-! ### Operators -/

def unaryType (pos : Nat) (op : UnaryOp) (t : Ty) : Checked Ty :=
  match op with
  | .not | .bang => if t.isBool || t.isUnknown then .ok .bool else wrong pos (.unary op t)
  | .neg | .plus =>
    if t.isNumber then .ok t else if t.isUnknown then .ok .unknown else wrong pos (.unary op t)

/-- The type of a number that an operation on two numbers gives. -/
def combined (l r : Ty) : Ty := if l.isInt && r.isInt then .int else .float

def memberType (pos : Nat) (l r : Ty) : Checked Ty :=
  match r with
  | .map => if l.isUnknown || l == .str then .ok .bool else wrong pos (.mapKey l)
  | .list _ e => if l.comparable e then .ok .bool else wrong pos (.listElement l e)
  | _ =>
    if r.isUnknown || (l.isUnknown && r.isText) then .ok .bool else wrong pos (.binary .mem l r)

def binaryType (pos : Nat) (op : BinaryOp) (l r : Ty) : Checked Ty :=
  let both (p : Ty → Bool) : Bool := p l && p r
  let bad : Checked Ty := wrong pos (.binary op l r)
  match op with
  | .eq | .ne => if l.comparable r then .ok .bool else bad
  | .or | .bars | .and | .amps =>
    if both Ty.isBool || Ty.mayBoth Ty.isBool l r then .ok .bool else bad
  | .lt | .gt | .ge | .le =>
    if both Ty.isNumber || both Ty.isText
        || Ty.mayBoth (fun t => t.isNumber || t.isText) l r then .ok .bool
    else bad
  | .sub | .mul =>
    if both Ty.isNumber then .ok (combined l r)
    else if Ty.mayBoth Ty.isNumber l r then .ok .unknown
    else bad
  | .div | .pow | .caret =>
    if both Ty.isNumber || Ty.mayBoth Ty.isNumber l r then .ok .float else bad
  | .mod => if both Ty.isInt || Ty.mayBoth Ty.isInt l r then .ok .int else bad
  | .add =>
    if both Ty.isNumber then .ok (combined l r)
    else if both Ty.isText then .ok .str
    else if Ty.mayBoth (fun t => t.isNumber || t.isText) l r then .ok .unknown
    else bad
  | .mem => memberType pos l r
  | .matches | .contains | .startsWith | .endsWith =>
    if both Ty.isText || Ty.mayBoth Ty.isText l r then .ok .bool else bad
  | .range =>
    if both Ty.isInt || Ty.mayBoth Ty.isInt l r then .ok (.list .int .int) else bad
  | .coalesce =>
    if l.isNil then .ok r
    else if r.isNil then .ok l
    else if r.assignable l then .ok r
    else .ok .unknown

def checkPattern (pos : Nat) : Expr → Checked Unit
  | .str _ s =>
    match Regex.parse s.toList with
    | .ok _ => .ok ()
    | .error e => wrong pos (.pattern e)
  | _ => .ok ()

def intLiterals? : List Expr → Option (List Int)
  | [] => some []
  | .int _ n :: es => (intLiterals? es).map (n :: ·)
  | _ => none

def strLiterals? : List Expr → Option (List String)
  | [] => some []
  | .str _ s :: es => (strLiterals? es).map (s :: ·)
  | _ => none

/-- A membership test, settled where its list consists of literals. -/
def settleMember (pos : Nat) (t : Ty) (l r : Expr) : Expr :=
  match r with
  | .array _ (e :: es) =>
    match if t.isInt then intLiterals? (e :: es) else none with
    | some ns => .memInts pos l ns
    | none =>
      match strLiterals? (e :: es) with
      | some ss => .memStrs pos l ss
      | none => .binary pos .mem l r
  | _ => .binary pos .mem l r

/-! ### Members -/

def literalName? : Expr → Option String
  | .str _ s => some s
  | _ => none

def memberOf (pos : Nat) (base index : Ty) (prop : Expr) (method : Bool) : Checked Ty :=
  if base.isUnknown then .ok .unknown
  else
    match base, literalName? prop with
    | .nil, some name => wrong pos (.nilField name)
    | .map, _ =>
      if index == .str || index.isUnknown then .ok .any
      else wrong prop.pos (.badMapIndex index base)
    | .list _ e, _ =>
      if index.isInt || index.isUnknown then .ok e else wrong prop.pos (.badListIndex index)
    | _, some name =>
      if method then wrong pos (.noMethod base name) else wrong pos (.noField base name)
    | _, none => wrong pos (.noIndex base index)

def calleeName : Expr → String
  | .ident _ name => name
  | .member _ _ prop _ _ => (literalName? prop).getD "function"
  | _ => "function"

/-! ### Built-in functions -/

/-- A way to call a function: the types of its parameters and of its result. -/
structure Signature where
  params : List Ty
  result : Ty

/-- The ways to call the built-in functions that are declared by their types. -/
def signatures (name : String) : List Signature :=
  let strs : Ty := .list .str .str
  let anys : Ty := .list .any .any
  match name with
  | "upper" | "lower" => [⟨[.str], .str⟩]
  | "trim" => [⟨[.str], .str⟩, ⟨[.str, .str], .str⟩]
  | "trimPrefix" | "trimSuffix" => [⟨[.str, .str], .str⟩, ⟨[.str], .str⟩]
  | "split" | "splitAfter" => [⟨[.str, .str], strs⟩, ⟨[.str, .str, .int], strs⟩]
  | "replace" => [⟨[.str, .str, .str, .int], .str⟩, ⟨[.str, .str, .str], .str⟩]
  | "repeat" => [⟨[.str, .int], .str⟩]
  | "join" => [⟨[strs, .str], .str⟩, ⟨[anys, .str], .str⟩, ⟨[anys], .str⟩, ⟨[strs, .str], .str⟩,
      ⟨[strs], .str⟩]
  | "indexOf" | "lastIndexOf" => [⟨[.str, .str], .int⟩]
  | "hasPrefix" | "hasSuffix" => [⟨[.str, .str], .bool⟩]
  | "string" | "type" => [⟨[.any], .str⟩]
  | _ => []

/-- A list of arguments, each with the outcome of its own check. -/
abbrev Arguments := List (Nat × Checked (Ty × Expr))

/-- The first failure among the arguments. -/
def checkEach (args : Arguments) : Checked (List (Ty × Expr)) := args.mapM Prod.snd

/-- Matches arguments with parameters, in order.  The outer failure is that of an argument itself,
the inner one that of a mismatch. -/
def matchParams (name : String) : List Ty → Arguments → Checked (Checked Unit)
  | p :: ps, (pos, arg) :: args => do
    let (t, _) ← arg
    if t.isNil then
      if p == .any then matchParams name ps args else return wrong pos (.nilArgument p name)
    else if t.isUnknown || t.assignable p then matchParams name ps args
    else return wrong pos (.badArgument t p name)
  | _, _ => return .ok ()

/-- The result of the first way to call a function that fits, or the mismatch of the last. -/
def resolve (pos : Nat) (name : String) (args : Arguments) : List Signature → Checked Ty
  | [] => .ok .any
  | s :: rest => do
    let fits : Checked Unit ←
      if s.params.length < args.length then
        let _ ← checkEach args
        pure (wrong pos (.manyArguments name))
      else if args.length < s.params.length then
        let _ ← checkEach args
        pure (wrong pos (.fewArguments name))
      else matchParams name s.params args
    match fits with
    | .ok () => return s.result
    | .error e => if rest.isEmpty then .error e else resolve pos name args rest

def shownType (t : Ty) : String := if t.isNil then "%!s(<nil>)" else t.name

/-- The result of a built-in function that checks its arguments by rules of its own. -/
def ruleType (pos : Nat) (name : String) (ts : List Ty) : Option (Checked Ty) :=
  let one (f : Ty → Checked Ty) : Option (Checked Ty) :=
    match ts with
    | [t] => some (f (if t.isUnknown then .any else t))
    | _ => some (wrong pos (.argumentCount "1" ts.length))
  let number (t : Ty) (result : Ty) : Checked Ty :=
    if t == .any || t.isNumber then .ok result else wrong pos (.invalidArgument name (shownType t))
  match name with
  | "len" => one fun t =>
    if t == .any || t.isList || t == .map || t.isText then .ok .int
    else wrong pos (.invalidArgument name (shownType t))
  | "abs" => one fun t => number t t
  | "ceil" | "floor" | "round" => one fun t => number t .float
  | "int" => one fun t => if t == .str then .ok .int else number t .int
  | "float" => one fun t => if t == .str then .ok .float else number t .float
  | "first" | "last" => one fun t =>
    match t with
    | .any => .ok .any
    | .list kind _ => .ok (Ty.ofKind kind)
    | _ => wrong pos (.noElement name (shownType t))
  | "sort" =>
    match ts with
    | t :: rest =>
      if 1 < rest.length then some (wrong pos (.argumentCount "1 or 2" ts.length))
      else if !(t.isUnknown || t.isList) then some (wrong pos (.notSortable (shownType t)))
      else
        match rest with
        | [o] =>
          if o.isText || o.isUnknown then some (.ok (.list .any .any))
          else some (wrong pos (.sortOrder (shownType o)))
        | _ => some (.ok (.list .any .any))
    | [] => some (wrong pos (.argumentCount "1 or 2" 0))
  | "max" | "min" | "mean" | "median" | "sum" => some (.ok .any)
  | _ => none

/-- The type that a predicate gives, if it gives anything. -/
def predicateResult (pos : Nat) (t : Ty) : Checked Ty :=
  if t.isNil then wrong pos .predicateShape else .ok t

def decides (pos : Nat) (t : Ty) : Checked Unit := do
  let t ← predicateResult pos t
  if t.isBool || t.isUnknown then return () else wrong pos (.predicateType t)

/-- The type of a function on a list, given the type of its predicate if it has one. -/
def listResult (name : String) (list : Ty) (predicate : Option (Nat × Ty)) : Checked Ty :=
  let elem : Ty := if list.isUnknown then .unknown else list.elem
  let elems : Ty := if list.isUnknown then .list .any .any else .list .any elem
  match name, predicate with
  | "map", some (pos, t) => do return .list .any (← predicateResult pos t)
  | "sum", some (pos, t) => predicateResult pos t
  | "sum", none => .ok elem
  | "groupBy", some (pos, t) => do
    let _ ← predicateResult pos t
    return .map
  | "sortBy", some (pos, t) => do
    let _ ← predicateResult pos t
    return elems
  | "reduce", some (pos, t) => predicateResult pos t
  | _, some (pos, t) => do
    decides pos t
    match name with
    | "filter" => return elems
    | "find" | "findLast" => return elem
    | "count" | "findIndex" | "findLastIndex" => return .int
    | _ => return .bool
  | _, none => .ok .int

/-! ### The check -/

/-- The type of a name that an expression does not bind itself. -/
def nameType (c : Typing) (pos : Nat) (name : String) : Checked Ty :=
  match c.env name with
  | some t => .ok t
  | none => if name ∈ builtinNames then .ok .func else wrong pos (.unknownName name)

def pointerType (c : Typing) (pos : Nat) (name : String) : Checked Ty :=
  match c.scopes with
  | [] => wrong pos .strayPointer
  | (list, named) :: _ =>
    if name.isEmpty then .ok (if list.isUnknown then .unknown else list.elem)
    else
      match named.find? (·.1 == name) with
      | some (_, t) => .ok t
      | none => wrong pos (.unknownPointer name)

def choiceType (t e : Ty) : Ty :=
  if t.isNil then e else if e.isNil then t else if t.assignable e then t else .unknown

def listType : List Ty → Ty
  | [] => .list .any .unknown
  | t :: ts =>
    if (t :: ts).zip ts |>.all fun (a, b) => a.sameShape b then .list .any ((t :: ts).getLastD t)
    else .list .any .any

def redeclaration? (c : Typing) (name : String) : Option TypeError :=
  if (c.env name).isSome then some (.redeclared "" name)
  else if name ∈ builtinNames then some (.redeclared "builtin " name)
  else if c.vars.any (·.1 == name) then some (.redeclared "variable " name)
  else none

/-- Whether a member is looked up in the environment itself. -/
def isEnv : Expr → Bool
  | .ident _ name => name == "$env"
  | _ => false

mutual

def infer (c : Typing) : Expr → Checked (Ty × Expr)
  | .nil p => .ok (.nil, .nil p)
  | .bool p b => .ok (.bool, .bool p b)
  | .int p n => .ok (.int, .int p n)
  | .float p x => .ok (.float, .float p x)
  | .str p s => .ok (.str, .str p s)
  | .ident p name =>
    match c.vars.find? (·.1 == name) with
    | some (_, t) => .ok (t, .ident p name)
    | none => do
      if name = "$env" then return (.unknown, .ident p name)
      return (← nameType c p name, .ident p name)
  | .unary p op e => do
    let (t, e) ← infer c e
    return (← unaryType p op t, .unary p op e)
  | .binary p op l r => do
    let (s, l) ← infer c l
    let (t, r) ← infer c r
    if op = .matches then checkPattern p r
    let u ← binaryType p op s t
    return (u, if op = .mem then settleMember p s l r else .binary p op l r)
  | .chain p e => do
    let (t, e) ← infer c e
    return (t, .chain p e)
  | .member p e prop optional method => do
    if isEnv e then
      match literalName? prop with
      | some name =>
        match c.env name with
        | some t => return (t, .member p e prop optional method)
        | none =>
          if optional then return (.unknown, .member p e prop optional method)
          else wrong p (.unknownName name)
      | none => return (.unknown, .member p e prop optional method)
    else
      let (t, e) ← infer c e
      let (i, prop) ← infer c prop
      return (← memberOf p t i prop method, .member p e prop optional method)
  | .slice p e low high => do
    let (t, e) ← infer c e
    if t.isUnknown then return (.unknown, .slice p e low high)
    if !(t.isText || t.isList) then wrong p (.notSliceable t)
    let low ← inferBound c low
    let high ← inferBound c high
    return (t, .slice p e low high)
  | .call p callee args => do
    let name := calleeName callee
    let (t, callee) ← infer c callee
    if t.isUnknown then return (.unknown, .call p callee args)
    if t.isNil then wrong p (.callNil name)
    if t != .func then wrong p (.notCallable t)
    let args ← checkEach (inferEach c args)
    return (.any, .call p callee (args.map Prod.snd))
  | .builtin p name args =>
    match predicateParameters? name with
    | some _ => inferListCall c p name args
    | none => do
      let outcomes := inferEach c args
      match signatures name with
      | [] =>
        let pairs ← checkEach outcomes
        let t ← (ruleType p name (pairs.map Prod.fst)).getD (.ok .any)
        return (t, .builtin p name (pairs.map Prod.snd))
      | sigs =>
        let t ← resolve p name outcomes sigs
        let pairs ← checkEach outcomes
        return (t, .builtin p name (pairs.map Prod.snd))
  | .predicate p e => do
    let (t, e) ← infer c e
    return (t, .predicate p e)
  | .pointer p name => do return (← pointerType c p name, .pointer p name)
  | .cond p i t e => do
    let (u, i) ← infer c i
    if !(u.isBool || u.isUnknown) then wrong i.pos (.condition u)
    let (s, t) ← infer c t
    let (v, e) ← infer c e
    return (choiceType s v, .cond p i t e)
  | .array p items => do
    let pairs ← checkEach (inferEach c items)
    return (listType (pairs.map Prod.fst), .array p (pairs.map Prod.snd))
  | .map p items => do
    let pairs ← checkEach (inferEach c items)
    return (.map, .map p (pairs.map Prod.snd))
  | .pair p key value => do
    let (_, key) ← infer c key
    let (_, value) ← infer c value
    return (.nil, .pair p key value)
  | .binding p name value body => do
    match redeclaration? c name with
    | some cause => wrong p cause
    | none => pure ()
    let (t, value) ← infer c value
    let (u, body) ← infer { c with vars := (name, t) :: c.vars } body
    return (u, .binding p name value body)
  | .sequence p items => do
    let pairs ← checkEach (inferEach c items)
    return ((pairs.map Prod.fst).getLastD .unknown, .sequence p (pairs.map Prod.snd))
  | .const p v => .ok (Ty.ofValue v, .const p v)
  | .memInts p e set => .ok (.bool, .memInts p e set)
  | .memStrs p e set => .ok (.bool, .memStrs p e set)

/-- The outcome of every expression of a list, with its position. -/
def inferEach (c : Typing) : List Expr → Arguments
  | [] => []
  | e :: es => (e.pos, infer c e) :: inferEach c es

def inferListCall (c : Typing) (p : Nat) (name : String) : List Expr → Checked (Ty × Expr)
  | [] => .ok (.unknown, .builtin p name [])
  | first :: rest => do
    let (list, e) ← infer c first
    if !(list.isList || list.isUnknown) then wrong e.pos (.notList name list)
    let named := if name = "reduce" then [("index", Ty.int), ("acc", Ty.unknown)] else []
    match ← inferBody c { c with scopes := (list, named) :: c.scopes } rest with
    | none => return (← listResult name list none, .builtin p name [e])
    | some (t, body, more) =>
      return (← listResult name list (some (body.pos, t)), .builtin p name (e :: body :: more))

/-- The predicate of a function on a list, under names of its own, and the arguments after it. -/
def inferBody (c inner : Typing) : List Expr → Checked (Option (Ty × Expr × List Expr))
  | [] => .ok none
  | body :: rest => do
    let (t, body) ← infer inner body
    let more ← checkEach (inferEach c rest)
    return some (t, body, more.map Prod.snd)

def inferBound (c : Typing) : Option Expr → Checked (Option Expr)
  | none => .ok none
  | some e => do
    let (t, e') ← infer c e
    if t.isInt || t.isUnknown then return some e' else wrong e.pos (.badBound t)

end

end Pagesmith.Expr
