import Pagesmith.Decimal.Reader
import Pagesmith.Expr.Syntax
import Pagesmith.Expr.Token

/-!
# Reading expressions

A token list is read by precedence: a primary expression with what follows it directly, and then
operators as long as they bind tightly enough.

The functions call each other on ever shorter token lists, with a bounded number of calls between
two tokens.  The last argument of each bounds the depth of the calls.

* `Scope`: which names hide built-in functions, and whether a predicate is being read.
* `parse`: the syntax tree of a source text.
-/

namespace Pagesmith.Expr

/-- Readers: they take tokens off a list that ends in an end mark. -/
abbrev Reader := StateT (List Token) (Except (Located SyntaxError))

structure Scope where
  hidden : String → Bool
  inPredicate : Bool := false

namespace Reader

def current : Reader Token := do
  match ← get with
  | t :: _ => return t
  | [] => return ⟨.eof, "", 0⟩

def failAt {α : Type} (t : Token) (cause : SyntaxError) : Reader α := throw ⟨t.pos, cause⟩

def fail {α : Type} (cause : SyntaxError) : Reader α := do failAt (← current) cause

def advance : Reader Unit := do
  match ← get with
  | _ :: t :: ts => set (t :: ts)
  | _ => fail .unexpectedEnd

def at? (kind : TokenKind) (text : String) : Reader Bool := do
  let t ← current
  return t.kind = kind && t.text = text

def expect (kind : TokenKind) (text : String) : Reader Unit := do
  if ← at? kind text then advance else fail (.unexpected (← current))

def expectKind (kind : TokenKind) : Reader Unit := do
  let t ← current
  if t.kind = kind then advance else fail (.unexpected t)

end Reader

open Reader

def numberNode (t : Token) : Reader Expr := do
  let digits := t.text.toList.filter (· != '_')
  let lower := digits.map Text.lowerAscii
  let check {α : Type} (kind func : String) (r : Except NumberError α) : Reader α :=
    match r with
    | .ok n => pure n
    | .error e =>
      fail (.badLiteral kind
        ("strconv." ++ func ++ ": parsing " ++ Text.quoted (String.ofList digits) ++ ": "
          ++ e.message))
  let based (kind : String) (base : Nat) : Reader Expr := do
    return .int t.pos (← check kind "ParseInt" (readInt base (digits.drop 2)))
  if ['0', 'x'].isPrefixOf lower then based "hex" 16
  else if lower.any (fun c => c == '.' || c == 'e') then
    return .float t.pos (← check "float" "ParseFloat" (readFloat digits))
  else if ['0', 'b'].isPrefixOf lower then based "binary" 2
  else if ['0', 'o'].isPrefixOf lower then based "octal" 8
  else return .int t.pos (← check "integer" "ParseInt" (readInt 10 digits))

mutual

def sequenceExpr (sc : Scope) : Nat → Reader Expr
  | 0 => fail .unexpectedEnd
  | fuel + 1 => do
    let first ← expression sc 0 fuel
    match ← sequenceRest sc fuel with
    | [] => return first
    | rest => return .sequence first.pos (first :: rest)
termination_by structural n => n

/-- The expressions after a semicolon.  One at the end of the source ends nothing. -/
def sequenceRest (sc : Scope) : Nat → Reader (List Expr)
  | 0 => return []
  | fuel + 1 => do
    if ← at? .operator ";" then
      advance
      if (← current).kind = .eof then return []
      let e ← expression sc 0 fuel
      return e :: (← sequenceRest sc fuel)
    else return []
termination_by structural n => n

/-- An expression whose operators bind at least as tightly as given. -/
def expression (sc : Scope) (least : Nat) : Nat → Reader Expr
  | 0 => fail .unexpectedEnd
  | fuel + 1 => do
    if least = 0 && (← at? .operator "let") then bindingExpr sc fuel
    else if least = 0 && (← at? .operator "if") then branchExpr sc fuel
    else
      let left ← primary sc fuel
      let e ← operators sc least false left fuel
      if least = 0 then conditional sc e fuel else return e
termination_by structural n => n

/-- The operators after an operand, where `coalesced` tells that the last one was `??`. -/
def operators (sc : Scope) (least : Nat) (coalesced : Bool) (left : Expr) : Nat → Reader Expr
  | 0 => return left
  | fuel + 1 => do
    let t ← current
    if t.kind ≠ .operator then return left
    if t.text = "not" then
      let before ← get
      advance
      let t ← current
      match (BinaryOp.ofText? t.text).filter (·.isNegatable) with
      | none => fail (.unexpected t)
      | some op =>
        if op.precedence < least then
          set before
          return left
        else
          let e ← operation sc t op coalesced left fuel
          operators sc least false (.unary t.pos .not e) fuel
    else if t.text = "|" then
      if 0 < least then return left
      advance
      let name ← current
      expectKind .identifier
      let e ← callExpr sc name [left] true fuel
      operators sc least false e fuel
    else
      match BinaryOp.ofText? t.text with
      | none => return left
      | some op =>
        if op.precedence < least then return left
        else
          let e ← operation sc t op coalesced left fuel
          operators sc least (op = .coalesce) e fuel
termination_by structural n => n

def operation (sc : Scope) (t : Token) (op : BinaryOp) (coalesced : Bool) (left : Expr) :
    Nat → Reader Expr
  | 0 => return left
  | fuel + 1 => do
    advance
    if coalesced && op ≠ .coalesce then failAt t (.mixedCoalesce t.text)
    else if op.isComparison then comparison sc t op none left fuel
    else
      let right ← expression sc (if op.isRight then op.precedence else op.precedence + 1) fuel
      return .binary t.pos op left right
termination_by structural n => n

/-- A chain of comparisons, which holds if all of them do; `before` is the part read so far. -/
def comparison (sc : Scope) (t : Token) (op : BinaryOp) (before : Option Expr) (left : Expr) :
    Nat → Reader Expr
  | 0 => return left
  | fuel + 1 => do
    let right ← expression sc (op.precedence + 1) fuel
    let this : Expr := .binary t.pos op left right
    let all : Expr := match before with
      | none => this
      | some b => .binary t.pos .amps b this
    let next ← current
    match (BinaryOp.ofText? next.text).filter fun o => next.kind = .operator && o.isComparison with
    | some o =>
      advance
      comparison sc next o (some all) right fuel
    | none => return all
termination_by structural n => n

def conditional (sc : Scope) (e : Expr) : Nat → Reader Expr
  | 0 => return e
  | fuel + 1 => do
    if ← at? .operator "?" then
      advance
      if ← at? .operator ":" then
        advance
        let other ← expression sc 0 fuel
        conditional sc (.cond (← current).pos e e other) fuel
      else
        let yes ← expression sc 0 fuel
        expect .operator ":"
        let no ← expression sc 0 fuel
        conditional sc (.cond (← current).pos e yes no) fuel
    else return e
termination_by structural n => n

def bindingExpr (sc : Scope) : Nat → Reader Expr
  | 0 => fail .unexpectedEnd
  | fuel + 1 => do
    expect .operator "let"
    let name ← current
    expectKind .identifier
    expect .operator "="
    let value ← expression sc 0 fuel
    expect .operator ";"
    let body ← sequenceExpr sc fuel
    return .binding name.pos name.text value body
termination_by structural n => n

def branchExpr (sc : Scope) : Nat → Reader Expr
  | 0 => fail .unexpectedEnd
  | fuel + 1 => do
    advance
    let c ← expression sc 0 fuel
    expect .bracket "\x7b"
    let yes ← sequenceExpr sc fuel
    expect .bracket "\x7d"
    expect .operator "else"
    expect .bracket "\x7b"
    let no ← sequenceExpr sc fuel
    expect .bracket "\x7d"
    return .cond 0 c yes no
termination_by structural n => n

def primary (sc : Scope) : Nat → Reader Expr
  | 0 => fail .unexpectedEnd
  | fuel + 1 => do
    let t ← current
    match (UnaryOp.ofText? t.text).filter fun _ => t.kind = .operator with
    | some op =>
      advance
      let e ← expression sc op.precedence fuel
      postfixes sc (.unary t.pos op e) fuel
    | none =>
      if t.kind = .bracket && t.text = "(" then
        advance
        let e ← sequenceExpr sc fuel
        expect .bracket ")"
        postfixes sc e fuel
      else if sc.inPredicate && t.kind = .operator && t.text = "#" then
        advance
        let n ← current
        if n.kind = .identifier then
          advance
          postfixes sc (.pointer t.pos n.text) fuel
        else postfixes sc (.pointer t.pos "") fuel
      else if sc.inPredicate && t.kind = .operator && t.text = "." then
        postfixes sc (.pointer t.pos "") fuel
      else if t.kind = .operator && t.text = "::" then
        advance
        let name ← current
        expectKind .identifier
        let e ← callExpr sc name [] false fuel
        postfixes sc e fuel
      else atom sc t fuel
termination_by structural n => n

def atom (sc : Scope) (t : Token) : Nat → Reader Expr
  | 0 => fail .unexpectedEnd
  | fuel + 1 => do
    match t.kind with
    | .identifier =>
      advance
      if t.text = "true" then return .bool t.pos true
      else if t.text = "false" then return .bool t.pos false
      else if t.text = "nil" then return .nil t.pos
      else if ← at? .bracket "(" then
        let e ← callExpr sc t [] true fuel
        postfixes sc e fuel
      else postfixes sc (.ident t.pos t.text) fuel
    | .number =>
      advance
      numberNode t
    | .string =>
      advance
      postfixes sc (.str t.pos t.text) fuel
    | .bracket =>
      if t.text = "[" then
        advance
        let items ← arrayItems sc true fuel
        postfixes sc (.array t.pos items) fuel
      else if t.text = "\x7b" then
        advance
        let pairs ← mapPairs sc t.pos true fuel
        postfixes sc (.map t.pos pairs) fuel
      else fail (.unexpected t)
    | _ => fail (.unexpected t)
termination_by structural n => n

def arrayItems (sc : Scope) (first : Bool) : Nat → Reader (List Expr)
  | 0 => fail .unexpectedEnd
  | fuel + 1 => do
    if ← at? .bracket "]" then
      advance
      return []
    if !first then expect .operator ","
    if !first && (← at? .bracket "]") then
      advance
      return []
    let e ← expression sc 0 fuel
    return e :: (← arrayItems sc false fuel)
termination_by structural n => n

def mapPairs (sc : Scope) (pos : Nat) (first : Bool) : Nat → Reader (List Expr)
  | 0 => fail .unexpectedEnd
  | fuel + 1 => do
    if ← at? .bracket "\x7d" then
      advance
      return []
    if !first then expect .operator ","
    if !first && (← at? .bracket "\x7d") then
      advance
      return []
    let t ← current
    if !first && t.kind = .operator && t.text = "," then fail (.unexpected t)
    let key ←
      if t.kind = .number || t.kind = .string || t.kind = .identifier then
        advance
        pure (.str t.pos t.text)
      else if t.kind = .bracket && t.text = "(" then expression sc 0 fuel
      else fail (.badKey t)
    expect .operator ":"
    let value ← expression sc 0 fuel
    return .pair pos key value :: (← mapPairs sc pos false fuel)
termination_by structural n => n

/-- A call of a named function, whose first arguments may stand before it. -/
def callExpr (sc : Scope) (name : Token) (args : List Expr) (hideable : Bool) : Nat → Reader Expr
  | 0 => fail .unexpectedEnd
  | fuel + 1 => do
    let hidden := hideable && sc.hidden name.text
    match (predicateParameters? name.text).filter fun _ => !hidden with
    | some params =>
      expect .bracket "("
      let params := params.drop args.length
      let more ← predicateArguments sc params.length true params fuel
      if ← at? .operator "," then advance
      expect .bracket ")"
      return .builtin name.pos name.text (args ++ more)
    | none =>
      expect .bracket "("
      let more ← arguments sc true fuel
      if !hidden && name.text ∈ builtinNames then
        return .builtin name.pos name.text (args ++ more)
      else return .call name.pos (.ident name.pos name.text) (args ++ more)
termination_by structural n => n

def arguments (sc : Scope) (first : Bool) : Nat → Reader (List Expr)
  | 0 => fail .unexpectedEnd
  | fuel + 1 => do
    if ← at? .bracket ")" then
      advance
      return []
    if !first then expect .operator ","
    if ← at? .bracket ")" then
      advance
      return []
    let e ← expression sc 0 fuel
    return e :: (← arguments sc false fuel)
termination_by structural n => n

/-- The arguments for the parameters of a function that takes a predicate. -/
def predicateArguments (sc : Scope) (count : Nat) (first : Bool) (params : List Parameter) :
    Nat → Reader (List Expr)
  | 0 => return []
  | fuel + 1 => do
    match params with
    | [] => return []
    | p :: ps =>
      if ← at? .bracket ")" then
        if p.isOptional then return [] else fail (.fewArguments count)
      if !first then expect .operator ","
      let e ← match p with
        | .plain | .optionalPlain => expression sc 0 fuel
        | .predicate | .optionalPredicate => predicateExpr sc fuel
      return e :: (← predicateArguments sc count false ps fuel)
termination_by structural n => n

def predicateExpr (sc : Scope) : Nat → Reader Expr
  | 0 => fail .unexpectedEnd
  | fuel + 1 => do
    let t ← current
    let inner := { sc with inPredicate := true }
    if t.kind = .bracket && t.text = "\x7b" then
      advance
      let e ← sequenceExpr inner fuel
      expect .bracket "\x7d"
      return .predicate t.pos e
    else
      let e ← expression inner 0 fuel
      if ← at? .operator ";" then fail .bareSequence
      return .predicate t.pos e
termination_by structural n => n

/-- What follows an operand directly: members, calls of members, indices and slices. -/
def postfixes (sc : Scope) (e : Expr) : Nat → Reader Expr
  | 0 => return e
  | fuel + 1 => do
    let t ← current
    if t.kind ≠ .operator && t.kind ≠ .bracket then return e
    else if t.text = "." || t.text = "?." then
      let optional := t.text = "?."
      advance
      let name ← current
      if optional && name.kind = .bracket && name.text = "[" then
        let e ← index sc name.pos true e fuel
        postfixes sc e fuel
      else
        advance
        if name.kind ≠ .identifier && (name.kind ≠ .operator || !isName name.text) then
          fail .expectedName
        let prop : Expr := .str name.pos name.text
        let (base, chained) : Expr × Bool := match e with
          | .chain _ inner => (inner, true)
          | _ => (e, false)
        let e ←
          if ← at? .bracket "(" then
            advance
            let args ← arguments sc true fuel
            pure (.call name.pos (.member name.pos base prop optional true) args)
          else pure (.member name.pos base prop optional false)
        postfixes sc (if chained || optional then .chain name.pos e else e) fuel
    else if t.text = "[" then
      let e ← index sc t.pos false e fuel
      postfixes sc e fuel
    else return e
termination_by structural n => n

def index (sc : Scope) (pos : Nat) (optional : Bool) (e : Expr) : Nat → Reader Expr
  | 0 => return e
  | fuel + 1 => do
    advance
    if ← at? .operator ":" then
      advance
      let high ← bound sc fuel
      expect .bracket "]"
      return .slice pos e none high
    else
      let low ← expression sc 0 fuel
      if ← at? .operator ":" then
        advance
        let high ← bound sc fuel
        expect .bracket "]"
        return .slice pos e (some low) high
      else
        expect .bracket "]"
        let m : Expr := .member pos e low optional false
        return if optional then .chain pos m else m
termination_by structural n => n

/-- The upper bound of a slice, unless it is left out. -/
def bound (sc : Scope) : Nat → Reader (Option Expr)
  | 0 => return none
  | fuel + 1 => do
    if ← at? .bracket "]" then return none
    return some (← expression sc 0 fuel)
termination_by structural n => n

end

def wholeExpr (sc : Scope) (fuel : Nat) : Reader Expr := do
  let e ← sequenceExpr sc fuel
  let t ← current
  if t.kind = .eof then return e else fail (.unexpected t)

/-- The syntax tree of a source text, where some names hide built-in functions.  Between two tokens
fewer than eight calls are nested. -/
def parse (hidden : String → Bool) (source : List Char) : Except (Located SyntaxError) Expr := do
  let ts ← tokens source
  let (e, _) ← (wholeExpr ⟨hidden, false⟩ (8 * ts.length + 16)).run ts
  return e

end Pagesmith.Expr
