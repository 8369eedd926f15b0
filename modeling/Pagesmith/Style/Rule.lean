import Pagesmith.Css.Token

/-!
# Named rules

Style source is a sequence of named blocks, `@style name`, `@component name` and `@theme name` with
a body in braces, and of `@animations` blocks that hold `name:` blocks of keyframes.  Only blocks at
the top level count, and a block that is not closed is dropped.

* `bodyFrom`: the text up to the brace that closes a block.
* `rulesFrom`: the rules of a token list at a given brace depth.
* `extractRules`: the rules of a source.
-/

namespace Pagesmith.Style

open Pagesmith.Css (Token Kind)

/-- The kinds of rules, in the order in which a stylesheet holds them.  A rule of another kind is
emitted like a style and expands no preset. -/
inductive RuleKind where
  | style
  | component
  | theme
  | animation
  | other
  deriving DecidableEq, Repr

structure Rule where
  kind : RuleKind
  name : String
  body : String
  deriving DecidableEq, Repr

/-- Where the body of a block ends: at the brace that matches its opening, or, for older content,
at the first closing brace. -/
inductive Extent where
  | matching
  | first
  deriving DecidableEq, Repr

inductive Head where
  | named (kind : RuleKind)
  | animations
  deriving DecidableEq, Repr

def Head.ofKeyword? (keyword : List Char) : Option Head :=
  if keyword = "@style".toList then some (.named .style)
  else if keyword = "@component".toList then some (.named .component)
  else if keyword = "@theme".toList then some (.named .theme)
  else if keyword = "@animations".toList then some .animations
  else none

/-- The tokens without the white space and comments they start with. -/
def dropBlank : List Token → List Token
  | [] => []
  | t :: ts =>
    match t.kind with
    | .whitespace | .comment => dropBlank ts
    | _ => t :: ts

/-- A rule name runs up to white space, a brace or the end; comments inside it are dropped. -/
def nameRun : List Token → List Char × List Token
  | [] => ([], [])
  | t :: ts =>
    match t.kind with
    | .comment => nameRun ts
    | .whitespace | .leftBrace | .rightBrace => ([], t :: ts)
    | _ => (t.text ++ (nameRun ts).1, (nameRun ts).2)

/-- The body of a block and the tokens after its closing brace, where `depth` blocks are open
inside it. -/
def bodyFrom (extent : Extent) (depth : Nat) : List Token → Option (List Char × List Token)
  | [] => none
  | t :: ts =>
    let more (next : Option (List Char × List Token)) : Option (List Char × List Token) :=
      next.map fun (text, rest) => (t.text ++ text, rest)
    match t.kind with
    | .leftBrace =>
      match extent with
      | .matching => more (bodyFrom extent (depth + 1) ts)
      | .first => more (bodyFrom extent depth ts)
    | .rightBrace =>
      match extent, depth with
      | .matching, d + 1 => more (bodyFrom extent d ts)
      | _, _ => some ([], ts)
    | _ => more (bodyFrom extent depth ts)

def blockBody (extent : Extent) (ts : List Token) : Option (List Char × List Token) :=
  bodyFrom extent 0 ts

/-! ### Reading shortens the input -/

theorem length_dropBlank_le (ts : List Token) : (dropBlank ts).length ≤ ts.length := by
  induction ts with
  | nil => simp [dropBlank]
  | cons t ts ih => rw [dropBlank]; split <;> simp <;> omega

theorem length_nameRun_le (ts : List Token) : (nameRun ts).2.length ≤ ts.length := by
  induction ts with
  | nil => simp [nameRun]
  | cons t ts ih => rw [nameRun]; split <;> simp <;> omega

theorem length_bodyFrom_le (extent : Extent) (depth : Nat) (ts : List Token)
    {text : List Char} {rest : List Token} (h : bodyFrom extent depth ts = some (text, rest)) :
    rest.length ≤ ts.length := by
  induction ts generalizing depth text rest with
  | nil => simp [bodyFrom] at h
  | cons t ts ih =>
    have key : ∀ d : Nat, (bodyFrom extent d ts).map (fun p => (t.text ++ p.1, p.2))
        = some (text, rest) → rest.length ≤ ts.length + 1 := by
      intro d hd
      obtain ⟨⟨a, b⟩, hab, heq⟩ := Option.map_eq_some_iff.1 hd
      have := ih d hab
      simp only [Prod.mk.injEq] at heq
      rw [← heq.2]
      omega
    simp only [bodyFrom] at h
    simp only [List.length_cons]
    split at h
    · split at h <;> exact key _ h
    · split at h
      · exact key _ h
      · simp only [Option.some.injEq, Prod.mk.injEq] at h
        rw [← h.2]
        omega
    · exact key _ h

/-! ### Keyframe blocks -/

/-- The name of a keyframe block: the text before its brace without a colon. -/
def frameName (text : List Char) : List Char :=
  Text.trim (Text.dropTrailing [':'] (Text.trim text))

/-- The `name:` blocks of an animations body, where `name` is the text read since the last brace
or semicolon.  A block without a name is passed over. -/
def keyframeRules (extent : Extent) (name : List Char) : List Token → List Rule
  | [] => []
  | t :: ts =>
    match t.kind with
    | .comment => keyframeRules extent name ts
    | .leftBrace =>
      match h : blockBody extent ts with
      | none => []
      | some (body, rest) =>
        have : rest.length ≤ ts.length := length_bodyFrom_le extent 0 ts h
        match frameName name with
        | [] => keyframeRules extent [] rest
        | key =>
          ⟨.animation, String.ofList key, String.ofList body⟩ :: keyframeRules extent [] rest
    | .rightBrace | .semicolon => keyframeRules extent [] ts
    | _ => keyframeRules extent (name ++ t.text) ts
termination_by ts => ts.length
decreasing_by
  · exact Nat.lt_succ_self _
  · exact Nat.lt_succ_of_le this
  · exact Nat.lt_succ_of_le this
  all_goals exact Nat.lt_succ_self _

/-! ### Rules -/

/-- What reading a rule head gives: the rules it defines, the brace depth after it, and the tokens
that follow. -/
structure HeadResult where
  rules : List Rule
  depth : Nat
  rest : List Token

/-- After a head that turned out to open no block: the token that showed it has been read, and an
opening brace counts. -/
def HeadResult.resume : List Token → HeadResult
  | [] => ⟨[], 0, []⟩
  | t :: ts => ⟨[], if t.kind = .leftBrace then 1 else 0, ts⟩

/-- A block that has just been opened; without its closing brace it ends the reading. -/
def HeadResult.ofBody (extent : Extent) (rules : List Char → List Rule) (ts : List Token) :
    HeadResult :=
  match blockBody extent ts with
  | none => ⟨[], 0, []⟩
  | some (body, rest) => ⟨rules body, 0, rest⟩

/-- The rest of a rule after its keyword, at brace depth zero. -/
def Head.read (extent : Extent) (head : Head) (ts : List Token) : HeadResult :=
  let start := dropBlank ts
  match head with
  | .animations =>
    match start with
    | ⟨.leftBrace, _⟩ :: rest =>
      .ofBody extent (fun body => keyframeRules extent [] (Css.tokens body)) rest
    | other => .resume other
  | .named kind =>
    let (name, afterName) := nameRun start
    match afterName with
    | ⟨.rightBrace, _⟩ :: rest => ⟨[], 0, rest⟩
    | _ =>
      if name.isEmpty then .resume afterName
      else
        match dropBlank afterName with
        | ⟨.leftBrace, _⟩ :: rest =>
          .ofBody extent (fun body => [⟨kind, String.ofList name, String.ofList body⟩]) rest
        | other => .resume other

theorem length_resume_le (ts : List Token) : (HeadResult.resume ts).rest.length ≤ ts.length := by
  cases ts <;> simp [HeadResult.resume]

theorem length_ofBody_le (extent : Extent) (rules : List Char → List Rule) (ts : List Token) :
    (HeadResult.ofBody extent rules ts).rest.length ≤ ts.length := by
  rw [HeadResult.ofBody]
  split
  · simp
  · next h => exact length_bodyFrom_le extent 0 ts h

theorem Head.length_read_le (extent : Extent) (head : Head) (ts : List Token) :
    (head.read extent ts).rest.length ≤ ts.length := by
  have hb := length_dropBlank_le ts
  unfold Head.read
  simp only
  split
  · split
    · next heq =>
      have := length_ofBody_le extent
        (fun body => keyframeRules extent [] (Css.tokens body)) ‹List Token›
      rw [heq] at hb
      simp only [List.length_cons] at hb
      omega
    · exact Nat.le_trans (length_resume_le _) hb
  · have hn := length_nameRun_le (dropBlank ts)
    split
    · next heq =>
      rw [heq] at hn
      simp only [List.length_cons] at hn
      simp only
      omega
    · split
      · have := length_resume_le (nameRun (dropBlank ts)).2
        omega
      · have hd := length_dropBlank_le (nameRun (dropBlank ts)).2
        split
        · next heq =>
          rw [heq] at hd
          simp only [List.length_cons] at hd
          refine Nat.le_trans (length_ofBody_le _ _ _) ?_
          omega
        · refine Nat.le_trans (length_resume_le _) ?_
          omega

/-- The rules of a token list, with `depth` braces open. -/
def rulesFrom (extent : Extent) (depth : Nat) : List Token → List Rule
  | [] => []
  | t :: ts =>
    match t.kind with
    | .leftBrace => rulesFrom extent (depth + 1) ts
    | .rightBrace => rulesFrom extent (depth - 1) ts
    | .atKeyword =>
      if depth = 0 then
        match Head.ofKeyword? t.text with
        | some head =>
          have := head.length_read_le extent ts
          (head.read extent ts).rules
            ++ rulesFrom extent (head.read extent ts).depth (head.read extent ts).rest
        | none => rulesFrom extent depth ts
      else rulesFrom extent depth ts
    | _ => rulesFrom extent depth ts
termination_by ts => ts.length

def extractRules (extent : Extent) (source : String) : List Rule :=
  rulesFrom extent 0 (Css.tokens source.toList)

end Pagesmith.Style
