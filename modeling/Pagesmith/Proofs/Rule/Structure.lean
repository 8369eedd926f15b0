import Mathlib.Tactic
import Pagesmith.Proofs.Rule.Extraction

/-!
# Rules and the braces of their source

Whatever a source looks like, each rule read from it is a block of the source: a keyword outside all
braces, a title, and a body between an opening brace and the closing one that ends it.  Missing
names, braces in heads, stray closing braces and blocks that are never closed only lead to tokens
that are passed over.

* `braceDepth`: the number of open braces, where a stray closing brace does not count.
* `bodyFrom_eq_some`: where a body ends.
* `SourceBlock`: a block of a source, with the tokens passed over before it.
* `Head.read_cases`: what reading a head can come to.
* `rulesFrom_keyword`, `rulesFrom_of_loose`: what one token does.
* `rulesFrom_layout`: the blocks of a source, in order.
* `extractRules_structure`: the bodies of rules follow the braces of their source.
-/

namespace Pagesmith.Style

open Pagesmith.Css

variable {body rest : List Token} {rule : Rule}

/-! ### Braces -/

def braceDepth (d : Nat) : List Token → Nat
  | [] => d
  | t :: ts =>
    match t.kind with
    | .leftBrace => braceDepth (d + 1) ts
    | .rightBrace => braceDepth (d - 1) ts
    | _ => braceDepth d ts

def Loose (t : Token) : Prop := t.kind ≠ .leftBrace ∧ t.kind ≠ .rightBrace

theorem loose_of_atKeyword {t : Token} (h : t.kind = .atKeyword) : Loose t :=
  ⟨by rw [h]; nofun, by rw [h]; nofun⟩

theorem braceDepth_cons_of_loose {t : Token} (ht : Loose t) (d : Nat) (ts : List Token) :
    braceDepth d (t :: ts) = braceDepth d ts := by
  obtain ⟨kind, text⟩ := t
  cases kind
  case leftBrace => exact absurd rfl ht.1
  case rightBrace => exact absurd rfl ht.2
  all_goals rfl

theorem braceDepth_append (d : Nat) (ts us : List Token) :
    braceDepth d (ts ++ us) = braceDepth (braceDepth d ts) us := by
  induction ts generalizing d with
  | nil => rfl
  | cons t ts ih =>
    obtain ⟨kind, text⟩ := t
    cases kind
    all_goals exact ih _

theorem braceDepth_of_loose {ts : List Token} (h : ∀ t ∈ ts, Loose t) (d : Nat) :
    braceDepth d ts = d := by
  induction ts with
  | nil => rfl
  | cons t ts ih =>
    rw [braceDepth_cons_of_loose (h t List.mem_cons_self),
      ih fun u hu => h u (List.mem_cons_of_mem t hu)]

theorem Braces.cons {t : Token} {ts : List Token} {d e : Nat} (h : Braces e ts)
    (he : (if t.kind == .leftBrace then 1 else 0) + d
      = (if t.kind == .rightBrace then 1 else 0) + e) : Braces d (t :: ts) := by
  refine ⟨?_, fun a ha => ?_⟩
  · have := h.countP_eq
    rw [List.countP_cons, List.countP_cons]
    omega
  · cases a with
    | nil => exact Nat.zero_le _
    | cons x a =>
      obtain ⟨rfl, hprefix⟩ := List.cons_prefix_cons.mp ((List.mem_inits _ _).mp ha)
      have := h.countP_le a ((List.mem_inits _ _).mpr hprefix)
      rw [List.countP_cons, List.countP_cons]
      omega

theorem Braces.braceDepth {ts : List Token} {d : Nat} (h : Braces d ts) (k : Nat) :
    braceDepth (k + d) ts = k := by
  induction ts generalizing d k with
  | nil =>
    obtain rfl : d = 0 := (Nat.zero_add d).symm.trans h.countP_eq.symm
    rfl
  | cons t ts ih =>
    obtain ⟨kind, text⟩ := t
    rcases h.of_cons with ⟨rfl, hts⟩ | ⟨rfl, e, rfl, hts⟩ | ⟨hloose, hts⟩
    · exact ih hts k
    · exact ih hts k
    · rw [braceDepth_cons_of_loose hloose, ih hts]

/-! ### Bodies -/

/-- The tokens of a body, where `d` blocks are open before them: in the balanced reading their
braces match, in the other no closing brace is among them. -/
def Extent.Fits (extent : Extent) (d : Nat) (body : List Token) : Prop :=
  match extent with
  | .matching => Braces d body
  | .first => ∀ t ∈ body, t.kind ≠ .rightBrace

/-- **Where a body ends:** at the brace that matches its opening, or at the first closing one. -/
theorem bodyFrom_eq_some {extent : Extent} {d : Nat} {ts : List Token} {text : List Char}
    (h : bodyFrom extent d ts = some (text, rest)) :
    ∃ body close, ts = body ++ ⟨.rightBrace, close⟩ :: rest ∧ body.flatMap Token.text = text ∧
      extent.Fits d body := by
  induction ts generalizing d text with
  | nil => cases h
  | cons t ts ih =>
    -- a token that does not end the body is a part of it
    have hmore : ∀ e, (bodyFrom extent e ts).map (fun p => (t.text ++ p.1, p.2))
        = some (text, rest) → (∀ body, extent.Fits e body → extent.Fits d (t :: body)) →
        ∃ body close, t :: ts = body ++ ⟨.rightBrace, close⟩ :: rest ∧
          body.flatMap Token.text = text ∧ extent.Fits d body := by
      intro e he hfits
      obtain ⟨⟨a, b⟩, hab, heq⟩ := Option.map_eq_some_iff.mp he
      obtain ⟨rfl, rfl⟩ := Prod.mk.inj heq
      obtain ⟨body, close, rfl, rfl, hbody⟩ := ih hab
      exact ⟨t :: body, close, rfl, rfl, hfits body hbody⟩
    have hfirst : t.kind ≠ .rightBrace → ∀ body, Extent.first.Fits d body →
        Extent.first.Fits d (t :: body) := fun ht body hbody =>
      List.forall_mem_cons.mpr ⟨ht, hbody⟩
    obtain ⟨kind, tokenText⟩ := t
    by_cases hopen : kind = .leftBrace
    · subst hopen
      cases extent with
      | matching => exact hmore (d + 1) h fun body hbody => hbody.cons (by simp; omega)
      | first => exact hmore d h (hfirst nofun)
    · by_cases hclose : kind = .rightBrace
      · subst hclose
        have hend : extent.Fits d [] → some ([], ts) = some (text, rest) →
            ∃ body close, (⟨.rightBrace, tokenText⟩ :: ts : List Token)
              = body ++ ⟨.rightBrace, close⟩ :: rest ∧ body.flatMap Token.text = text ∧
              extent.Fits d body := by
          intro hfits heq
          obtain ⟨rfl, rfl⟩ := Prod.mk.inj (Option.some.inj heq)
          exact ⟨[], tokenText, rfl, rfl, hfits⟩
        cases extent with
        | first => exact hend (fun t ht => nomatch ht) h
        | matching =>
          cases d with
          | zero => exact hend (show Braces 0 [] by decide) h
          | succ d => exact hmore d h fun body hbody => hbody.cons (by simp; omega)
      · rw [bodyFrom_of_ne hopen hclose] at h
        refine hmore d h fun body hbody => ?_
        cases extent with
        | matching => exact Braces.cons hbody (by simp [hopen, hclose])
        | first => exact hfirst hclose body hbody

def HasBlock (extent : Extent) (ts body : List Token) : Prop :=
  ∃ before opening closing after,
    ts = before ++ ⟨.leftBrace, opening⟩ :: (body ++ ⟨.rightBrace, closing⟩ :: after) ∧
      extent.Fits 0 body

theorem HasBlock.fits {extent : Extent} {ts : List Token} (h : HasBlock extent ts body) :
    extent.Fits 0 body := by
  obtain ⟨_, _, _, _, -, hfits⟩ := h
  exact hfits

theorem HasBlock.append {extent : Extent} {ts : List Token} (h : HasBlock extent ts body)
    (us vs : List Token) : HasBlock extent (us ++ ts ++ vs) body := by
  obtain ⟨before, opening, closing, after, rfl, hfits⟩ := h
  exact ⟨us ++ before, opening, closing, after ++ vs, by simp, hfits⟩

/-- **Keyframe rules are blocks of the animations body.** -/
theorem hasBlock_of_mem_keyframeRules {extent : Extent} {name : List Char} {ts : List Token}
    (h : rule ∈ keyframeRules extent name ts) :
    ∃ body, rule.body = String.ofList (body.flatMap Token.text) ∧ HasBlock extent ts body := by
  -- a block of the later tokens is a block of all of them
  have hlater : ∀ {all us vs : List Token}, all = us ++ vs →
      (∃ body, rule.body = String.ofList (body.flatMap Token.text) ∧ HasBlock extent vs body) →
      ∃ body, rule.body = String.ofList (body.flatMap Token.text) ∧ HasBlock extent all body := by
    rintro _ us vs rfl ⟨body, hbody, hblock⟩
    exact ⟨body, hbody, by simpa using hblock.append us []⟩
  have hsplit : ∀ (t : Token) (body : List Token) (c : Token) (rest : List Token),
      t :: (body ++ c :: rest) = t :: (body ++ [c]) ++ rest := fun t body c rest => by simp
  fun_induction keyframeRules extent name ts with
  | case1 => cases h
  | case2 name t ts _ ih => exact hlater List.singleton_append.symm (ih h)
  | case3 => cases h
  | case4 name t ts _ text rest hbody _ _ ih =>
    obtain ⟨body, close, rfl, -, -⟩ := bodyFrom_eq_some hbody
    exact hlater (hsplit _ _ _ _) (ih h)
  | case5 name t ts hkind text rest hbody _ _ ih =>
    obtain ⟨body, close, rfl, rfl, hfits⟩ := bodyFrom_eq_some hbody
    rcases List.mem_cons.mp h with rfl | h
    · obtain ⟨kind, opening⟩ := t
      obtain rfl : kind = .leftBrace := hkind
      exact ⟨body, rfl, [], opening, close, rest, rfl, hfits⟩
    · exact hlater (hsplit _ _ _ _) (ih h)
  | case6 name t ts _ ih => exact hlater List.singleton_append.symm (ih h)
  | case7 name t ts _ ih => exact hlater List.singleton_append.symm (ih h)
  | case8 name t ts _ _ _ _ ih => exact hlater List.singleton_append.symm (ih h)

theorem kind_of_mem_keyframeRules {extent : Extent} {name : List Char} {ts : List Token}
    {r : Rule} (h : r ∈ keyframeRules extent name ts) : r.kind = .animation := by
  fun_induction keyframeRules extent name ts with
  | case1 => cases h
  | case2 name t ts hk ih => exact ih h
  | case3 name t ts hk hb => cases h
  | case4 name t ts hk body rest hb hle hn ih => exact ih h
  | case5 name t ts hk body rest hb hle hn ih =>
    rcases List.mem_cons.mp h with rfl | h
    · rfl
    · exact ih h
  | case6 name t ts hk ih => exact ih h
  | case7 name t ts hk ih => exact ih h
  | case8 name t ts _ _ _ _ ih => exact ih h

/-! ### Heads -/

def isGap (t : Token) : Bool := t.kind == .whitespace || t.kind == .comment

theorem loose_of_isGap {t : Token} (h : isGap t = true) : Loose t := by
  simp only [isGap, Bool.or_eq_true, beq_iff_eq] at h
  rcases h with h | h <;> exact ⟨by rw [h]; decide, by rw [h]; decide⟩

theorem dropBlank_of_isGap {t : Token} (h : isGap t = true) (ts : List Token) :
    dropBlank (t :: ts) = dropBlank ts := by
  simp only [isGap, Bool.or_eq_true, beq_iff_eq] at h
  rcases h with h | h <;> simp [dropBlank, h]

theorem dropBlank_of_not_isGap {t : Token} (h : isGap t = false) (ts : List Token) :
    dropBlank (t :: ts) = t :: ts := by
  obtain ⟨kind, text⟩ := t
  cases kind
  case whitespace | comment => cases h
  all_goals rfl

theorem dropBlank_eq (ts : List Token) :
    ∃ gap, ts = gap ++ dropBlank ts ∧ ∀ t ∈ gap, isGap t = true := by
  induction ts with
  | nil => exact ⟨[], rfl, List.forall_mem_nil _⟩
  | cons t ts ih =>
    by_cases ht : isGap t = true
    · obtain ⟨gap, hgap, hall⟩ := ih
      refine ⟨t :: gap, ?_, List.forall_mem_cons.mpr ⟨ht, hall⟩⟩
      rw [dropBlank_of_isGap ht, List.cons_append, ← hgap]
    · refine ⟨[], ?_, List.forall_mem_nil _⟩
      rw [dropBlank_of_not_isGap (by simpa using ht), List.nil_append]

theorem nameRun_eq (ts : List Token) :
    ∃ name, ts = name ++ (nameRun ts).2 ∧ (∀ t ∈ name, Loose t) ∧
      (nameRun ts).1 = (name.filter fun t => !isGap t).flatMap Token.text := by
  induction ts with
  | nil => exact ⟨[], rfl, List.forall_mem_nil _, rfl⟩
  | cons t ts ih =>
    obtain ⟨name, hname, hloose, htext⟩ := ih
    by_cases hstop : t.kind = .whitespace ∨ t.kind = .leftBrace ∨ t.kind = .rightBrace
    · have hrun : nameRun (t :: ts) = ([], t :: ts) := by
        rcases hstop with h | h | h <;> simp [nameRun, h]
      rw [hrun]
      exact ⟨[], rfl, List.forall_mem_nil _, rfl⟩
    · obtain ⟨hspace, hopen, hclose⟩ : t.kind ≠ .whitespace ∧ Loose t := by
        simpa [Loose, not_or] using hstop
      have hrun : nameRun (t :: ts)
          = ((if isGap t then [] else t.text) ++ (nameRun ts).1, (nameRun ts).2) := by
        obtain ⟨kind, text⟩ := t
        cases kind
        case whitespace | leftBrace | rightBrace => contradiction
        all_goals rfl
      refine ⟨t :: name, ?_, List.forall_mem_cons.mpr ⟨⟨hopen, hclose⟩, hloose⟩, ?_⟩
      · rw [hrun, List.cons_append, ← hname]
      · rw [hrun, htext, List.filter_cons]
        cases isGap t <;> rfl

/-- The rules of a block: one rule, named by what stands in the title besides white space and
comments, or the keyframe rules in the body. -/
def Head.rules (extent : Extent) (head : Head) (title body : List Token) : List Rule :=
  match head with
  | .named kind =>
    [⟨kind, String.ofList ((title.filter fun t => !isGap t).flatMap Token.text),
      String.ofList (body.flatMap Token.text)⟩]
  | .animations => keyframeRules extent [] (tokens (body.flatMap Token.text))

inductive Head.Cases (extent : Extent) (head : Head) (ts : List Token) : HeadResult → Prop where
  /-- There is no block, and some tokens are passed over. -/
  | passed (gone : List Token) {rest : List Token} (h : ts = gone ++ rest) :
      Cases extent head ts ⟨[], braceDepth 0 gone, rest⟩
  /-- The block is never closed, and nothing more is read. -/
  | unclosed : Cases extent head ts ⟨[], 0, []⟩
  /-- There is a block. -/
  | block {title body rest : List Token} {opening closing : List Char}
      (h : ts = title ++ ⟨.leftBrace, opening⟩ :: (body ++ ⟨.rightBrace, closing⟩ :: rest))
      (htitle : ∀ t ∈ title, Loose t) (hbody : extent.Fits 0 body) :
      Cases extent head ts ⟨head.rules extent title body, 0, rest⟩

namespace Head.Cases

variable {extent : Extent} {head : Head} {ts : List Token}

theorem of_resume {gone : List Token} (hgone : ∀ t ∈ gone, Loose t) (h : ts = gone ++ rest) :
    Head.Cases extent head ts (.resume rest) := by
  cases rest with
  | nil => exact .unclosed
  | cons t rest =>
    have hdepth : braceDepth 0 (gone ++ [t]) = if t.kind = .leftBrace then 1 else 0 := by
      rw [braceDepth_append, braceDepth_of_loose hgone]
      obtain ⟨kind, text⟩ := t
      cases kind <;> rfl
    rw [HeadResult.resume, ← hdepth]
    exact .passed (gone ++ [t]) (by simpa using h)

theorem of_body {rules : List Char → List Rule} {title : List Token} {opening : List Char}
    (htitle : ∀ t ∈ title, Loose t) (h : ts = title ++ ⟨.leftBrace, opening⟩ :: rest)
    (hrules : ∀ body : List Token, rules (body.flatMap Token.text) = head.rules extent title body) :
    Head.Cases extent head ts (.ofBody extent rules rest) := by
  rw [HeadResult.ofBody]
  cases hbody : blockBody extent rest with
  | none => exact .unclosed
  | some p =>
    obtain ⟨text, after⟩ := p
    obtain ⟨body, closing, rfl, rfl, hfits⟩ := bodyFrom_eq_some hbody
    dsimp only
    rw [hrules]
    exact .block h htitle hfits

end Head.Cases

theorem Head.read_cases (extent : Extent) (head : Head) (ts : List Token) :
    Head.Cases extent head ts (head.read extent ts) := by
  obtain ⟨gap, hgap, hgaps⟩ := dropBlank_eq ts
  have hgapLoose : ∀ t ∈ gap, Loose t := fun t ht => loose_of_isGap (hgaps t ht)
  cases head with
  | animations =>
    rw [Head.read]
    split
    · next rest heq => exact .of_body hgapLoose (heq ▸ hgap) fun body => rfl
    · exact .of_resume hgapLoose hgap
  | named kind =>
    obtain ⟨name, hname, hnameLoose, htext⟩ := nameRun_eq (dropBlank ts)
    rw [Head.read]
    generalize nameRun (dropBlank ts) = run at hname htext ⊢
    obtain ⟨found, after⟩ := run
    dsimp only at hname htext ⊢
    have hloose : ∀ t ∈ gap ++ name, Loose t := List.forall_mem_append.mpr ⟨hgapLoose, hnameLoose⟩
    have hhead : ts = gap ++ name ++ after := by rw [List.append_assoc, ← hname, ← hgap]
    split
    · next close rest =>
      have hdepth : braceDepth 0 (gap ++ name ++ [⟨.rightBrace, close⟩]) = 0 := by
        rw [braceDepth_append, braceDepth_of_loose hloose]
        rfl
      have hpassed : Head.Cases extent (.named kind) ts
          ⟨[], braceDepth 0 (gap ++ name ++ [⟨.rightBrace, close⟩]), rest⟩ :=
        .passed _ (by simpa using hhead)
      rwa [hdepth] at hpassed
    · split
      · exact .of_resume hloose hhead
      · obtain ⟨gap', hgap', hgaps'⟩ := dropBlank_eq after
        have htitle : ts = gap ++ name ++ gap' ++ dropBlank after := by
          rw [List.append_assoc _ gap', ← hgap', ← hhead]
        have htitleLoose : ∀ t ∈ gap ++ name ++ gap', Loose t :=
          List.forall_mem_append.mpr ⟨hloose, fun t ht => loose_of_isGap (hgaps' t ht)⟩
        split
        · next opening rest heq =>
          refine .of_body htitleLoose (heq ▸ htitle) fun body => ?_
          have hnone : ∀ {g : List Token}, (∀ t ∈ g, isGap t = true) →
              g.filter (fun t => !isGap t) = [] := fun hg =>
            List.filter_eq_nil_iff.mpr fun t ht => by simp [hg t ht]
          rw [Head.rules, List.filter_append, List.filter_append, hnone hgaps, hnone hgaps',
            List.nil_append, List.append_nil, ← htext]
        · exact .of_resume htitleLoose htitle

/-! ### One token -/

section Steps

variable {extent : Extent} {d : Nat} {t : Token} {ts : List Token}

theorem rulesFrom_leftBrace (h : t.kind = .leftBrace) :
    rulesFrom extent d (t :: ts) = rulesFrom extent (d + 1) ts := by
  rw [rulesFrom, h]

theorem rulesFrom_rightBrace (h : t.kind = .rightBrace) :
    rulesFrom extent d (t :: ts) = rulesFrom extent (d - 1) ts := by
  rw [rulesFrom, h]

theorem rulesFrom_keyword (h : t.kind = .atKeyword) {head : Head}
    (hhead : Head.ofKeyword? t.text = some head) :
    rulesFrom extent 0 (t :: ts) = (head.read extent ts).rules
      ++ rulesFrom extent (head.read extent ts).depth (head.read extent ts).rest := by
  rw [rulesFrom, h]
  simp only [if_true, hhead]

theorem rulesFrom_of_loose (ht : Loose t)
    (h : t.kind = .atKeyword → d = 0 → Head.ofKeyword? t.text = none) :
    rulesFrom extent d (t :: ts) = rulesFrom extent d ts := by
  obtain ⟨kind, text⟩ := t
  cases kind
  case leftBrace => exact absurd rfl ht.1
  case rightBrace => exact absurd rfl ht.2
  case atKeyword =>
    rw [rulesFrom]
    by_cases hd : d = 0
    · have hnone := h rfl hd
      dsimp only at hnone ⊢
      rw [if_pos hd, hnone]
    · exact if_neg hd
  all_goals rw [rulesFrom]

end Steps

/-! ### Blocks -/

def openBrace : Token := ⟨.leftBrace, ['\x7b']⟩

def closeBrace : Token := ⟨.rightBrace, ['\x7d']⟩

/-- A block of a source: the tokens passed over before it, its keyword, the title between the
keyword and the opening brace, and the body between the braces. -/
structure SourceBlock where
  before : List Token
  keyword : Token
  title : List Token
  body : List Token

variable {b : SourceBlock}

namespace SourceBlock

def tokens (b : SourceBlock) : List Token :=
  b.before ++ b.keyword :: (b.title ++ openBrace :: (b.body ++ [closeBrace]))

def rules (extent : Extent) (b : SourceBlock) : List Rule :=
  match Head.ofKeyword? b.keyword.text with
  | some head => head.rules extent b.title b.body
  | none => []

structure Formed (extent : Extent) (b : SourceBlock) : Prop where
  keyword : b.keyword.kind = .atKeyword
  head : (Head.ofKeyword? b.keyword.text).isSome = true
  title : ∀ t ∈ b.title, Loose t
  body : extent.Fits 0 b.body

theorem braceDepth_tokens (h : b.Formed .matching) (hbefore : braceDepth 0 b.before = 0) :
    braceDepth 0 b.tokens = 0 := by
  have hbody : braceDepth 1 b.body = 1 := Braces.braceDepth h.body 1
  rw [tokens, braceDepth_append, hbefore, braceDepth_cons_of_loose (loose_of_atKeyword h.keyword),
    braceDepth_append, braceDepth_of_loose h.title]
  show braceDepth 1 (b.body ++ [closeBrace]) = 0
  rw [braceDepth_append, hbody]
  rfl

end SourceBlock

/-- Each block is formed, and its keyword stands outside all braces that were opened behind the
block before, where `d` are open at first. -/
def Outermost (extent : Extent) : Nat → List SourceBlock → Prop
  | _, [] => True
  | d, b :: bs => braceDepth d b.before = 0 ∧ b.Formed extent ∧ Outermost extent 0 bs

def Laid (extent : Extent) (d : Nat) (ts : List Token) (rules : List Rule) : Prop :=
  ∃ blocks rest, ts = blocks.flatMap SourceBlock.tokens ++ rest ∧
    rules = blocks.flatMap (SourceBlock.rules extent) ∧ Outermost extent d blocks

/-- Tokens before the blocks are passed over. -/
theorem Laid.pass {extent : Extent} {d : Nat} {ts : List Token} {rules : List Rule}
    (gone : List Token) (h : Laid extent (braceDepth d gone) ts rules) :
    Laid extent d (gone ++ ts) rules := by
  obtain ⟨blocks, rest, rfl, rfl, houter⟩ := h
  cases blocks with
  | nil => exact ⟨[], gone ++ rest, rfl, rfl, trivial⟩
  | cons b bs =>
    obtain ⟨hdepth, hformed, hbs⟩ := houter
    refine ⟨{ b with before := gone ++ b.before } :: bs, rest, ?_, rfl,
      (braceDepth_append d gone b.before).trans hdepth,
      ⟨hformed.keyword, hformed.head, hformed.title, hformed.body⟩, hbs⟩
    simp [SourceBlock.tokens]

theorem Laid.pass_loose {extent : Extent} {d : Nat} {t : Token} {ts : List Token}
    {rules : List Rule} (ht : Loose t) (h : Laid extent d ts rules) :
    Laid extent d (t :: ts) rules :=
  Laid.pass [t] ((braceDepth_cons_of_loose ht d []).symm ▸ h)

def Fenced (ts : List Token) : Prop := ∀ t ∈ ts, ∀ m, t.kind.fence? = some m → t.text = [m]

theorem fenced_tokens (s : List Char) : Fenced (tokens s) := fun _ ht _ hm => text_of_fence ht hm

/-- **The blocks of a source,** in order, from any token on. -/
theorem rulesFrom_layout (extent : Extent) (d : Nat) (ts : List Token) (hts : Fenced ts) :
    Laid extent d ts (rulesFrom extent d ts) := by
  have htail : ∀ {t : Token} {ts : List Token}, Fenced (t :: ts) → Fenced ts :=
    fun h t ht => h t (List.mem_cons_of_mem _ ht)
  fun_induction rulesFrom extent d ts with
  | case1 d => exact ⟨[], [], rfl, rfl, trivial⟩
  | case2 d t ts hkind ih =>
    have hdepth : braceDepth d [t] = d + 1 := by simp [braceDepth, hkind]
    exact Laid.pass [t] (hdepth ▸ ih (htail hts))
  | case3 d t ts hkind ih =>
    have hdepth : braceDepth d [t] = d - 1 := by simp [braceDepth, hkind]
    exact Laid.pass [t] (hdepth ▸ ih (htail hts))
  | case4 t ts hkind head hhead _ ih =>
    have hcases := head.read_cases extent ts
    generalize head.read extent ts = result at hcases ih ⊢
    cases hcases with
    | passed gone h =>
      subst h
      have hdepth : braceDepth 0 (t :: gone) = braceDepth 0 gone :=
        braceDepth_cons_of_loose (loose_of_atKeyword hkind) 0 gone
      refine Laid.pass (t :: gone) (hdepth ▸ ih fun u hu => hts u ?_)
      exact List.mem_cons_of_mem t (List.mem_append_right gone hu)
    | unclosed => exact ⟨[], t :: ts, rfl, by simp [rulesFrom], trivial⟩
    | @block title body rest opening closing h htitle hbody =>
      subst h
      obtain ⟨blocks, more, rfl, hrules, houter⟩ := ih fun u hu => hts u (by simp [hu])
      obtain rfl : opening = ['\x7b'] := hts ⟨.leftBrace, opening⟩ (by simp) '\x7b' rfl
      obtain rfl : closing = ['\x7d'] := hts ⟨.rightBrace, closing⟩ (by simp) '\x7d' rfl
      refine ⟨⟨[], t, title, body⟩ :: blocks, more, ?_, ?_, rfl,
        ⟨hkind, by rw [hhead]; rfl, htitle, hbody⟩, houter⟩
      · simp [SourceBlock.tokens, openBrace, closeBrace]
      · simp [SourceBlock.rules, hhead, hrules]
  | case5 t ts hkind _ ih => exact (ih (htail hts)).pass_loose (loose_of_atKeyword hkind)
  | case6 d t ts hkind _ ih => exact (ih (htail hts)).pass_loose (loose_of_atKeyword hkind)
  | case7 d t ts hopen hclose _ ih => exact (ih (htail hts)).pass_loose ⟨hopen, hclose⟩

/-! ### The text of a body -/

/-- A body of a source: between an opening and a closing brace of it, and read in the source as by
itself. -/
def Enclosed (source body : List Char) : Prop :=
  ∃ before after, tokens source = before ++ openBrace :: (tokens body ++ closeBrace :: after) ∧
    ∃ rest, source = before.flatMap Token.text ++ '\x7b' :: (body ++ '\x7d' :: rest)

theorem HasBlock.enclosed {extent : Extent} {source : List Char}
    (h : HasBlock extent (tokens source) body) :
    Enclosed source (body.flatMap Token.text) ∧ tokens (body.flatMap Token.text) = body := by
  obtain ⟨before, opening, closing, after, hts, -⟩ := h
  obtain rfl : opening = ['\x7b'] :=
    text_of_fence (s := source) (t := ⟨.leftBrace, opening⟩) (by simp [hts]) rfl
  obtain rfl : closing = ['\x7d'] :=
    text_of_fence (s := source) (t := ⟨.rightBrace, closing⟩) (by simp [hts]) rfl
  have hopen : tokens source = (before ++ [openBrace]) ++ ((body ++ [closeBrace]) ++ after) := by
    simpa [openBrace, closeBrace] using hts
  obtain ⟨r, rfl, hr⟩ := tokens_eq_append hopen
  obtain ⟨rest, rfl, -⟩ := tokens_eq_append hr
  -- the closing brace is a mark, so what is before it reads as by itself
  have hread : tokens (body.flatMap Token.text ++ '\x7d' :: rest)
      = body ++ closeBrace :: after := by
    simpa [closeBrace] using hr
  have hbody : tokens (body.flatMap Token.text) = body := (SelfDelimiting.of_tokens rfl hread).2
  refine ⟨⟨before, after, by rw [hbody, hts]; rfl, rest, ?_⟩, hbody⟩
  simp [openBrace, closeBrace]

theorem hasBlock_of_mem_rules {extent : Extent} {source : List Char} (before after : List Token)
    (hb : b.Formed extent) (hsource : tokens source = before ++ b.tokens ++ after)
    (h : rule ∈ b.rules extent) :
    ∃ body, rule.body = String.ofList (body.flatMap Token.text) ∧
      HasBlock extent (tokens source) body := by
  have hsplit : tokens source = before ++ b.before ++ b.keyword :: b.title ++ [openBrace] ++ b.body
      ++ closeBrace :: after := by simp [hsource, SourceBlock.tokens]
  have hblock : HasBlock extent (tokens source) b.body :=
    ⟨before ++ b.before ++ b.keyword :: b.title, ['\x7b'], ['\x7d'], after,
      by simp [hsplit, openBrace, closeBrace], hb.body⟩
  obtain ⟨head, hhead⟩ := Option.isSome_iff_exists.mp hb.head
  rw [SourceBlock.rules, hhead] at h
  cases head with
  | named kind =>
    obtain rfl := List.mem_singleton.mp h
    exact ⟨b.body, rfl, hblock⟩
  | animations =>
    -- the text of the body is read once more, to the same tokens
    have hmem : rule ∈ keyframeRules extent [] b.body := by
      rw [← hblock.enclosed.2]
      exact h
    obtain ⟨body, hbody, hinner⟩ := hasBlock_of_mem_keyframeRules hmem
    exact ⟨body, hbody, hsplit ▸ hinner.append _ _⟩

/-! ### Sources -/

/-- Where the blocks have balanced braces, a keyword stands outside all braces of the source. -/
theorem Outermost.braceDepth_flatMap {bs cs : List SourceBlock}
    (h : Outermost .matching 0 (bs ++ b :: cs)) :
    braceDepth 0 (bs.flatMap SourceBlock.tokens ++ b.before) = 0 := by
  induction bs with
  | nil => exact h.1
  | cons a bs ih =>
    rw [List.flatMap_cons, List.append_assoc, braceDepth_append,
      SourceBlock.braceDepth_tokens h.2.1 h.1]
    exact ih h.2.2

theorem Outermost.forall_mem {extent : Extent} {blocks : List SourceBlock}
    (h : Outermost extent 0 blocks) :
    ∀ b ∈ blocks, b.Formed extent ∧ braceDepth 0 b.before = 0 := by
  induction blocks with
  | nil => exact List.forall_mem_nil _
  | cons b bs ih => exact List.forall_mem_cons.mpr ⟨⟨h.2.1, h.1⟩, ih h.2.2⟩

/-- A rule's body is enclosed in braces of the source, and it ends where it should. -/
theorem enclosed_of_mem_extractRules {extent : Extent} {source : String}
    (h : rule ∈ extractRules extent source) :
    Enclosed source.toList rule.body.toList ∧ extent.Fits 0 (tokens rule.body.toList) := by
  obtain ⟨blocks, rest, htokens, hrules, houter⟩ :=
    rulesFrom_layout extent 0 (tokens source.toList) (fenced_tokens _)
  rw [extractRules, hrules] at h
  obtain ⟨b, hb, hrule⟩ := List.mem_flatMap.mp h
  obtain ⟨bs, cs, rfl⟩ := List.append_of_mem hb
  obtain ⟨body, hbody, hblock⟩ := hasBlock_of_mem_rules (bs.flatMap SourceBlock.tokens)
    (cs.flatMap SourceBlock.tokens ++ rest) (houter.forall_mem b hb).1 (by simpa using htokens)
    hrule
  obtain ⟨henclosed, hread⟩ := hblock.enclosed
  rw [hbody, String.toList_ofList, hread]
  exact ⟨henclosed, hblock.fits⟩

/-- **The bodies of rules follow the braces of their source.**  In the balanced reading each body
stands between an opening brace and the closing brace that matches it.  In the older reading it
stands between an opening brace and the first closing brace after it.  The blocks of a source stand
in it one after another, and each starts with a keyword outside all braces. -/
theorem extractRules_structure (source : String) :
    (∀ rule ∈ extractRules .matching source,
      Enclosed source.toList rule.body.toList ∧ Braces 0 (tokens rule.body.toList)) ∧
    (∀ rule ∈ extractRules .first source,
      Enclosed source.toList rule.body.toList ∧
        ∀ t ∈ tokens rule.body.toList, t.kind ≠ .rightBrace) ∧
    ∀ extent, ∃ blocks rest,
      tokens source.toList = blocks.flatMap SourceBlock.tokens ++ rest ∧
      extractRules extent source = blocks.flatMap (SourceBlock.rules extent) ∧
      (∀ b ∈ blocks, b.Formed extent ∧ braceDepth 0 b.before = 0) ∧
      (extent = .matching → ∀ bs b cs, blocks = bs ++ b :: cs →
        braceDepth 0 (bs.flatMap SourceBlock.tokens ++ b.before) = 0) := by
  refine ⟨fun rule h => enclosed_of_mem_extractRules h,
    fun rule h => enclosed_of_mem_extractRules h, fun extent => ?_⟩
  obtain ⟨blocks, rest, htokens, hrules, houter⟩ :=
    rulesFrom_layout extent 0 (tokens source.toList) (fenced_tokens _)
  refine ⟨blocks, rest, htokens, hrules, houter.forall_mem, ?_⟩
  rintro rfl bs b cs rfl
  exact houter.braceDepth_flatMap

end Pagesmith.Style
