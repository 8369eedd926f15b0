import Pagesmith.Proofs.Selector.Plain
import Pagesmith.Style.Declaration

/-!
# Reading printed CSS

What the reader of statistics does with each piece of printed CSS, whatever text follows: a
declaration adds its category, the head of a rule opens a block and adds its classes, a closing
brace closes the block.  White space between the pieces does not matter, since all it does is to
stand before the selector or the property that is read next.

* `Scan.between`: the reading between two pieces.
* `read_blank`: white space does nothing.
* `read_declaration`, `read_rule`, `read_frame`, `read_media`, `read_keyframes`, `read_close`: the
  pieces.
-/

namespace Pagesmith.Style

open Pagesmith.Css

variable {k : List Open}

namespace Scan

/-- The reading between two pieces: nothing of the next one has been read. -/
def between (σ : Stats) (k : List Open) : Scan := { stats := σ, stack := k }

def read (s : Scan) (cs : List Char) : Stats := ((tokens cs).foldl step s).stats

theorem read_nil (s : Scan) : s.read [] = s.stats := by
  rw [read, tokens_nil]
  rfl

theorem reset_eq (s : Scan) : s.reset = between s.stats s.stack := rfl

/-! ### White space between pieces -/

def padded (n : Nat) (s : Scan) : Scan :=
  { s with prelude := List.replicate n ⟨.whitespace, [' ']⟩ ++ s.prelude }

theorem classNames_replicate (n : Nat) (ts : List Token) :
    classNames (List.replicate n ⟨.whitespace, [' ']⟩ ++ ts) = classNames ts := by
  induction n with
  | zero => rfl
  | succ n ih => rw [List.replicate_succ, List.cons_append, classNames_cons (by simp), ih]

theorem property_padded (n : Nat) (s : Scan) : (s.padded n).property = s.property := by
  have hblank : ∀ c ∈ (List.replicate n (⟨.whitespace, [' ']⟩ : Token)).flatMap Token.text,
      Text.isBlank c = true := by
    intro c hc
    obtain ⟨t, ht, hc⟩ := List.mem_flatMap.mp hc
    rw [(List.mem_replicate.mp ht).2, List.mem_singleton] at hc
    rw [hc]
    decide
  rw [property, padded, List.flatMap_append, Text.trim_append_left hblank, property]

theorem enter_padded (n : Nat) (s : Scan) : (s.padded n).enter = s.enter.padded n := by
  simp only [enter, padded, classNames_replicate]
  split_ifs <;> rfl

/-- One token keeps the two readings apart by nothing but white space. -/
theorem step_padded (n : Nat) (s : Scan) (t : Token) :
    ∃ m, (s.padded n).step t = (s.step t).padded m := by
  have hpush : ∀ kind text, (s.padded n).push kind text = (s.push kind text).padded n := by
    intro kind text
    simp only [push, padded, List.append_assoc]
  obtain ⟨kind, text⟩ := t
  cases kind
  case leftBrace =>
    refine ⟨0, ?_⟩
    show (s.padded n).enter.reset = s.enter.reset
    rw [enter_padded]
    rfl
  case rightBrace | semicolon => exact ⟨0, rfl⟩
  case colon =>
    refine ⟨n, ?_⟩
    by_cases h : s.atProperty
    · have h' : (s.padded n).atProperty := h
      simp only [step, h, h', if_true, property_padded]
      rfl
    · have h' : ¬ (s.padded n).atProperty := h
      simp only [step, h, h', hpush]
      rfl
  case atKeyword =>
    refine ⟨n, ?_⟩
    by_cases h : s.inPrelude
    · have h' : (s.padded n).inPrelude := h
      simp only [step, h, h', if_true]
    · have h' : ¬ (s.padded n).inPrelude := h
      simp only [step, h, h']
      rfl
  case comment => exact ⟨n, rfl⟩
  case whitespace => exact ⟨n, hpush _ _⟩
  case function =>
    refine ⟨n, ?_⟩
    simp only [step, hpush]
    rfl
  all_goals exact ⟨n, congrArg (fun u : Scan => { u with inPrelude := true }) (hpush _ _)⟩

/-- White space before what is being read makes no difference. -/
theorem foldl_padded (n : Nat) (s : Scan) (ts : List Token) :
    ∃ m, ts.foldl step (s.padded n) = (ts.foldl step s).padded m := by
  induction ts generalizing n s with
  | nil => exact ⟨n, rfl⟩
  | cons t ts ih =>
    obtain ⟨m, hm⟩ := step_padded n s t
    rw [List.foldl_cons, hm, List.foldl_cons]
    exact ih m (s.step t)

theorem read_blank (σ : Stats) (k : List Open) {blank : List Char}
    (hb : ∀ c ∈ blank, isSpace c = true) (rest : List Char) :
    (between σ k).read (blank ++ rest) = (between σ k).read rest := by
  refine tokens_blank_append (f := fun ts => (ts.foldl step (between σ k)).stats) ?_ hb rest
  intro text ts _
  obtain ⟨m, hm⟩ := foldl_padded 1 (between σ k) ts
  show (ts.foldl step ((between σ k).padded 1)).stats = _
  rw [hm]
  rfl

/-! ### Inert tokens -/

def recorded (t : Token) : Token :=
  match t.kind with
  | .whitespace => ⟨.whitespace, [' ']⟩
  | .colon => ⟨.colon, [':']⟩
  | _ => t

structure Records (s : Scan) (ts : List Token) (s' : Scan) : Prop where
  stats : s'.stats = s.stats
  stack : s'.stack = s.stack
  atRule : s'.atRule = s.atRule
  inDeclaration : s'.inDeclaration = s.inDeclaration
  tokens : s'.prelude = s.prelude ++ ts.map recorded

theorem step_inert {s : Scan} (hs : s.atProperty = false) {t : Token} (ht : t.Inert) :
    s.Records [t] (s.step t) := by
  obtain ⟨kind, text⟩ := t
  obtain ⟨hkind, hvar⟩ := ht
  cases kind
  case colon => constructor <;> simp [step, hs, push, recorded]
  case function =>
    have huses : (s.inDeclaration && Text.eqFold text "var(".toList) = false := by
      rw [hvar rfl, Bool.and_false]
    refine ⟨?_, rfl, rfl, rfl, rfl⟩
    simp only [step, huses]
    rfl
  case whitespace | ident | delim | number | dimension | customName | comma | leftParen
    | rightParen => exact ⟨rfl, rfl, rfl, rfl, rfl⟩
  all_goals cases hkind

theorem Records.atProperty {s s' : Scan} {ts : List Token} (h : s.Records ts s') :
    s'.atProperty = s.atProperty := by
  rw [Scan.atProperty, h.inDeclaration, h.stack, Scan.atProperty]

theorem foldl_inert {s : Scan} (hs : s.atProperty = false) {ts : List Token}
    (hts : ∀ t ∈ ts, t.Inert) : s.Records ts (ts.foldl step s) := by
  induction ts generalizing s with
  | nil => exact ⟨rfl, rfl, rfl, rfl, (List.append_nil _).symm⟩
  | cons t ts ih =>
    have hstep := step_inert hs (hts t List.mem_cons_self)
    have hrest := ih (hstep.atProperty.trans hs) fun u hu => hts u (List.mem_cons_of_mem t hu)
    refine ⟨hrest.stats.trans hstep.stats, hrest.stack.trans hstep.stack,
      hrest.atRule.trans hstep.atRule, hrest.inDeclaration.trans hstep.inDeclaration, ?_⟩
    rw [List.foldl_cons, hrest.tokens, hstep.tokens, List.append_assoc]
    rfl

end Scan

/-! ### Declarations -/

/-- A declaration whose property is one name, and whose value is soft text. -/
structure Declaration.Legible (d : Declaration) : Prop where
  property : isIdentifier d.property.toList = true ∨
    ∃ name, isIdentifier name = true ∧ d.property.toList = '-' :: '-' :: name
  value : SoftText d.value.toList

def Stats.addDeclarations (σ : Stats) (ds : List Declaration) : Stats :=
  { σ with categories := σ.categories ++ ds.map fun d => Category.ofProperty d.property }

namespace Declaration.Legible

variable {d : Declaration} (h : d.Legible)

include h in
theorem isWordChar_property {c : Char} (hc : c ∈ d.property.toList) : isWordChar c = true := by
  rcases h.property with hp | ⟨name, hn, hp⟩
  · exact isWordChar_of_mem_identifier hp hc
  · rw [hp] at hc
    rcases List.mem_cons.mp hc with rfl | hc
    · rfl
    · rcases List.mem_cons.mp hc with rfl | hc
      · rfl
      · exact isWordChar_of_mem_identifier hn hc

include h in
theorem trim_property : Text.trim d.property.toList = d.property.toList :=
  trim_of_isWordChar fun _ => h.isWordChar_property

include h in
theorem tokens_property {rest : List Char} (hr : Breaks rest) :
    ∃ kind, kind ∈ [Kind.ident, Kind.customName] ∧
      tokens (d.property.toList ++ rest) = ⟨kind, d.property.toList⟩ :: tokens rest := by
  rcases h.property with hp | ⟨name, hn, hp⟩
  · exact ⟨.ident, by decide, tokens_identifier hp hr⟩
  · exact ⟨.customName, by decide, hp ▸ tokens_customName hn hr⟩

end Declaration.Legible

theorem read_declaration {d : Declaration} (h : d.Legible) (σ : Stats)
    (hk : k.head? ∈ [some .rule, some .frame]) (rest : List Char) :
    (Scan.between σ k).read (d.text.toList ++ rest)
      = (Scan.between (σ.addDeclarations [d]) k).read rest := by
  have htext : d.text.toList ++ rest
      = d.property.toList ++ ':' :: (' ' :: d.value.toList ++ ';' :: rest) := by
    simp [Declaration.text]
  have hbreaks : Breaks (':' :: (' ' :: d.value.toList ++ ';' :: rest)) := ⟨_, _, rfl, by decide⟩
  have hstops : Stops (';' :: rest) := ⟨_, _, rfl, by decide⟩
  obtain ⟨kind, hkind, hproperty⟩ := h.tokens_property hbreaks
  obtain ⟨ts, hvalue, hinert⟩ := tokens_soft h.value.blank_cons hstops
  have hcolon : tokens (':' :: (' ' :: d.value.toList ++ ';' :: rest))
      = ⟨.colon, [':']⟩ :: (ts ++ ⟨.semicolon, [';']⟩ :: tokens rest) := by
    rw [tokens_colon, hvalue, tokens_semicolon]
  -- before the colon the property has been remembered
  let s₁ : Scan :=
    { stats := σ, stack := k, prelude := [⟨kind, d.property.toList⟩], inPrelude := true }
  have hs₁ : (Scan.between σ k).step ⟨kind, d.property.toList⟩ = s₁ := by
    simp only [List.mem_cons, List.not_mem_nil, or_false] at hkind
    rcases hkind with rfl | rfl <;> rfl
  have hcategory : s₁.property = d.property := by
    simp [s₁, Scan.property, h.trim_property]
  -- behind it all is value, up to the semicolon
  let s₂ : Scan := { s₁ with stats := σ.addDeclarations [d], inDeclaration := true }
  have hs₂ : s₁.step ⟨.colon, [':']⟩ = s₂ := by
    have hat : s₁.atProperty = true := by
      simp only [List.mem_cons, List.not_mem_nil, or_false] at hk
      rcases hk with hk | hk <;> simp [Scan.atProperty, s₁, hk]
    simp only [Scan.step, hat, if_true, hcategory]
    rfl
  have hs₃ := Scan.foldl_inert (s := s₂) rfl hinert
  rw [htext, Scan.read, hproperty, hcolon, List.foldl_cons, hs₁, List.foldl_cons, hs₂,
    List.foldl_append, List.foldl_cons]
  show ((tokens rest).foldl Scan.step (ts.foldl Scan.step s₂).reset).stats = _
  rw [Scan.reset_eq, hs₃.stats, hs₃.stack]
  rfl

/-! ### Heads of blocks -/

def Stats.addRule (σ : Stats) (selector : String) : Stats :=
  { σ.addClasses (selectorClasses selector.toList) with rules := σ.rules + 1 }

def Stats.addKeyframes (σ : Stats) : Stats := { σ with keyframes := σ.keyframes + 1 }

section Enter

variable {s : Scan}

theorem enter_rule (hat : s.atRule = []) (hk : s.stack.head? ≠ some .keyframes) {selector : String}
    (hc : classNames s.prelude = selectorClasses selector.toList) :
    s.enter.reset = .between (s.stats.addRule selector) (.rule :: s.stack) := by
  rw [Scan.reset_eq]
  simp only [Scan.enter, hat, hk, hc]
  rfl

theorem enter_frame (hat : s.atRule = []) (hk : s.stack.head? = some .keyframes) :
    s.enter.reset = .between s.stats (.frame :: s.stack) := by
  rw [Scan.reset_eq]
  simp only [Scan.enter, hat, hk]
  rfl

theorem enter_keyframes (hat : s.atRule = "@keyframes".toList) :
    s.enter.reset = .between s.stats.addKeyframes (.keyframes :: s.stack) := by
  rw [Scan.reset_eq, Scan.enter, if_pos hat]
  rfl

theorem enter_atRule (hne : s.atRule ≠ []) (hat : s.atRule ≠ "@keyframes".toList) :
    s.enter.reset = .between s.stats (.atRule :: s.stack) := by
  rw [Scan.reset_eq, Scan.enter, if_neg hat, if_pos (by simpa using hne)]

end Enter

/-- Inert tokens before an opening brace are the head of the block that it opens. -/
theorem read_head {s : Scan} (ts : List Token) {cs rest : List Char}
    (htokens : tokens cs = ts ++ tokens ('\x7b' :: rest)) :
    s.read cs = (ts.foldl Scan.step s).enter.reset.read rest := by
  rw [Scan.read, htokens, List.foldl_append, tokens_leftBrace]
  rfl

theorem tokens_blank_leftBrace (rest : List Char) :
    tokens (' ' :: '\x7b' :: rest) = ⟨.whitespace, [' ']⟩ :: tokens ('\x7b' :: rest) :=
  tokens_blank (by decide) _

theorem atProperty_between (σ : Stats) (hk : k.head? ∉ [some .rule, some .frame]) :
    (Scan.between σ k).atProperty = false := by
  simp only [List.mem_cons, List.not_mem_nil, or_false, not_or] at hk
  simp [Scan.atProperty, Scan.between, hk.1, hk.2]

theorem inert_segmentTokens {xs : List Segment} (hxs : ∀ y ∈ xs, y.1 ∈ ['.', ':', ' ']) :
    ∀ t ∈ segmentTokens xs, t.Inert ∧ Scan.recorded t = t := by
  intro t ht
  obtain ⟨y, hy, ht⟩ := List.mem_flatMap.mp ht
  have hsep := hxs y hy
  simp only [List.mem_cons, List.not_mem_nil, or_false] at ht hsep
  rcases ht with rfl | rfl
  · rcases hsep with h | h | h <;> rw [h] <;> exact ⟨⟨rfl, fun hf => by cases hf⟩, rfl⟩
  · exact ⟨⟨rfl, fun hf => by cases hf⟩, rfl⟩

/-- Where rules and groups may stand: outside every block, or inside a group other than
keyframes. -/
def Outside (k : List Open) : Prop := k = [] ∨ k.head? = some .atRule

theorem Outside.not_inside (h : Outside k) :
    k.head? ∉ [some .rule, some .frame] ∧ k.head? ≠ some .keyframes := by
  rcases h with rfl | h
  · decide
  · rw [h]
    decide

theorem read_rule {selector : String} (h : PlainSelector selector) (σ : Stats) (hk : Outside k)
    (rest : List Char) :
    (Scan.between σ k).read (selector.toList ++ ' ' :: '\x7b' :: rest)
      = (Scan.between (σ.addRule selector) (.rule :: k)).read rest := by
  have hbreaks : Breaks (' ' :: '\x7b' :: rest) := ⟨_, _, rfl, by decide⟩
  obtain ⟨xs, hxs, htokens, hclasses⟩ := h.exists_tokens hbreaks
  rw [tokens_blank_leftBrace, List.append_cons (segmentTokens xs)] at htokens
  have hall : ∀ t ∈ segmentTokens xs ++ [⟨.whitespace, [' ']⟩],
      t.Inert ∧ Scan.recorded t = t := by
    intro t ht
    rcases List.mem_append.mp ht with ht | ht
    · exact inert_segmentTokens hxs t ht
    · rw [List.mem_singleton.mp ht]
      exact ⟨⟨rfl, fun hf => by cases hf⟩, rfl⟩
  have hrec := Scan.foldl_inert (atProperty_between σ hk.not_inside.1)
    fun t ht => (hall t ht).1
  have hprelude := hrec.tokens
  rw [List.map_congr_left fun t ht => (hall t ht).2, List.map_id'] at hprelude
  rw [read_head _ htokens, enter_rule hrec.atRule (hrec.stack ▸ hk.not_inside.2), hrec.stats,
    hrec.stack]
  · rfl
  · rw [hprelude]
    exact (hclasses _).trans (List.append_nil _)

theorem read_frame {name : List Char} (hn : isIdentifier name = true) (σ : Stats)
    (hk : k.head? = some .keyframes) (rest : List Char) :
    (Scan.between σ k).read (name ++ ' ' :: '\x7b' :: rest)
      = (Scan.between σ (.frame :: k)).read rest := by
  have hbreaks : Breaks (' ' :: '\x7b' :: rest) := ⟨_, _, rfl, by decide⟩
  have htokens := tokens_identifier hn hbreaks
  rw [tokens_blank_leftBrace] at htokens
  have hframe := enter_frame
    (s := [(⟨.ident, name⟩ : Token), ⟨.whitespace, [' ']⟩].foldl Scan.step (.between σ k)) rfl hk
  rw [read_head [⟨.ident, name⟩, ⟨.whitespace, [' ']⟩] htokens, hframe]
  rfl

theorem read_group (keyword : List Char) (hn : isIdentifier keyword = true) {body : List Char}
    (hb : SoftText body) (σ : Stats) (hk : Outside k) (rest : List Char) :
    ∃ s : Scan, s.stats = σ ∧ s.stack = k ∧ s.atRule = '@' :: keyword ∧
      (Scan.between σ k).read ('@' :: keyword ++ (' ' :: body ++ [' ']) ++ '\x7b' :: rest)
        = s.enter.reset.read rest := by
  have hsoft : SoftText (' ' :: body ++ [' ']) := hb.blank_cons.append (by decide) (by decide)
  have hstops : Stops ('\x7b' :: rest) := ⟨_, _, rfl, by decide⟩
  have hbreaks : Breaks (' ' :: body ++ [' '] ++ '\x7b' :: rest) := ⟨_, _, rfl, by decide⟩
  obtain ⟨ts, hbody, hinert⟩ := tokens_soft hsoft hstops
  let s₁ : Scan := { stats := σ, stack := k, atRule := '@' :: keyword, inPrelude := true }
  have hrec := Scan.foldl_inert (s := s₁) (atProperty_between σ hk.not_inside.1) hinert
  refine ⟨ts.foldl Scan.step s₁, hrec.stats, hrec.stack, hrec.atRule, ?_⟩
  have hkeyword := tokens_atKeyword hn hbreaks
  rw [hbody] at hkeyword
  rw [List.append_assoc, read_head (⟨.atKeyword, '@' :: keyword⟩ :: ts) hkeyword]
  rfl

theorem read_media {query : String} (hq : SoftText query.toList) (σ : Stats) (hk : Outside k)
    (rest : List Char) :
    (Scan.between σ k).read (("@media " ++ query).toList ++ ' ' :: '\x7b' :: rest)
      = (Scan.between σ (.atRule :: k)).read rest := by
  obtain ⟨s, hstats, hstack, hat, hread⟩ := read_group "media".toList rfl hq σ hk rest
  have htext : ("@media " ++ query).toList ++ ' ' :: '\x7b' :: rest
      = '@' :: "media".toList ++ (' ' :: query.toList ++ [' ']) ++ '\x7b' :: rest := by simp
  rw [htext, hread, enter_atRule (by rw [hat]; decide) (by rw [hat]; decide), hstats, hstack]

theorem read_keyframes {name : String} (hn : isIdentifier name.toList = true) (σ : Stats)
    (hk : Outside k) (rest : List Char) :
    (Scan.between σ k).read (("@keyframes " ++ name).toList ++ ' ' :: '\x7b' :: rest)
      = (Scan.between σ.addKeyframes (.keyframes :: k)).read rest := by
  have hsoft : SoftText name.toList :=
    .of_words fun c hc => Or.inl (isWordChar_of_mem_identifier hn hc)
  obtain ⟨s, hstats, hstack, hat, hread⟩ := read_group "keyframes".toList rfl hsoft σ hk rest
  have htext : ("@keyframes " ++ name).toList ++ ' ' :: '\x7b' :: rest
      = '@' :: "keyframes".toList ++ (' ' :: name.toList ++ [' ']) ++ '\x7b' :: rest := by simp
  rw [htext, hread, enter_keyframes hat, hstats, hstack]

theorem read_close (σ : Stats) (o : Open) (k : List Open) (rest : List Char) :
    (Scan.between σ (o :: k)).read ('\x7d' :: rest) = (Scan.between σ k).read rest := by
  rw [Scan.read, tokens_rightBrace]
  rfl

end Pagesmith.Style
