import Mathlib.Tactic
import Pagesmith.Proofs.Css.SelfDelimiting
import Pagesmith.Proofs.Text.Basic
import Pagesmith.Style.Rule

/-!
# Rules of a written source

A source that is written as a sequence of rules, with white space and comments between them, is
read as these rules.  A body may hold any text whose tokens keep to themselves: strings, addresses
and comments with braces in them, nested blocks, and blocks that look like rules.

* `blockBody_braces`: the body of a block ends at the brace that matches its opening.
* `nameRun_append`: a name is read up to the blank behind it.
* `rulesFrom_written`: the rule at the start of a text.
* `extractRules_written`: the rules of a written source.
-/

namespace Pagesmith.Style

open Pagesmith.Css

variable {t : Token} {d : Nat}

/-! ### Bodies -/

abbrev Braces (d : Nat) (ts : List Token) : Prop :=
  Text.Nested (fun t => t.kind == .leftBrace) (fun t => t.kind == .rightBrace) d ts

/-- What the first token does to balanced braces. -/
theorem Braces.of_cons {ts : List Token} (h : Braces d (t :: ts)) :
    t.kind = .leftBrace ∧ Braces (d + 1) ts ∨
      (t.kind = .rightBrace ∧ ∃ e, d = e + 1 ∧ Braces e ts) ∨
      (t.kind ≠ .leftBrace ∧ t.kind ≠ .rightBrace) ∧ Braces d ts := by
  have hrest := Text.Nested.append_right (a := [t]) h
  have hle := h.countP_le [t] ((List.mem_inits _ _).mpr (List.prefix_append [t] ts))
  simp only [List.countP_singleton, beq_iff_eq] at hrest hle
  by_cases hopen : t.kind = .leftBrace
  · exact Or.inl ⟨hopen, by simpa [hopen] using hrest⟩
  · by_cases hclose : t.kind = .rightBrace
    · cases d with
      | zero => simp [hclose] at hle
      | succ d => exact Or.inr (Or.inl ⟨hclose, d, rfl, by simpa [hclose] using hrest⟩)
    · exact Or.inr (Or.inr ⟨⟨hopen, hclose⟩, by simpa [hopen, hclose] using hrest⟩)

theorem bodyFrom_of_ne {extent : Extent} (hopen : t.kind ≠ .leftBrace)
    (hclose : t.kind ≠ .rightBrace) (ts : List Token) :
    bodyFrom extent d (t :: ts)
      = (bodyFrom extent d ts).map fun p => (t.text ++ p.1, p.2) := by
  obtain ⟨kind, text⟩ := t
  cases kind
  case leftBrace | rightBrace => contradiction
  all_goals rfl

/-- The tokens inside `d` blocks that close all of them. -/
theorem bodyFrom_append {ts : List Token} (h : Braces d ts) (text : List Char) (rest : List Token) :
    bodyFrom .matching d (ts ++ ⟨.rightBrace, text⟩ :: rest)
      = some (ts.flatMap Token.text, rest) := by
  induction ts generalizing d with
  | nil =>
    obtain rfl : d = 0 := (Nat.zero_add d).symm.trans h.countP_eq.symm
    rfl
  | cons t ts ih =>
    rcases h.of_cons with ⟨hopen, hts⟩ | ⟨hclose, e, rfl, hts⟩ | ⟨⟨hopen, hclose⟩, hts⟩
    · simp [bodyFrom, hopen, ih hts]
    · simp [bodyFrom, hclose, ih hts]
    · rw [List.cons_append, bodyFrom_of_ne hopen hclose, ih hts]
      rfl

/-- **The body of a block with balanced braces** ends at the brace behind it. -/
theorem blockBody_braces {body : List Char} (hbody : SelfDelimiting '\x7d' body)
    (hb : Braces 0 (tokens body)) (rest : List Char) :
    blockBody .matching (tokens (body ++ '\x7d' :: rest)) = some (body, tokens rest) := by
  rw [tokens_append rfl hbody, tokens_rightBrace, blockBody,
    bodyFrom_append hb, flatMap_text_tokens rfl hbody]

/-! ### Names -/

def isRuleName (c : Char) : Bool := isName c || ['.', '#', ':'].contains c

theorem isSpace_of_isRuleName {c : Char} (hc : isRuleName c = true) : isSpace c = false := by
  have := not_contains_of_class (l := [' ', '\t', '\n', '\r', '\x0c']) hc rfl
  simpa [isSpace, not_or, and_assoc] using this

theorem tokens_ruleName {c : Char} {s : List Char} (hname : ∀ d ∈ c :: s, isRuleName d = true) :
    ∃ kind n, kind.isPlain = true ∧ ∀ r,
      tokens (c :: s ++ ' ' :: r) = ⟨kind, c :: s.take n⟩ :: tokens (s.drop n ++ ' ' :: r) := by
  have hc := hname c List.mem_cons_self
  have hspace := isSpace_of_isRuleName hc
  have hc0 : c ≠ '\x00' := ne_of_class hc rfl
  have hslash : c ≠ '/' := ne_of_class hc rfl
  have hends : EndsAt Prod.snd ' ' (Token.measure c) s := by
    rcases measure_word (m := ' ') rfl fun d hd => not_contains_of_class (hname d hd) rfl with
      h | ⟨h, -⟩ | ⟨h, -⟩
    · exact h
    · rw [hspace] at h
      cases h
    · cases h
  refine ⟨_, _, ?_, fun r => hends.tokens_cons hc0 r⟩
  rcases measure_plain hspace (not_contains_of_class hc rfl) hslash s with h | ⟨-, h⟩
  · exact h
  · have hmem : '(' ∈ c :: s := by
      rcases List.mem_cons.mp h with h | h
      · exact h ▸ List.mem_cons_self
      · exact List.mem_cons_of_mem c (List.mem_of_mem_take h)
    exact absurd (hname _ hmem) (by decide)

theorem nameRun_of_isPlain (h : t.kind.isPlain = true) (ts : List Token) :
    nameRun (t :: ts) = (t.text ++ (nameRun ts).1, (nameRun ts).2) := by
  obtain ⟨kind, text⟩ := t
  cases kind
  case whitespace | comment | leftBrace | rightBrace => cases h
  all_goals rfl

theorem dropBlank_of_isPlain (h : t.kind.isPlain = true) (ts : List Token) :
    dropBlank (t :: ts) = t :: ts := by
  obtain ⟨kind, text⟩ := t
  cases kind
  case whitespace | comment => cases h
  all_goals rfl

theorem nameRun_append {name : List Char} (hname : ∀ c ∈ name, isRuleName c = true)
    (r : List Char) : nameRun (tokens (name ++ ' ' :: r)) = (name, tokens (' ' :: r)) := by
  induction hlen : name.length using Nat.strongRecOn generalizing name with
  | ind len ih =>
    cases name with
    | nil =>
      rw [List.nil_append, tokens_blank rfl]
      rfl
    | cons c s =>
      obtain ⟨kind, n, hplain, htokens⟩ := tokens_ruleName hname
      have hrest : ∀ d ∈ s.drop n, isRuleName d = true := fun d hd =>
        hname d (List.mem_cons_of_mem c (List.mem_of_mem_drop hd))
      rw [htokens, nameRun_of_isPlain hplain, ih _ ?_ hrest rfl, List.cons_append,
        List.take_append_drop]
      rw [← hlen, List.length_drop, List.length_cons]
      omega

/-! ### Gaps -/

/-- What may stand between two rules: white space and comments. -/
inductive Gap : List Char → Prop where
  | nil : Gap []
  | blank {c : Char} {g : List Char} (hc : isSpace c = true) (hg : Gap g) : Gap (c :: g)
  | comment {t g : List Char} (ht : ¬ ['*', '/'] <:+: t) (hg : Gap g) :
      Gap ('/' :: '*' :: t ++ '*' :: '/' :: g)

theorem commentLength_closed {t : List Char} (ht : ¬ ['*', '/'] <:+: t) (s : List Char) :
    commentLength (t ++ '*' :: '/' :: s) = t.length + 2 := by
  induction t with
  | nil => rfl
  | cons c t ih =>
    have hnext : ¬ (c = '*' ∧ (t ++ '*' :: '/' :: s).head? = some '/') := by
      rintro ⟨rfl, hhead⟩
      cases t with
      | nil => cases hhead
      | cons d t =>
        obtain rfl := Option.some.inj hhead
        exact ht (List.infix_append [] ['*', '/'] t)
    have hinner : ¬ ['*', '/'] <:+: t := fun h => ht (h.trans (List.suffix_cons c t).isInfix)
    rw [List.cons_append, commentLength_cons hnext, ih hinner, List.length_cons]
    omega

theorem tokens_comment {t : List Char} (ht : ¬ ['*', '/'] <:+: t) (s : List Char) :
    tokens ('/' :: '*' :: t ++ '*' :: '/' :: s)
      = ⟨.comment, '/' :: '*' :: t ++ ['*', '/']⟩ :: tokens s := by
  have hmeasure : measure? '/' ('*' :: t ++ ['*', '/'] ++ s)
      = some (.comment, ('*' :: t ++ ['*', '/']).length + 1) := by
    have := commentLength_closed ht s
    simp [measure?, isSpace, this]
    omega
  simpa using tokens_of_measure? _ (by decide) hmeasure

theorem rulesFrom_of_blank {extent : Extent} (h : t.kind = .whitespace ∨ t.kind = .comment)
    (ts : List Token) : rulesFrom extent d (t :: ts) = rulesFrom extent d ts := by
  obtain ⟨kind, text⟩ := t
  rcases h with rfl | rfl <;> rw [rulesFrom]

theorem rulesFrom_gap {g : List Char} (hg : Gap g) (extent : Extent) (d : Nat) (s : List Char) :
    rulesFrom extent d (tokens (g ++ s)) = rulesFrom extent d (tokens s) := by
  induction hg with
  | nil => rfl
  | @blank c g hc hg ih =>
    have hskip := tokens_blank_append (f := rulesFrom extent d)
      (fun _ ts _ => rulesFrom_of_blank (Or.inl rfl) ts) (List.forall_mem_singleton.mpr hc)
    exact (hskip (g ++ s)).trans ih
  | @comment t g ht hg ih =>
    have hassoc : '/' :: '*' :: t ++ '*' :: '/' :: g ++ s
        = '/' :: '*' :: t ++ '*' :: '/' :: (g ++ s) := by simp
    rw [hassoc, tokens_comment ht, rulesFrom_of_blank (Or.inr rfl), ih]

/-! ### Rules -/

def RuleKind.word : RuleKind → List Char
  | .style => "style".toList
  | .component => "component".toList
  | .theme => "theme".toList
  | .animation | .other => []

def Rule.written (rule : Rule) : List Char :=
  '@' :: rule.kind.word
    ++ ' ' :: (rule.name.toList ++ ' ' :: '\x7b' :: (rule.body.toList ++ ['\x7d']))

/-- A rule that can be written: it has a name, and its body keeps to itself. -/
structure Rule.Writable (rule : Rule) : Prop where
  kind : rule.kind ∈ [RuleKind.style, .component, .theme]
  name_ne : rule.name ≠ ""
  name : ∀ c ∈ rule.name.toList, isRuleName c = true
  body : SelfDelimiting '\x7d' rule.body.toList
  braces : Braces 0 (tokens rule.body.toList)

namespace Rule.Writable

variable {rule : Rule}

theorem dropBlank_name (h : rule.Writable) (r : List Char) :
    dropBlank (tokens (' ' :: (rule.name.toList ++ ' ' :: r)))
      = tokens (rule.name.toList ++ ' ' :: r) := by
  have hne : rule.name.toList ≠ [] := by simpa using h.name_ne
  have hname := h.name
  obtain ⟨c, s, hcs⟩ := List.exists_cons_of_ne_nil hne
  rw [hcs] at hname ⊢
  have hspace := isSpace_of_isRuleName (hname c List.mem_cons_self)
  obtain ⟨kind, n, hplain, htokens⟩ := tokens_ruleName hname
  rw [tokens_blank rfl, List.cons_append, List.dropWhile_cons_of_neg (by simp [hspace]),
    ← List.cons_append, htokens]
  exact dropBlank_of_isPlain (t := ⟨kind, _⟩) hplain _

theorem read_head (h : rule.Writable) (r : List Char) :
    Head.read .matching (.named rule.kind)
        (tokens (' ' :: (rule.name.toList ++ ' ' :: '\x7b' :: r)))
      = .ofBody .matching (fun body => [⟨rule.kind, rule.name, String.ofList body⟩])
        (tokens r) := by
  have hempty : rule.name.toList.isEmpty = false := by simpa using h.name_ne
  have hafter : tokens (' ' :: '\x7b' :: r)
      = ⟨.whitespace, [' ']⟩ :: ⟨.leftBrace, ['\x7b']⟩ :: tokens r := by
    rw [tokens_blank rfl, List.dropWhile_cons_of_neg (by decide), tokens_leftBrace]
    rfl
  simp only [Head.read, h.dropBlank_name, nameRun_append h.name, hafter, hempty, dropBlank,
    String.ofList_toList]
  rfl

/-- **A rule at the start of a text is read,** and nothing behind it. -/
theorem rulesFrom_written (h : rule.Writable) (rest : List Char) :
    rulesFrom .matching 0 (tokens (rule.written ++ rest))
      = rule :: rulesFrom .matching 0 (tokens rest) := by
  have hword : isIdentifier rule.kind.word = true ∧
      Head.ofKeyword? ('@' :: rule.kind.word) = some (.named rule.kind) := by
    have hkind := h.kind
    simp only [List.mem_cons, List.not_mem_nil, or_false] at hkind
    rcases hkind with hk | hk | hk <;> rw [hk] <;> decide
  have hwritten : rule.written ++ rest = '@' :: rule.kind.word ++
      ' ' :: (rule.name.toList ++ ' ' :: '\x7b' :: (rule.body.toList ++ '\x7d' :: rest)) := by
    simp [Rule.written]
  rw [hwritten, tokens_atKeyword hword.1 ⟨' ', _, rfl, by decide⟩, rulesFrom]
  simp only [hword.2, if_true, h.read_head, HeadResult.ofBody,
    blockBody_braces h.body h.braces, String.ofList_toList, List.singleton_append]

end Rule.Writable

/-- **Rules are read as they are written.**  The rules of a source are those it is written from, in
order, with their names and bodies as they stand. -/
theorem extractRules_written (lead : List Char) (hlead : Gap lead)
    (parts : List (Rule × List Char)) (hparts : ∀ p ∈ parts, p.1.Writable ∧ Gap p.2) :
    extractRules .matching (String.ofList (lead ++ parts.flatMap fun p => p.1.written ++ p.2))
      = parts.map Prod.fst := by
  rw [extractRules, String.toList_ofList, rulesFrom_gap hlead]
  induction parts with
  | nil => rw [List.flatMap_nil, tokens_nil, rulesFrom, List.map_nil]
  | cons p parts ih =>
    obtain ⟨hrule, hgap⟩ := hparts p List.mem_cons_self
    rw [List.flatMap_cons, List.append_assoc, hrule.rulesFrom_written, rulesFrom_gap hgap,
      ih fun q hq => hparts q (List.mem_cons_of_mem p hq), List.map_cons]

/-- Two rules with a comment between them.  The body of the first has a closing brace in a string
and in a comment, and a block that looks like a rule. -/
theorem extractRules_written_nested :
    let card : Rule := ⟨.style, ".card:hover", "a\x7bb:\"\x7d\"\x7d/*\x7d*/@style c\x7b\x7d"⟩
    let night : Rule := ⟨.theme, "night", ""⟩
    let gap : List Char := "/*\x7d*/\n".toList
    (card.Writable ∧ night.Writable ∧ Gap gap) ∧
      extractRules .matching (String.ofList (card.written ++ gap ++ night.written))
        = [card, night] := by
  intro card night gap
  have htokens : tokens card.body.toList =
      [⟨.ident, ['a']⟩, ⟨.leftBrace, ['\x7b']⟩, ⟨.ident, ['b']⟩, ⟨.colon, [':']⟩,
        ⟨.string, ['"', '\x7d', '"']⟩, ⟨.rightBrace, ['\x7d']⟩, ⟨.comment, "/*\x7d*/".toList⟩,
        ⟨.atKeyword, "@style".toList⟩, ⟨.whitespace, [' ']⟩, ⟨.ident, ['c']⟩,
        ⟨.leftBrace, ['\x7b']⟩, ⟨.rightBrace, ['\x7d']⟩] := by
    simp only [card]
    cbv
  have hcard : card.Writable := by
    refine ⟨by decide, by decide, List.all_eq_true.mp (by decide), ?_, ?_⟩
    · rw [SelfDelimiting, htokens]
      simp only [card]
      cbv
    · rw [htokens]
      decide
  have hnight : night.Writable := by
    have hnil : tokens night.body.toList = [] := tokens_nil
    refine ⟨by decide, by decide, List.all_eq_true.mp (by decide), ?_, ?_⟩
    · rw [SelfDelimiting, hnil]
      rfl
    · rw [hnil]
      decide
  have hgap : Gap gap := .comment (t := ['\x7d']) (by decide) (.blank rfl .nil)
  refine ⟨⟨hcard, hnight, hgap⟩, ?_⟩
  have hread := extractRules_written [] .nil [(card, gap), (night, [])] ?_
  · simpa using hread
  · simp only [List.mem_cons, List.not_mem_nil, or_false, forall_eq_or_imp, forall_eq]
    exact ⟨⟨hcard, hgap⟩, hnight, .nil⟩

end Pagesmith.Style
