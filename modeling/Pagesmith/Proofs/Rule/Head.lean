import Mathlib.Tactic
import Pagesmith.Proofs.Rule.Structure

/-!
# Heads without a block

A keyword announces a rule, and its head is read up to the opening brace of a block.  Where the head
turns out to have none, the token that shows it has been read and is not read again.  If that token
is the keyword of the next rule, the rule is lost: its block is passed over as an unknown one.

What happens to a rule behind a line without braces therefore depends on what is awaited at the end
of the line.  Between heads it is a keyword, and the rule is read.  Behind a keyword it is a name,
behind a name a block; the keyword of the rule is then taken for one or the other.

* `Awaited`: what is awaited behind some tokens without braces.
* `Due.step`, `Due.run`: one token of a head, and the tokens of a line.
* `Rule.Writable.rulesFrom_line`: a rule behind the tokens of a line.
* `Rule.Writable.line_of_mem`: a rule that is found is read from its first character on.
* `mem_extractRules_behind_iff`: which lines leave the rule behind them alone.
* `head_hides_rule`: a head without a block hides the rule behind it.
-/

namespace Pagesmith.Style

open Pagesmith.Css

variable {t : Token} {ts : List Token} {a : Awaited} {rules : List Rule}

/-! ### What is awaited -/

/-- What a source is read for outside all braces. -/
inductive Awaited where
  /-- The next keyword. -/
  | keyword
  /-- The name of a rule, behind its keyword. -/
  | name
  /-- The white space behind a name. -/
  | nameEnd
  /-- The block of a head that is complete. -/
  | block
  deriving DecidableEq, Repr

namespace Awaited

/-- Reads a token that is no brace.  A name and a block are awaited through white space and
comments, and any other token where a block is awaited ends the head. -/
def step : Awaited → Token → Awaited
  | .keyword, t =>
    if t.kind = .atKeyword then
      match Head.ofKeyword? t.text with
      | some (.named _) => .name
      | some .animations => .block
      | none => .keyword
    else .keyword
  | .name, t => if isGap t then .name else .nameEnd
  | .nameEnd, t => if t.kind = .whitespace then .block else .nameEnd
  | .block, t => if isGap t then .block else .keyword

def run (a : Awaited) (ts : List Token) : Awaited := ts.foldl step a

end Awaited

/-! ### Heads, token by token -/

def HeadResult.all (extent : Extent) (result : HeadResult) : List Rule :=
  result.rules ++ rulesFrom extent result.depth result.rest

def readBlock (extent : Extent) (rules : List Char → List Rule) (ts : List Token) : HeadResult :=
  match dropBlank ts with
  | ⟨.leftBrace, _⟩ :: rest => .ofBody extent rules rest
  | other => .resume other

def readName (extent : Extent) (kind : RuleKind) (start : List Char) (ts : List Token) :
    HeadResult :=
  let name := start ++ (nameRun ts).1
  match (nameRun ts).2 with
  | ⟨.rightBrace, _⟩ :: rest => ⟨[], 0, rest⟩
  | _ =>
    if name.isEmpty then .resume (nameRun ts).2
    else
      readBlock extent (fun body => [⟨kind, String.ofList name, String.ofList body⟩])
        (nameRun ts).2

theorem Head.read_named (extent : Extent) (kind : RuleKind) (ts : List Token) :
    (Head.named kind).read extent ts = readName extent kind [] (dropBlank ts) := by
  rw [Head.read, readName]
  generalize nameRun (dropBlank ts) = run
  obtain ⟨name, after⟩ := run
  cases after with
  | nil => rfl
  | cons t after =>
    obtain ⟨kind, text⟩ := t
    cases kind <;> rfl

theorem Head.read_animations (extent : Extent) (ts : List Token) :
    Head.animations.read extent ts
      = readBlock extent (fun body => keyframeRules extent [] (tokens body)) ts := rfl

theorem nameRun_of_loose (ht : Loose t) (h : isGap t = false) (ts : List Token) :
    nameRun (t :: ts) = (t.text ++ (nameRun ts).1, (nameRun ts).2) := by
  obtain ⟨kind, text⟩ := t
  cases kind
  case whitespace | comment => cases h
  case leftBrace => exact absurd rfl ht.1
  case rightBrace => exact absurd rfl ht.2
  all_goals rfl

theorem readBlock_of_isGap (h : isGap t = true) (extent : Extent) (rules : List Char → List Rule)
    (ts : List Token) : readBlock extent rules (t :: ts) = readBlock extent rules ts := by
  rw [readBlock, dropBlank_of_isGap h, readBlock]

/-- The rules of the tokens behind some place, by what is awaited there. -/
inductive Due (extent : Extent) (ts : List Token) : Awaited → List Rule → Prop where
  | keyword : Due extent ts .keyword (rulesFrom extent 0 ts)
  | name (kind : RuleKind) : Due extent ts .name (((Head.named kind).read extent ts).all extent)
  | nameEnd (kind : RuleKind) {start : List Char} (h : start ≠ []) :
      Due extent ts .nameEnd ((readName extent kind start ts).all extent)
  | block (rules : List Char → List Rule) :
      Due extent ts .block ((readBlock extent rules ts).all extent)

theorem Due.step {extent : Extent} (h : Due extent (t :: ts) a rules) (ht : Loose t)
    (htext : t.text ≠ []) : Due extent ts (a.step t) rules := by
  cases h with
  | keyword =>
    rw [Awaited.step]
    split
    · next hkind =>
      split
      · next kind hhead =>
        rw [rulesFrom_keyword hkind hhead]
        exact .name kind
      · next hhead =>
        rw [rulesFrom_keyword hkind hhead, Head.read_animations]
        exact .block _
      · next hhead =>
        rw [rulesFrom_of_loose ht fun _ _ => hhead]
        exact .keyword
    · next hkind =>
      rw [rulesFrom_of_loose ht fun h => absurd h hkind]
      exact .keyword
  | name kind =>
    rw [Awaited.step]
    split
    · next hgap =>
      rw [Head.read_named, dropBlank_of_isGap hgap, ← Head.read_named]
      exact .name kind
    · next hgap =>
      have hgap : isGap t = false := by simpa using hgap
      rw [Head.read_named, dropBlank_of_not_isGap hgap, readName, nameRun_of_loose ht hgap]
      exact .nameEnd kind htext
  | @nameEnd kind start hstart =>
    rw [Awaited.step]
    split
    · next hspace =>
      have hrun : nameRun (t :: ts) = ([], t :: ts) := by simp [nameRun, hspace]
      have hblock : readName extent kind start (t :: ts) = readBlock extent
          (fun body => [⟨kind, String.ofList start, String.ofList body⟩]) ts := by
        rw [readName, hrun]
        dsimp only
        split
        · next heq => cases heq; cases hspace
        · rw [List.append_nil, List.isEmpty_eq_false_iff.mpr hstart, if_neg Bool.false_ne_true,
            readBlock_of_isGap (by simp [isGap, hspace])]
      rw [hblock]
      exact .block _
    · next hspace =>
      by_cases hcomment : t.kind = .comment
      · have hrun : nameRun (t :: ts) = nameRun ts := by simp [nameRun, hcomment]
        rw [readName, hrun]
        exact .nameEnd kind hstart
      · have hgap : isGap t = false := by simp [isGap, hspace, hcomment]
        rw [readName, nameRun_of_loose ht hgap, ← List.append_assoc]
        exact .nameEnd kind (List.append_ne_nil_of_left_ne_nil hstart _)
  | block rules =>
    rw [Awaited.step]
    split
    · next hgap =>
      rw [readBlock_of_isGap hgap]
      exact .block rules
    · next hgap =>
      have hgap : isGap t = false := by simpa using hgap
      have hresume : (readBlock extent rules (t :: ts)).all extent = rulesFrom extent 0 ts := by
        rw [readBlock, dropBlank_of_not_isGap hgap]
        split
        · next heq => cases heq; exact absurd rfl ht.1
        · rw [HeadResult.resume, if_neg ht.1]
          rfl
      rw [hresume]
      exact .keyword

theorem Due.run {extent : Extent} {line : List Token} (h : Due extent (line ++ ts) a rules)
    (hline : ∀ t ∈ line, Loose t ∧ t.text ≠ []) : Due extent ts (a.run line) rules := by
  induction line generalizing a with
  | nil => exact h
  | cons t line ih =>
    obtain ⟨⟨ht, htext⟩, hline⟩ := List.forall_mem_cons.mp hline
    exact ih (h.step ht htext) hline

/-! ### A rule that is not announced -/

def Head.word : Head → List Char
  | .named kind => kind.word
  | .animations => "animations".toList

theorem Head.keyword_eq {text : List Char} {head : Head} (h : Head.ofKeyword? text = some head) :
    text = '@' :: head.word := by
  unfold Head.ofKeyword? at h
  split_ifs at h with hstyle hcomponent htheme hanimations
  · obtain rfl := Option.some.inj h
    exact hstyle
  · obtain rfl := Option.some.inj h
    exact hcomponent
  · obtain rfl := Option.some.inj h
    exact htheme
  · obtain rfl := Option.some.inj h
    exact hanimations

theorem loose_of_isPlain (h : t.kind.isPlain = true) : Loose t := by
  obtain ⟨kind, text⟩ := t
  cases kind
  case leftBrace | rightBrace => cases h
  all_goals exact ⟨nofun, nofun⟩

theorem isGap_of_isPlain (h : t.kind.isPlain = true) : isGap t = false := by
  obtain ⟨kind, text⟩ := t
  cases kind
  case whitespace | comment => cases h
  all_goals rfl

theorem ofKeyword?_of_isRuleName {text : List Char} (h : ∀ c ∈ text, isRuleName c = true) :
    Head.ofKeyword? text = none := by
  rw [Option.eq_none_iff_forall_ne_some]
  intro head hhead
  rw [Head.keyword_eq hhead] at h
  exact absurd (h '@' List.mem_cons_self) (by decide)

theorem rulesFrom_ruleName {name : List Char} (hname : ∀ c ∈ name, isRuleName c = true)
    (extent : Extent) (d : Nat) (r : List Char) :
    rulesFrom extent d (tokens (name ++ ' ' :: r)) = rulesFrom extent d (tokens (' ' :: r)) := by
  induction hlen : name.length using Nat.strongRecOn generalizing name with
  | ind len ih =>
    cases name with
    | nil => rfl
    | cons c s =>
      obtain ⟨kind, n, hplain, htokens⟩ := tokens_ruleName hname
      have hfirst : ∀ d ∈ c :: s.take n, isRuleName d = true := fun d hd =>
        hname d (List.cons_subset_cons c (List.take_subset n s) hd)
      have hrest : ∀ d ∈ s.drop n, isRuleName d = true := fun d hd =>
        hname d (List.mem_cons_of_mem c (List.mem_of_mem_drop hd))
      rw [htokens, rulesFrom_of_loose (loose_of_isPlain hplain)
        fun _ _ => ofKeyword?_of_isRuleName hfirst, ih _ ?_ hrest rfl]
      rw [← hlen, List.length_drop, List.length_cons]
      omega

theorem rulesFrom_braces {d : Nat} (h : Braces d ts) (extent : Extent) (us : List Token) :
    rulesFrom extent (d + 1) (ts ++ us) = rulesFrom extent 1 us := by
  induction ts generalizing d with
  | nil =>
    obtain rfl : d = 0 := (Nat.zero_add d).symm.trans h.countP_eq.symm
    rfl
  | cons t ts ih =>
    rw [List.cons_append]
    rcases h.of_cons with ⟨hopen, hts⟩ | ⟨hclose, e, rfl, hts⟩ | ⟨hloose, hts⟩
    · rw [rulesFrom_leftBrace hopen, ih hts]
    · rw [rulesFrom_rightBrace hclose, Nat.add_sub_cancel, ih hts]
    · rw [rulesFrom_of_loose hloose fun _ hd => absurd hd (Nat.succ_ne_zero d), ih hts]

namespace Rule.Writable

variable {rule : Rule}

theorem rulesFrom_title (h : rule.Writable) {name : List Char}
    (hname : ∀ c ∈ name, isRuleName c = true) :
    rulesFrom .matching 0
      (tokens (name ++ ' ' :: '\x7b' :: (rule.body.toList ++ ['\x7d']))) = [] := by
  rw [rulesFrom_ruleName hname, tokens_blank rfl, rulesFrom_of_blank (Or.inl rfl),
    List.dropWhile_cons_of_neg (by decide), tokens_leftBrace, rulesFrom_leftBrace rfl,
    tokens_append rfl h.body, rulesFrom_braces h.braces, tokens_rightBrace, tokens_nil,
    rulesFrom_rightBrace rfl, rulesFrom]

/-- The keyword of a rule, the blank behind it, and the first token of its name. -/
theorem tokens_written (h : rule.Writable) :
    ∃ kind text name, kind.isPlain = true ∧ text ≠ [] ∧ (∀ c ∈ text, isRuleName c = true) ∧
      (∀ c ∈ name, isRuleName c = true) ∧
      tokens rule.written = [⟨.atKeyword, '@' :: rule.kind.word⟩, ⟨.whitespace, [' ']⟩,
          ⟨kind, text⟩]
        ++ tokens (name ++ ' ' :: '\x7b' :: (rule.body.toList ++ ['\x7d'])) := by
  have hne : rule.name.toList ≠ [] := by simpa using h.name_ne
  have hname := h.name
  obtain ⟨c, s, hcs⟩ := List.exists_cons_of_ne_nil hne
  rw [hcs] at hname
  have hspace := isSpace_of_isRuleName (hname c List.mem_cons_self)
  have hword : isIdentifier rule.kind.word = true := by
    have hkind := h.kind
    simp only [List.mem_cons, List.not_mem_nil, or_false] at hkind
    rcases hkind with hk | hk | hk <;> rw [hk] <;> decide
  obtain ⟨kind, n, hplain, htokens⟩ := tokens_ruleName hname
  refine ⟨kind, c :: s.take n, s.drop n, hplain, List.cons_ne_nil _ _, fun d hd => ?_,
    fun d hd => hname d (List.mem_cons_of_mem c (List.mem_of_mem_drop hd)), ?_⟩
  · exact hname d (List.cons_subset_cons c (List.take_subset n s) hd)
  · rw [Rule.written, tokens_atKeyword hword ⟨' ', _, rfl, by decide⟩, tokens_blank rfl, hcs,
      List.cons_append, List.takeWhile_cons_of_neg (by simp [hspace]),
      List.dropWhile_cons_of_neg (by simp [hspace]), ← List.cons_append, htokens]
    rfl

/-- **A rule is not read where something else is awaited.** -/
theorem eq_nil_of_due (h : rule.Writable) (hdue : Due .matching (tokens rule.written) a rules)
    (ha : a ≠ .keyword) : rules = [] := by
  obtain ⟨kind, text, name, hplain, hne, htext, hname, htokens⟩ := h.tokens_written
  rw [htokens] at hdue
  have hloose : ∀ t ∈ ([⟨.atKeyword, '@' :: rule.kind.word⟩, ⟨.whitespace, [' ']⟩,
      ⟨kind, text⟩] : List Token), Loose t ∧ t.text ≠ [] := by
    have hfirst : Loose ⟨kind, text⟩ := loose_of_isPlain hplain
    simpa [Loose, hne] using hfirst
  have hafter := hdue.run hloose
  have hrun : a.run [⟨.atKeyword, '@' :: rule.kind.word⟩, ⟨.whitespace, [' ']⟩, ⟨kind, text⟩]
      = .keyword := by
    have hgap : isGap ⟨kind, text⟩ = false := isGap_of_isPlain hplain
    cases a with
    | keyword => contradiction
    | name | nameEnd =>
      show (if isGap ⟨kind, text⟩ then Awaited.block else .keyword) = .keyword
      rw [hgap, if_neg Bool.false_ne_true]
    | block => simp [Awaited.run, Awaited.step, isGap, ofKeyword?_of_isRuleName htext]
  rw [hrun] at hafter
  cases hafter
  exact h.rulesFrom_title hname

/-- **A rule behind a line** is read exactly if nothing but a keyword is awaited there. -/
theorem rulesFrom_line (h : rule.Writable) {line : List Token}
    (hline : ∀ t ∈ line, Loose t ∧ t.text ≠ []) :
    rulesFrom .matching 0 (line ++ tokens rule.written)
      = if Awaited.keyword.run line = .keyword then [rule] else [] := by
  have hdue : Due .matching (tokens rule.written) (Awaited.keyword.run line)
      (rulesFrom .matching 0 (line ++ tokens rule.written)) := Due.run .keyword hline
  generalize rulesFrom .matching 0 (line ++ tokens rule.written) = rules at hdue ⊢
  split
  · next ha =>
    rw [ha] at hdue
    cases hdue with
    | keyword =>
      have hwritten := h.rulesFrom_written []
      rwa [List.append_nil, tokens_nil, rulesFrom] at hwritten
  · next ha => exact h.eq_nil_of_due hdue ha

end Rule.Writable

/-! ### Where a rule is found -/

/-- A rule that is no animation comes from a block with its keyword, its name and its body. -/
theorem block_of_mem_rulesFrom {s : List Char} {rule : Rule} (hkind : rule.kind ≠ .animation)
    (h : rule ∈ rulesFrom .matching 0 (tokens s)) :
    ∃ before title after r,
      tokens s = before ++ ⟨.atKeyword, '@' :: rule.kind.word⟩ :: (title ++ openBrace :: after) ∧
      (title.filter fun t => !isGap t).flatMap Token.text = rule.name.toList ∧
      s = before.flatMap Token.text ++ ('@' :: rule.kind.word ++ (title.flatMap Token.text
        ++ '\x7b' :: (rule.body.toList ++ '\x7d' :: r))) := by
  obtain ⟨blocks, rest, htokens, hrules, houter⟩ :=
    rulesFrom_layout .matching 0 (tokens s) (fenced_tokens _)
  rw [hrules] at h
  obtain ⟨b, hb, hrule⟩ := List.mem_flatMap.mp h
  obtain ⟨bs, cs, rfl⟩ := List.append_of_mem hb
  have hformed := (houter.forall_mem b hb).1
  obtain ⟨head, hhead⟩ := Option.isSome_iff_exists.mp hformed.head
  rw [SourceBlock.rules, hhead] at hrule
  cases head with
  | animations => exact absurd (kind_of_mem_keyframeRules hrule) hkind
  | named kind =>
    obtain rfl := List.mem_singleton.mp hrule
    have hkeyword : b.keyword = ⟨.atKeyword, '@' :: kind.word⟩ := by
      have htext : b.keyword.text = '@' :: kind.word := Head.keyword_eq hhead
      rw [← hformed.keyword, ← htext]
    have hall : tokens s = (bs.flatMap SourceBlock.tokens ++ b.before ++ b.keyword ::
        (b.title ++ openBrace :: (b.body ++ [closeBrace])))
          ++ (cs.flatMap SourceBlock.tokens ++ rest) := by
      simpa [SourceBlock.tokens] using htokens
    obtain ⟨r, hs, -⟩ := tokens_eq_append hall
    rw [hkeyword] at hall hs
    refine ⟨bs.flatMap SourceBlock.tokens ++ b.before, b.title,
      b.body ++ closeBrace :: (cs.flatMap SourceBlock.tokens ++ rest), r, ?_, ?_, ?_⟩
    · simpa using hall
    · rw [String.toList_ofList]
    · simpa [openBrace, closeBrace] using hs

theorem eq_of_append_block {x y : List Char} (body r : List Char) (hy : '\x7b' ∉ y)
    (h : x ++ '\x7b' :: (body ++ '\x7d' :: r) = y ++ '\x7b' :: (body ++ ['\x7d'])) : x = y := by
  rcases List.append_eq_append_iff.mp h with ⟨gap, rfl, hgap⟩ | ⟨gap, rfl, hgap⟩
  · cases gap with
    | nil => rw [List.append_nil]
    | cons c gap =>
      obtain ⟨rfl, -⟩ := List.cons.inj hgap
      exact absurd (List.mem_append_right x List.mem_cons_self) hy
  · have hlen := congrArg List.length hgap
    simp only [List.length_append, List.length_cons, List.length_nil] at hlen
    obtain rfl : gap = [] := List.eq_nil_of_length_eq_zero (by omega)
    rw [List.append_nil]

/-- An at-sign in a title stands in a comment, and so before a slash. -/
theorem flatMap_text_ne_at {title : List Token}
    (h : ∀ t ∈ title, '@' ∉ t.text ∨ ∃ a, t.text = a ++ ['/']) {after : List Char}
    (hafter : '/' ∉ after) (before : List Char) :
    title.flatMap Token.text ≠ before ++ '@' :: after := by
  induction title generalizing before with
  | nil =>
    intro heq
    cases before <;> cases heq
  | cons t title ih =>
    obtain ⟨ht, htitle⟩ := List.forall_mem_cons.mp h
    intro heq
    rw [List.flatMap_cons] at heq
    rcases List.append_eq_append_iff.mp heq with ⟨gap, rfl, hgap⟩ | ⟨gap, hgap, hrest⟩
    · exact ih htitle gap hgap
    · cases gap with
      | nil => exact ih htitle [] hrest.symm
      | cons c gap =>
        obtain ⟨rfl, rfl⟩ := List.cons.inj hrest
        -- the sign is in the first token, which ends with a slash behind it
        obtain ⟨a, ha⟩ := ht.resolve_left (not_not_intro (by simp [hgap]))
        rw [hgap] at ha
        rcases List.eq_nil_or_concat gap with rfl | ⟨gap, d, rfl⟩
        · cases List.singleton_inj.mp (List.append_inj' ha rfl).2
        · rw [List.concat_eq_append, ← List.cons_append, ← List.append_assoc] at ha
          obtain rfl := List.singleton_inj.mp (List.append_inj' ha rfl).2
          exact hafter (by simp)

def Rule.title (rule : Rule) : List Char :=
  rule.kind.word ++ ' ' :: (rule.name.toList ++ [' '])

theorem Rule.written_eq (rule : Rule) :
    rule.written = '@' :: rule.title ++ '\x7b' :: (rule.body.toList ++ ['\x7d']) := by
  simp [Rule.written, Rule.title]

namespace Rule.Writable

variable {rule : Rule}

/-- A character that has a meaning of its own is not in the title of a rule. -/
theorem not_mem_title (h : rule.Writable) {c : Char} (hc : isRuleName c = false)
    (hblank : c ≠ ' ') : c ∉ rule.title := by
  have hword : ∀ d ∈ rule.kind.word, isRuleName d = true := by
    have hkind := h.kind
    simp only [List.mem_cons, List.not_mem_nil, or_false] at hkind
    rcases hkind with hk | hk | hk <;> rw [hk] <;> exact List.all_eq_true.mp (by decide)
  have hnot : ∀ {w : List Char}, (∀ d ∈ w, isRuleName d = true) → c ∉ w := fun hw hmem => by
    rw [hw c hmem] at hc
    cases hc
  simp [Rule.title, hnot hword, hnot h.name, hblank]

/-- In the title of a block with the name of the rule an at-sign can only stand in a comment. -/
theorem at_in_title (h : rule.Writable) {s : List Char} {before title after : List Token}
    (htokens : tokens s = before ++ (title ++ openBrace :: after))
    (hname : (title.filter fun t => !isGap t).flatMap Token.text = rule.name.toList) :
    ∀ t ∈ title, '@' ∉ t.text ∨ ∃ a, t.text = a ++ ['/'] := by
  intro t ht
  obtain ⟨first, rest, rfl⟩ := List.append_of_mem ht
  have hat : tokens s = (before ++ first) ++ t :: (rest ++ openBrace :: after) := by
    simpa using htokens
  by_cases hgap : isGap t = true
  · simp only [isGap, Bool.or_eq_true, beq_iff_eq] at hgap
    rcases hgap with hspace | hcomment
    · refine Or.inl fun hmem => ?_
      have hall := isSpace_of_whitespace (s := s) (by simp [hat]) hspace
      exact absurd (hall '@' hmem) (by decide)
    · exact Or.inr (comment_ends hat (by simp) hcomment)
  · refine Or.inl fun hmem => ?_
    have hin : '@' ∈ rule.name.toList := by
      rw [← hname]
      exact List.mem_flatMap.mpr ⟨t, List.mem_filter.mpr ⟨ht, by simpa using hgap⟩, hmem⟩
    exact absurd (h.name '@' hin) (by decide)

theorem line_of_mem (h : rule.Writable) {head : List Char} (hopen : '\x7b' ∉ head)
    (hmem : rule ∈ rulesFrom .matching 0 (tokens (head ++ '\n' :: rule.written))) :
    ∃ line, tokens (head ++ '\n' :: rule.written) = line ++ tokens rule.written ∧
      line.flatMap Token.text = head ++ ['\n'] := by
  have hkind : rule.kind ≠ .animation := by
    have hkind := h.kind
    rintro hk
    rw [hk] at hkind
    exact absurd hkind (by decide)
  obtain ⟨before, title, after, r, htokens, hname, hsource⟩ := block_of_mem_rulesFrom hkind hmem
  have hat : '@' ∉ rule.title := h.not_mem_title (by decide) (by decide)
  have hslash : '/' ∉ rule.title := h.not_mem_title (by decide) (by decide)
  have hbrace : '\x7b' ∉ rule.title := h.not_mem_title (by decide) (by decide)
  have hsplit : tokens (head ++ '\n' :: rule.written)
      = (before ++ [⟨.atKeyword, '@' :: rule.kind.word⟩]) ++ (title ++ openBrace :: after) := by
    simpa using htokens
  have htitle := flatMap_text_ne_at (h.at_in_title hsplit hname) hslash
  -- the block that is read is the block that is written
  have htext : before.flatMap Token.text ++ ('@' :: rule.kind.word ++ title.flatMap Token.text)
      = (head ++ ['\n']) ++ '@' :: rule.title := by
    refine eq_of_append_block rule.body.toList r (by simp [hopen, hbrace]) ?_
    rw [Rule.written_eq] at hsource
    simpa using hsource.symm
  -- so its keyword is the one that is written, since no other at-sign can start it
  have hbefore : before.flatMap Token.text = head ++ ['\n'] := by
    rcases List.append_eq_append_iff.mp htext with ⟨gap, hgap, hrest⟩ | ⟨gap, hgap, hrest⟩
    · cases gap with
      | nil => simpa using hgap.symm
      | cons c gap =>
        have htail : rule.kind.word ++ title.flatMap Token.text = gap ++ '@' :: rule.title :=
          (List.cons.inj hrest).2
        rcases List.append_eq_append_iff.mp htail with ⟨more, -, hmore⟩ | ⟨more, hword, hmore⟩
        · exact absurd hmore (htitle more)
        · cases more with
          | nil => exact absurd hmore.symm (htitle [])
          | cons d more =>
            obtain ⟨rfl, -⟩ := List.cons.inj hmore
            have hmem : '@' ∈ rule.kind.word := by simp [hword]
            exact absurd (List.mem_append_left _ hmem) hat
    · cases gap with
      | nil => simpa using hgap
      | cons c gap =>
        have htail : rule.title = gap ++ ('@' :: rule.kind.word ++ title.flatMap Token.text) :=
          (List.cons.inj hrest).2
        exact absurd (by simp [htail]) hat
  refine ⟨before, ?_, hbefore⟩
  obtain ⟨rest, hrest, hread⟩ := tokens_eq_append htokens
  rw [hbefore, List.append_assoc] at hrest
  obtain rfl : rule.written = rest := (List.cons.inj (List.append_cancel_left hrest)).2
  rw [htokens, hread]

end Rule.Writable

/-- A line is read apart from the text behind it, and a keyword is awaited there. -/
def LeavesAlone (line text : List Char) : Prop :=
  ∃ ts, tokens (line ++ '\n' :: text) = ts ++ tokens text ∧
    ts.flatMap Token.text = line ++ ['\n'] ∧ Awaited.keyword.run ts = .keyword

/-- **Which lines leave the rule behind them alone.**  A rule behind a line without braces is found
exactly if the line is read apart from it and leaves no head that still awaits its name or its
block.  The rule is lost behind a keyword alone and behind a keyword with one name, and an unclosed
comment, string or address takes it in. -/
theorem mem_extractRules_behind_iff (rule : Rule) (hrule : rule.Writable) (line : List Char)
    (hline : '\x7b' ∉ line ∧ '\x7d' ∉ line) :
    rule ∈ extractRules .matching (String.ofList (line ++ '\n' :: rule.written)) ↔
      LeavesAlone line rule.written := by
  have hloose : ∀ {ts : List Token}, tokens (line ++ '\n' :: rule.written)
        = ts ++ tokens rule.written → ts.flatMap Token.text = line ++ ['\n'] →
      ∀ t ∈ ts, Loose t ∧ t.text ≠ [] := by
    intro ts htokens htext t ht
    have hmem : t ∈ tokens (line ++ '\n' :: rule.written) := by simp [htokens, ht]
    -- a brace would be a character of the line
    have hfence : ∀ m, t.kind.fence? = some m → m ∈ line ++ ['\n'] := fun m hm => by
      rw [← htext]
      exact List.mem_flatMap.mpr ⟨t, ht, text_of_fence hmem hm ▸ List.mem_cons_self⟩
    refine ⟨⟨fun hkind => ?_, fun hkind => ?_⟩, text_ne_nil_of_mem hmem⟩
    · simpa [hline.1] using hfence '\x7b' (by rw [hkind]; rfl)
    · simpa [hline.2] using hfence '\x7d' (by rw [hkind]; rfl)
  rw [extractRules, String.toList_ofList]
  constructor
  · intro hmem
    obtain ⟨ts, htokens, htext⟩ := hrule.line_of_mem hline.1 hmem
    refine ⟨ts, htokens, htext, ?_⟩
    rw [htokens, hrule.rulesFrom_line (hloose htokens htext)] at hmem
    by_contra hawaited
    rw [if_neg hawaited] at hmem
    cases hmem
  · rintro ⟨ts, htokens, htext, hawaited⟩
    rw [htokens, hrule.rulesFrom_line (hloose htokens htext), if_pos hawaited]
    exact List.mem_cons_self

theorem writable_red : Rule.Writable ⟨.style, "b", " color: red "⟩ :=
  ⟨by decide, by decide, List.all_eq_true.mp (by decide), by decide +kernel, by decide +kernel⟩

/-- The line has a keyword as a name, a word too many, and a string that the line break ends. -/
theorem mem_extractRules_behind_string :
    let rule : Rule := ⟨.style, "b", " color: red "⟩
    let line := "@component @theme a 'x".toList
    (rule.Writable ∧ '\x7b' ∉ line ∧ '\x7d' ∉ line) ∧
      rule ∈ extractRules .matching (String.ofList (line ++ '\n' :: rule.written)) ∧
      LeavesAlone line rule.written := by
  intro rule line
  have hline : '\x7b' ∉ line ∧ '\x7d' ∉ line := by decide
  have hmem : rule ∈ extractRules .matching (String.ofList (line ++ '\n' :: rule.written)) := by
    decide +kernel
  exact ⟨⟨writable_red, hline⟩, hmem,
    (mem_extractRules_behind_iff rule writable_red line hline).mp hmem⟩

/-- **A head without a block hides the rule behind it,** be it a keyword alone, a keyword with a
name, or the keyword of an animations block. -/
theorem head_hides_rule :
    let rule : Rule := ⟨.style, "b", " color: red "⟩
    rule.Writable ∧ ∀ line ∈ ["@style a", "@style", "@animations"],
      rule ∉ extractRules .matching (String.ofList (line.toList ++ '\n' :: rule.written)) := by
  exact ⟨writable_red, by decide +kernel⟩

end Pagesmith.Style
