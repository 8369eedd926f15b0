import Mathlib.Tactic
import Pagesmith.Proofs.Rule.Structure

/-!
# Sources without nested blocks

The two readings of a source differ only in where the body of a block ends.  In a source whose
braces are never nested the first closing brace is the matching one, so both read the same rules,
also behind heads that are no heads, stray closing braces and blocks that are never closed.  An
animations block of such a source has no blocks inside and defines no rules in either reading.

* `Flat`: braces that are never nested.
* `blockBody_flat`: a body among flat tokens.
* `Head.read_flat`: the step, what reading a head comes to.
* `rulesFrom_flat`: the run, the rules of flat tokens.
* `extractRules_flat`: the two readings of a source agree.
-/

namespace Pagesmith.Style

open Pagesmith.Css

variable {ts : List Token} {d : Nat}

/-! ### Braces that are never nested -/

/-- Where `d` braces are open before the tokens, fewer than two are open anywhere behind them. -/
def Flat (d : Nat) (ts : List Token) : Prop := ∀ read ∈ ts.inits, braceDepth d read < 2

instance (d : Nat) (ts : List Token) : Decidable (Flat d ts) :=
  inferInstanceAs (Decidable (∀ read ∈ ts.inits, braceDepth d read < 2))

theorem Flat.append_right {us : List Token} (h : Flat d (ts ++ us)) :
    Flat (braceDepth d ts) us := by
  intro read hread
  rw [← braceDepth_append]
  refine h (ts ++ read) ((List.mem_inits _ _).mpr ?_)
  exact (List.prefix_append_right_inj ts).mpr ((List.mem_inits _ _).mp hread)

theorem Flat.tail {t : Token} (h : Flat d (t :: ts)) : Flat (braceDepth d [t]) ts := by
  rw [← List.singleton_append] at h
  exact h.append_right

theorem Flat.tail_of_loose {t : Token} (h : Flat d (t :: ts)) (ht : Loose t) : Flat d ts := by
  have htail := h.tail
  rwa [braceDepth_cons_of_loose ht] at htail

/-! ### Bodies -/

/-- **A body among flat tokens** ends at the next brace in either reading, or not at all. -/
theorem blockBody_flat (h : Flat 1 ts) :
    (∀ extent, blockBody extent ts = none) ∨
      ∃ body closing rest, ts = body ++ ⟨.rightBrace, closing⟩ :: rest ∧ (∀ t ∈ body, Loose t) ∧
        ∀ extent, blockBody extent ts = some (body.flatMap Token.text, rest) := by
  induction ts with
  | nil => exact Or.inl fun extent => rfl
  | cons t ts ih =>
    by_cases hopen : t.kind = .leftBrace
    · -- a second brace would be open
      have hdepth := h [t] (by simp)
      simp [braceDepth, hopen] at hdepth
    · by_cases hclose : t.kind = .rightBrace
      · obtain ⟨kind, closing⟩ := t
        obtain rfl : kind = .rightBrace := hclose
        refine Or.inr ⟨[], closing, ts, rfl, List.forall_mem_nil _, fun extent => ?_⟩
        cases extent <;> rfl
      · have hloose : Loose t := ⟨hopen, hclose⟩
        have hts : Flat 1 ts := h.tail_of_loose hloose
        have hcons : ∀ extent, blockBody extent (t :: ts)
            = (blockBody extent ts).map fun p => (t.text ++ p.1, p.2) := fun extent =>
          bodyFrom_of_ne hopen hclose ts
        rcases ih hts with hnone | ⟨body, closing, rest, rfl, hbody, hsome⟩
        · exact Or.inl fun extent => by rw [hcons, hnone, Option.map_none]
        · refine Or.inr ⟨t :: body, closing, rest, rfl, List.forall_mem_cons.mpr ⟨hloose, hbody⟩,
            fun extent => ?_⟩
          rw [hcons, hsome, Option.map_some, List.flatMap_cons]

theorem keyframeRules_of_loose {extent : Extent} (h : ∀ t ∈ ts, Loose t) (name : List Char) :
    keyframeRules extent name ts = [] := by
  rw [List.eq_nil_iff_forall_not_mem]
  intro rule hrule
  obtain ⟨body, -, before, opening, closing, after, rfl, -⟩ := hasBlock_of_mem_keyframeRules hrule
  exact (h ⟨.leftBrace, opening⟩ (by simp)).1 rfl

/-! ### Heads -/

section Heads

variable {s : List Char} (hflat : Flat 0 (tokens s))

include hflat in
/-- A block of a flat source comes to the same in both readings, if its rules are the same for a
body without braces. -/
theorem ofBody_flat (rules : Extent → List Char → List Rule) {title rest : List Token}
    {opening : List Char} (htitle : ∀ t ∈ title, Loose t)
    (hs : tokens s = title ++ ⟨.leftBrace, opening⟩ :: rest)
    (hrules : ∀ body, (∀ t ∈ tokens body, Loose t) → rules .first body = rules .matching body) :
    HeadResult.ofBody .first (rules .first) rest
      = HeadResult.ofBody .matching (rules .matching) rest := by
  have hopened : Flat 1 rest := by
    have h := hflat
    rw [hs] at h
    have hrest := h.append_right.tail
    rwa [braceDepth_of_loose htitle] at hrest
  rcases blockBody_flat hopened with hnone | ⟨body, closing, after, rfl, hbody, hsome⟩
  · rw [HeadResult.ofBody, HeadResult.ofBody, hnone, hnone]
  · have hblock : HasBlock .first (tokens s) body :=
      ⟨title, opening, closing, after, hs, fun t ht => (hbody t ht).2⟩
    have hread : ∀ t ∈ tokens (body.flatMap Token.text), Loose t := by
      rwa [hblock.enclosed.2]
    rw [HeadResult.ofBody, HeadResult.ofBody, hsome, hsome]
    dsimp only
    rw [hrules _ hread]

include hflat in
/-- **What reading a head of a flat source comes to** does not depend on the reading. -/
theorem Head.read_flat (head : Head) :
    head.read .first (tokens s) = head.read .matching (tokens s) := by
  obtain ⟨gap, hgap, hgaps⟩ := dropBlank_eq (tokens s)
  have hgapLoose : ∀ t ∈ gap, Loose t := fun t ht => loose_of_isGap (hgaps t ht)
  cases head with
  | animations =>
    rw [Head.read, Head.read]
    split
    · next opening rest heq =>
      exact ofBody_flat hflat (fun extent body => keyframeRules extent [] (tokens body)) hgapLoose
        (heq ▸ hgap) fun body hbody => by
          rw [keyframeRules_of_loose hbody, keyframeRules_of_loose hbody]
    · rfl
  | named kind =>
    obtain ⟨name, hname, hnameLoose, -⟩ := nameRun_eq (dropBlank (tokens s))
    rw [Head.read, Head.read]
    generalize nameRun (dropBlank (tokens s)) = run at hname ⊢
    obtain ⟨found, after⟩ := run
    dsimp only at hname ⊢
    obtain ⟨gap', hgap', hgaps'⟩ := dropBlank_eq after
    have htitle : tokens s = gap ++ name ++ gap' ++ dropBlank after := by
      rw [List.append_assoc _ gap', ← hgap', List.append_assoc, ← hname, ← hgap]
    have htitleLoose : ∀ t ∈ gap ++ name ++ gap', Loose t :=
      List.forall_mem_append.mpr ⟨List.forall_mem_append.mpr ⟨hgapLoose, hnameLoose⟩,
        fun t ht => loose_of_isGap (hgaps' t ht)⟩
    split
    · rfl
    · split
      · rfl
      · split
        · next opening rest heq =>
          exact ofBody_flat hflat
            (fun _ body => [⟨kind, String.ofList found, String.ofList body⟩]) htitleLoose
            (heq ▸ htitle) fun _ _ => rfl
        · rfl

/-- Behind a head nothing is left, or the depth is that of the tokens read so far. -/
theorem Head.rest_eq (head : Head) (ts : List Token) :
    let result := head.read .matching ts
    result.depth = 0 ∧ result.rest = [] ∨
      ∃ gone, ts = gone ++ result.rest ∧ braceDepth 0 gone = result.depth := by
  have hcases := head.read_cases .matching ts
  generalize head.read .matching ts = result at hcases ⊢
  cases hcases with
  | passed gone h => exact Or.inr ⟨gone, h, rfl⟩
  | unclosed => exact Or.inl ⟨rfl, rfl⟩
  | @block title body rest opening closing h htitle hbody =>
    refine Or.inr ⟨title ++ ⟨.leftBrace, opening⟩ :: body ++ [⟨.rightBrace, closing⟩],
      by simpa using h, ?_⟩
    rw [braceDepth_append, braceDepth_append, braceDepth_of_loose htitle]
    show braceDepth (braceDepth 1 body) [_] = 0
    rw [Braces.braceDepth hbody 1]
    rfl

include hflat in
/-- Behind a head of a flat text comes the rest of the text, which is flat. -/
theorem Head.flat_rest (head : Head) :
    let result := head.read .matching (tokens s)
    (∃ r, tokens r = result.rest) ∧ Flat result.depth result.rest := by
  intro result
  rcases head.rest_eq (tokens s) with ⟨hdepth, hrest⟩ | ⟨gone, hgone, hdepth⟩
  · rw [hdepth, hrest]
    exact ⟨⟨[], tokens_nil⟩, by decide⟩
  · obtain ⟨r, -, hr⟩ := tokens_eq_append hgone
    have hafter := hgone ▸ hflat
    exact ⟨⟨r, hr⟩, hdepth ▸ hafter.append_right⟩

end Heads

/-! ### Sources -/

/-- **The rules of flat tokens** are the same in both readings. -/
theorem rulesFrom_flat (d : Nat) (ts : List Token) (hts : ∃ s, tokens s = ts) (hflat : Flat d ts) :
    rulesFrom .first d ts = rulesFrom .matching d ts := by
  have htail : ∀ {t : Token} {ts : List Token}, (∃ s, tokens s = t :: ts) → ∃ s, tokens s = ts := by
    rintro t ts ⟨s, hs⟩
    obtain ⟨_, _, r, -, -, -, hr, -⟩ := tokens_eq_cons hs
    exact ⟨r, hr⟩
  fun_induction rulesFrom .first d ts with
  | case1 d => rw [rulesFrom]
  | case2 d t ts hkind ih =>
    have hdepth : braceDepth d [t] = d + 1 := by simp [braceDepth, hkind]
    rw [rulesFrom_leftBrace hkind, ih (htail hts) (hdepth ▸ hflat.tail)]
  | case3 d t ts hkind ih =>
    have hdepth : braceDepth d [t] = d - 1 := by simp [braceDepth, hkind]
    rw [rulesFrom_rightBrace hkind, ih (htail hts) (hdepth ▸ hflat.tail)]
  | case4 t ts hkind head hhead _ ih =>
    obtain ⟨s, rfl⟩ := htail hts
    have hs : Flat 0 (tokens s) := hflat.tail_of_loose (loose_of_atKeyword hkind)
    -- the head is read alike, and what follows it is flat and the rest of a text
    have hread := Head.read_flat hs head
    obtain ⟨htext, hrest⟩ := Head.flat_rest hs head
    rw [rulesFrom_keyword hkind hhead, ih (hread ▸ htext) (hread ▸ hrest), hread]
  | case5 t ts hkind hhead ih =>
    have hloose := loose_of_atKeyword hkind
    rw [rulesFrom_of_loose hloose fun _ _ => hhead, ih (htail hts) (hflat.tail_of_loose hloose)]
  | case6 d t ts hkind hd ih =>
    have hloose := loose_of_atKeyword hkind
    rw [rulesFrom_of_loose hloose fun _ hzero => absurd hzero hd,
      ih (htail hts) (hflat.tail_of_loose hloose)]
  | case7 d t ts hopen hclose hkeyword ih =>
    have hloose : Loose t := ⟨hopen, hclose⟩
    rw [rulesFrom_of_loose hloose fun h => absurd h hkeyword,
      ih (htail hts) (hflat.tail_of_loose hloose)]

/-- **Both readings of a source without nested blocks give the same rules.** -/
theorem extractRules_flat (source : String) (h : Flat 0 (tokens source.toList)) :
    extractRules .first source = extractRules .matching source :=
  rulesFrom_flat 0 _ ⟨source.toList, rfl⟩ h

/-- A source with a stray brace, a head without a name, one with a word too many, a keyword inside
an unknown block, an animations block, braces in a string and in a comment, and a block that is
never closed. -/
theorem extractRules_flat_malformed :
    let source :=
      "\x7d @style \x7b a: b \x7d @style x y \x7b c: d \x7d @media m \x7b @style i \x7d" ++
      "@animations \x7b fade: to \x7d @theme t \x7b e: '\x7b' /* \x7b */ \x7d @style u \x7b f: g"
    Flat 0 (tokens source.toList) ∧ extractRules .first source = extractRules .matching source := by
  intro source
  have hflat : Flat 0 (tokens source.toList) := by decide +kernel
  exact ⟨hflat, extractRules_flat source hflat⟩

end Pagesmith.Style
