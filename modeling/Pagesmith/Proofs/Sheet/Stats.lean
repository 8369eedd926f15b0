import Pagesmith.Proofs.Emission.Invariant
import Pagesmith.Proofs.Sheet.Content
import Pagesmith.Proofs.Sheet.Reading

/-!
# Statistics of a printed stylesheet

The statistics of a stylesheet are read from its text.  Where its blocks are legible, that is made
of names, words and a few marks, reading the text of a block adds what the block holds and leaves
the open blocks as they were; so the statistics of the whole text are the counts of the blocks.

* `Stats.add`: statistics with all that some blocks hold.
* `Block.Legible`: blocks whose text can be read back.
* `ofCss_render`: the statistics of the text of legible blocks.
-/

namespace Pagesmith.Style

open Pagesmith.Css

variable {indent : String}

/-! ### Counting blocks -/

def Stats.add (σ : Stats) (bs : List Block) : Stats :=
  { σ.addClasses ((selectorsAll bs).flatMap fun selector => selectorClasses selector.toList) with
    rules := σ.rules + (selectorsAll bs).length
    keyframes := σ.keyframes + (keyframesAll bs).length
    categories :=
      σ.categories ++ (declarationsAll bs).map fun d => Category.ofProperty d.property }

namespace Stats

theorem add_nil (σ : Stats) : σ.add [] = σ := by
  simp [add, addClasses, keyframesAll_eq, selectorsAll_eq, declarationsAll_eq]

theorem add_append (σ : Stats) (bs cs : List Block) : σ.add (bs ++ cs) = (σ.add bs).add cs := by
  simp [add, addClasses, keyframesAll_eq, selectorsAll_eq, declarationsAll_eq, Nat.add_assoc]

theorem add_rule (σ : Stats) (selector : String) (ds : List Declaration) :
    σ.add [.rule selector ds] = (σ.addRule selector).addDeclarations ds := by
  simp [add, addRule, addClasses, addDeclarations, keyframesAll_eq, selectorsAll_eq,
    declarationsAll_eq, Block.keyframes, Block.selectors, Block.declarations]

theorem add_media (σ : Stats) (query : String) (children : List Block) :
    σ.add [.group ("@media " ++ query) children] = σ.add children := by
  simp [add, keyframesAll_eq, selectorsAll_eq, declarationsAll_eq, Block.keyframes,
    Block.selectors, Block.declarations, keyframesName?_media]

theorem addDeclarations_nil (σ : Stats) : σ.addDeclarations [] = σ := by
  simp [addDeclarations]

theorem addDeclarations_append (σ : Stats) (ds es : List Declaration) :
    σ.addDeclarations (ds ++ es) = (σ.addDeclarations ds).addDeclarations es := by
  simp [addDeclarations]

end Stats

/-! ### Legible blocks -/

inductive Block.Frame : Block → Prop where
  | rule {name : String} {ds : List Declaration} (hn : isIdentifier name.toList = true)
      (hd : ∀ d ∈ ds, d.Legible) : Frame (.rule name ds)

/-- A rule with a plain selector and legible declarations, a media group of such blocks, or
keyframes of legible frames. -/
inductive Block.Legible : Block → Prop where
  | rule {selector : String} {ds : List Declaration} (hs : PlainSelector selector)
      (hd : ∀ d ∈ ds, d.Legible) : Legible (.rule selector ds)
  | media {query : String} {children : List Block} (hq : SoftText query.toList)
      (hall : ∀ b ∈ children, Legible b) : Legible (.group ("@media " ++ query) children)
  | keyframes {name : String} {frames : List Block} (hn : isIdentifier name.toList = true)
      (hall : ∀ b ∈ frames, b.Frame) : Legible (.group ("@keyframes " ++ name) frames)

def Indent (indent : String) : Prop := indent.toList.all isSpace = true

theorem Indent.empty : Indent "" := rfl

theorem Indent.blanks : Indent "  " := rfl

theorem Indent.newline : Indent "\n" := rfl

theorem Indent.append {a b : String} (ha : Indent a) (hb : Indent b) : Indent (a ++ b) := by
  rw [Indent, String.toList_append, List.all_append, ha, hb]
  rfl

theorem read_indent (h : Indent indent) (σ : Stats) (k : List Open) (rest : List Char) :
    (Scan.between σ k).read (indent.toList ++ rest) = (Scan.between σ k).read rest :=
  Scan.read_blank σ k (List.all_eq_true.mp h) rest

def declarationLines (indent : String) (ds : List Declaration) : String :=
  String.join (ds.map fun d => indent ++ "  " ++ d.text ++ "\n")

theorem read_declarationLines (hi : Indent indent) {ds : List Declaration}
    (hd : ∀ d ∈ ds, d.Legible) (σ : Stats) {k : List Open}
    (hk : k.head? ∈ [some .rule, some .frame]) (rest : List Char) :
    (Scan.between σ k).read ((declarationLines indent ds).toList ++ rest)
      = (Scan.between (σ.addDeclarations ds) k).read rest := by
  induction ds generalizing σ with
  | nil => rw [Stats.addDeclarations_nil]; rfl
  | cons d ds ih =>
    have hds : ∀ e ∈ ds, e.Legible := fun e he => hd e (List.mem_cons_of_mem d he)
    rw [declarationLines, List.map_cons, String.join_cons, ← declarationLines]
    simp only [String.toList_append, List.append_assoc]
    rw [read_indent hi, read_indent .blanks, read_declaration (hd d List.mem_cons_self) σ hk,
      read_indent .newline, ih hds, ← Stats.addDeclarations_append]
    rfl

theorem read_body (hi : Indent indent) {ds : List Declaration} (hd : ∀ d ∈ ds, d.Legible)
    (σ : Stats) {o : Open} (ho : o ∈ [.rule, .frame]) (k : List Open) (rest : List Char) :
    (Scan.between σ (o :: k)).read
        ("\n".toList ++ ((declarationLines indent ds).toList
          ++ (indent.toList ++ '\x7d' :: ("\n".toList ++ rest))))
      = (Scan.between (σ.addDeclarations ds) k).read rest := by
  have hk : (o :: k).head? ∈ [some .rule, some .frame] := by
    simp only [List.mem_cons, List.not_mem_nil, or_false] at ho
    rcases ho with rfl | rfl <;> simp
  rw [read_indent .newline, read_declarationLines hi hd σ hk, read_indent hi, read_close,
    read_indent .newline]

theorem toList_text_rule (indent selector : String) (ds : List Declaration) (rest : List Char) :
    ((Block.rule selector ds).text indent).toList ++ rest =
      indent.toList ++ (selector.toList ++ ' ' :: '\x7b' :: ("\n".toList
        ++ ((declarationLines indent ds).toList
          ++ (indent.toList ++ '\x7d' :: ("\n".toList ++ rest))))) := by
  rw [Block.text, ← declarationLines]
  simp

theorem toList_text_group (indent head : String) (children : List Block) (rest : List Char) :
    ((Block.group head children).text indent).toList ++ rest =
      indent.toList ++ (head.toList ++ ' ' :: '\x7b' :: ("\n".toList
        ++ ((blocksText (indent ++ "  ") children).toList
          ++ (indent.toList ++ '\x7d' :: ("\n".toList ++ rest))))) := by
  rw [Block.text]
  simp

theorem Block.Frame.read {b : Block} (h : b.Frame) (hi : Indent indent) (σ : Stats) (k : List Open)
    (rest : List Char) :
    (Scan.between σ (.keyframes :: k)).read ((b.text indent).toList ++ rest)
      = (Scan.between (σ.addDeclarations b.declarations) (.keyframes :: k)).read rest := by
  cases h with
  | rule hn hd =>
    rw [toList_text_rule, read_indent hi, read_frame hn σ rfl, read_body hi hd σ (by decide),
      Block.declarations]

theorem read_frames (hi : Indent indent) {frames : List Block} (h : ∀ b ∈ frames, b.Frame)
    (σ : Stats) (k : List Open) (rest : List Char) :
    (Scan.between σ (.keyframes :: k)).read ((blocksText indent frames).toList ++ rest) =
      (Scan.between (σ.addDeclarations (declarationsAll frames)) (.keyframes :: k)).read
        rest := by
  induction frames generalizing σ with
  | nil => rw [declarationsAll, Stats.addDeclarations_nil, blocksText]; rfl
  | cons b bs ih =>
    rw [blocksText, String.toList_append, List.append_assoc, (h b List.mem_cons_self).read hi,
      ih fun x hx => h x (List.mem_cons_of_mem b hx), declarationsAll, Stats.addDeclarations_append]

/-- Reading the text of a block, at any place outside rules and keyframes, adds what the block
holds. -/
def Block.Counted (b : Block) : Prop :=
  ∀ (indent : String), Indent indent → ∀ (σ : Stats) (k : List Open), Outside k →
    ∀ rest, (Scan.between σ k).read ((b.text indent).toList ++ rest)
      = (Scan.between (σ.add [b]) k).read rest

theorem read_blocksText {bs : List Block} (h : ∀ b ∈ bs, b.Counted) (hi : Indent indent) (σ : Stats)
    {k : List Open} (hk : Outside k) (rest : List Char) :
    (Scan.between σ k).read ((blocksText indent bs).toList ++ rest)
      = (Scan.between (σ.add bs) k).read rest := by
  induction bs generalizing σ with
  | nil => rw [Stats.add_nil, blocksText]; rfl
  | cons b bs ih =>
    rw [blocksText, String.toList_append, List.append_assoc,
      h b List.mem_cons_self indent hi σ k hk, ih fun x hx => h x (List.mem_cons_of_mem b hx),
      ← Stats.add_append]
    rfl

theorem Stats.add_keyframes (σ : Stats) (name : String) {frames : List Block}
    (h : ∀ b ∈ frames, b.Frame) :
    σ.add [.group ("@keyframes " ++ name) frames]
      = σ.addKeyframes.addDeclarations (declarationsAll frames) := by
  have hnone : keyframesAll frames = [] := by
    refine keyframesAll_eq_nil fun b hb => ?_
    cases h b hb
    rw [Block.keyframes]
  have hkeyframes : keyframesAll [.group ("@keyframes " ++ name) frames] = [name] := by
    rw [keyframesAll_cons, keyframesAll_nil, Block.keyframes, keyframesName?_keyframes, hnone]
    rfl
  have hselectors : selectorsAll [.group ("@keyframes " ++ name) frames] = [] := by
    simp [selectorsAll_eq, Block.selectors, keyframesName?_keyframes]
  have hdeclarations : declarationsAll [.group ("@keyframes " ++ name) frames]
      = declarationsAll frames := by
    simp [declarationsAll_eq, Block.declarations]
  rw [add, hkeyframes, hselectors, hdeclarations]
  rfl

theorem Block.Legible.counted {b : Block} (h : b.Legible) : b.Counted := by
  induction h with
  | rule hs hd =>
    intro indent hi σ k hk rest
    rw [toList_text_rule, read_indent hi, read_rule hs σ hk, read_body hi hd _ (by decide),
      Stats.add_rule]
  | media hq hall ih =>
    intro indent hi σ k hk rest
    rw [toList_text_group, read_indent hi, read_media hq σ hk, read_indent .newline,
      read_blocksText ih (hi.append .blanks) σ (Or.inr rfl), read_indent hi, read_close,
      read_indent .newline, Stats.add_media]
  | keyframes hn hall =>
    intro indent hi σ k hk rest
    rw [toList_text_group, read_indent hi, read_keyframes hn σ hk, read_indent .newline,
      read_frames (hi.append .blanks) hall, read_indent hi, read_close, read_indent .newline,
      Stats.add_keyframes σ _ hall]

theorem ofCss_render {bs : List Block} (h : ∀ b ∈ bs, b.Legible) :
    Stats.ofCss (render bs) = ({} : Stats).add bs := by
  have hread : ∀ σ : Stats, (Scan.between σ []).read (render bs).toList = σ.add bs := by
    induction bs with
    | nil =>
      intro σ
      rw [Stats.add_nil]
      exact Scan.read_nil _
    | cons b bs ih =>
      intro σ
      have hb := (h b List.mem_cons_self).counted "" .empty σ [] (Or.inl rfl)
      have hrest := ih fun x hx => h x (List.mem_cons_of_mem b hx)
      cases bs with
      | nil =>
        have htext : (render [b]).toList = (b.text "").toList ++ [] := by simp [render]
        rw [htext, hb, Scan.read_nil]
        rfl
      | cons c cs =>
        have htext : (render (b :: c :: cs)).toList
            = (b.text "").toList ++ ("\n".toList ++ (render (c :: cs)).toList) := by
          simp [render]
        rw [htext, hb, read_indent .newline, hrest, ← Stats.add_append]
        rfl
  exact hread {}

end Pagesmith.Style
