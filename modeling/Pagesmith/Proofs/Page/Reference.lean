import Pagesmith.Page.Reference
import Pagesmith.Proofs.Html.Lexeme
import Pagesmith.Proofs.Text.Position

/-!
# References and their tags

The references of markup come from its start tags, and a start tag is a part of the markup between
brackets at its offset.

* `flatMap_startTags`: the start tags among the lexemes.
* `exists_split_of_mem_startTags`: a start tag stands at its offset.
* `classOffset_bounds`, `markerOffset_bounds`: a reference is found inside its tag.
* `Shrinks.isSome_classRefs?`, `Shrinks.isSome_unknownMarkers?`: when references have positions.
-/

namespace Pagesmith.Page

open Pagesmith.Text
open Pagesmith.Html

variable {t : StartTag} {name : List Char}

/-- What is collected from the attributes of the start tags is collected from the lexemes. -/
theorem flatMap_startTags {α : Type} {f : List Attribute → List α} (hf : f [] = [])
    (markup : List Char) :
    (startTags markup).flatMap (fun t => f t.attributes)
      = (lexemes markup).flatMap fun x => f x.token.attributes := by
  have hfrom : ∀ (offset : Nat) (xs : List Lexeme),
      (startTagsFrom offset xs).flatMap (fun t => f t.attributes)
        = xs.flatMap fun x => f x.token.attributes := by
    intro offset xs
    induction xs generalizing offset with
    | nil => rfl
    | cons x xs ih =>
      obtain ⟨token, raw⟩ := x
      rw [List.flatMap_cons, ← ih (offset + byteSize raw)]
      cases token with
      | startTag name attributes closing => rfl
      | text | endTag | comment | doctype =>
        exact (congrArg
          (· ++ (startTagsFrom (offset + byteSize raw) xs).flatMap fun t => f t.attributes) hf).symm
  exact hfrom 0 _

theorem exists_lexeme_of_mem {offset : Nat} {xs : List Lexeme} (h : t ∈ startTagsFrom offset xs) :
    ∃ before x after name closing, xs = before ++ x :: after ∧ x.raw = t.raw ∧
      x.token = .startTag name t.attributes closing ∧
      t.offset = offset + byteSize (before.flatMap (·.raw)) := by
  induction xs generalizing offset with
  | nil => cases h
  | cons x xs ih =>
    have hlater : t ∈ startTagsFrom (offset + byteSize x.raw) xs →
        ∃ before y after name closing, x :: xs = before ++ y :: after ∧ y.raw = t.raw ∧
          y.token = .startTag name t.attributes closing ∧
          t.offset = offset + byteSize (before.flatMap (·.raw)) := by
      intro hmem
      obtain ⟨before, y, after, name, closing, rfl, hraw, htoken, hoffset⟩ := ih hmem
      refine ⟨x :: before, y, after, name, closing, rfl, hraw, htoken, ?_⟩
      rw [hoffset, List.flatMap_cons, byteSize_append, Nat.add_assoc]
    obtain ⟨token, raw⟩ := x
    cases token with
    | startTag name attributes closing =>
      rcases List.mem_cons.mp h with rfl | hmem
      · exact ⟨[], _, xs, name, closing, rfl, rfl, rfl, rfl⟩
      · exact hlater hmem
    | text | endTag | comment | doctype => exact hlater h

/-- **A start tag stands at its offset**, from one bracket to another. -/
theorem exists_split_of_mem_startTags {markup : List Char} (h : t ∈ startTags markup) :
    ∃ before inner after, markup = before ++ t.raw ++ after ∧ t.offset = byteSize before ∧
      t.raw = '<' :: (inner ++ ['>']) := by
  obtain ⟨xs, x, ys, name, closing, hsplit, hraw, htoken, hoffset⟩ := exists_lexeme_of_mem h
  obtain ⟨tail, htail⟩ := exists_unread none markup
  have hx : x ∈ lexemesFrom none markup := by
    rw [← lexemes, hsplit]
    simp
  obtain ⟨v, nm, ws, hv, htag, -, -⟩ := exists_tagOf_of_mem hx htoken
  obtain ⟨inner, rfl⟩ := List.getLast?_eq_some_iff.mp htag.getLast?
  refine ⟨xs.flatMap (·.raw), inner, ys.flatMap (·.raw) ++ tail, ?_, ?_, by rw [← hraw, hv]⟩
  · rw [← lexemes, hsplit, List.flatMap_append, List.flatMap_cons, hraw] at htail
    rw [htail]
    simp
  · rw [hoffset, Nat.zero_add]

/-! ### Offsets of references -/

theorem offsetOf?_le {p s : List Nat} {k : Nat} (h : offsetOf? p s = some k) :
    k + p.length ≤ s.length := by
  induction s generalizing k with
  | nil =>
    rw [offsetOf?] at h
    split at h
    · next hp =>
      obtain rfl := Option.some.inj h
      simp [List.isEmpty_iff.mp hp]
    · cases h
  | cons b bs ih =>
    rw [offsetOf?] at h
    split at h
    · next hp =>
      obtain rfl := Option.some.inj h
      simpa using (List.isPrefixOf_iff_prefix.mp hp).length_le
    · obtain ⟨j, hj, rfl⟩ := Option.map_eq_some_iff.mp h
      have hle := ih hj
      rw [List.length_cons]
      omega

theorem encode_ne_nil {s : List Char} (h : s ≠ []) : encode s ≠ [] := by
  intro hnil
  have hlen := length_encode s
  have hpos := byteSize_pos h
  rw [hnil, List.length_nil] at hlen
  omega

theorem ne_nil_of_mem_classNames (h : name ∈ t.classNames) : name ≠ [] := by
  rw [StartTag.classNames, List.mem_flatMap] at h
  obtain ⟨a, -, h⟩ := h
  have hfield := (List.mem_filter.mp h).1
  rw [fields, List.mem_filter] at hfield
  rintro rfl
  exact absurd hfield.2 (by decide)

theorem classOffset_bounds (hraw : t.raw ≠ []) (hname : name ≠ []) :
    t.offset ≤ t.classOffset name ∧ t.classOffset name < t.offset + byteSize t.raw := by
  have htag := byteSize_pos hraw
  rw [StartTag.classOffset, StartTag.classOffset?]
  split
  · simpa using htag
  · next i _ =>
    split
    · simpa using htag
    · split
      · simpa using htag
      · next k hk =>
        have hle := offsetOf?_le hk
        have hpos := List.length_pos_iff.mpr (encode_ne_nil hname)
        rw [List.length_drop, length_encode t.raw] at hle
        rw [Option.getD_some]
        omega

/-- A marker is found inside its tag, if the tag is not longer in lower case. -/
theorem markerOffset_bounds (t : StartTag) (marker : List Char) :
    t.offset ≤ t.markerOffset marker ∧
      t.markerOffset marker ≤ t.offset + byteSize (t.raw.map lowerChar) := by
  rw [StartTag.markerOffset]
  cases h : offsetOf? (encode marker) t.lowered with
  | none => simp
  | some k =>
    have hle := offsetOf?_le h
    rw [StartTag.lowered, length_encode (t.raw.map lowerChar)] at hle
    rw [Option.getD_some]
    omega

/-! ### References with positions -/

theorem eq_map_of_mapM {α β : Type} {f : α → Option β} {g : α → β} {l : List α} {r : List β}
    (hg : ∀ a ∈ l, ∀ b, f a = some b → b = g a) (h : l.mapM f = some r) : r = l.map g := by
  induction l generalizing r with
  | nil =>
    cases h
    rfl
  | cons a l ih =>
    rw [List.forall_mem_cons] at hg
    rw [List.mapM_cons] at h
    obtain ⟨b, hb, h⟩ := Option.bind_eq_some_iff.mp h
    obtain ⟨bs, hbs, h⟩ := Option.bind_eq_some_iff.mp h
    cases h
    rw [hg.1 b hb, ih hg.2 hbs, List.map_cons]

theorem isSome_mapM {α β : Type} {f : α → Option β} {l : List α}
    (h : ∀ a ∈ l, (f a).isSome = true) : (l.mapM f).isSome = true := by
  induction l with
  | nil => rfl
  | cons a l ih =>
    rw [List.forall_mem_cons] at h
    obtain ⟨b, hb⟩ := Option.isSome_iff_exists.mp h.1
    obtain ⟨bs, hbs⟩ := Option.isSome_iff_exists.mp (ih h.2)
    rw [List.mapM_cons, hb, hbs]
    rfl

theorem eq_atOffset_of_at? {s : List Char} {offset : Nat} {p : Position}
    (h : Position.at? s offset = some p) : p = .atOffset s offset := by
  rw [Position.at?] at h
  split at h
  · exact (Option.some.inj h).symm
  · cases h

theorem isSome_at? {s : List Char} {offset : Nat} (h : offset ≤ byteSize s) :
    (Position.at? s offset).isSome = true := by
  rw [Position.at?, length_encode s, if_pos h]
  rfl

variable {markup : List Char} {refs : List Reference}

theorem eq_classRefs (h : classRefs? markup = some refs) : refs = classRefs markup := by
  obtain ⟨groups, hgroups, rfl⟩ := Option.map_eq_some_iff.mp h
  rw [classRefs, List.flatMap_def]
  refine congrArg List.flatten (eq_map_of_mapM (fun t _ rs hrs => ?_) hgroups)
  refine eq_map_of_mapM (fun name _ r hr => ?_) hrs
  obtain ⟨p, hp, rfl⟩ := Option.map_eq_some_iff.mp hr
  obtain ⟨offset, hoffset, hp⟩ := Option.bind_eq_some_iff.mp hp
  rw [eq_atOffset_of_at? hp, StartTag.classOffset, hoffset, Option.getD_some]

theorem eq_unknownMarkers (h : unknownMarkers? markup = some refs) :
    refs = unknownMarkers markup := by
  obtain ⟨groups, hgroups, rfl⟩ := Option.map_eq_some_iff.mp h
  rw [unknownMarkers, List.flatMap_def]
  refine congrArg List.flatten (eq_map_of_mapM (fun t _ rs hrs => ?_) hgroups)
  refine eq_map_of_mapM (fun m _ r hr => ?_) hrs
  obtain ⟨p, hp, rfl⟩ := Option.map_eq_some_iff.mp hr
  rw [eq_atOffset_of_at? hp]

/-- No tag has more bytes in lower case. -/
def Shrinks (markup : List Char) : Prop :=
  ∀ t ∈ startTags markup, byteSize (t.raw.map lowerChar) ≤ byteSize t.raw

theorem le_byteSize_of_mem_startTags (ht : t ∈ startTags markup) :
    t.offset + byteSize t.raw ≤ byteSize markup := by
  obtain ⟨before, inner, after, hmarkup, hoffset, -⟩ := exists_split_of_mem_startTags ht
  have hsize := congrArg byteSize hmarkup
  rw [byteSize_append, byteSize_append] at hsize
  omega

/-- **References have positions** if no tag has more bytes in lower case. -/
theorem Shrinks.isSome_classRefs? (h : Shrinks markup) : (classRefs? markup).isSome = true := by
  rw [classRefs?, Option.isSome_map]
  refine isSome_mapM fun t ht => isSome_mapM fun name hname => ?_
  have hraw : t.raw ≠ [] := by
    obtain ⟨_, _, _, -, -, hraw⟩ := exists_split_of_mem_startTags ht
    rw [hraw]
    exact List.cons_ne_nil _ _
  have hoffset : (t.classOffset? name).isSome = true := by
    rw [StartTag.classOffset?]
    split
    · rfl
    · next i hi =>
      have hle := offsetOf?_le hi
      rw [StartTag.lowered, length_encode (t.raw.map lowerChar)] at hle
      have hsize := h t ht
      rw [length_encode t.raw, if_neg (by omega)]
      split <;> rfl
  obtain ⟨offset, hoffset⟩ := Option.isSome_iff_exists.mp hoffset
  have hbounds := classOffset_bounds hraw (ne_nil_of_mem_classNames hname)
  rw [StartTag.classOffset, hoffset, Option.getD_some] at hbounds
  rw [hoffset, Option.isSome_map, Option.bind_some]
  have hmarkup := le_byteSize_of_mem_startTags ht
  exact isSome_at? (by omega)

theorem Shrinks.isSome_unknownMarkers? (h : Shrinks markup) :
    (unknownMarkers? markup).isSome = true := by
  rw [unknownMarkers?, Option.isSome_map]
  refine isSome_mapM fun t ht => isSome_mapM fun m _ => ?_
  have hbounds := (markerOffset_bounds t m).2
  have hsize := h t ht
  have hmarkup := le_byteSize_of_mem_startTags ht
  rw [Option.isSome_map]
  exact isSome_at? (by omega)

end Pagesmith.Page
