import Mathlib.Data.List.DropRight
import Mathlib.Tactic
import Pagesmith.Html.Token

/-!
# Tags as they are written

The text of a tag behind its name is a sequence of blanks, slashes and attributes up to the bracket
that closes it.  An attribute is a name alone, or a name with a value that is quoted or ends at the
next blank.

* `Written`: an attribute as it is written.
* `TagText u ws`: the text `u` up to the closing bracket, with the attributes `ws`.
* `attributesFrom_eq_some_iff`: the attributes that are read are those that are written.
-/

namespace Pagesmith.Html

open Pagesmith.Text

variable {gap gap' : List Char} {c : Char}

/-! ### Written attributes -/

/-- An attribute as it is written: its name, the text from there to the end of its value, and the
value. -/
structure Written where
  key : List Char
  tail : List Char := []
  value : List Char := []
  deriving DecidableEq, Repr

namespace Written

def text (w : Written) : List Char := w.key ++ w.tail

def read (w : Written) : Attribute :=
  ⟨w.key.map lowerAscii, unescape .attribute (unifyLines w.value)⟩

end Written

/-- The names of attributes.  Only the first character may be an equals sign. -/
inductive IsKey : List Char → Prop where
  | intro {c : Char} {k : List Char} : endsName c = false → (∀ d ∈ k, endsKey d = false) →
      IsKey (c :: k)

/-- `ValueText tail value s`: what stands behind the name of an attribute and is read as its value,
where `s` follows. -/
inductive ValueText : List Char → List Char → List Char → Prop where
  /-- A name alone. -/
  | none {s : List Char} : (∀ c, s.head? = some c → endsName c = true) →
      (s.dropWhile isTagSpace).head? ≠ some '=' → ValueText [] [] s
  | quoted {gap gap' value : List Char} {q : Char} (s : List Char) :
      (∀ c ∈ gap, isTagSpace c = true) → (∀ c ∈ gap', isTagSpace c = true) →
      (q = '"' ∨ q = '\'') → q ∉ value →
      ValueText (gap ++ '=' :: gap' ++ q :: value ++ [q]) value s
  | plain {gap gap' value s : List Char} :
      (∀ c ∈ gap, isTagSpace c = true) → (∀ c ∈ gap', isTagSpace c = true) →
      (∀ c ∈ value, isTagSpace c = false ∧ c ≠ '>') →
      (∀ c, value.head? = some c → c ≠ '"' ∧ c ≠ '\'') →
      (∀ c, s.head? = some c → isTagSpace c = true ∨ c = '>') → (value = [] → s.head? = some '>') →
      ValueText (gap ++ '=' :: gap' ++ value) value s

inductive TagText : List Char → List Written → Prop where
  | close : TagText ['>'] []
  | space {c : Char} {s : List Char} {ws : List Written} :
      isTagSpace c = true → TagText s ws → TagText (c :: s) ws
  | slash {s : List Char} {ws : List Written} : TagText s ws → TagText ('/' :: s) ws
  | written {key tail value s : List Char} {ws : List Written} : IsKey key →
      ValueText tail value s → TagText s ws →
      TagText (key ++ (tail ++ s)) (⟨key, tail, value⟩ :: ws)

/-! ### Reading what is written -/

theorem attributesFrom_of_nil {s : List Char} (h : s.dropWhile isTagSpace = []) :
    attributesFrom s = none := by
  rw [attributesFrom]
  split
  · rfl
  · next heq =>
    rw [h] at heq
    cases heq

theorem attributesFrom_of_cons {s cs : List Char} (h : s.dropWhile isTagSpace = c :: cs) :
    attributesFrom s =
      if c = '>' then some ([], cs)
      else if c = '/' then attributesFrom cs
      else
        (attributesFrom (readValue (cs.dropWhile fun d => !endsKey d)).2).map fun p =>
          (⟨(c :: cs.takeWhile fun d => !endsKey d).map lowerAscii,
              unescape .attribute
                (unifyLines (readValue (cs.dropWhile fun d => !endsKey d)).1)⟩ :: p.1, p.2) := by
  rw [attributesFrom]
  split
  · next heq =>
    rw [h] at heq
    cases heq
  · next heq =>
    rw [h] at heq
    obtain ⟨rfl, rfl⟩ := List.cons.inj heq
    rfl

theorem attributesFrom_dropWhile (s : List Char) :
    attributesFrom (s.dropWhile isTagSpace) = attributesFrom s := by
  have hidem : (s.dropWhile isTagSpace).dropWhile isTagSpace = s.dropWhile isTagSpace :=
    List.dropWhile_idempotent isTagSpace s
  cases h : s.dropWhile isTagSpace with
  | nil => rw [attributesFrom_of_nil h, attributesFrom_of_nil rfl]
  | cons c cs =>
    rw [attributesFrom_of_cons h, attributesFrom_of_cons (h ▸ hidem)]

theorem attributesFrom_space (h : isTagSpace c = true) (s : List Char) :
    attributesFrom (c :: s) = attributesFrom s := by
  rw [← attributesFrom_dropWhile, List.dropWhile_cons_of_pos h, attributesFrom_dropWhile]

theorem attributesFrom_close (s : List Char) : attributesFrom ('>' :: s) = some ([], s) := by
  rw [attributesFrom_of_cons rfl, if_pos rfl]

theorem attributesFrom_slash (s : List Char) :
    attributesFrom ('/' :: s) = attributesFrom s := by
  rw [attributesFrom_of_cons rfl, if_neg (by decide), if_pos rfl]

theorem endsName_of_isTagSpace (h : isTagSpace c = true) : endsName c = true := by
  rw [endsName, h]
  rfl

theorem endsKey_of_endsName (h : endsName c = true) : endsKey c = true := by
  rw [endsKey, h]
  rfl

theorem attributesFrom_key {key s : List Char} (hkey : IsKey key)
    (hs : ∀ c, s.head? = some c → endsKey c = true) :
    attributesFrom (key ++ s) = (attributesFrom (readValue s).2).map fun p =>
      (⟨key.map lowerAscii, unescape .attribute (unifyLines (readValue s).1)⟩ :: p.1, p.2) := by
  obtain @⟨c, k, hc, hk⟩ := hkey
  have hspace : isTagSpace c = false := by
    by_contra h
    rw [endsName_of_isTagSpace (by simpa using h)] at hc
    cases hc
  have hclose : c ≠ '>' := by
    rintro rfl
    cases hc
  have hslash : c ≠ '/' := by
    rintro rfl
    cases hc
  have hstop : ∀ d ∈ k, (!endsKey d) = true := fun d hd => by rw [hk d hd]; rfl
  have htake : (k ++ s).takeWhile (fun d => !endsKey d) = k := by
    rw [List.takeWhile_append_of_pos hstop]
    cases s with
    | nil => simp
    | cons d s => simp [hs d rfl]
  have hdrop : (k ++ s).dropWhile (fun d => !endsKey d) = s := by
    rw [List.dropWhile_append_of_pos hstop]
    cases s with
    | nil => simp
    | cons d s => simp [hs d rfl]
  rw [List.cons_append, attributesFrom_of_cons (List.dropWhile_cons_of_neg (by simp [hspace])),
    if_neg hclose, if_neg hslash, htake, hdrop]

theorem dropWhile_gap {p : Char → Bool} (hgap : ∀ c ∈ gap, p c = true) {s : List Char}
    (hs : ∀ c, s.head? = some c → p c = false) : (gap ++ s).dropWhile p = s := by
  rw [List.dropWhile_append_of_pos hgap]
  cases s with
  | nil => rfl
  | cons c s => simp [hs c rfl]

theorem takeWhile_value {p : Char → Bool} {value : List Char} (hvalue : ∀ c ∈ value, p c = true)
    {s : List Char} (hs : ∀ c, s.head? = some c → p c = false) :
    (value ++ s).takeWhile p = value := by
  rw [List.takeWhile_append_of_pos hvalue]
  cases s with
  | nil => simp
  | cons c s => simp [hs c rfl]

theorem readValue_bare {s : List Char} (h : (s.dropWhile isTagSpace).head? ≠ some '=') :
    (readValue s).1 = [] ∧ attributesFrom (readValue s).2 = attributesFrom s := by
  rw [← attributesFrom_dropWhile s, readValue]
  split
  · next heq => exact ⟨rfl, by rw [heq, attributesFrom_slash]⟩
  · next heq => exact absurd (by rw [heq]; rfl) h
  · exact ⟨rfl, rfl⟩

theorem readValue_valued {s : List Char} (hgap : ∀ c ∈ gap, isTagSpace c = true)
    (hgap' : ∀ c ∈ gap', isTagSpace c = true) (hc : isTagSpace c = false) :
    readValue (gap ++ '=' :: (gap' ++ c :: s)) =
      if c = '>' then ([], c :: s)
      else if c = '"' || c = '\'' then (s.takeWhile (· != c), (s.dropWhile (· != c)).drop 1)
      else
        ((c :: s).takeWhile fun d => !(isTagSpace d || d == '>'),
          (c :: s).dropWhile fun d => !(isTagSpace d || d == '>')) := by
  have hequals : ∀ d, ('=' :: (gap' ++ c :: s)).head? = some d → isTagSpace d = false := by
    rintro d hd
    obtain rfl := Option.some.inj hd
    decide
  have hvalue : ∀ d, (c :: s).head? = some d → isTagSpace d = false := by
    rintro d hd
    obtain rfl := Option.some.inj hd
    exact hc
  rw [readValue, dropWhile_gap hgap hequals]
  simp only
  rw [dropWhile_gap hgap' hvalue]

theorem readValue_quoted {value s : List Char} {q : Char} (hgap : ∀ c ∈ gap, isTagSpace c = true)
    (hgap' : ∀ c ∈ gap', isTagSpace c = true) (hq : q = '"' ∨ q = '\'') (hvalue : q ∉ value) :
    readValue (gap ++ '=' :: (gap' ++ q :: (value ++ q :: s))) = (value, s) := by
  have hstop : ∀ c ∈ value, (c != q) = true := by
    intro c hc
    rw [bne_iff_ne]
    rintro rfl
    exact hvalue hc
  have hends : ∀ c, (q :: s).head? = some c → (c != q) = false := by
    intro c hc
    obtain rfl := Option.some.inj hc
    simp
  have hspace : isTagSpace q = false := by rcases hq with rfl | rfl <;> decide
  have hclose : q ≠ '>' := by rcases hq with rfl | rfl <;> decide
  rw [readValue_valued hgap hgap' hspace, if_neg hclose, if_pos (by simpa using hq),
    takeWhile_value hstop hends, dropWhile_gap hstop hends]
  rfl

theorem readValue_plain {value s : List Char} (hgap : ∀ c ∈ gap, isTagSpace c = true)
    (hgap' : ∀ c ∈ gap', isTagSpace c = true) (hvalue : ∀ c ∈ value, isTagSpace c = false ∧ c ≠ '>')
    (hquote : ∀ c, value.head? = some c → c ≠ '"' ∧ c ≠ '\'')
    (hs : ∀ c, s.head? = some c → isTagSpace c = true ∨ c = '>')
    (hempty : value = [] → s.head? = some '>') :
    readValue (gap ++ '=' :: (gap' ++ (value ++ s))) = (value, s) := by
  cases value with
  | nil =>
    obtain ⟨t, rfl⟩ := List.head?_eq_some_iff.mp (hempty rfl)
    rw [List.nil_append, readValue_valued hgap hgap' (by decide), if_pos rfl]
  | cons c value =>
    obtain ⟨hspace, hclose⟩ := hvalue c List.mem_cons_self
    have hstop : ∀ d ∈ c :: value, (!(isTagSpace d || d == '>')) = true := by
      intro d hd
      simpa using hvalue d hd
    have hends : ∀ d, s.head? = some d → (!(isTagSpace d || d == '>')) = false := by
      intro d hd
      rcases hs d hd with h | h <;> simp [h]
    rw [List.cons_append, readValue_valued hgap hgap' hspace, if_neg hclose,
      if_neg (by simpa using hquote c rfl), ← List.cons_append, takeWhile_value hstop hends,
      dropWhile_gap hstop hends]

theorem endsKey_head_valued (hgap : ∀ c ∈ gap, isTagSpace c = true) (s : List Char) :
    ∀ c, (gap ++ '=' :: s).head? = some c → endsKey c = true := by
  intro c hc
  cases gap with
  | nil =>
    obtain rfl := Option.some.inj hc
    decide
  | cons d gap =>
    obtain rfl := Option.some.inj hc
    exact endsKey_of_endsName (endsName_of_isTagSpace (hgap d List.mem_cons_self))

namespace ValueText

variable {tail value s : List Char}

theorem endsKey_head (h : ValueText tail value s) :
    ∀ c, (tail ++ s).head? = some c → endsKey c = true := by
  cases h with
  | none hhead => exact fun c hc => endsKey_of_endsName (hhead c hc)
  | quoted _ hgap =>
    simp only [List.append_assoc, List.cons_append]
    exact endsKey_head_valued hgap _
  | plain hgap =>
    simp only [List.append_assoc, List.cons_append]
    exact endsKey_head_valued hgap _

theorem readValue_append (h : ValueText tail value s) :
    (readValue (tail ++ s)).1 = value ∧
      attributesFrom (readValue (tail ++ s)).2 = attributesFrom s := by
  cases h with
  | none _ hequals => exact readValue_bare hequals
  | quoted _ hgap hgap' hq hvalue =>
    have hread := readValue_quoted (s := s) hgap hgap' hq hvalue
    simp only [List.append_assoc, List.cons_append, List.nil_append] at hread ⊢
    rw [hread]
    exact ⟨rfl, rfl⟩
  | plain hgap hgap' hvalue hquote hhead hempty =>
    have hread := readValue_plain hgap hgap' hvalue hquote hhead hempty
    simp only [List.append_assoc, List.cons_append] at hread ⊢
    rw [hread]
    exact ⟨rfl, rfl⟩

/-- Only the start of what follows a value matters to it. -/
theorem congr (h : ValueText tail value s) {t : List Char} (hhead : t.head? = s.head?)
    (hequals : (s.dropWhile isTagSpace).head? ≠ some '=' →
      (t.dropWhile isTagSpace).head? ≠ some '=') :
    ValueText tail value t := by
  cases h with
  | none hname hnot => exact .none (by rwa [hhead]) (hequals hnot)
  | quoted _ hgap hgap' hq hvalue => exact .quoted t hgap hgap' hq hvalue
  | plain hgap hgap' hvalue hquote hs hempty =>
    exact .plain hgap hgap' hvalue hquote (by rwa [hhead]) (by rwa [hhead])

end ValueText

namespace TagText

variable {u : List Char} {ws : List Written}

theorem ne_nil (h : TagText u ws) : u ≠ [] := by
  cases h with
  | close | space | slash => simp
  | written hkey => cases hkey; simp

theorem getLast? (h : TagText u ws) : u.getLast? = some '>' := by
  induction h with
  | close => rfl
  | space _ _ ih | slash _ ih => rw [List.getLast?_cons, ih]; rfl
  | written _ _ _ ih => rw [List.getLast?_append, List.getLast?_append, ih]; rfl

theorem head?_append (h : TagText u ws) (rest : List Char) : (u ++ rest).head? = u.head? := by
  obtain ⟨c, u, rfl⟩ := List.exists_cons_of_ne_nil h.ne_nil
  rfl

theorem head?_dropWhile_append (h : TagText u ws) (rest : List Char) :
    ((u ++ rest).dropWhile isTagSpace).head? = (u.dropWhile isTagSpace).head? := by
  have hne : u.dropWhile isTagSpace ≠ [] := by
    rw [Ne, List.dropWhile_eq_nil_iff]
    exact fun hall => absurd (hall '>' (List.mem_of_getLast? h.getLast?)) (by decide)
  rw [List.dropWhile_append, if_neg (by rwa [List.isEmpty_iff])]
  obtain ⟨c, v, hv⟩ := List.exists_cons_of_ne_nil hne
  rw [hv]
  rfl

theorem spaces (hgap : ∀ c ∈ gap, isTagSpace c = true) (h : TagText u ws) :
    TagText (gap ++ u) ws := by
  induction gap with
  | nil => exact h
  | cons c gap ih =>
    rw [List.forall_mem_cons] at hgap
    exact .space hgap.1 (ih hgap.2)

theorem attributesFrom_append (h : TagText u ws) (rest : List Char) :
    attributesFrom (u ++ rest) = some (ws.map Written.read, rest) := by
  induction h with
  | close => exact attributesFrom_close rest
  | space hc _ ih => rw [List.cons_append, attributesFrom_space hc, ih]
  | slash _ ih => rw [List.cons_append, attributesFrom_slash, ih]
  | @written key tail value s ws hkey hvalue hs ih =>
    have hlong : ValueText tail value (s ++ rest) :=
      hvalue.congr (hs.head?_append rest) fun h => by rwa [hs.head?_dropWhile_append]
    obtain ⟨hread, hnext⟩ := hlong.readValue_append
    rw [List.append_assoc, List.append_assoc, attributesFrom_key hkey hlong.endsKey_head, hnext, ih,
      hread]
    rfl

end TagText

/-! ### Writing what is read -/

theorem exists_takeWhile (p : Char → Bool) (s : List Char) :
    ∃ a b, s = a ++ b ∧ s.takeWhile p = a ∧ s.dropWhile p = b ∧ (∀ c ∈ a, p c = true) ∧
      ∀ c, b.head? = some c → p c = false := by
  refine ⟨_, _, List.takeWhile_append_dropWhile.symm, rfl, rfl,
    fun c hc => List.all_eq_true.mp List.all_takeWhile c hc, fun c hc => ?_⟩
  have hnot := List.head?_dropWhile_not p s
  rw [hc] at hnot
  simpa using hnot

theorem exists_valueText {r : List Char} (hhead : ∀ c, r.head? = some c → endsKey c = true)
    (h : attributesFrom (readValue r).2 ≠ none) :
    ∃ tail s, r = tail ++ s ∧ ValueText tail (readValue r).1 s ∧
      attributesFrom (readValue r).2 = attributesFrom s := by
  by_cases hequals : (r.dropWhile isTagSpace).head? = some '='
  · obtain ⟨gap, t, rfl, -, hdrop, hgap, -⟩ := exists_takeWhile isTagSpace r
    rw [hdrop] at hequals
    obtain ⟨t, rfl⟩ := List.head?_eq_some_iff.mp hequals
    obtain ⟨gap', v, rfl, -, hdrop', hgap', hv⟩ := exists_takeWhile isTagSpace t
    cases v with
    | nil =>
      refine absurd ?_ h
      rw [readValue, hdrop]
      simp only [hdrop']
      exact attributesFrom_of_nil rfl
    | cons c v =>
      have hspace := hv c rfl
      rw [readValue_valued hgap hgap' hspace] at h ⊢
      by_cases hclose : c = '>'
      · rw [if_pos hclose]
        refine ⟨gap ++ '=' :: gap' ++ [], c :: v, by simp,
          .plain hgap hgap' (by simp) (by simp) (fun d hd => ?_) (fun _ => by rw [hclose]; rfl),
          rfl⟩
        exact .inr ((Option.some.inj hd).symm.trans hclose)
      · rw [if_neg hclose] at h ⊢
        by_cases hquote : c = '"' ∨ c = '\''
        · rw [if_pos (by simpa using hquote)] at h ⊢
          obtain ⟨value, t, rfl, htake, hdrop, hvalue, ht⟩ := exists_takeWhile (· != c) v
          rw [hdrop] at h ⊢
          rw [htake]
          cases t with
          | nil => exact absurd (attributesFrom_of_nil rfl) h
          | cons d t =>
            obtain rfl : d = c := by simpa using ht d rfl
            refine ⟨gap ++ '=' :: gap' ++ d :: value ++ [d], t, by simp,
              .quoted t hgap hgap' hquote fun hmem => ?_, rfl⟩
            simpa using hvalue d hmem
        · rw [if_neg (by simpa using hquote)] at h ⊢
          obtain ⟨value, t, hsplit, htake, hdrop, hvalue, ht⟩ :=
            exists_takeWhile (fun d => !(isTagSpace d || d == '>')) (c :: v)
          rw [hdrop, htake]
          have hfirst : value.head? = some c := by
            rw [← htake, List.takeWhile_cons_of_pos (by simp [hspace, hclose])]
            rfl
          refine ⟨gap ++ '=' :: gap' ++ value, t, by simp [hsplit], .plain hgap hgap'
            (fun d hd => by simpa using hvalue d hd) (fun d hd => ?_) (fun d hd => ?_)
            (fun hnil => ?_), rfl⟩
          · rw [hfirst] at hd
            obtain rfl := Option.some.inj hd
            exact not_or.mp hquote
          · have hstop := ht d hd
            rw [Bool.not_eq_false', Bool.or_eq_true, beq_iff_eq] at hstop
            exact hstop
          · rw [hnil] at hfirst
            cases hfirst
  · obtain ⟨hnone, hnext⟩ := readValue_bare hequals
    refine ⟨[], r, rfl, ?_, hnext⟩
    rw [hnone]
    refine .none (fun c hc => ?_) hequals
    have hends := hhead c hc
    rw [endsKey, Bool.or_eq_true, beq_iff_eq] at hends
    refine hends.resolve_right fun heq => hequals ?_
    obtain ⟨r, rfl⟩ := List.head?_eq_some_iff.mp hc
    rw [heq]
    rfl

/-- **Tags are read as they are written.**  The attributes of a tag that is closed are those of one
text up to its bracket. -/
theorem attributesFrom_eq_some_iff {s rest : List Char} {attributes : List Attribute} :
    attributesFrom s = some (attributes, rest) ↔
      ∃ u ws, s = u ++ rest ∧ TagText u ws ∧ ws.map Written.read = attributes := by
  constructor
  · intro h
    induction hn : s.length using Nat.strongRecOn generalizing s attributes with
    | ind n ih =>
      subst hn
      obtain ⟨gap, t, rfl, -, hdrop, hgap, ht⟩ := exists_takeWhile isTagSpace s
      cases t with
      | nil =>
        rw [attributesFrom_of_nil hdrop] at h
        cases h
      | cons c cs =>
        rw [attributesFrom_of_cons hdrop] at h
        by_cases hclose : c = '>'
        · rw [if_pos hclose] at h
          obtain ⟨rfl, rfl⟩ := Prod.mk.inj (Option.some.inj h)
          exact ⟨gap ++ ['>'], [], by simp [hclose], .spaces hgap .close, rfl⟩
        rw [if_neg hclose] at h
        by_cases hslash : c = '/'
        · rw [if_pos hslash] at h
          obtain ⟨u, ws, rfl, hu, rfl⟩ := ih _ (by simp; omega) h rfl
          exact ⟨gap ++ '/' :: u, ws, by simp [hslash], .spaces hgap (.slash hu), rfl⟩
        rw [if_neg hslash] at h
        obtain ⟨k, r, rfl, htake, hdrop', hk, hr⟩ := exists_takeWhile (fun d => !endsKey d) cs
        rw [htake, hdrop'] at h
        obtain ⟨⟨attributes', rest'⟩, hnext, heq⟩ := Option.map_eq_some_iff.mp h
        obtain ⟨rfl, rfl⟩ := Prod.mk.inj heq
        obtain ⟨tail, s, rfl, hvalue, hsame⟩ :=
          exists_valueText (fun d hd => by simpa using hr d hd) (by rw [hnext]; simp)
        rw [hsame] at hnext
        obtain ⟨u, ws, rfl, hu, rfl⟩ := ih _ (by simp; omega) hnext rfl
        have hshort := hvalue.congr (hu.head?_append _).symm
          fun h => by rwa [hu.head?_dropWhile_append] at h
        have hkey : IsKey (c :: k) :=
          .intro (by simp [endsName, ht c rfl, hslash, hclose]) fun d hd => by simpa using hk d hd
        exact ⟨gap ++ (c :: k ++ (tail ++ u)), _, by simp, .spaces hgap (.written hkey hshort hu),
          rfl⟩
  · rintro ⟨u, ws, rfl, hu, rfl⟩
    exact hu.attributesFrom_append rest

/-- `TagOf s name ws`: the text of a tag from its name to the bracket that closes it. -/
inductive TagOf : List Char → List Char → List Written → Prop where
  | intro {name u : List Char} {ws : List Written} : (∀ c ∈ name, endsName c = false) →
      (∀ c, u.head? = some c → endsName c = true) → TagText u ws → TagOf (name ++ u) name ws

theorem readTag_eq_some_iff {s rest name : List Char} {attributes : List Attribute} :
    readTag s = some (name, attributes, rest) ↔
      ∃ v nm ws, s = v ++ rest ∧ TagOf v nm ws ∧ nm.map lowerAscii = name ∧
        ws.map Written.read = attributes := by
  constructor
  · intro h
    obtain ⟨nm, r, rfl, htake, hdrop, hnm, hr⟩ := exists_takeWhile (fun c => !endsName c) s
    rw [readTag, htake, hdrop] at h
    obtain ⟨⟨attributes', rest'⟩, hread, heq⟩ := Option.map_eq_some_iff.mp h
    obtain ⟨rfl, hrest⟩ := Prod.mk.inj heq
    obtain ⟨rfl, rfl⟩ := Prod.mk.inj hrest
    obtain ⟨u, ws, rfl, hu, rfl⟩ := attributesFrom_eq_some_iff.mp hread
    refine ⟨nm ++ u, nm, ws, by simp,
      .intro (fun c hc => by simpa using hnm c hc) (fun c hc => ?_) hu, rfl, rfl⟩
    simpa using hr c (by rwa [hu.head?_append])
  · rintro ⟨v, nm, ws, rfl, ⟨hnm, hu, hws⟩, rfl, rfl⟩
    rw [List.append_assoc, readTag]
    rw [takeWhile_value (fun c hc => by simp [hnm c hc]),
      dropWhile_gap (fun c hc => by simp [hnm c hc]), hws.attributesFrom_append]
    · rfl
    · intro c hc
      rw [hws.head?_append] at hc
      simp [hu c hc]
    · intro c hc
      rw [hws.head?_append] at hc
      simp [hu c hc]

end Pagesmith.Html
