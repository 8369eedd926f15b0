import Pagesmith.Proofs.Text.Position

/-!
# Characters among bytes

The bytes of a text tell its characters apart.  The first byte of a character says how many there
are, so the bytes of one character are not the start of those of another; and a byte below 128 is a
character of its own.  So a text occurs among the bytes of another where it occurs among its
characters, if it is known that a character ends before it.

* `encodeChar_append_inj`: the first character of some bytes.
* `encode_prefix_iff`: what a text starts with.
* `eq_of_mem_encodeChar`: a byte below 128 is a character.
* `exists_boundary`: a place behind such a byte is between two characters.
-/

namespace Pagesmith.Text

theorem encode_nil : encode [] = [] := rfl

theorem encode_cons (c : Char) (s : List Char) : encode (c :: s) = encodeChar c ++ encode s :=
  List.flatMap_cons

theorem encodeChar_ne_nil (c : Char) : encodeChar c ≠ [] := by
  intro h
  have hlength := length_encodeChar c
  have hpos := c.utf8Size_pos
  rw [h, List.length_nil] at hlength
  omega

/-- **The first character of some bytes** is known from them, and with it the bytes behind it. -/
theorem encodeChar_append_inj {c d : Char} {x y : List Nat}
    (h : encodeChar c ++ x = encodeChar d ++ y) : c = d ∧ x = y := by
  have hchar : c.toNat = d.toNat := by
    unfold encodeChar at h
    simp only at h
    split_ifs at h <;> simp only [List.cons_append, List.nil_append, List.cons.injEq] at h <;> omega
  have hcd : c = d := by rw [← Char.ofNat_toNat c, hchar, Char.ofNat_toNat]
  subst hcd
  exact ⟨rfl, List.append_cancel_left h⟩

/-- **A text starts with another one** if its bytes start with those of the other one. -/
theorem encode_prefix_iff {s t : List Char} : encode s <+: encode t ↔ s <+: t := by
  constructor
  · induction s generalizing t with
    | nil => exact fun _ => List.nil_prefix
    | cons c s ih =>
      rintro ⟨rest, h⟩
      rw [encode_cons, List.append_assoc] at h
      cases t with
      | nil =>
        rw [encode_nil, List.append_eq_nil_iff] at h
        exact absurd h.1 (encodeChar_ne_nil c)
      | cons d t =>
        rw [encode_cons] at h
        obtain ⟨rfl, hrest⟩ := encodeChar_append_inj h
        exact List.cons_prefix_cons.mpr ⟨rfl, ih ⟨rest, hrest⟩⟩
  · rintro ⟨rest, rfl⟩
    rw [encode_append]
    exact List.prefix_append _ _

theorem encodeChar_of_lt {c : Char} (h : c.toNat < 0x80) : encodeChar c = [c.toNat] := by
  simp only [encodeChar, h, if_true]

theorem le_of_mem_encodeChar {c : Char} {b : Nat} (hb : b ∈ encodeChar c) (h : ¬ c.toNat < 0x80) :
    0x80 ≤ b := by
  unfold encodeChar at hb
  simp only [h, if_false] at hb
  split_ifs at hb <;> simp only [List.mem_cons, List.not_mem_nil, or_false] at hb <;> omega

theorem eq_of_mem_encodeChar {c : Char} {b : Nat} (hb : b ∈ encodeChar c) (h : b < 0x80) :
    encodeChar c = [b] := by
  have hc : c.toNat < 0x80 := by
    by_contra hc
    exact absurd (le_of_mem_encodeChar hb hc) (not_le.mpr h)
  rw [encodeChar_of_lt hc, List.mem_singleton] at hb
  rw [encodeChar_of_lt hc, hb]

theorem exists_boundary {s : List Char} {x y : List Nat} (h : encode s = x ++ y)
    (hx : ∀ b, x.getLast? = some b → b < 0x80) :
    ∃ before after, s = before ++ after ∧ encode before = x ∧ encode after = y := by
  induction s generalizing x with
  | nil =>
    obtain ⟨rfl, rfl⟩ := List.append_eq_nil_iff.mp h.symm
    exact ⟨[], [], rfl, rfl, rfl⟩
  | cons c s ih =>
    rw [encode_cons, List.append_eq_append_iff] at h
    rcases h with ⟨z, rfl, hs⟩ | ⟨z, hc, rfl⟩
    · -- the character is before the place
      obtain ⟨before, after, rfl, rfl, rfl⟩ := ih hs fun b hb => hx b (by
        rw [List.getLast?_append, hb, Option.some_or])
      exact ⟨c :: before, after, rfl, encode_cons c before, rfl⟩
    · cases hlast : x.getLast? with
      | none =>
        obtain rfl := List.getLast?_eq_none_iff.mp hlast
        exact ⟨[], c :: s, rfl, rfl, by rw [encode_cons, hc, List.nil_append]⟩
      | some b =>
        have hmem : b ∈ encodeChar c := by
          rw [hc]
          exact List.mem_append_left z (List.mem_of_getLast? hlast)
        have hone := eq_of_mem_encodeChar hmem (hx b hlast)
        -- the character has one byte, which is before the place
        obtain ⟨rfl, rfl⟩ : x = [b] ∧ z = [] := by
          rw [hone] at hc
          cases x with
          | nil => cases hlast
          | cons a x =>
            obtain ⟨rfl, hnil⟩ := List.cons.inj hc
            obtain ⟨rfl, rfl⟩ := List.append_eq_nil_iff.mp hnil.symm
            exact ⟨rfl, rfl⟩
        exact ⟨[c], s, rfl, by rw [encode_cons, hone]; rfl, rfl⟩

end Pagesmith.Text
