import Mathlib.Data.Char
import Mathlib.Algebra.Group.Nat.Defs

/-!
# UTF-8 by the ranges of its bytes

Which two, three or four bytes are the encoding of a character, as ranges of bytes.
-/

namespace Utf8

/-- `80..BF` -/
def IsTail (b : UInt8) : Prop := 0x80 ≤ b.toNat ∧ b.toNat ≤ 0xBF

variable {a b c d : UInt8}

theorem toNat_ofNat {n : Nat} (hn : n < 256) : (UInt8.ofNat n).toNat = n :=
  UInt8.toNat_ofNat_of_lt' hn

theorem ofNat_eq_iff {n : Nat} (hn : n < 256) : UInt8.ofNat n = a ↔ n = a.toNat := by
  rw [← UInt8.toNat_inj, toNat_ofNat hn]

/-- The character with a code that is no surrogate. -/
theorem exists_char {v : Nat} (h : v < 0xD800 ∨ 0xDFFF < v ∧ v < 0x110000) :
    ∃ ch : Char, ch.toNat = v := by
  have hv : v.isValidChar := h
  refine ⟨Char.ofNat v, ?_⟩
  rw [Char.ofNat, dif_pos hv]
  rfl

/-- The code of a character is no surrogate. -/
theorem code_range (ch : Char) : ch.toNat < 0xD800 ∨ 0xDFFF < ch.toNat ∧ ch.toNat < 0x110000 :=
  ch.valid

theorem encode_one {ch : Char} (h : ch.toNat < 0x80) :
    String.utf8EncodeChar ch = [UInt8.ofNat ch.toNat] := by
  rw [String.utf8EncodeChar]
  exact if_pos (by show ch.toNat ≤ 127; omega)

theorem encode_two {ch : Char} (h : 0x80 ≤ ch.toNat) (h' : ch.toNat < 0x800) :
    String.utf8EncodeChar ch =
      [UInt8.ofNat (ch.toNat / 64 % 32 + 0xC0), UInt8.ofNat (ch.toNat % 64 + 0x80)] := by
  rw [String.utf8EncodeChar]
  exact (if_neg (by show ¬ ch.toNat ≤ 127; omega)).trans
    (if_pos (by show ch.toNat ≤ 2047; omega))

theorem encode_three {ch : Char} (h : 0x800 ≤ ch.toNat) (h' : ch.toNat < 0x10000) :
    String.utf8EncodeChar ch =
      [UInt8.ofNat (ch.toNat / 4096 % 16 + 0xE0), UInt8.ofNat (ch.toNat / 64 % 64 + 0x80),
        UInt8.ofNat (ch.toNat % 64 + 0x80)] := by
  rw [String.utf8EncodeChar]
  exact (if_neg (by show ¬ ch.toNat ≤ 127; omega)).trans
    ((if_neg (by show ¬ ch.toNat ≤ 2047; omega)).trans
      (if_pos (by show ch.toNat ≤ 65535; omega)))

theorem encode_four {ch : Char} (h : 0x10000 ≤ ch.toNat) :
    String.utf8EncodeChar ch =
      [UInt8.ofNat (ch.toNat / 262144 % 8 + 0xF0), UInt8.ofNat (ch.toNat / 4096 % 64 + 0x80),
        UInt8.ofNat (ch.toNat / 64 % 64 + 0x80), UInt8.ofNat (ch.toNat % 64 + 0x80)] := by
  rw [String.utf8EncodeChar]
  exact (if_neg (by show ¬ ch.toNat ≤ 127; omega)).trans
    ((if_neg (by show ¬ ch.toNat ≤ 2047; omega)).trans
      (if_neg (by show ¬ ch.toNat ≤ 65535; omega)))

/-- The length of an encoding tells the range of the code. -/
theorem encode_length (ch : Char) :
    (ch.toNat < 0x80 ∧ (String.utf8EncodeChar ch).length = 1) ∨
      (0x80 ≤ ch.toNat ∧ ch.toNat < 0x800 ∧ (String.utf8EncodeChar ch).length = 2) ∨
      (0x800 ≤ ch.toNat ∧ ch.toNat < 0x10000 ∧ (String.utf8EncodeChar ch).length = 3) ∨
      (0x10000 ≤ ch.toNat ∧ (String.utf8EncodeChar ch).length = 4) := by
  rcases Nat.lt_or_ge ch.toNat 0x80 with h | h
  · exact .inl ⟨h, by rw [encode_one h]; rfl⟩
  · rcases Nat.lt_or_ge ch.toNat 0x800 with h' | h'
    · exact .inr (.inl ⟨h, h', by rw [encode_two h h']; rfl⟩)
    · rcases Nat.lt_or_ge ch.toNat 0x10000 with h'' | h''
      · exact .inr (.inr (.inl ⟨h', h'', by rw [encode_three h' h'']; rfl⟩))
      · exact .inr (.inr (.inr ⟨h'', by rw [encode_four h'']; rfl⟩))

theorem encode_two_iff :
    (∃ ch : Char, String.utf8EncodeChar ch = [a, b]) ↔
      (0xC2 ≤ a.toNat ∧ a.toNat ≤ 0xDF) ∧ IsTail b := by
  constructor
  · rintro ⟨ch, hch⟩
    have hlen := encode_length ch
    rw [hch] at hlen
    have hrange : 0x80 ≤ ch.toNat ∧ ch.toNat < 0x800 := by simpa using hlen
    rw [encode_two hrange.1 hrange.2, List.cons.injEq, List.cons.injEq,
      ofNat_eq_iff (by omega), ofNat_eq_iff (by omega)] at hch
    unfold IsTail
    omega
  · rintro ⟨⟨ha, ha'⟩, hb, hb'⟩
    obtain ⟨ch, hch⟩ := @exists_char ((a.toNat - 0xC0) * 64 + (b.toNat - 0x80)) (.inl (by omega))
    refine ⟨ch, ?_⟩
    rw [encode_two (by omega) (by omega), List.cons.injEq, List.cons.injEq,
      ofNat_eq_iff (by omega), ofNat_eq_iff (by omega), hch]
    exact ⟨by omega, by omega, rfl⟩

theorem encode_three_iff :
    (∃ ch : Char, String.utf8EncodeChar ch = [a, b, c]) ↔
      (0xE0 ≤ a.toNat ∧ a.toNat ≤ 0xEF) ∧ IsTail b ∧ IsTail c ∧
        (a.toNat = 0xE0 → 0xA0 ≤ b.toNat) ∧ (a.toNat = 0xED → b.toNat < 0xA0) := by
  constructor
  · rintro ⟨ch, hch⟩
    have hlen := encode_length ch
    have hcode := code_range ch
    rw [hch] at hlen
    have hrange : 0x800 ≤ ch.toNat ∧ ch.toNat < 0x10000 := by simpa using hlen
    rw [encode_three hrange.1 hrange.2, List.cons.injEq, List.cons.injEq, List.cons.injEq,
      ofNat_eq_iff (by omega), ofNat_eq_iff (by omega), ofNat_eq_iff (by omega)] at hch
    unfold IsTail
    omega
  · rintro ⟨⟨ha, ha'⟩, ⟨hb, hb'⟩, ⟨hc, hc'⟩, hlow, hsurr⟩
    obtain ⟨ch, hch⟩ := @exists_char
      ((a.toNat - 0xE0) * 4096 + (b.toNat - 0x80) * 64 + (c.toNat - 0x80)) (by omega)
    refine ⟨ch, ?_⟩
    rw [encode_three (by omega) (by omega), List.cons.injEq, List.cons.injEq, List.cons.injEq,
      ofNat_eq_iff (by omega), ofNat_eq_iff (by omega), ofNat_eq_iff (by omega), hch]
    exact ⟨by omega, by omega, by omega, rfl⟩

theorem encode_four_iff :
    (∃ ch : Char, String.utf8EncodeChar ch = [a, b, c, d]) ↔
      (0xF0 ≤ a.toNat ∧ a.toNat ≤ 0xF4) ∧ IsTail b ∧ IsTail c ∧ IsTail d ∧
        (a.toNat = 0xF0 → 0x90 ≤ b.toNat) ∧ (a.toNat = 0xF4 → b.toNat < 0x90) := by
  constructor
  · rintro ⟨ch, hch⟩
    have hlen := encode_length ch
    have hcode := code_range ch
    rw [hch] at hlen
    have hrange : 0x10000 ≤ ch.toNat := by simpa using hlen
    rw [encode_four hrange, List.cons.injEq, List.cons.injEq, List.cons.injEq, List.cons.injEq,
      ofNat_eq_iff (by omega), ofNat_eq_iff (by omega), ofNat_eq_iff (by omega),
      ofNat_eq_iff (by omega)] at hch
    unfold IsTail
    omega
  · rintro ⟨⟨ha, ha'⟩, ⟨hb, hb'⟩, ⟨hc, hc'⟩, ⟨hd, hd'⟩, hlow, hhigh⟩
    obtain ⟨ch, hch⟩ := @exists_char ((a.toNat - 0xF0) * 262144 + (b.toNat - 0x80) * 4096 +
      (c.toNat - 0x80) * 64 + (d.toNat - 0x80)) (by omega)
    refine ⟨ch, ?_⟩
    rw [encode_four (by omega), List.cons.injEq, List.cons.injEq, List.cons.injEq, List.cons.injEq,
      ofNat_eq_iff (by omega), ofNat_eq_iff (by omega), ofNat_eq_iff (by omega),
      ofNat_eq_iff (by omega), hch]
    exact ⟨by omega, by omega, by omega, by omega, rfl⟩

end Utf8
