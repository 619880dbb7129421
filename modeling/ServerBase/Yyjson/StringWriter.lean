import ServerBase.Yyjson.Scalars
import ServerBase.Yyjson.StringsProof
import Mathlib.Data.List.TakeDrop

/-!
# The strings that are written

**Characters** (`charOut`). What `write_str` makes of one character; it is one of the ways to write
that character in JSON (`charOut_text`).

**The result** (`writeStr_eq_some_iff`). `write_str` succeeds exactly on UTF-8, and writes the
characters one after the other between quotes.
-/

namespace ServerBase.Yyjson

open Json (CharText CharsText utf8)

/-! ## Characters -/

/-- What is written for an ASCII character. -/
def byteOut (b : UInt8) : Bytes :=
  if encTable b = 2 then escSingleChar b
  else if encTable b = 3 then [0x5C, 0x75, 0x30, 0x30] ++ escHexChar b
  else [b]

def charOut (c : Char) : Bytes :=
  if c.toNat < 0x80 then byteOut (.ofNat c.toNat) else String.utf8EncodeChar c

/-- `enc_table_cpy` tells ASCII characters from the others. -/
theorem encTable_ascii : ∀ b : UInt8,
    b.toNat < 0x80 ↔ encTable b = 0 ∨ encTable b = 2 ∨ encTable b = 3 :=
  forall_byte (by decide)

/-- The first byte of several. -/
theorem encTable_first : ∀ b : UInt8,
    (0xC0 ≤ b.toNat ∧ b.toNat < 0xE0 ↔ encTable b = 4) ∧
      (0xE0 ≤ b.toNat ∧ b.toNat < 0xF0 ↔ encTable b = 6) ∧
      (0xF0 ≤ b.toNat ∧ b.toNat < 0xF8 ↔ encTable b = 8) ∧
      (¬ b.toNat < 0x80 → ¬ (0xC0 ≤ b.toNat ∧ b.toNat < 0xF8) → encTable b = 1) :=
  forall_byte (by decide)

/-- What is written for a byte, character by character. -/
theorem byteOut_text : ∀ i < 0x80,
    byteOut (.ofNat i) = [UInt8.ofNat i] ∧ 0x20 ≤ i ∧ i ≠ 0x22 ∧ i ≠ 0x5C ∨
      (∃ e, byteOut (.ofNat i) = [0x5C, e] ∧ Json.escapes e = some (Char.ofNat i)) ∨
      ∃ h, byteOut (.ofNat i) = 0x5C :: 0x75 :: h ∧ Json.hex4 h = some i := by
  have hplain : ∀ i < 0x80, encTable (.ofNat i) ≠ 2 → encTable (.ofNat i) ≠ 3 →
      0x20 ≤ i ∧ i ≠ 0x22 ∧ i ≠ 0x5C := by decide
  have hescape : ∀ i < 0x80, encTable (.ofNat i) = 2 →
      escSingleChar (.ofNat i) = [0x5C, (escSingleChar (.ofNat i)).getD 1 0] ∧
        Json.escapes ((escSingleChar (.ofNat i)).getD 1 0) = some (Char.ofNat i) := by
    decide
  have hhex : ∀ i < 0x80, encTable (.ofNat i) = 3 →
      Json.hex4 ([0x30, 0x30] ++ escHexChar (.ofNat i)) = some i := by decide
  intro i hi
  unfold byteOut
  split_ifs with h2 h3
  · exact .inr (.inl ⟨_, hescape i hi h2⟩)
  · exact .inr (.inr ⟨_, rfl, hhex i hi h3⟩)
  · exact .inl ⟨rfl, hplain i hi h2 h3⟩

/-- **Every character is written as JSON allows it.** -/
theorem charOut_text (c : Char) : CharText c (charOut c) := by
  unfold charOut
  split_ifs with hascii
  · have hchar : Char.ofNat c.toNat = c := Char.ofNat_toNat c
    rcases byteOut_text c.toNat hascii with
      ⟨hout, hlow, hquote, hback⟩ | ⟨e, hout, he⟩ | ⟨h, hout, hh⟩
    · rw [hout, ← Utf8.encode_one hascii]
      refine .plain hlow ?_ ?_
      · rintro rfl
        exact hquote rfl
      · rintro rfl
        exact hback rfl
    · rw [hout]
      exact .escape (hchar ▸ he)
    · rw [hout]
      exact .unicode hh
  · refine charText_of_multibyte ?_
    have hlen := Utf8.encode_length c
    omega

/-! ## The loops -/

/-- The rest of the string is written. -/
def Writes (cur src t : Bytes) : Prop :=
  ∃ cs, utf8 cs = src ∧ t = cur ++ (cs.flatMap charOut ++ [0x22])

variable {cur src t : Bytes}

theorem writes_nil : Writes cur [] t ↔ t = cur ++ [0x22] := by
  constructor
  · rintro ⟨cs, hcs, rfl⟩
    cases cs with
    | nil => rfl
    | cons c cs =>
        rw [Json.utf8_cons] at hcs
        exact absurd (List.append_eq_nil_iff.1 hcs).1 String.utf8EncodeChar_ne_nil
  · rintro rfl
    exact ⟨[], rfl, rfl⟩

/-- **One character.** -/
theorem writes_char (c : Char) :
    Writes cur (String.utf8EncodeChar c ++ src) t ↔ Writes (cur ++ charOut c) src t := by
  constructor
  · rintro ⟨cs, hcs, rfl⟩
    cases cs with
    | nil => exact absurd (List.append_eq_nil_iff.1 hcs.symm).1 String.utf8EncodeChar_ne_nil
    | cons d cs =>
        rw [Json.utf8_cons] at hcs
        obtain ⟨rfl, rfl⟩ := Json.encode_unique hcs
        exact ⟨cs, rfl, by rw [List.flatMap_cons, List.append_assoc, List.append_assoc]⟩
  · rintro ⟨cs, rfl, rfl⟩
    exact ⟨c :: cs, Json.utf8_cons c cs, by
      rw [List.flatMap_cons, List.append_assoc, List.append_assoc]⟩

/-- Where no character begins nothing is written. -/
theorem not_writes (hne : src ≠ []) (hchar : ∀ c rest, String.utf8EncodeChar c ++ rest ≠ src) :
    ¬ Writes cur src t := by
  rintro ⟨cs, rfl, -⟩
  cases cs with
  | nil => exact hne rfl
  | cons c cs => exact hchar c _ (Json.utf8_cons c cs).symm

theorem exists_ascii {b : UInt8} (hb : b.toNat < 0x80) :
    ∃ c : Char, String.utf8EncodeChar c = [b] ∧ charOut c = byteOut b := by
  obtain ⟨c, hc⟩ := @Utf8.exists_char b.toNat (.inl (by omega))
  have hbyte : UInt8.ofNat c.toNat = b := by rw [hc, UInt8.ofNat_toNat]
  have hascii : c.toNat < 0x80 := hc ▸ hb
  exact ⟨c, by rw [Utf8.encode_one hascii, hbyte], by rw [charOut, if_pos hascii, hbyte]⟩

/-- An ASCII character. -/
theorem writes_ascii {b : UInt8} (hb : b.toNat < 0x80) :
    Writes cur (b :: src) t ↔ Writes (cur ++ byteOut b) src t := by
  obtain ⟨c, hc, hout⟩ := exists_ascii hb
  rw [← hout, ← writes_char c, hc, List.singleton_append]

/-- A character of several bytes. -/
theorem writes_multibyte {x : Bytes} (hx : 2 ≤ x.length)
    (h : ∃ c : Char, String.utf8EncodeChar c = x) :
    Writes cur (x ++ src) t ↔ Writes (cur ++ x) src t := by
  obtain ⟨c, rfl⟩ := h
  have hlen := Utf8.encode_length c
  have hout : charOut c = String.utf8EncodeChar c := if_neg (by omega)
  rw [writes_char, hout]

/-- The first byte of a character tells its length. -/
theorem length_of_first {c : Char} {b : UInt8} {rest src : Bytes}
    (h : String.utf8EncodeChar c ++ rest = b :: src) (hb : ¬ b.toNat < 0x80) :
    encTable b = 2 * (String.utf8EncodeChar c).length ∧ 2 ≤ (String.utf8EncodeChar c).length := by
  obtain ⟨h4, h6, h8, -⟩ := encTable_first b
  rcases Utf8.encode_length c with ⟨hc, -⟩ | ⟨hc, hc', hlen⟩ | ⟨hc, hc', hlen⟩ | ⟨hc, hlen⟩
  · rw [Utf8.encode_one hc, List.singleton_append, List.cons.injEq,
      Utf8.ofNat_eq_iff (by omega)] at h
    omega
  · rw [hlen, ← h4]
    rw [Utf8.encode_two hc hc', List.cons_append, List.cons.injEq,
      Utf8.ofNat_eq_iff (by omega)] at h
    omega
  · rw [hlen, ← h6]
    rw [Utf8.encode_three hc hc', List.cons_append, List.cons.injEq,
      Utf8.ofNat_eq_iff (by omega)] at h
    omega
  · have hcode := Utf8.code_range c
    rw [hlen, ← h8]
    rw [Utf8.encode_four hc, List.cons_append, List.cons.injEq, Utf8.ofNat_eq_iff (by omega)] at h
    omega

/-- A run that is copied. -/
theorem writes_run {run : Bytes} (hrun : ∀ b ∈ run, encTable b = 0) :
    Writes cur (run ++ src) t ↔ Writes (cur ++ run) src t := by
  induction run generalizing cur with
  | nil => rw [List.nil_append, List.append_nil]
  | cons b run ih =>
      have hb := hrun b (by simp)
      have hout : byteOut b = [b] := by
        rw [byteOut, if_neg (by omega), if_neg (by omega)]
      rw [List.cons_append, writes_ascii ((encTable_ascii b).2 (.inl hb)), hout,
        ih fun d hd => hrun d (by simp [hd]), List.append_assoc, List.singleton_append]

/-- A sequence of `k` bytes is tested and copied. -/
theorem writeUtf8_sequence {fuel k : Nat} {b : UInt8} {test : Prop} [Decidable test]
    (hb : ¬ b.toNat < 0x80) (hk : encTable b = 2 * k) (hk2 : 2 ≤ k) (hk4 : k ≤ 4)
    (htest : k ≤ (b :: src).length →
      (test ↔ ∃ c : Char, String.utf8EncodeChar c = (b :: src).take k))
    (ih : ∀ cur, writeUtf8 fuel cur ((b :: src).drop k) = some t ↔
      Writes cur ((b :: src).drop k) t) :
    (if (b :: src).length < 4 ∧ (b :: src).length < 2 * k / 2 then none
      else if test then writeUtf8 fuel (cur ++ (b :: src).take k) ((b :: src).drop k)
      else none) = some t ↔ Writes cur (b :: src) t := by
  have hlength : ∀ c rest, String.utf8EncodeChar c ++ rest = b :: src →
      (String.utf8EncodeChar c).length = k := by
    intro c rest h
    obtain ⟨hlen, -⟩ := length_of_first h hb
    omega
  rw [Nat.mul_div_cancel_left _ (by decide)]
  split_ifs with hshort htrue
  · refine iff_of_false (by simp) (not_writes (List.cons_ne_nil _ _) fun c rest h => ?_)
    have hlen := congrArg List.length h
    rw [List.length_append, hlength c rest h] at hlen
    omega
  · have hle : k ≤ (b :: src).length := by omega
    rw [ih]
    conv_rhs => rw [← List.take_append_drop k (b :: src)]
    exact (writes_multibyte (by rw [List.length_take]; omega) ((htest hle).1 htrue)).symm
  · have hle : k ≤ (b :: src).length := by omega
    refine iff_of_false (by simp) (not_writes (List.cons_ne_nil _ _) fun c rest h => ?_)
    refine htrue ((htest hle).2 ⟨c, ?_⟩)
    rw [← h, List.take_left' (hlength c rest h)]

/-- **Both loops.** -/
theorem writeLoops (fuel : Nat) :
    (∀ cur src, 2 * src.length + 2 ≤ fuel →
        (writeAscii fuel cur src = some t ↔ Writes cur src t)) ∧
      ∀ cur src, 2 * src.length + 1 ≤ fuel →
        (writeUtf8 fuel cur src = some t ↔ Writes cur src t) := by
  induction fuel with
  | zero => exact ⟨fun cur src h => by omega, fun cur src h => by omega⟩
  | succ fuel ih =>
      obtain ⟨ihAscii, ihUtf8⟩ := ih
      refine ⟨fun cur src h => ?_, fun cur src h => ?_⟩
      · unfold writeAscii
        rw [List.span_eq_takeWhile_dropWhile]
        dsimp only
        have hrun : ∀ b ∈ src.takeWhile fun c => encTable c == 0, encTable b = 0 := fun b hb =>
          beq_iff_eq.1 (List.mem_takeWhile_imp (p := fun c => encTable c == 0) hb)
        have hle := (List.dropWhile_sublist (fun c => encTable c == 0) (l := src)).length_le
        conv_rhs =>
          rw [← List.takeWhile_append_dropWhile (p := fun c => encTable c == 0) (l := src)]
        rw [writes_run hrun]
        split_ifs with hnil
        · rw [hnil, writes_nil, Option.some.injEq]
          exact eq_comm
        · exact ihUtf8 _ _ (by omega)
      · cases src with
        | nil =>
            unfold writeUtf8
            rw [if_pos rfl, writes_nil, Option.some.injEq]
            exact eq_comm
        | cons b src =>
            rw [List.length_cons] at h
            have hdrop : ∀ k cur', 1 ≤ k →
                (writeUtf8 fuel cur' ((b :: src).drop k) = some t ↔
                  Writes cur' ((b :: src).drop k) t) := by
              intro k cur' hk
              exact ihUtf8 _ _ (by rw [List.length_drop, List.length_cons]; omega)
            unfold writeUtf8
            rw [if_neg (List.cons_ne_nil _ _), show peek (b :: src) 0 = b from rfl]
            by_cases hb : b.toNat < 0x80
            · rw [writes_ascii hb]
              rcases (encTable_ascii b).1 hb with h0 | h2 | h3
              · have hout : byteOut b = [b] := by rw [byteOut, h0]; rfl
                rw [h0, if_neg (by omega), hout]
                exact ihAscii _ _ (by simp only [List.drop_succ_cons, List.drop_zero]; omega)
              · have hout : byteOut b = escSingleChar b := by rw [byteOut, h2]; rfl
                rw [h2, if_neg (by rw [List.length_cons]; omega), hout]
                exact hdrop 1 _ (Nat.le_refl _)
              · have hout : byteOut b = [0x5C, 0x75, 0x30, 0x30] ++ escHexChar b := by
                  rw [byteOut, h3]
                  rfl
                rw [h3, if_neg (by rw [List.length_cons]; omega), hout, ← List.append_assoc]
                exact hdrop 1 _ (Nat.le_refl _)
            · obtain ⟨hfirst2, hfirst3, hfirst4, hfirst1⟩ := encTable_first b
              by_cases hrange : 0xC0 ≤ b.toNat ∧ b.toNat < 0xF8
              · have hcases : encTable b = 4 ∨ encTable b = 6 ∨ encTable b = 8 := by omega
                rcases hcases with h4 | h6 | h8
                · rw [h4]
                  refine writeUtf8_sequence (k := 2) hb h4 (by decide) (by decide) ?_ fun cur' =>
                    hdrop 2 cur' (by decide)
                  rcases src with - | ⟨b₂, src⟩
                  · exact fun hle => absurd hle (by simp)
                  · exact fun _ => isUtf8Seq2_iff
                · rw [h6]
                  refine writeUtf8_sequence (k := 3) hb h6 (by decide) (by decide) ?_ fun cur' =>
                    hdrop 3 cur' (by decide)
                  rcases src with - | ⟨b₂, - | ⟨b₃, src⟩⟩
                  · exact fun hle => absurd hle (by simp)
                  · exact fun hle => absurd hle (by simp)
                  · exact fun _ => isUtf8Seq3_iff
                · rw [h8]
                  refine writeUtf8_sequence (k := 4) hb h8 (by decide) (by decide) ?_ fun cur' =>
                    hdrop 4 cur' (by decide)
                  rcases src with - | ⟨b₂, - | ⟨b₃, - | ⟨b₄, src⟩⟩⟩
                  · exact fun hle => absurd hle (by simp)
                  · exact fun hle => absurd hle (by simp)
                  · exact fun hle => absurd hle (by simp)
                  · exact fun _ => isUtf8Seq4_iff
              · -- no character begins with this byte
                have h1 := hfirst1 hb hrange
                rw [h1, if_neg (by rw [List.length_cons]; omega)]
                refine iff_of_false (by simp)
                  (not_writes (List.cons_ne_nil _ _) fun c rest hc => ?_)
                obtain ⟨hlen, htwo⟩ := length_of_first hc hb
                omega

/-- **`write_str`.** It succeeds exactly on UTF-8. -/
theorem writeStr_eq_some_iff {str : Bytes} :
    writeStr str = some t ↔
      ∃ cs, utf8 cs = str ∧ t = 0x22 :: (cs.flatMap charOut ++ [0x22]) := by
  rw [writeStr, (writeLoops _).1 _ _ (Nat.le_refl _)]
  rfl

end ServerBase.Yyjson
