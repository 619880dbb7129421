import Mathlib.Data.List.TakeDrop
import ServerBase.Yyjson.Strings

/-!
# What `read_str` accepts

**The masks** (`isUtf8Seq2_iff`, `isUtf8Seq3_iff`, `isUtf8Seq4_iff`). The tests on four bytes at
once hold exactly when a character begins there.

**The loops.** What they pass is a part of the string that can be taken away (`Json.Continues`),
also when they take many characters at once.

**The result** (`readStr_eq_some_iff`). `read_str` accepts exactly the inside of a JSON string, and
returns its characters in UTF-8.
-/

namespace ServerBase.Yyjson

/-! ## Masks -/

/-- A fact about all bytes, by their two digits. -/
theorem forall_byte {p : UInt8 → Prop} [DecidablePred p]
    (h : ∀ i < 16, ∀ j < 16, decide (p (UInt8.ofNat (16 * i + j))) = true) (c : UInt8) :
    p c := by
  have hlt := c.toNat_lt
  have hc := of_decide_eq_true
    (h (c.toNat / 16) (by omega) (c.toNat % 16) (Nat.mod_lt _ (by decide)))
  rwa [Nat.div_add_mod, UInt8.ofNat_toNat] at hc

theorem and_E0_iff : ∀ a : UInt8, a &&& 0xE0 = 0xC0 ↔ 0xC0 ≤ a.toNat ∧ a.toNat ≤ 0xDF :=
  forall_byte (by decide)

theorem and_F0_iff : ∀ a : UInt8, a &&& 0xF0 = 0xE0 ↔ 0xE0 ≤ a.toNat ∧ a.toNat ≤ 0xEF :=
  forall_byte (by decide)

theorem and_F8_iff : ∀ a : UInt8, a &&& 0xF8 = 0xF0 ↔ 0xF0 ≤ a.toNat ∧ a.toNat ≤ 0xF7 :=
  forall_byte (by decide)

theorem and_C0_iff (b : UInt8) : b &&& 0xC0 = 0x80 ↔ Utf8.IsTail b := by
  have htail : ∀ b : UInt8, b &&& 0xC0 = 0x80 ↔ 0x80 ≤ b.toNat ∧ b.toNat ≤ 0xBF :=
    forall_byte (by decide)
  exact htail b

/-- The required bits of a first byte, in the range of its length. -/
theorem requ_first : ∀ a : UInt8,
    (0xC0 ≤ a.toNat ∧ a.toNat ≤ 0xDF → (a &&& 0x1E = 0 ↔ a.toNat < 0xC2)) ∧
    (0xE0 ≤ a.toNat ∧ a.toNat ≤ 0xEF →
      (a &&& 0x0F = 0 ↔ a.toNat = 0xE0) ∧ (a &&& 0x0F = 0x0D ↔ a.toNat = 0xED)) ∧
    (0xF0 ≤ a.toNat ∧ a.toNat ≤ 0xF7 →
      (a &&& 0x07 = 0 ↔ a.toNat = 0xF0) ∧ (a &&& 0x07 &&& 0x04 = 0 ↔ a.toNat ≤ 0xF3) ∧
        (a &&& 0x07 &&& 0x03 = 0 ↔ a.toNat = 0xF0 ∨ a.toNat = 0xF4)) :=
  forall_byte (by decide)

/-- The required bits of a second byte. -/
theorem requ_second : ∀ b : UInt8, 0x80 ≤ b.toNat ∧ b.toNat ≤ 0xBF →
    (b &&& 0x20 = 0 ↔ b.toNat < 0xA0) ∧ (b &&& 0x20 = 0x20 ↔ 0xA0 ≤ b.toNat) ∧
      (b &&& 0x30 = 0 ↔ b.toNat < 0x90) ∧ (b &&& 0x30 &&& 0x30 = 0 ↔ b.toNat < 0x90) :=
  forall_byte (by decide)

theorem isUtf8Seq1_iff {a b c d : UInt8} :
    isUtf8Seq1 ⟨a, b, c, d⟩ = true ↔ a.toNat < 0x80 := by
  have hbit : ∀ a : UInt8, a &&& 0x80 = 0 ↔ a.toNat < 0x80 := forall_byte (by decide)
  simp [isUtf8Seq1, V32.and, b1Mask, b1Patt, hbit]

theorem isUtf8Seq2_iff {a b c d : UInt8} :
    isUtf8Seq2 ⟨a, b, c, d⟩ = true ↔ ∃ ch : Char, String.utf8EncodeChar ch = [a, b] := by
  rw [Utf8.encode_two_iff]
  simp only [isUtf8Seq2, V32.and, b2Mask, b2Patt, b2Requ, V32.zero, Bool.and_eq_true, beq_iff_eq,
    bne_iff_ne, ne_eq, V32.mk.injEq, UInt8.and_zero, and_true, and_E0_iff, and_C0_iff]
  constructor
  · rintro ⟨⟨ha, hb⟩, hrequ⟩
    rw [(requ_first a).1 ha] at hrequ
    exact ⟨⟨by omega, ha.2⟩, hb⟩
  · rintro ⟨ha, hb⟩
    have ha' : 0xC0 ≤ a.toNat ∧ a.toNat ≤ 0xDF := by omega
    rw [(requ_first a).1 ha']
    exact ⟨⟨ha', hb⟩, by omega⟩

theorem isUtf8Seq3_iff {a b c d : UInt8} :
    isUtf8Seq3 ⟨a, b, c, d⟩ = true ↔ ∃ ch : Char, String.utf8EncodeChar ch = [a, b, c] := by
  rw [Utf8.encode_three_iff]
  simp only [isUtf8Seq3, V32.and, b3Mask, b3Patt, b3Requ, b3Erro, V32.zero, Bool.and_eq_true,
    beq_iff_eq, bne_iff_ne, ne_eq, V32.mk.injEq, UInt8.and_zero, and_true, and_F0_iff, and_C0_iff]
  constructor
  · rintro ⟨⟨⟨ha, hb, hc⟩, hrequ⟩, herro⟩
    obtain ⟨hzero, hsurr⟩ := (requ_first a).2.1 ha
    obtain ⟨hlow, hhigh, -⟩ := requ_second b hb
    rw [hzero, hlow] at hrequ
    rw [hsurr, hhigh] at herro
    exact ⟨ha, hb, hc, by omega, by omega⟩
  · rintro ⟨ha, hb, hc, hzero', hsurr'⟩
    obtain ⟨hzero, hsurr⟩ := (requ_first a).2.1 ha
    obtain ⟨hlow, hhigh, -⟩ := requ_second b hb
    rw [hzero, hlow, hsurr, hhigh]
    exact ⟨⟨⟨ha, hb, hc⟩, by omega⟩, by omega⟩

theorem isUtf8Seq4_iff {a b c d : UInt8} :
    isUtf8Seq4 ⟨a, b, c, d⟩ = true ↔ ∃ ch : Char, String.utf8EncodeChar ch = [a, b, c, d] := by
  rw [Utf8.encode_four_iff]
  simp only [isUtf8Seq4, V32.and, b4Mask, b4Patt, b4Requ, b4Req1, b4Req2, V32.zero,
    Bool.and_eq_true, Bool.or_eq_true, beq_iff_eq, bne_iff_ne, ne_eq, V32.mk.injEq, UInt8.and_zero,
    and_true, and_F8_iff, and_C0_iff]
  constructor
  · rintro ⟨⟨⟨ha, hb, hc, hd⟩, hrequ⟩, hmax⟩
    obtain ⟨hzero, hlow, hhigh⟩ := (requ_first a).2.2 ha
    obtain ⟨-, -, hbits, hbits'⟩ := requ_second b hb
    rw [hzero, hbits] at hrequ
    rw [hlow, hhigh, hbits'] at hmax
    exact ⟨⟨ha.1, by omega⟩, hb, hc, hd, by omega, by omega⟩
  · rintro ⟨ha, hb, hc, hd, hzero', hhigh'⟩
    have ha' : 0xF0 ≤ a.toNat ∧ a.toNat ≤ 0xF7 := by omega
    obtain ⟨hzero, hlow, hhigh⟩ := (requ_first a).2.2 ha'
    obtain ⟨-, -, hbits, hbits'⟩ := requ_second b hb
    rw [hzero, hbits, hlow, hhigh, hbits']
    exact ⟨⟨⟨ha', hb, hc, hd⟩, by omega⟩, by omega⟩

/-! ## What the loops pass -/

open Json (CharText Continues utf8)

/-- Bytes that are characters as they are. -/
def Plain (run : Bytes) : Prop :=
  ∃ cs, utf8 cs = run ∧ ∀ c ∈ cs, CharText c (String.utf8EncodeChar c)

theorem plain_nil : Plain [] := ⟨[], rfl, fun c hc => by cases hc⟩

theorem Plain.append {run run' : Bytes} (h : Plain run) (h' : Plain run') :
    Plain (run ++ run') := by
  obtain ⟨cs, rfl, hcs⟩ := h
  obtain ⟨cs', rfl, hcs'⟩ := h'
  exact ⟨cs ++ cs', List.flatMap_append, fun c hc => (List.mem_append.1 hc).elim (hcs c) (hcs' c)⟩

theorem plain_char {c : Char} (h : CharText c (String.utf8EncodeChar c)) :
    Plain (String.utf8EncodeChar c) :=
  ⟨[c], by rw [Json.utf8_cons]; exact List.append_nil _, fun d hd => by
    rw [List.mem_singleton.1 hd]
    exact h⟩

/-- A character of several bytes is plain. -/
theorem charText_of_multibyte {c : Char} (h : 2 ≤ (String.utf8EncodeChar c).length) :
    CharText c (String.utf8EncodeChar c) := by
  have hlen := Utf8.encode_length c
  have hcode : 0x80 ≤ c.toNat := by omega
  refine .plain (by omega) ?_ ?_
  · rintro rfl
    exact absurd hcode (by decide)
  · rintro rfl
    exact absurd hcode (by decide)

/-- **A plain part of the string can be taken away.** -/
theorem continues_plain {run dst src s rest : Bytes} (h : Plain run) :
    Continues dst (run ++ src) s rest ↔ Continues (dst ++ run) src s rest := by
  obtain ⟨cs, rfl, hcs⟩ := h
  induction cs generalizing dst with
  | nil => simp [utf8]
  | cons c cs ih =>
      rw [Json.utf8_cons, List.append_assoc, Json.continues_char (hcs c (by simp)),
        ih fun d hd => hcs d (by simp [hd]), List.append_assoc]

theorem seqs3_spec (src : Bytes) : Plain (seqs3 src).1 ∧ (seqs3 src).1 ++ (seqs3 src).2 = src := by
  fun_induction seqs3 src with
  | case1 a b c src h ih =>
      obtain ⟨ch, hch⟩ : ∃ ch : Char, String.utf8EncodeChar ch = [a, b, c] := isUtf8Seq3_iff.1 h
      refine ⟨?_, congrArg (a :: b :: c :: ·) ih.2⟩
      have hlen : 2 ≤ (String.utf8EncodeChar ch).length := by
        rw [hch]
        exact Nat.le_add_left _ _
      have hplain := (plain_char (charText_of_multibyte hlen)).append ih.1
      rwa [hch] at hplain
  | case2 => exact ⟨plain_nil, rfl⟩
  | case3 => exact ⟨plain_nil, rfl⟩

theorem seqs2_spec (src : Bytes) : Plain (seqs2 src).1 ∧ (seqs2 src).1 ++ (seqs2 src).2 = src := by
  fun_induction seqs2 src with
  | case1 a b src h ih =>
      obtain ⟨ch, hch⟩ : ∃ ch : Char, String.utf8EncodeChar ch = [a, b] := isUtf8Seq2_iff.1 h
      refine ⟨?_, congrArg (a :: b :: ·) ih.2⟩
      have hlen : 2 ≤ (String.utf8EncodeChar ch).length := by
        rw [hch]
        exact Nat.le_add_left _ _
      have hplain := (plain_char (charText_of_multibyte hlen)).append ih.1
      rwa [hch] at hplain
  | case2 => exact ⟨plain_nil, rfl⟩
  | case3 => exact ⟨plain_nil, rfl⟩

theorem seqs4_spec (src : Bytes) : Plain (seqs4 src).1 ∧ (seqs4 src).1 ++ (seqs4 src).2 = src := by
  fun_induction seqs4 src with
  | case1 a b c d src h ih =>
      obtain ⟨ch, hch⟩ : ∃ ch : Char, String.utf8EncodeChar ch = [a, b, c, d] := isUtf8Seq4_iff.1 h
      refine ⟨?_, congrArg (a :: b :: c :: d :: ·) ih.2⟩
      have hlen : 2 ≤ (String.utf8EncodeChar ch).length := by
        rw [hch]
        exact Nat.le_add_left _ _
      have hplain := (plain_char (charText_of_multibyte hlen)).append ih.1
      rwa [hch] at hplain
  | case2 => exact ⟨plain_nil, rfl⟩
  | case3 => exact ⟨plain_nil, rfl⟩

theorem utf8Run_eq (src : Bytes) :
    utf8Run src =
      if isUtf8Seq1 (byteLoad4 (seqs3 src).2) then seqs3 src
      else
        ((seqs3 src).1 ++ (seqs2 (seqs3 src).2).1 ++ (seqs4 (seqs2 (seqs3 src).2).2).1,
          (seqs4 (seqs2 (seqs3 src).2).2).2) :=
  rfl

/-- A run of UTF-8 sequences is plain. -/
theorem utf8Run_spec (src : Bytes) :
    Plain (utf8Run src).1 ∧ (utf8Run src).1 ++ (utf8Run src).2 = src := by
  obtain ⟨hplain3, happ3⟩ := seqs3_spec src
  obtain ⟨hplain2, happ2⟩ := seqs2_spec (seqs3 src).2
  obtain ⟨hplain4, happ4⟩ := seqs4_spec (seqs2 (seqs3 src).2).2
  rw [utf8Run_eq]
  split
  · exact ⟨hplain3, happ3⟩
  · refine ⟨(hplain3.append hplain2).append hplain4, ?_⟩
    rw [List.append_assoc, happ4, List.append_assoc, happ2, happ3]

/-- Where the run is empty no sequence begins. -/
theorem utf8Run_nil {src : Bytes} (hhead : 0x80 ≤ (peek src 0).toNat) (h : (utf8Run src).1 = []) :
    (seqs3 src).1 = [] ∧ (seqs2 src).1 = [] ∧ (seqs4 src).1 = [] := by
  have hnot : isUtf8Seq1 (byteLoad4 src) = false := by
    rw [Bool.eq_false_iff, ne_eq, byteLoad4, isUtf8Seq1_iff]
    omega
  have hsame : ∀ {run rest : Bytes}, run = [] → run ++ rest = src → rest = src := by
    rintro run rest rfl happ
    exact happ
  rw [utf8Run_eq] at h
  split at h
  · next hseq1 =>
    rw [hsame h (seqs3_spec src).2, hnot] at hseq1
    cases hseq1
  · obtain ⟨h32, h4⟩ := List.append_eq_nil_iff.1 h
    obtain ⟨h3, h2⟩ := List.append_eq_nil_iff.1 h32
    rw [hsame h3 (seqs3_spec src).2] at h2 h4
    rw [hsame h2 (seqs2_spec src).2] at h4
    exact ⟨h3, h2, h4⟩

/-- Where no sequence begins no character begins. -/
theorem not_continues_of_run_nil {dst src s rest : Bytes} (hhead : 0x80 ≤ (peek src 0).toNat)
    (h : (utf8Run src).1 = []) : ¬ Continues dst src s rest := by
  obtain ⟨h3, h2, h4⟩ := utf8Run_nil hhead h
  refine Json.not_continues ?_ fun c x src' hc => ?_
  · intro hquote
    obtain ⟨t, rfl⟩ := List.head?_eq_some_iff.1 hquote
    rw [show peek (0x22 :: t) 0 = 0x22 from rfl] at hhead
    exact absurd hhead (by decide)
  · rintro rfl
    rcases hc.head with ⟨-, -, -, rfl⟩ | ⟨e, t, rfl⟩
    · rcases Utf8.encode_length c with ⟨hcode, -⟩ | ⟨-, -, hlen⟩ | ⟨-, -, hlen⟩ | ⟨-, hlen⟩
      · rw [Utf8.encode_one hcode] at hhead
        have hbyte : (UInt8.ofNat c.toNat).toNat = c.toNat := Utf8.toNat_ofNat (by omega)
        have hfirst : peek ([UInt8.ofNat c.toNat] ++ src') 0 = UInt8.ofNat c.toNat := rfl
        rw [hfirst, hbyte] at hhead
        omega
      · obtain ⟨a, b, hab⟩ := List.length_eq_two.1 hlen
        rw [hab, show [a, b] ++ src' = a :: b :: src' from rfl, seqs2, if_pos] at h2
        · cases h2
        · exact isUtf8Seq2_iff.2 ⟨c, hab⟩
      · obtain ⟨a, b, d, habd⟩ := List.length_eq_three.1 hlen
        rw [habd, show [a, b, d] ++ src' = a :: b :: d :: src' from rfl, seqs3, if_pos] at h3
        · cases h3
        · exact isUtf8Seq3_iff.2 ⟨c, habd⟩
      · obtain ⟨a, b, d, e, habde⟩ := List.length_eq_four.1 hlen
        rw [habde, show [a, b, d, e] ++ src' = a :: b :: d :: e :: src' from rfl, seqs4,
          if_pos] at h4
        · cases h4
        · exact isUtf8Seq4_iff.2 ⟨c, habde⟩
    · rw [show peek (0x5C :: e :: t ++ src') 0 = 0x5C from rfl] at hhead
      exact absurd hhead (by decide)

/-- A run of ASCII characters is plain. -/
theorem plain_takeWhile (src : Bytes) : Plain (src.takeWhile charIsAsciiSkip) := by
  induction src with
  | nil => exact plain_nil
  | cons b src ih =>
      rw [List.takeWhile_cons]
      split
      · next hb =>
        simp only [charIsAsciiSkip, Bool.and_eq_true, decide_eq_true_eq, bne_iff_ne, ne_eq,
          UInt8.le_iff_toNat_le, UInt8.lt_iff_toNat_lt] at hb
        obtain ⟨⟨⟨hlow, hhigh⟩, hquote⟩, hback⟩ := hb
        have hlow : 0x20 ≤ b.toNat := hlow
        have hhigh : b.toNat < 0x80 := hhigh
        obtain ⟨c, hc⟩ := @Utf8.exists_char b.toNat (.inl (by omega))
        have hencode : String.utf8EncodeChar c = [b] := by
          rw [Utf8.encode_one (by omega), hc, UInt8.ofNat_toNat]
        have htext : CharText c (String.utf8EncodeChar c) := by
          refine .plain (by omega) ?_ ?_
          · rintro rfl
            exact hquote (UInt8.toNat_inj.1 hc.symm)
          · rintro rfl
            exact hback (UInt8.toNat_inj.1 hc.symm)
        have happend := (plain_char htext).append ih
        rwa [hencode] at happend
      · exact plain_nil

/-! ## Hexadecimal digits -/

open Json (hexDigit hex4)

theorem hexConv_eq (c : UInt8) : hexConv c = (hexDigit c).getD 0xF0 := by
  unfold hexConv hexDigit
  split_ifs <;> rfl

theorem hexDigit_lt : ∀ c : UInt8, ∀ v ∈ hexDigit c, v < 16 :=
  forall_byte (by decide)

/-- Two digits and no others pass the test. -/
theorem hexConv_pair (a b : UInt8) :
    (hexConv a <<< 8 ||| hexConv b) &&& 0xF0F0 = 0 ↔
      (hexDigit a).isSome = true ∧ (hexDigit b).isSome = true := by
  have hpairs : ∀ x < 16, ∀ y < 16, (x <<< 8 ||| y) &&& 0xF0F0 = 0 ∧
      (0xF0 <<< 8 ||| y) &&& 0xF0F0 ≠ 0 ∧ (x <<< 8 ||| 0xF0) &&& 0xF0F0 ≠ 0 := by decide
  rw [hexConv_eq, hexConv_eq]
  cases ha : hexDigit a with
  | none =>
      cases hb : hexDigit b with
      | none => decide
      | some y => simpa using (hpairs 0 (by decide) y (hexDigit_lt b y hb)).2.1
  | some x =>
      cases hb : hexDigit b with
      | none => simpa using (hpairs x (hexDigit_lt a x ha) 0 (by decide)).2.2
      | some y =>
          simpa using (hpairs x (hexDigit_lt a x ha) y (hexDigit_lt b y hb)).1

/-- Four digits, the first with the third and the second with the fourth. -/
theorem hex_assemble {a b c d : Nat} (hb : b < 16) (hc : c < 16) (hd : d < 16) :
    (a <<< 8 ||| c) <<< 4 ||| (b <<< 8 ||| d) = ((a * 16 + b) * 16 + c) * 16 + d := by
  have hstep : ∀ {x y : Nat}, y < 16 → x * 16 + y = x <<< 4 ||| y := fun hy => by
    rw [← Nat.shiftLeft_add_eq_or_of_lt (i := 4) hy, Nat.shiftLeft_eq]
  rw [hstep hb, hstep hc, hstep hd]
  simp only [Nat.shiftLeft_or_distrib, ← Nat.shiftLeft_add]
  rw [Nat.or_assoc, Nat.or_assoc, Nat.or_assoc, ← Nat.or_assoc (c <<< 4),
    Nat.or_comm (c <<< 4) (b <<< 8), Nat.or_assoc]

theorem hexLoad4_eq (a b c d : UInt8) (src : Bytes) :
    hexLoad4 (a :: b :: c :: d :: src) = hex4 [a, b, c, d] := by
  have htest :
      ((hexConv a <<< 8 ||| hexConv c) ||| (hexConv b <<< 8 ||| hexConv d)) &&& 0xF0F0 = 0 ↔
      ((hexDigit a).isSome = true ∧ (hexDigit c).isSome = true) ∧
        (hexDigit b).isSome = true ∧ (hexDigit d).isSome = true := by
    rw [Nat.and_or_distrib_right, Nat.or_eq_zero_iff, hexConv_pair, hexConv_pair]
  have hsome : ∀ {e : UInt8}, ¬ (hexDigit e).isSome = true → hexDigit e = none :=
    fun h => Option.not_isSome_iff_eq_none.1 h
  show (if ((hexConv a <<< 8 ||| hexConv c) ||| (hexConv b <<< 8 ||| hexConv d)) &&& 0xF0F0 = 0 then
    some ((hexConv a <<< 8 ||| hexConv c) <<< 4 ||| (hexConv b <<< 8 ||| hexConv d)) else none) = _
  split
  · next h =>
    obtain ⟨⟨ha, hc⟩, hb, hd⟩ := htest.1 h
    obtain ⟨x, hx⟩ := Option.isSome_iff_exists.1 ha
    obtain ⟨y, hy⟩ := Option.isSome_iff_exists.1 hb
    obtain ⟨z, hz⟩ := Option.isSome_iff_exists.1 hc
    obtain ⟨w, hw⟩ := Option.isSome_iff_exists.1 hd
    simp only [hexConv_eq, hex4, hx, hy, hz, hw, Option.getD_some]
    exact congrArg some
      (hex_assemble (hexDigit_lt b y hy) (hexDigit_lt c z hz) (hexDigit_lt d w hw))
  · next hnot =>
    have h := fun hall => hnot (htest.2 hall)
    by_cases ha : (hexDigit a).isSome = true
    · obtain ⟨x, hx⟩ := Option.isSome_iff_exists.1 ha
      by_cases hb : (hexDigit b).isSome = true
      · obtain ⟨y, hy⟩ := Option.isSome_iff_exists.1 hb
        by_cases hc : (hexDigit c).isSome = true
        · obtain ⟨z, hz⟩ := Option.isSome_iff_exists.1 hc
          have hd := hsome fun hd => h ⟨⟨ha, hc⟩, hb, hd⟩
          simp [hex4, hx, hy, hz, hd]
        · simp [hex4, hx, hy, hsome hc]
      · simp [hex4, hx, hsome hb]
    · simp [hex4, hsome ha]

/-- Less than four bytes are no digits. -/
theorem hexLoad4_short {src : Bytes} (h : src.length < 4) : hexLoad4 src = none := by
  have hzero : hexDigit 0 = none := by decide
  have hpad : peek src 3 = 0 := by
    rw [peek, List.getD_eq_getElem?_getD, List.getElem?_eq_none (by omega)]
    rfl
  show (if _ then _ else _) = _
  rw [if_neg]
  rw [Nat.and_or_distrib_right, Nat.or_eq_zero_iff, hexConv_pair, hexConv_pair, hpad, hzero]
  rintro ⟨-, -, hdigit⟩
  cases hdigit

/-- **`hex_load_4`** reads four hexadecimal digits. -/
theorem hexLoad4_eq_some_iff {src : Bytes} {n : Nat} :
    hexLoad4 src = some n ↔ ∃ h, hex4 h = some n ∧ src = h ++ src.drop 4 := by
  constructor
  · intro h
    rcases src with - | ⟨a, - | ⟨b, - | ⟨c, - | ⟨d, src⟩⟩⟩⟩
    · rw [hexLoad4_short (by decide)] at h
      cases h
    · rw [hexLoad4_short (by simp)] at h
      cases h
    · rw [hexLoad4_short (by simp)] at h
      cases h
    · rw [hexLoad4_short (by simp)] at h
      cases h
    · rw [hexLoad4_eq] at h
      exact ⟨_, h, rfl⟩
  · rintro ⟨h, hh, hsrc⟩
    obtain ⟨a, b, c, d, rfl⟩ := List.length_eq_four.1 (Json.hex4_length hh)
    rw [hsrc]
    exact (hexLoad4_eq a b c d _).trans hh

theorem drop_hex4 {h src : Bytes} {n : Nat} (hh : hex4 h = some n) : (h ++ src).drop 4 = src :=
  List.drop_left' (Json.hex4_length hh)

theorem hexLoad4_append {h src : Bytes} {n : Nat} (hh : hex4 h = some n) :
    hexLoad4 (h ++ src) = some n :=
  hexLoad4_eq_some_iff.2 ⟨h, hh, by rw [drop_hex4 hh]⟩

theorem hex4_lt {h : Bytes} {n : Nat} (hh : hex4 h = some n) : n < 0x10000 := by
  obtain ⟨a, b, c, d, rfl⟩ := List.length_eq_four.1 (Json.hex4_length hh)
  simp only [hex4, Option.bind_eq_bind, Option.bind_eq_some_iff, Option.pure_def] at hh
  obtain ⟨x, hx, y, hy, z, hz, w, hw, heq⟩ := hh
  have hxlt := hexDigit_lt a x hx
  have hylt := hexDigit_lt b y hy
  have hzlt := hexDigit_lt c z hz
  have hwlt := hexDigit_lt d w hw
  have heq : ((x * 16 + y) * 16 + z) * 16 + w = n := Option.some.inj heq
  omega

/-! ## Code units -/

/-- A mask of high bits. -/
theorem and_shiftLeft (n m k : Nat) : n &&& (m <<< k) = ((n >>> k) &&& m) <<< k := by
  apply Nat.eq_of_testBit_eq
  intro i
  simp only [Nat.testBit_and, Nat.testBit_shiftLeft, Nat.testBit_shiftRight]
  by_cases hi : k ≤ i
  · simp [hi]
  · simp [hi]

/-- The five high bits of a code unit. -/
theorem surrogate_iff {n : Nat} (hn : n < 0x10000) :
    n &&& 0xF800 = 0xD800 ↔ 0xD800 ≤ n ∧ n < 0xE000 := by
  have hsmall : ∀ q < 32, (q &&& 31) <<< 11 = 0xD800 ↔ q = 27 := by decide
  rw [show 0xF800 = 31 <<< 11 from rfl, and_shiftLeft, Nat.shiftRight_eq_div_pow,
    hsmall _ (by omega)]
  omega

/-- The six high bits. -/
theorem high_surrogate_iff {n : Nat} (hn : n < 0x10000) :
    n &&& 0xFC00 = 0xD800 ↔ 0xD800 ≤ n ∧ n < 0xDC00 := by
  have hsmall : ∀ q < 64, (q &&& 63) <<< 10 = 0xD800 ↔ q = 54 := by decide
  rw [show 0xFC00 = 63 <<< 10 from rfl, and_shiftLeft, Nat.shiftRight_eq_div_pow,
    hsmall _ (by omega)]
  omega

theorem low_surrogate_iff {n : Nat} (hn : n < 0x10000) :
    n &&& 0xFC00 = 0xDC00 ↔ 0xDC00 ≤ n ∧ n < 0xE000 := by
  have hsmall : ∀ q < 64, (q &&& 63) <<< 10 = 0xDC00 ↔ q = 55 := by decide
  rw [show 0xFC00 = 63 <<< 10 from rfl, and_shiftLeft, Nat.shiftRight_eq_div_pow,
    hsmall _ (by omega)]
  omega

/-- A byte behind the first one. -/
theorem tail_byte (n : Nat) : 0x80 ||| (n &&& 0x3F) = n % 64 + 0x80 := by
  have hsmall : ∀ q < 64, 0x80 ||| q = q + 0x80 := by decide
  rw [show 0x3F = 2 ^ 6 - 1 from rfl, Nat.and_two_pow_sub_one_eq_mod]
  exact hsmall _ (Nat.mod_lt _ (by decide))

theorem first_byte2 {q : Nat} (hq : q < 32) : 0xC0 ||| q = q + 0xC0 := by
  revert q
  decide

theorem first_byte3 {q : Nat} (hq : q < 16) : 0xE0 ||| q = q + 0xE0 := by
  revert q
  decide

theorem first_byte4 {q : Nat} (hq : q < 8) : 0xF0 ||| q = q + 0xF0 := by
  revert q
  decide

theorem bmpBytes_eq {ch : Char} (h : ch.toNat < 0x10000) :
    bmpBytes ch.toNat = String.utf8EncodeChar ch := by
  unfold bmpBytes
  split_ifs with h3 h2
  · have hfirst : ch.toNat >>> 12 < 16 := by
      rw [Nat.shiftRight_eq_div_pow]
      omega
    rw [Utf8.encode_three h3 h, tail_byte, tail_byte, first_byte3 hfirst,
      Nat.shiftRight_eq_div_pow, Nat.shiftRight_eq_div_pow]
    have hmod : ch.toNat / 4096 % 16 = ch.toNat / 2 ^ 12 := by omega
    rw [hmod]
  · have hfirst : ch.toNat >>> 6 < 32 := by
      rw [Nat.shiftRight_eq_div_pow]
      omega
    rw [Utf8.encode_two h2 (by omega), tail_byte, first_byte2 hfirst, Nat.shiftRight_eq_div_pow]
    have hmod : ch.toNat / 64 % 32 = ch.toNat / 2 ^ 6 := by omega
    rw [hmod]
  · exact (Utf8.encode_one (by omega)).symm

/-- The code of a surrogate pair. -/
theorem pair_code {hi lo : Nat} (hlo : 0xDC00 ≤ lo ∧ lo < 0xE000) :
    ((hi - 0xD800) <<< 10 ||| (lo - 0xDC00)) + 0x10000 =
      0x10000 + (hi - 0xD800) * 0x400 + (lo - 0xDC00) := by
  rw [← Nat.shiftLeft_add_eq_or_of_lt (i := 10) (by omega), Nat.shiftLeft_eq]
  omega

theorem pairBytes_eq {ch : Char} (h : 0x10000 ≤ ch.toNat) :
    pairBytes ch.toNat = String.utf8EncodeChar ch := by
  have hcode := Utf8.code_range ch
  have hfirst : ch.toNat >>> 18 < 8 := by
    rw [Nat.shiftRight_eq_div_pow]
    omega
  rw [pairBytes, Utf8.encode_four h, tail_byte, tail_byte, tail_byte, first_byte4 hfirst,
    Nat.shiftRight_eq_div_pow, Nat.shiftRight_eq_div_pow, Nat.shiftRight_eq_div_pow]
  have hmod : ch.toNat / 262144 % 8 = ch.toNat / 2 ^ 18 := by omega
  rw [hmod]

/-! ## Escapes -/

open Json (Escaped)

/-- Two bytes in front. -/
theorem eq_cons_cons_of_peek {src : Bytes} {a b : UInt8} (ha : peek src 0 = a) (hb : peek src 1 = b)
    (hne : b ≠ 0) : src = a :: b :: src.drop 2 := by
  rcases src with - | ⟨c, - | ⟨d, src⟩⟩
  · exact absurd hb.symm hne
  · exact absurd hb.symm hne
  · obtain rfl : c = a := ha
    obtain rfl : d = b := hb
    rfl

/-- **`read_uni_esc`** reads what may stand behind a backslash and the letter `u`. -/
theorem readUniEsc_eq_some_iff {src src' w : Bytes} :
    readUniEsc src = some (w, src') ↔
      ∃ ch x, Escaped ch (0x75 :: x) ∧ src = x ++ src' ∧ w = String.utf8EncodeChar ch := by
  constructor
  · intro h
    unfold readUniEsc at h
    split at h
    · cases h
    · next hi hhi =>
      obtain ⟨g, hg, hsrc⟩ := hexLoad4_eq_some_iff.1 hhi
      have hlt := hex4_lt hg
      dsimp only at h
      split_ifs at h with hbmp hhigh hu
      · -- a BMP character
        obtain ⟨rfl, rfl⟩ := Prod.mk.inj (Option.some.inj h)
        rw [ne_eq, surrogate_iff hlt] at hbmp
        obtain ⟨ch, hch⟩ := @Utf8.exists_char hi (by omega)
        subst hch
        exact ⟨ch, g, .unicode hg, hsrc, bmpBytes_eq hlt⟩
      · split at h
        · cases h
        · next lo hlo =>
          obtain ⟨l, hl, hsrc2⟩ := hexLoad4_eq_some_iff.1 hlo
          have hlolt := hex4_lt hl
          split_ifs at h with hlow
          · obtain ⟨rfl, rfl⟩ := Prod.mk.inj (Option.some.inj h)
            rw [ne_eq, not_not, high_surrogate_iff hlt] at hhigh
            rw [ne_eq, not_not, low_surrogate_iff hlolt] at hlow
            obtain ⟨ch, hch⟩ := @Utf8.exists_char
              (0x10000 + (hi - 0xD800) * 0x400 + (lo - 0xDC00)) (by omega)
            refine ⟨ch, g ++ 0x5C :: 0x75 :: l, .pair hg hl hhigh hlow hch, ?_, ?_⟩
            · obtain ⟨hback, hletter⟩ := hu
              have hsrc1 := eq_cons_cons_of_peek hback hletter (by decide)
              rw [List.append_assoc]
              refine hsrc.trans (congrArg (g ++ ·) ?_)
              refine hsrc1.trans (congrArg (0x5C :: 0x75 :: ·) ?_)
              rw [hsrc2, List.drop_drop, List.drop_drop]
              rfl
            · rw [pair_code hlow, ← hch]
              exact pairBytes_eq (by omega)
  · rintro ⟨ch, x, hx, rfl, rfl⟩
    generalize hu : 0x75 :: x = u at hx
    cases hx with
    | letter he =>
        obtain ⟨rfl, -⟩ := List.cons.inj hu
        rw [Json.escapes_u] at he
        cases he
    | @unicode g hg =>
        obtain rfl := (List.cons.inj hu).2
        have hlt := hex4_lt hg
        have hcode := Utf8.code_range ch
        rw [readUniEsc, hexLoad4_append hg]
        dsimp only
        rw [if_pos (by rw [ne_eq, surrogate_iff hlt]; omega), bmpBytes_eq hlt, drop_hex4 hg]
    | @pair g l hi lo hg hl hhi hlo hc =>
        obtain rfl := (List.cons.inj hu).2
        have hlt := hex4_lt hg
        have hlolt := hex4_lt hl
        rw [List.append_assoc, readUniEsc, hexLoad4_append hg]
        dsimp only
        rw [drop_hex4 hg, if_neg (by rw [ne_eq, surrogate_iff hlt]; omega),
          if_neg (by rw [ne_eq, high_surrogate_iff hlt]; omega),
          if_neg (by exact not_not.2 ⟨rfl, rfl⟩),
          show (0x5C :: 0x75 :: l ++ src').drop 2 = l ++ src' from rfl, hexLoad4_append hl]
        dsimp only
        rw [if_neg (by rw [ne_eq, low_surrogate_iff hlolt]; omega), pair_code hlo, ← hc,
          pairBytes_eq (by omega)]
        exact congrArg (fun r => some (_, r)) (drop_hex4 hl)

/-- The letters of the `switch` stand for the characters of JSON. -/
theorem escapeLetter_iff {e : UInt8} {w : UInt8} :
    escapeLetter e = some w ↔ ∃ ch, Json.escapes e = some ch ∧ String.utf8EncodeChar ch = [w] := by
  have hletters : ∀ e : UInt8,
      escapeLetter e = (Json.escapes e).bind fun ch => (String.utf8EncodeChar ch).head? :=
    forall_byte (by decide)
  have hascii : ∀ e : UInt8, (Json.escapes e).all (fun ch => ch.toNat < 0x80) = true :=
    forall_byte (by decide)
  have hlow : ∀ ch ∈ Json.escapes e, ch.toNat < 0x80 := by
    intro ch hch
    have hall := hascii e
    rw [Option.mem_def.1 hch] at hall
    exact of_decide_eq_true hall
  rw [hletters, Option.bind_eq_some_iff]
  refine exists_congr fun ch => and_congr_right fun hch => ?_
  rw [Utf8.encode_one (hlow ch hch), List.head?_cons, Option.some.injEq, List.cons.injEq,
    and_iff_left rfl]

theorem escapeLetter_none : ∀ e : UInt8, escapeLetter e = none → Json.escapes e = none :=
  forall_byte (by decide)

/-- Where the `switch` and `read_uni_esc` find nothing no escape stands. -/
theorem not_escaped {src : Bytes} (hletter : escapeLetter (peek src 1) = none)
    (huni : peek src 1 = 0x75 → readUniEsc (src.drop 2) = none) {ch : Char} {e : Bytes}
    (he : Escaped ch e) (src' : Bytes) : src ≠ 0x5C :: e ++ src' := by
  have hnot : ∀ x, Escaped ch (0x75 :: x) → src ≠ 0x5C :: 0x75 :: x ++ src' := by
    rintro x hx rfl
    have hnone := huni rfl
    rw [show (0x5C :: 0x75 :: x ++ src').drop 2 = x ++ src' from rfl,
      readUniEsc_eq_some_iff.2 ⟨ch, x, hx, rfl, rfl⟩] at hnone
    cases hnone
  cases he with
  | @letter l hl =>
      rintro rfl
      have hnone : Json.escapes l = none := escapeLetter_none l hletter
      rw [hnone] at hl
      cases hl
  | unicode hg => exact hnot _ (.unicode hg)
  | pair hg hl hhi hlo hc => exact hnot _ (.pair hg hl hhi hlo hc)

/-! ## The three labels -/

/-- `src` begins with no plain character: with the end, a quote, a backslash or a control
character. -/
def Special (src : Bytes) : Prop :=
  charIsAsciiSkip (peek src 0) = false ∧ (peek src 0).toNat < 0x80

theorem special_char {src src' x : Bytes} {ch : Char} (hsrc : Special src)
    (hch : CharText ch x) (heq : src = x ++ src') : ∃ e, x = 0x5C :: e ∧ Escaped ch e := by
  rcases Json.charText_iff.1 hch with ⟨hlow, hquote, hback, rfl⟩ | h
  · obtain ⟨b, t, hbt, hhead⟩ := Json.encode_head ch
    rw [hbt] at heq
    subst heq
    obtain ⟨hskip, hb⟩ := hsrc
    have hb : b.toNat < 0x80 := hb
    obtain ⟨hcode, -⟩ := hhead hb
    have hnot : charIsAsciiSkip b = true := by
      simp only [charIsAsciiSkip, Bool.and_eq_true, decide_eq_true_eq, bne_iff_ne, ne_eq,
        UInt8.le_iff_toNat_le, UInt8.lt_iff_toNat_lt]
      refine ⟨⟨⟨by rw [hcode]; exact hlow, hb⟩, ?_⟩, ?_⟩
      · rintro rfl
        exact hquote (Char.toNat_inj.1 hcode.symm)
      · rintro rfl
        exact hback (Char.toNat_inj.1 hcode.symm)
    rw [show peek (b :: t ++ src') 0 = b from rfl, hnot] at hskip
    cases hskip
  · exact h

/-- What copying comes to is what remains of the string. -/
def Copies (fuel : Nat) : Prop :=
  ∀ {dst src s rest : Bytes}, 2 * src.length + 2 ≤ fuel →
    (copyAscii fuel dst src = some (s, rest) ↔ Continues dst src s rest)

theorem copyEscape_iff {fuel : Nat} (hcopies : Copies fuel) {dst src s rest : Bytes}
    (hfuel : 2 * src.length + 1 ≤ fuel + 1) (hsrc : Special src) :
    copyEscape (fuel + 1) dst src = some (s, rest) ↔ Continues dst src s rest := by
  have hnot : (∀ ch e, Escaped ch e → ∀ src', src ≠ 0x5C :: e ++ src') → src.head? ≠ some 0x22 →
      ¬ Continues dst src s rest := by
    intro hescaped hquote
    refine Json.not_continues hquote fun ch x src' hch heq => ?_
    obtain ⟨e, rfl, he⟩ := special_char hsrc hch heq
    exact hescaped ch e he src' heq
  rw [copyEscape]
  by_cases hback : peek src 0 = 0x5C
  · have hquote : src.head? ≠ some 0x22 := by
      intro h
      obtain ⟨t, rfl⟩ := List.head?_eq_some_iff.1 h
      cases hback
    rw [if_pos hback]
    cases hletter : escapeLetter (peek src 1) with
    | some w =>
        -- an escape of one letter
        obtain ⟨ch, hch, hw⟩ := escapeLetter_iff.1 hletter
        have hzero : escapeLetter 0 = none := by decide
        have hne : peek src 1 ≠ 0 := fun h => by
          rw [h, hzero] at hletter
          cases hletter
        have hcons := eq_cons_cons_of_peek hback rfl hne
        have hlen := congrArg List.length hcons
        simp only [List.length_cons] at hlen
        have hrest := @hcopies (dst ++ [w]) (src.drop 2) s rest (by omega)
        refine hrest.trans ?_
        conv_rhs => rw [hcons]
        rw [← hw]
        exact (Json.continues_char (x := [0x5C, peek src 1]) (.escape hch)).symm
    | none =>
        by_cases hu : peek src 1 = 0x75
        · dsimp only
          rw [if_pos hu]
          cases huni : readUniEsc (src.drop 2) with
          | some wr =>
              obtain ⟨w, src'⟩ := wr
              obtain ⟨ch, x, hx, hdrop, rfl⟩ := readUniEsc_eq_some_iff.1 huni
              have hcons := eq_cons_cons_of_peek hback hu (by decide)
              have hlen := congrArg List.length hcons
              have hlen' := congrArg List.length hdrop
              simp only [List.length_cons, List.length_append] at hlen hlen'
              have hrest := @hcopies (dst ++ String.utf8EncodeChar ch) src' s rest (by omega)
              refine hrest.trans ?_
              conv_rhs => rw [hcons, hdrop]
              have htext : CharText ch (0x5C :: 0x75 :: x) :=
                Json.charText_iff.2 (.inr ⟨_, rfl, hx⟩)
              exact (Json.continues_char htext).symm
          | none =>
              exact iff_of_false (by simp)
                (hnot (fun ch e he => not_escaped hletter (fun _ => huni) he) hquote)
        · dsimp only
          rw [if_neg hu]
          exact iff_of_false (by simp)
            (hnot (fun ch e he => not_escaped hletter (fun h => absurd h hu) he) hquote)
  · rw [if_neg hback]
    have hescaped : ∀ ch e, Escaped ch e → ∀ src', src ≠ 0x5C :: e ++ src' := by
      rintro ch e - src' rfl
      exact hback rfl
    by_cases hquote : peek src 0 = 0x22
    · rw [if_pos hquote]
      rcases src with - | ⟨b, src⟩
      · cases hquote
      · obtain rfl : b = 0x22 := hquote
        rw [Json.continues_quote, Option.some.injEq, Prod.mk.injEq]
        exact and_congr eq_comm eq_comm
    · rw [if_neg hquote]
      refine iff_of_false (by simp) (hnot hescaped fun h => hquote ?_)
      obtain ⟨t, rfl⟩ := List.head?_eq_some_iff.1 h
      rfl

/-- Behind a run of ASCII characters no plain character of one byte follows. -/
theorem dropWhile_head (src : Bytes) :
    charIsAsciiSkip (peek (src.dropWhile charIsAsciiSkip) 0) = false := by
  cases h : src.dropWhile charIsAsciiSkip with
  | nil => decide
  | cons b t =>
      have hhead := List.head?_dropWhile_not charIsAsciiSkip src
      rw [h] at hhead
      exact hhead

theorem high_bit_iff : ∀ b : UInt8, b &&& 0x80 ≠ 0 ↔ 0x80 ≤ b.toNat :=
  forall_byte (by decide)

/-- A run of ASCII characters and then a run of UTF-8 sequences, and from there on. -/
theorem continues_runs {dst src s rest : Bytes} :
    Continues dst src s rest ↔
      Continues (dst ++ src.takeWhile charIsAsciiSkip) (src.dropWhile charIsAsciiSkip) s rest := by
  conv_lhs => rw [← List.takeWhile_append_dropWhile (p := charIsAsciiSkip) (l := src)]
  exact continues_plain (plain_takeWhile src)

theorem continues_utf8Run {dst src s rest : Bytes} :
    Continues dst src s rest ↔ Continues (dst ++ (utf8Run src).1) (utf8Run src).2 s rest := by
  conv_lhs => rw [← (utf8Run_spec src).2]
  exact continues_plain (utf8Run_spec src).1

theorem special_dropWhile {src : Bytes}
    (h : ¬ peek (src.dropWhile charIsAsciiSkip) 0 &&& 0x80 ≠ 0) :
    Special (src.dropWhile charIsAsciiSkip) := by
  rw [high_bit_iff] at h
  exact ⟨dropWhile_head src, Nat.not_le.1 h⟩

/-- A run that is not empty makes the rest shorter. -/
theorem length_utf8Run {src : Bytes} (h : (utf8Run src).1 ≠ []) :
    (utf8Run src).2.length < src.length := by
  have hlen := congrArg List.length (utf8Run_spec src).2
  have hpos := List.length_pos_iff.2 h
  rw [List.length_append] at hlen
  omega

theorem length_dropWhile (src : Bytes) :
    (src.dropWhile charIsAsciiSkip).length ≤ src.length :=
  (List.dropWhile_suffix _).length_le

theorem copies (fuel : Nat) : Copies fuel := by
  induction fuel using Nat.strong_induction_on with
  | h fuel ih =>
    intro dst src s rest hfuel
    obtain ⟨k, rfl⟩ : ∃ k, fuel = k + 2 := ⟨fuel - 2, by omega⟩
    have hle := length_dropWhile src
    rw [continues_runs, copyAscii, List.span_eq_takeWhile_dropWhile]
    dsimp only
    split_ifs with hhigh hempty
    · exact iff_of_false (by simp)
        (not_continues_of_run_nil ((high_bit_iff _).1 hhigh) hempty)
    · have hlt := length_utf8Run hempty
      rw [continues_utf8Run]
      exact ih (k + 1) (by omega) (by omega)
    · exact copyEscape_iff (ih k (by omega)) (by omega) (special_dropWhile hhigh)

theorem skipAscii_iff {fuel : Nat} {hdr src s rest : Bytes} (hfuel : 2 * src.length + 2 ≤ fuel) :
    skipAscii fuel hdr src = some (s, rest) ↔ Continues hdr src s rest := by
  induction fuel generalizing hdr src with
  | zero => omega
  | succ fuel ih =>
    obtain ⟨k, rfl⟩ : ∃ k, fuel = k + 1 := ⟨fuel - 1, by omega⟩
    have hle := length_dropWhile src
    rw [continues_runs, skipAscii, List.span_eq_takeWhile_dropWhile]
    dsimp only
    split_ifs with hquote hhigh hempty
    · cases hsrc : src.dropWhile charIsAsciiSkip with
      | nil =>
          rw [hsrc] at hquote
          cases hquote
      | cons b t =>
          rw [hsrc] at hquote
          obtain rfl : b = 0x22 := hquote
          rw [Json.continues_quote, Option.some.injEq, Prod.mk.injEq]
          exact and_congr eq_comm eq_comm
    · exact iff_of_false (by simp)
        (not_continues_of_run_nil ((high_bit_iff _).1 hhigh) hempty)
    · have hlt := length_utf8Run hempty
      rw [continues_utf8Run]
      exact ih (by omega)
    · exact copyEscape_iff (copies k) (by omega) (special_dropWhile hhigh)

/-- **`read_str`** accepts exactly the inside of a JSON string. -/
theorem readStr_eq_some_iff {src s rest : Bytes} :
    readStr src = some (s, rest) ↔ ∃ body, Json.StrText s body ∧ src = body ++ 0x22 :: rest := by
  rw [readStr, skipAscii_iff (Nat.le_refl _), Json.continues_nil_iff]

end ServerBase.Yyjson
