import ServerBase.Yyjson.ReaderProof
import ServerBase.Yyjson.WriterProof

/-!
# What is written is read back

**Doubles** (`DoubleCodec`). The text of a double is read as that double again, and a double that
was read has a text.

**Tokens** (`tokenOut_text`). What is written for a token is one of the ways to write it in JSON.

**The results.** The text of a value is read as that value (`yyjsonRead_written`). There is one
unless a string is no UTF-8 or a double is not finite (`write_then_read`); for what was read there
always is (`read_then_write`).
-/

namespace ServerBase.Yyjson

open Json (Scalar Kind Token Value Numeral utf8)

variable {F : Type}

/-! ## Numbers -/

/-- Both conversions of doubles: the shortest text that is read as the same double. -/
structure DoubleCodec (F : Type) extends DoubleReader F, DoubleWriter F where
  ofDecimal_write : ∀ f l, write f = some l → ofDecimal l.neg l.magnitude = some f
  write_ofDecimal : ∀ sign q f, ofDecimal sign q = some f → ∃ l, write f = some l

/-- The numeral of an integer -/
def intNumeral (i : Int) : Numeral where
  neg := decide (i < 0)
  int := Decimal.digits i.natAbs
  frac := none
  exp := none
  int_isDigit := fun _ hc => Decimal.isDigit_of_mem_digits hc
  int_ne_nil := Decimal.digits_ne_nil _
  int_leading := Decimal.digits_leading
  frac_isDigit := fun _ h => by cases h
  frac_ne_nil := fun _ h => by cases h

theorem intValue_intNumeral (i : Int) : intValue (intNumeral i) = i := by
  have hvalue : Decimal.value (intNumeral i).int = i.natAbs := Decimal.value_digits _
  have hneg : (intNumeral i).neg = true ↔ i < 0 := decide_eq_true_iff
  rw [intValue, hvalue]
  split_ifs with h <;> rw [hneg] at h <;> omega

theorem toNat_ofInt (i : Int) : (UInt64.ofInt i).toNat = (i % 2 ^ 64).toNat := by
  rw [UInt64.ofInt, UInt64.toNat_ofNat']
  omega

/-- The 64 bits of a negative number are negated. -/
theorem toNat_neg_ofInt {i : Int} (h0 : i < 0) (h : -2 ^ 63 ≤ i) :
    (~~~(UInt64.ofInt i) + 1).toNat = i.natAbs := by
  rw [UInt64.toNat_add, UInt64.toNat_not, toNat_ofInt, UInt64.size]
  show (2 ^ 64 - 1 - (i % 2 ^ 64).toNat + 1) % 2 ^ 64 = i.natAbs
  omega

/-- **An integer is written as its numeral.** -/
theorem writeNum_int (double : DoubleWriter F) (i : Int64OrUInt64) :
    writeNum double (.int i) = some (intNumeral i.val).text := by
  obtain ⟨hlow, hhigh⟩ := i.property
  have htext : (intNumeral i.val).text =
      (if i.val < 0 then [0x2D] else []) ++ Decimal.digits i.val.natAbs := by
    rw [Numeral.text, intNumeral]
    simp
  rw [htext]
  refine congrArg some ?_
  show (if i.val < 0 then 0x2D :: writeU64 (~~~(UInt64.ofInt i.val) + 1).toNat
    else writeU64 (UInt64.ofInt i.val).toNat) = _
  rw [writeU64_eq (UInt64.toNat_lt _), writeU64_eq (UInt64.toNat_lt _)]
  by_cases hneg : i.val < 0
  · rw [if_pos hneg, if_pos hneg, toNat_neg_ofInt hneg hlow]
    rfl
  · have habs : (i.val % 2 ^ 64).toNat = i.val.natAbs := by omega
    rw [if_neg hneg, if_neg hneg, toNat_ofInt, habs]
    rfl

theorem numeralValue_intNumeral (double : DoubleReader F) (i : Int64OrUInt64) :
    numeralValue double (intNumeral i.val) = some (.int i) := by
  have hvalue := intValue_intNumeral i.val
  have hint : (intNumeral i.val).isInt = true := rfl
  rw [numeralValue, dif_pos ⟨hint, hvalue.symm ▸ i.property⟩]
  exact congrArg (fun i => some (YyjsonNum.int i)) (Subtype.ext hvalue)

section
variable (double : DoubleCodec F)

/-- **A number that is written is read as that number.** -/
theorem writeNum_text {n : YyjsonNum F} {x : Bytes}
    (h : writeNum double.toDoubleWriter n = some x) :
    ∃ l : Numeral, l.text = x ∧ numeralValue double.toDoubleReader l = some n := by
  cases n with
  | int i =>
      rw [writeNum_int] at h
      exact ⟨intNumeral i.val, Option.some.inj h, numeralValue_intNumeral _ i⟩
  | real f =>
      obtain ⟨l, hl, rfl⟩ := Option.map_eq_some_iff.1 h
      have hint := double.write_isInt f l hl
      refine ⟨l, rfl, ?_⟩
      rw [numeralValue, dif_neg (by rw [hint]; simp), double.ofDecimal_write f l hl]
      rfl

/-! ## Tokens -/

theorem charsOut_text (cs : List Char) : Json.CharsText cs (cs.flatMap charOut) := by
  induction cs with
  | nil => exact .nil
  | cons c cs ih =>
      rw [List.flatMap_cons]
      exact .cons (charOut_text c) ih

theorem tokenOut_text {t : Token (YyjsonNum F)} {x : Bytes}
    (h : tokenOut double.toDoubleWriter t = some x) :
    Json.TokenText (numeralValue double.toDoubleReader) t x := by
  rcases t with (- | ⟨- | -⟩ | n | s) | (- | -) | (- | -) | - | -
  case scalar.num => exact writeNum_text double h
  case scalar.str =>
    obtain ⟨cs, hcs, rfl⟩ := writeStr_eq_some_iff.1 h
    exact ⟨_, ⟨cs, hcs, charsOut_text cs⟩, rfl⟩
  all_goals exact (Option.some.inj h).symm

theorem written_spells {ts : List (Token (YyjsonNum F))} {b : Bytes}
    (h : written double.toDoubleWriter ts = some b) :
    Json.Spells (numeralValue double.toDoubleReader) ts b := by
  have hempty : Json.Ws [] := fun c hc => by cases hc
  induction ts generalizing b with
  | nil =>
      obtain rfl := Option.some.inj h
      exact .nil hempty
  | cons t ts ih =>
      obtain ⟨x, hx, hmap⟩ := Option.bind_eq_some_iff.1 h
      obtain ⟨rest, hrest, rfl⟩ := Option.map_eq_some_iff.1 hmap
      exact @Json.Spells.cons _ _ _ _ [] _ _ hempty (tokenOut_text double hx) (ih hrest)

/-- **The text of a value is read as that value.** -/
theorem yyjsonRead_written {v : Value (YyjsonNum F)} {b : Bytes}
    (h : written double.toDoubleWriter v.tokens = some b) :
    yyjsonRead double.toDoubleReader b = some (layout v) :=
  (yyjsonRead_eq_some_iff _).2 ⟨v, written_spells double h, rfl⟩

/-! ## What has a text -/

/-- Strings in UTF-8, and finite numbers -/
def Writable (double : DoubleWriter F) : Token (YyjsonNum F) → Prop
  | .scalar (.str s) => ∃ cs, utf8 cs = s
  | .scalar (.num (.real f)) => ∃ l, double.write f = some l
  | _ => True

theorem tokenOut_eq_some_iff {double : DoubleWriter F} {t : Token (YyjsonNum F)} :
    (∃ x, tokenOut double t = some x) ↔ Writable double t := by
  rcases t with (- | ⟨- | -⟩ | (i | f) | s) | (- | -) | (- | -) | - | -
  case scalar.num.real =>
    constructor
    · rintro ⟨x, hx⟩
      obtain ⟨l, hl, -⟩ := Option.map_eq_some_iff.1 hx
      exact ⟨l, hl⟩
    · rintro ⟨l, hl⟩
      exact ⟨l.text, Option.map_eq_some_iff.2 ⟨l, hl, rfl⟩⟩
  case scalar.str =>
    constructor
    · rintro ⟨x, hx⟩
      obtain ⟨cs, hcs, -⟩ := writeStr_eq_some_iff.1 hx
      exact ⟨cs, hcs⟩
    · rintro ⟨cs, hcs⟩
      exact ⟨_, writeStr_eq_some_iff.2 ⟨cs, hcs, rfl⟩⟩
  all_goals exact iff_of_true ⟨_, rfl⟩ trivial

theorem written_eq_some_iff {double : DoubleWriter F} {ts : List (Token (YyjsonNum F))} :
    (∃ b, written double ts = some b) ↔ ∀ t ∈ ts, Writable double t := by
  induction ts with
  | nil => exact iff_of_true ⟨[], rfl⟩ fun t ht => by cases ht
  | cons t ts ih =>
      rw [List.forall_mem_cons, ← ih, ← tokenOut_eq_some_iff, written]
      constructor
      · rintro ⟨b, hb⟩
        obtain ⟨x, hx, hrest⟩ := Option.bind_eq_some_iff.1 hb
        obtain ⟨rest, hrest, -⟩ := Option.map_eq_some_iff.1 hrest
        exact ⟨⟨x, hx⟩, rest, hrest⟩
      · rintro ⟨⟨x, hx⟩, rest, hrest⟩
        exact ⟨x ++ rest, by rw [hx, Option.bind_some, hrest, Option.map_some]⟩

theorem writable_obj {double : DoubleWriter F} {members : List (Bytes × Value (YyjsonNum F))}
    (h : ∀ m ∈ members, (∃ cs, utf8 cs = m.1) ∧ ∀ t ∈ m.2.tokens, Writable double t) :
    ∀ t ∈ (Value.obj members).tokens, Writable double t := by
  intro t ht
  rw [Value.tokens, List.mem_cons, List.mem_append, List.mem_singleton] at ht
  rcases ht with rfl | ht | rfl
  · trivial
  · rcases Json.mem_separated ht with rfl | ⟨item, hitem, ht⟩
    · trivial
    · obtain ⟨m, hm, rfl⟩ := Json.mem_memberTokens hitem
      obtain ⟨hk, hv⟩ := h m hm
      rw [List.mem_cons, List.mem_cons] at ht
      rcases ht with rfl | rfl | ht
      · exact hk
      · trivial
      · exact hv t ht
  · trivial

/-- What is read can be written. -/
theorem writable_of_text {t : Token (YyjsonNum F)} {x : Bytes}
    (h : Json.TokenText (numeralValue double.toDoubleReader) t x) :
    Writable double.toDoubleWriter t := by
  rcases t with (- | ⟨- | -⟩ | (i | f) | s) | (- | -) | (- | -) | - | -
  case scalar.num.real =>
    obtain ⟨l, -, hl⟩ := h
    unfold numeralValue at hl
    split_ifs at hl with hint
    · cases Option.some.inj hl
    · obtain ⟨g, hg, heq⟩ := Option.map_eq_some_iff.1 hl
      obtain rfl : g = f := by injection heq
      exact double.write_ofDecimal _ _ _ hg
  case scalar.str =>
    obtain ⟨body, ⟨cs, hcs, -⟩, -⟩ := h
    exact ⟨cs, hcs⟩
  all_goals trivial

theorem writable_of_spells {ts : List (Token (YyjsonNum F))} {b : Bytes}
    (h : Json.Spells (numeralValue double.toDoubleReader) ts b) :
    ∀ t ∈ ts, Writable double.toDoubleWriter t := by
  induction h with
  | nil => exact fun t ht => by cases ht
  | cons hws ht hts ih => exact List.forall_mem_cons.2 ⟨writable_of_text double ht, ih⟩

end

/-! ## Text without a NUL -/

theorem ne_zero_of_all {x : Bytes} (h : x.all (· != 0) = true) : ∀ b ∈ x, b ≠ 0 :=
  fun b hb => bne_iff_ne.1 (List.all_eq_true.1 h b hb)

/-- No character is written with a NUL. -/
theorem charOut_noNul (c : Char) : ∀ b ∈ charOut c, b ≠ 0 := by
  have hbyte : ∀ i < 0x80, (byteOut (.ofNat i)).all (· != 0) = true := by decide
  unfold charOut
  split_ifs with hascii
  · exact ne_zero_of_all (hbyte _ hascii)
  · intro b hb
    have hlen := Utf8.encode_length c
    have hcode := Utf8.code_range c
    rcases hlen with ⟨hc, -⟩ | ⟨hc, hc', -⟩ | ⟨hc, hc', -⟩ | ⟨hc, -⟩
    · omega
    · rw [Utf8.encode_two hc hc'] at hb
      simp only [List.mem_cons, List.not_mem_nil, or_false] at hb
      rcases hb with rfl | rfl <;> rw [ne_eq, Utf8.ofNat_eq_iff (by omega)] <;>
        simp only [UInt8.toNat_ofNat] <;> omega
    · rw [Utf8.encode_three hc hc'] at hb
      simp only [List.mem_cons, List.not_mem_nil, or_false] at hb
      rcases hb with rfl | rfl | rfl <;> rw [ne_eq, Utf8.ofNat_eq_iff (by omega)] <;>
        simp only [UInt8.toNat_ofNat] <;> omega
    · rw [Utf8.encode_four hc] at hb
      simp only [List.mem_cons, List.not_mem_nil, or_false] at hb
      rcases hb with rfl | rfl | rfl | rfl <;> rw [ne_eq, Utf8.ofNat_eq_iff (by omega)] <;>
        simp only [UInt8.toNat_ofNat] <;> omega

theorem numeral_noNul (l : Numeral) : ∀ b ∈ l.text, b ≠ 0 := by
  have hdigit : ∀ {ds : Bytes}, (∀ c ∈ ds, Decimal.isDigit c = true) → ∀ b ∈ ds, b ≠ 0 := by
    intro ds hds b hb
    exact Json.digit_ne (hds b hb) (by decide)
  intro b hb
  simp only [Json.Numeral.text, List.mem_append] at hb
  rcases hb with ((hb | hb) | hb) | hb
  · split_ifs at hb
    · rw [List.mem_singleton.1 hb]
      decide
    · cases hb
  · exact hdigit l.int_isDigit b hb
  · cases hfrac : l.frac with
    | none => rw [hfrac] at hb; cases hb
    | some ds =>
        rw [hfrac] at hb
        rcases List.mem_cons.1 hb with rfl | hb
        · decide
        · exact hdigit (l.frac_isDigit ds hfrac) b hb
  · cases hexp : l.exp with
    | none => rw [hexp] at hb; cases hb
    | some e =>
        rw [hexp] at hb
        rcases List.mem_cons.1 hb with rfl | hb
        · rcases e.letter_eq with h | h <;> rw [h] <;> decide
        · rcases List.mem_append.1 hb with hb | hb
          · have hsign := e.sign_eq b (by simpa using hb)
            rcases hsign with rfl | rfl <;> decide
          · exact hdigit e.isDigit b hb

theorem tokenOut_noNul {double : DoubleWriter F} {t : Token (YyjsonNum F)} {x : Bytes}
    (h : tokenOut double t = some x) : ∀ b ∈ x, b ≠ 0 := by
  rcases t with (- | ⟨- | -⟩ | (i | f) | s) | (- | -) | (- | -) | - | -
  case scalar.num.int =>
    have hint := writeNum_int double i
    obtain rfl := Option.some.inj (hint.symm.trans h)
    exact numeral_noNul _
  case scalar.num.real =>
    obtain ⟨l, -, rfl⟩ := Option.map_eq_some_iff.1 h
    exact numeral_noNul l
  case scalar.str =>
    obtain ⟨cs, -, rfl⟩ := writeStr_eq_some_iff.1 h
    intro b hb
    rcases List.mem_cons.1 hb with rfl | hb
    · decide
    · rcases List.mem_append.1 hb with hb | hb
      · obtain ⟨c, -, hc⟩ := List.mem_flatMap.1 hb
        exact charOut_noNul c b hc
      · rw [List.mem_singleton.1 hb]
        decide
  all_goals
    obtain rfl := Option.some.inj h
    exact ne_zero_of_all (by decide)

theorem written_noNul {double : DoubleWriter F} {ts : List (Token (YyjsonNum F))} {x : Bytes}
    (h : written double ts = some x) : ∀ b ∈ x, b ≠ 0 := by
  induction ts generalizing x with
  | nil =>
      obtain rfl := Option.some.inj h
      exact fun b hb => by cases hb
  | cons t ts ih =>
      obtain ⟨y, hy, hmap⟩ := Option.bind_eq_some_iff.1 h
      obtain ⟨z, hz, rfl⟩ := Option.map_eq_some_iff.1 hmap
      intro b hb
      exact (List.mem_append.1 hb).elim (tokenOut_noNul hy b) (ih hz b)

/-! ## The doubles that are integers -/

/-- A double that is an integer of at most 15 digits -/
def IntegralDouble : Type := {i : Int // i.natAbs < 10 ^ 15}

def integralNumeral (i : Int) : Numeral :=
  { intNumeral i with
    frac := some [0x30]
    frac_isDigit := fun ds hds => by
      obtain rfl := Option.some.inj hds
      exact isDigit_zero
    frac_ne_nil := fun ds hds => by
      obtain rfl := Option.some.inj hds
      decide }

theorem magnitude_integralNumeral (i : Int) : (integralNumeral i).magnitude = i.natAbs := by
  have hvalue : Decimal.value (Decimal.digits i.natAbs ++ [0x30]) = 10 * i.natAbs := by
    rw [Decimal.value_append_singleton, Decimal.value_digits]
    rfl
  show (Decimal.value (Decimal.digits i.natAbs ++ [0x30]) : ℚ) * 10 ^ (-1 : Int) = _
  rw [hvalue, zpow_neg_one, Nat.cast_mul, mul_comm ((10 : Nat) : ℚ), Nat.cast_ofNat,
    mul_inv_cancel_right₀ (OfNat.ofNat_ne_zero 10)]

theorem length_integralNumeral {i : Int} (h : i.natAbs < 10 ^ 15) :
    (integralNumeral i).text.length < FP_BUF_LEN := by
  have hdigits := (Decimal.length_digits_le_iff (k := i.natAbs) (m := 15) (by decide)).2 h
  have htext : (integralNumeral i).text =
      (if i < 0 then [0x2D] else []) ++ Decimal.digits i.natAbs ++ [0x2E, 0x30] := by
    rw [Numeral.text]
    simp [integralNumeral, intNumeral]
  rw [htext, FP_BUF_LEN]
  split_ifs <;> simp only [List.length_append, List.length_cons, List.length_nil] <;> omega

/-- Both conversions on these doubles -/
def integralCodec : DoubleCodec IntegralDouble where
  ofDecimal sign q :=
    let r := if sign then -q else q
    if h : r.den = 1 ∧ r.num.natAbs < 10 ^ 15 then some ⟨r.num, h.2⟩ else none
  zero _ := ⟨0, by decide⟩
  ofDecimal_zero sign := by
    cases sign <;> rfl
  write f := some (integralNumeral f.val)
  write_isInt f l h := by
    obtain rfl := Option.some.inj h
    rfl
  write_length f l h := by
    obtain rfl := Option.some.inj h
    exact length_integralNumeral f.property
  ofDecimal_write f l h := by
    obtain rfl := Option.some.inj h
    have hr : (if (integralNumeral f.val).neg then -(integralNumeral f.val).magnitude
        else (integralNumeral f.val).magnitude) = (f.val : ℚ) := by
      have hneg : (integralNumeral f.val).neg = decide (f.val < 0) := rfl
      rw [magnitude_integralNumeral, hneg]
      by_cases h : f.val < 0
      · have habs : ((f.val.natAbs : Int)) = -f.val := by omega
        rw [if_pos (decide_eq_true h), ← Int.cast_natCast, habs, Int.cast_neg, neg_neg]
      · have habs : ((f.val.natAbs : Int)) = f.val := by omega
        rw [if_neg (by rw [decide_eq_true_eq]; exact h), ← Int.cast_natCast, habs]
    dsimp only
    rw [hr]
    exact dif_pos ⟨rfl, f.property⟩
  write_ofDecimal _ _ f _ := ⟨_, rfl⟩

/-! ## Writing and reading -/

section
variable (double : DoubleCodec F) {heap : Heap F} {root : Addr} {v : Value (YyjsonNum F)}

/-- A value that has a text is written, and the text is read. -/
theorem exists_text (h : Rep heap root v) (hv : ∀ t ∈ v.tokens, Writable double.toDoubleWriter t)
    (estimatedValNum : Nat) :
    ∃ text, (∃ n, ∀ fuel, n ≤ fuel →
        yyjsonMutWrite double.toDoubleWriter heap fuel root estimatedValNum =
          some (.docEnd text)) ∧
      written double.toDoubleWriter v.tokens = some text := by
  obtain ⟨text, htext⟩ := written_eq_some_iff.2 hv
  have hwrite := yyjsonMutWrite_eq double.toDoubleWriter h estimatedValNum
  rw [outcome, htext] at hwrite
  exact ⟨text, hwrite, htext⟩

/-- **Writing and reading.** The writer comes to an end. It fails if a string is no UTF-8 or a
double is not finite; otherwise its text is read as the value. -/
theorem write_then_read (h : Rep heap root v) (estimatedValNum : Nat) :
    ∃ n out, (∀ fuel, n ≤ fuel →
        yyjsonMutWrite double.toDoubleWriter heap fuel root estimatedValNum = some out) ∧
      ((∀ t ∈ v.tokens, Writable double.toDoubleWriter t) ∧
          (∃ text, out = .docEnd text ∧
            yyjsonRead double.toDoubleReader text = some (layout v)) ∨
        (∃ t ∈ v.tokens, ¬ Writable double.toDoubleWriter t) ∧ out = .fail) := by
  by_cases hv : ∀ t ∈ v.tokens, Writable double.toDoubleWriter t
  · obtain ⟨text, ⟨n, hn⟩, htext⟩ := exists_text double h hv estimatedValNum
    exact ⟨n, _, hn, .inl ⟨hv, text, rfl, yyjsonRead_written double htext⟩⟩
  · obtain ⟨n, hn⟩ := yyjsonMutWrite_eq double.toDoubleWriter h estimatedValNum
    have hnone : written double.toDoubleWriter v.tokens = none :=
      Option.eq_none_iff_forall_ne_some.2 fun b hb => hv (written_eq_some_iff.1 ⟨b, hb⟩)
    rw [outcome, hnone] at hn
    refine ⟨n, _, hn, .inr ⟨?_, rfl⟩⟩
    simpa using hv

end

/-- The array of a number and a string, as a ring. -/
def pairHeap : Heap IntegralDouble
  | 0 => ⟨.ctn .arr 2 2, 0⟩
  | 1 => ⟨.num (.int ⟨-7, by decide⟩), 2⟩
  | _ => ⟨.str ⟨bytes "a\n", false, fun h => by cases h⟩, 1⟩

def pairVal : Value (YyjsonNum IntegralDouble) :=
  .arr [.scalar (.num (.int ⟨-7, by decide⟩)), .scalar (.str (bytes "a\n"))]

theorem write_then_read_pair :
    ∃ n out, (∀ fuel, n ≤ fuel →
        yyjsonMutWrite integralCodec.toDoubleWriter pairHeap fuel 0 0 = some out) ∧
      ((∀ t ∈ pairVal.tokens, Writable integralCodec.toDoubleWriter t) ∧
          (∃ text, out = .docEnd text ∧
            yyjsonRead integralCodec.toDoubleReader text = some (layout pairVal)) ∨
        (∃ t ∈ pairVal.tokens, ¬ Writable integralCodec.toDoubleWriter t) ∧ out = .fail) :=
  @write_then_read _ integralCodec pairHeap 0 pairVal ⟨2, rfl, .num _, .str _, trivial⟩ 0

/-- **What was read is written again** as a text that is read the same way. -/
theorem read_then_write (double : DoubleCodec F) {dat : Bytes} {v : Value (YyjsonNum F)}
    (hdat : Json.Text (numeralValue double.toDoubleReader) v dat) {heap : Heap F} {root : Addr}
    (h : Rep heap root v) (estimatedValNum : Nat) :
    ∃ n text, (∀ fuel, n ≤ fuel →
        yyjsonMutWrite double.toDoubleWriter heap fuel root estimatedValNum =
          some (.docEnd text)) ∧
      yyjsonRead double.toDoubleReader text = yyjsonRead double.toDoubleReader dat := by
  obtain ⟨text, ⟨n, hn⟩, htext⟩ := exists_text double h (writable_of_spells double hdat)
    estimatedValNum
  refine ⟨n, text, hn, ?_⟩
  rw [yyjsonRead_written double htext, (yyjsonRead_eq_some_iff _).2 ⟨v, hdat, rfl⟩]

theorem read_then_write_pair :
    ∃ n text, (∀ fuel, n ≤ fuel →
        yyjsonMutWrite integralCodec.toDoubleWriter pairHeap fuel 0 0 = some (.docEnd text)) ∧
      yyjsonRead integralCodec.toDoubleReader text =
        yyjsonRead integralCodec.toDoubleReader (bytes "[-7,\"a\\n\"]") :=
  @read_then_write _ integralCodec _ pairVal (written_spells integralCodec rfl) pairHeap 0
    ⟨2, rfl, .num _, .str _, trivial⟩ 0

end ServerBase.Yyjson
