import Mathlib.Data.List.TakeDrop
import ServerBase.Yyjson.Numbers

/-!
# What `read_num` accepts

**Integers** (`returnIntg_eq`). The tests on the number of digits come to the range of 64 bits.

**The results** (`readNum_sound`, `readNum_complete`). `read_num` takes a JSON numeral away, all of
it, and returns what it means.
-/

namespace ServerBase.Yyjson

open Json (Numeral Exponent)

/-! ## Runs of digits -/

theorem peek_cons (c : UInt8) (cur : Bytes) : peek (c :: cur) 0 = c := rfl

theorem peek_eq_head {cur : Bytes} {p : UInt8 → Bool} (hp : p 0 = false)
    (h : p (peek cur 0) = true) : ∃ c t, cur = c :: t ∧ p c = true := by
  cases cur with
  | nil =>
      rw [show peek [] 0 = 0 from rfl, hp] at h
      cases h
  | cons c t => exact ⟨c, t, rfl, h⟩

theorem peek_of_head {cur : Bytes} {p : UInt8 → Bool} (hp : p 0 = false)
    (h : ∀ c ∈ cur.head?, p c = false) : p (peek cur 0) = false := by
  cases cur with
  | nil => exact hp
  | cons c t => exact h c rfl

theorem span_digits {ds rest : Bytes} (hds : ∀ c ∈ ds, Decimal.isDigit c = true)
    (hrest : ∀ c ∈ rest.head?, Decimal.isDigit c = false) :
    (ds ++ rest).span charIsDigit = (ds, rest) := by
  have hrest' : rest.takeWhile charIsDigit = [] ∧ rest.dropWhile charIsDigit = rest := by
    cases rest with
    | nil => exact ⟨rfl, rfl⟩
    | cons c t =>
        have hc : ¬ charIsDigit c = true := Bool.eq_false_iff.1 (hrest c rfl)
        exact ⟨List.takeWhile_cons_of_neg hc, List.dropWhile_cons_of_neg hc⟩
  rw [List.span_eq_takeWhile_dropWhile, List.takeWhile_append_of_pos hds,
    List.dropWhile_append_of_pos hds, hrest'.1, hrest'.2, List.append_nil]

/-- The digits in front, and what follows them. -/
theorem exists_span_digits (cur : Bytes) :
    ∃ ds rest, cur.span charIsDigit = (ds, rest) ∧ cur = ds ++ rest ∧
      (∀ c ∈ ds, Decimal.isDigit c = true) ∧ (∀ c ∈ rest.head?, Decimal.isDigit c = false) := by
  refine ⟨_, _, List.span_eq_takeWhile_dropWhile _ cur, List.takeWhile_append_dropWhile.symm,
    fun c hc => List.mem_takeWhile_imp hc, fun c hc => ?_⟩
  have hhead := List.head?_dropWhile_not Decimal.isDigit cur
  rw [Option.mem_def.1 hc] at hhead
  exact hhead

theorem ne_nil_of_peek {cur ds rest : Bytes} (h : charIsDigit (peek cur 0) = true)
    (hcur : cur = ds ++ rest) (hrest : ∀ c ∈ rest.head?, Decimal.isDigit c = false) : ds ≠ [] := by
  rintro rfl
  rw [List.nil_append] at hcur
  subst hcur
  have hnot := peek_of_head (p := Decimal.isDigit) (by decide) hrest
  exact Bool.false_ne_true (hnot.symm.trans h)

/-! ## Integers -/

section
variable {F : Type} (double : DoubleReader F)

theorem returnI64_pos {v : Nat} (hv : (v : Int) < 2 ^ 64) :
    returnI64 false (.ofNat v) = (.int ⟨v, by omega, hv⟩ : YyjsonNum F) := by
  have hnat : (UInt64.ofNat v).toNat = v := UInt64.toNat_ofNat_of_lt' (by
    show v < 2 ^ 64
    omega)
  exact congrArg YyjsonNum.int (Subtype.ext (congrArg Nat.cast hnat))

theorem returnI64_neg {v : Nat} (hv : -2 ^ 63 ≤ -(v : Int)) :
    returnI64 true (.ofNat v) = (.int ⟨-v, hv, by omega⟩ : YyjsonNum F) := by
  refine congrArg YyjsonNum.int (Subtype.ext ?_)
  have hlt : v < 2 ^ 64 := by omega
  have hnat : (UInt64.ofNat v).toNat = v := UInt64.toNat_ofNat_of_lt' hlt
  have hneg : (-(UInt64.ofNat v)).toBitVec.toNat = (2 ^ 64 - v) % 2 ^ 64 := by
    have htoNat := UInt64.toNat_neg (.ofNat v)
    rw [hnat] at htoNat
    exact htoNat
  show (~~~(UInt64.ofNat v) + 1).toBitVec.toInt = -(v : Int)
  rw [← UInt64.neg_eq_not_add, BitVec.toInt_eq_toNat_bmod, hneg, Int.bmod_def]
  omega

theorem returnI64_eq {l : Numeral} (hint : l.isInt = true) (hlow : -2 ^ 63 ≤ intValue l)
    (hhigh : intValue l < 2 ^ 64) :
    some (returnI64 l.neg (.ofNat (Decimal.value l.int))) = numeralValue double l := by
  rw [numeralValue, dif_pos ⟨hint, hlow, hhigh⟩]
  refine congrArg some ?_
  cases hneg : l.neg with
  | false =>
      have hvalue : intValue l = Decimal.value l.int := by simp [intValue, hneg]
      rw [returnI64_pos (hvalue ▸ hhigh)]
      exact congrArg YyjsonNum.int (Subtype.ext hvalue.symm)
  | true =>
      have hvalue : intValue l = -(Decimal.value l.int : Int) := by simp [intValue, hneg]
      rw [returnI64_neg (hvalue ▸ hlow)]
      exact congrArg YyjsonNum.int (Subtype.ext hvalue.symm)

theorem isInt_iff {l : Numeral} : l.isInt = true ↔ l.frac = none ∧ l.exp = none := by
  rw [Numeral.isInt, Bool.and_eq_true, Option.isNone_iff_eq_none, Option.isNone_iff_eq_none]

/-- The double of a numeral. -/
theorem digiFinish_eq (l : Numeral) (hnot : ¬ (l.isInt = true ∧ -2 ^ 63 ≤ intValue l ∧
    intValue l < 2 ^ 64)) :
    digiFinish double l.neg l.int (l.frac.getD []) (l.exp.elim 0 Exponent.value) =
      numeralValue double l := by
  rw [numeralValue, dif_neg hnot]
  rfl

theorem digiFinish_int {l : Numeral} (hint : l.isInt = true)
    (hnot : ¬ (-2 ^ 63 ≤ intValue l ∧ intValue l < 2 ^ 64)) :
    digiFinish double l.neg l.int [] 0 = numeralValue double l := by
  have heq := digiFinish_eq double l fun h => hnot h.2
  obtain ⟨hfrac, hexp⟩ := isInt_iff.1 hint
  rw [hfrac, hexp] at heq
  exact heq

/-- The value of 20 digits, from the first 19 and the last. -/
theorem value_twenty {ds : Bytes} (hds : ∀ c ∈ ds, Decimal.isDigit c = true)
    (h : ds.length = 20) :
    Decimal.value ds = 10 * Decimal.value (ds.take 19) + ((peek ds 19).toNat - 0x30) ∧
      (peek ds 19).toNat ≤ 57 := by
  have hlast : 19 < ds.length := by omega
  have hpeek : peek ds 19 = ds[19] := by
    rw [peek, List.getD_eq_getElem?_getD, List.getElem?_eq_getElem hlast, Option.getD_some]
  have hdrop : ds.drop 20 = [] := List.drop_eq_nil_of_le (by omega)
  have hsplit : ds = ds.take 19 ++ [ds[19]] := by
    conv_lhs => rw [← List.take_append_drop 19 ds, List.drop_eq_getElem_cons hlast, hdrop]
  refine ⟨?_, hpeek ▸ (Decimal.isDigit_iff.1 (hds _ (List.getElem_mem hlast))).2⟩
  conv_lhs => rw [hsplit]
  rw [Decimal.value_append_singleton, Decimal.push, hpeek]

/-- **The number of digits decides** whether an integer has room in 64 bits. -/
theorem returnIntg_eq {l : Numeral} (hint : l.isInt = true) (hhead : l.int.head? ≠ some 0x30) :
    returnIntg double l.neg l.int = numeralValue double l := by
  have hlt := Decimal.value_lt l.int_isDigit
  have hle := Decimal.le_value l.int_isDigit l.int_ne_nil hhead
  have hvalue : intValue l = if l.neg then -(Decimal.value l.int : Int)
    else Decimal.value l.int := rfl
  have hall : l.int.length ≤ 19 → l.int.take 19 = l.int := List.take_of_length_le
  unfold returnIntg
  dsimp only
  split_ifs with h18 h19 hover h20 hfits hsign
  · -- up to 18 digits
    have hpow : 10 ^ l.int.length ≤ 10 ^ 18 := Nat.pow_le_pow_right (by decide) h18
    rw [hall (by omega)]
    exact returnI64_eq double hint (by split at hvalue <;> omega) (by split at hvalue <;> omega)
  · rw [Bool.and_eq_true, decide_eq_true_eq, hall (by omega)] at hover
    rw [if_pos hover.1] at hvalue
    have hbig : 2 ^ 63 < Decimal.value l.int := hover.2
    exact digiFinish_int double hint (by omega)
  · rw [h19] at hlt
    rw [hall (by omega)]
    rw [Bool.and_eq_true, decide_eq_true_eq, hall (by omega), not_and] at hover
    refine returnI64_eq double hint ?_ (by split at hvalue <;> omega)
    split at hvalue
    · next hneg =>
      have hsmall : ¬ 2 ^ 63 < Decimal.value l.int := hover hneg
      omega
    · omega
  · obtain ⟨htwenty, hlast⟩ := value_twenty l.int_isDigit h20
    rw [h20] at hle
    rw [if_pos hsign] at hvalue
    exact digiFinish_int double hint (by omega)
  · obtain ⟨htwenty, hlast⟩ := value_twenty l.int_isDigit h20
    rw [if_neg hsign] at hvalue
    have heq := returnI64_eq double hint (by omega) (by omega)
    rw [htwenty, Nat.mul_comm 10, Nat.add_comm] at heq
    exact heq
  · obtain ⟨htwenty, hlast⟩ := value_twenty l.int_isDigit h20
    rw [h20] at hle
    exact digiFinish_int double hint (by split at hvalue <;> omega)
  · have hpow : 10 ^ 20 ≤ 10 ^ (l.int.length - 1) :=
      Nat.pow_le_pow_right (by decide) (by omega)
    exact digiFinish_int double hint (by split at hvalue <;> omega)

/-! ## The exponent and the fraction -/

variable {sign : Bool} {intg frac cur rest : Bytes} {n : YyjsonNum F}

theorem digiExpMore_sound (hexp : charIsExp (peek cur 0) = true)
    (h : digiExpMore double sign intg frac cur = some (n, rest)) :
    ∃ e : Exponent, cur = e.text ++ rest ∧ digiFinish double sign intg frac e.value = some n := by
  obtain ⟨c, t, rfl, hc⟩ := peek_eq_head (by decide) hexp
  have hletter : c = 0x65 ∨ c = 0x45 := by simpa [charIsExp] using hc
  unfold digiExpMore at h
  dsimp only at h
  rw [show (c :: t).drop 1 = t from rfl] at h
  -- the bytes behind the sign
  obtain ⟨sgn, u, htu, hsgn, hu, hneg⟩ : ∃ (sgn : Option UInt8) (u : Bytes), t = sgn.toList ++ u ∧
      (∀ d ∈ sgn, d = 0x2B ∨ d = 0x2D) ∧
      (if charIsSign (peek t 0) then t.drop 1 else t) = u ∧
      ((peek t 0 == 0x2D) = true ↔ sgn = some 0x2D) := by
    by_cases hs : charIsSign (peek t 0) = true
    · obtain ⟨d, u, rfl, hd⟩ := peek_eq_head (by decide) hs
      refine ⟨some d, u, rfl, ?_, if_pos hs, ?_⟩
      · rintro e he
        obtain rfl := Option.some.inj he
        simpa [charIsSign] using hd
      · rw [peek_cons, beq_iff_eq, Option.some.injEq]
    · refine ⟨none, t, rfl, fun d hd => (by cases hd), if_neg hs, iff_of_false (fun heq => hs ?_)
        (by simp)⟩
      rw [beq_iff_eq.1 heq]
      decide
  rw [hu] at h
  by_cases hdigit : charIsDigit (peek u 0) = true
  swap
  · rw [if_pos (by simpa using hdigit)] at h
    cases h
  rw [if_neg (by simp [hdigit])] at h
  obtain ⟨ds, rest', hspan, rfl, hds, hrest⟩ := exists_span_digits u
  rw [hspan] at h
  obtain ⟨m, hm, heq⟩ := Option.map_eq_some_iff.1 h
  obtain ⟨rfl, rfl⟩ := Prod.mk.inj heq
  refine ⟨⟨c, sgn, ds, hletter, hsgn, hds, ne_nil_of_peek hdigit rfl hrest⟩, ?_, ?_⟩
  · rw [htu, Exponent.text, List.cons_append, List.append_assoc]
  · rw [← hm, Exponent.value]
    congr 1
    by_cases hs : sgn = some 0x2D
    · rw [if_pos hs, if_pos (hneg.2 hs)]
    · rw [if_neg hs, if_neg fun htrue => hs (hneg.1 htrue)]

theorem digiExpMore_complete (e : Exponent)
    (hrest : ∀ c ∈ rest.head?, Decimal.isDigit c = false) :
    digiExpMore double sign intg frac (e.text ++ rest) =
      (digiFinish double sign intg frac e.value).map (·, rest) := by
  obtain ⟨d, ds, hds⟩ := List.exists_cons_of_ne_nil e.ne_nil
  have hd : Decimal.isDigit d = true := e.isDigit d (by simp [hds])
  have hsign : charIsSign d = false := by
    simp only [charIsSign, Bool.or_eq_false_iff, beq_eq_false_iff_ne]
    exact ⟨Json.digit_ne hd (by decide), Json.digit_ne hd (by decide)⟩
  have hminus : (d == 0x2D) = false := beq_false_of_ne (Json.digit_ne hd (by decide))
  have hspan := span_digits e.isDigit hrest
  unfold digiExpMore
  dsimp only
  rw [show (e.text ++ rest).drop 1 = e.sign.toList ++ (e.digits ++ rest) by
    rw [Exponent.text, List.cons_append, List.drop_succ_cons, List.drop_zero, List.append_assoc]]
  cases hs : e.sign with
  | none =>
      have hpeek : peek (e.digits ++ rest) 0 = d := by rw [hds]; rfl
      rw [show (none : Option UInt8).toList ++ (e.digits ++ rest) = e.digits ++ rest from rfl,
        hpeek,
        hsign, if_neg Bool.false_ne_true, hpeek, hminus, if_neg (by simp [hd]), hspan,
        Exponent.value, hs]
      rfl
  | some c =>
      have hpeek : peek (e.digits ++ rest) 0 = d := by rw [hds]; rfl
      have hc : charIsSign c = true := by
        rcases e.sign_eq c hs with rfl | rfl <;> decide
      rw [show (some c).toList ++ (e.digits ++ rest) = c :: (e.digits ++ rest) from rfl, peek_cons,
        if_pos hc, show (c :: (e.digits ++ rest)).drop 1 = e.digits ++ rest from rfl, hpeek,
        if_neg (by simp [hd]), hspan, Exponent.value, hs]
      by_cases hminus' : c = 0x2D
      · subst hminus'
        rfl
      · rw [if_neg fun h => hminus' (Option.some.inj h), beq_false_of_ne hminus']
        rfl

/-- What stands behind the fraction, or behind the integral part. -/
theorem digiFrac_sound (h : digiFrac double sign intg cur = some (n, rest)) :
    ∃ (ds : Bytes) (e : Option Exponent), (∀ c ∈ ds, Decimal.isDigit c = true) ∧ ds ≠ [] ∧
      cur = ds ++ e.elim [] Exponent.text ++ rest ∧
      digiFinish double sign intg ds (e.elim 0 Exponent.value) = some n := by
  unfold digiFrac at h
  by_cases hdigit : charIsDigit (peek cur 0) = true
  swap
  · rw [if_pos (by simpa using hdigit)] at h
    cases h
  rw [if_neg (by simp [hdigit])] at h
  obtain ⟨ds, tail, hspan, hcur, hds, htail⟩ := exists_span_digits cur
  have hne := ne_nil_of_peek hdigit hcur htail
  rw [hspan] at h
  dsimp only at h
  split_ifs at h with hexp
  · obtain ⟨e, rfl, he⟩ := digiExpMore_sound double hexp h
    exact ⟨ds, some e, hds, hne, by rw [hcur, List.append_assoc]; rfl, he⟩
  · obtain ⟨m, hm, heq⟩ := Option.map_eq_some_iff.1 h
    obtain ⟨rfl, rfl⟩ := Prod.mk.inj heq
    exact ⟨ds, none, hds, hne, by rw [hcur]; exact (congrArg (· ++ _) (List.append_nil _)).symm, hm⟩

/-- What follows is no part of a numeral. -/
theorem head_not_num {p : UInt8 → Bool} (hp : p 0 = false)
    (himp : ∀ c, p c = true → Json.isNumChar c = true)
    (hrest : ∀ c ∈ rest.head?, Json.isNumChar c = false) : p (peek rest 0) = false := by
  refine peek_of_head hp fun c hc => ?_
  cases hpc : p c with
  | false => rfl
  | true => exact absurd (himp c hpc) (by simp [hrest c hc])

theorem charIsDigit_imp (c : UInt8) (h : charIsDigit c = true) : Json.isNumChar c = true := by
  simp [Json.isNumChar, h]

theorem charIsExp_imp (c : UInt8) (h : charIsExp c = true) : Json.isNumChar c = true := by
  rcases (by simpa [charIsExp] using h : c = 0x65 ∨ c = 0x45) with rfl | rfl <;> decide

theorem charIsFp_imp (c : UInt8) (h : charIsFp c = true) : Json.isNumChar c = true := by
  rcases Bool.or_eq_true .. ▸ h with hdot | hexp
  · obtain rfl := beq_iff_eq.1 hdot
    decide
  · exact charIsExp_imp c hexp

theorem charIsDigitOrFp_imp (c : UInt8) (h : charIsDigitOrFp c = true) :
    Json.isNumChar c = true :=
  (Bool.or_eq_true .. ▸ h).elim (charIsDigit_imp c) (charIsFp_imp c)

/-- An exponent, or nothing. -/
theorem exponent_head {e : Option Exponent} (hrest : ∀ c ∈ rest.head?, Json.isNumChar c = false) :
    (∀ c ∈ (e.elim [] Exponent.text ++ rest).head?, Decimal.isDigit c = false ∧ c ≠ 0x2E) ∧
      (charIsExp (peek (e.elim [] Exponent.text ++ rest) 0) = e.isSome) := by
  cases e with
  | none =>
      refine ⟨fun c hc => ⟨?_, ?_⟩, head_not_num (by decide) charIsExp_imp hrest⟩
      · have hnum := hrest c hc
        simp only [Json.isNumChar, Bool.or_eq_false_iff] at hnum
        exact hnum.1.1.1
      · rintro rfl
        exact absurd (hrest _ hc) (by decide)
  | some e =>
      have hletter : Decimal.isDigit e.letter = false ∧ e.letter ≠ 0x2E ∧
          charIsExp e.letter = true := by
        rcases e.letter_eq with h | h <;> rw [h] <;> decide
      refine ⟨fun c hc => ?_, hletter.2.2⟩
      obtain rfl : e.letter = c := Option.some.inj hc
      exact ⟨hletter.1, hletter.2.1⟩

theorem digiFrac_complete {ds : Bytes} (e : Option Exponent)
    (hds : ∀ c ∈ ds, Decimal.isDigit c = true) (hne : ds ≠ [])
    (hrest : ∀ c ∈ rest.head?, Json.isNumChar c = false) :
    digiFrac double sign intg (ds ++ e.elim [] Exponent.text ++ rest) =
      (digiFinish double sign intg ds (e.elim 0 Exponent.value)).map (·, rest) := by
  obtain ⟨hhead, hexp⟩ := exponent_head (e := e) hrest
  obtain ⟨d, ds', rfl⟩ := List.exists_cons_of_ne_nil hne
  have hspan := span_digits hds fun c hc => (hhead c hc).1
  have hd : charIsDigit d = true := hds d (by simp)
  unfold digiFrac
  rw [List.append_assoc, hspan, show peek (d :: ds' ++ _) 0 = d from rfl,
    if_neg (by simp [hd])]
  dsimp only
  cases e with
  | none =>
      rw [if_neg (by rw [hexp]; exact Bool.false_ne_true)]
      rfl
  | some e =>
      rw [if_pos (show charIsExp _ = true from hexp)]
      exact digiExpMore_complete double e fun c hc => by
        have hnum := hrest c hc
        simp only [Json.isNumChar, Bool.or_eq_false_iff] at hnum
        exact hnum.1.1.1

/-! ## The integral part -/

/-- What was read, as a numeral with this sign. -/
def Reads (sign : Bool) (cur : Bytes) (n : YyjsonNum F) (rest : Bytes) : Prop :=
  ∃ l : Numeral, l.neg = sign ∧
    cur = l.int ++ (l.frac.elim [] fun ds => 0x2E :: ds) ++ l.exp.elim [] Exponent.text ++ rest ∧
    numeralValue double l = some n

/-- An integral part, and what `digi_finish` makes of it. -/
theorem reads_of_digiFinish {f : Option Bytes} {e : Option Exponent}
    (hint : ∀ c ∈ intg, Decimal.isDigit c = true) (hne : intg ≠ [])
    (hlead : intg.head? = some 0x30 → intg = [0x30])
    (hf : ∀ ds ∈ f, (∀ c ∈ ds, Decimal.isDigit c = true) ∧ ds ≠ [])
    (hsome : f.isSome = true ∨ e.isSome = true)
    (hcur : cur = intg ++ (f.elim [] fun ds => 0x2E :: ds) ++ e.elim [] Exponent.text ++ rest)
    (h : digiFinish double sign intg (f.getD []) (e.elim 0 Exponent.value) = some n) :
    Reads double sign cur n rest := by
  refine ⟨⟨sign, intg, f, e, hint, hne, hlead, fun ds hds => (hf ds hds).1,
    fun ds hds => (hf ds hds).2⟩, rfl, hcur, ?_⟩
  rw [← digiFinish_eq]
  · exact h
  · rintro ⟨hisInt, -⟩
    obtain ⟨rfl, rfl⟩ := isInt_iff.1 hisInt
    rcases hsome with hs | hs <;> cases hs

theorem readNonzero_sound (hcur : charIsNonzero (peek cur 0) = true)
    (h : readNonzero double sign cur = some (n, rest)) : Reads double sign cur n rest := by
  obtain ⟨hdigit, hzero⟩ := Bool.and_eq_true_iff.1 hcur
  obtain ⟨ds, tail, hspan, rfl, hds, htail⟩ := exists_span_digits cur
  have hne := ne_nil_of_peek hdigit rfl htail
  have hlead : ds.head? ≠ some 0x30 := by
    intro hhead
    cases ds with
    | nil => exact hne rfl
    | cons d ds =>
        obtain rfl := Option.some.inj hhead
        rw [List.cons_append, peek_cons] at hzero
        exact absurd hzero (by decide)
  unfold readNonzero at h
  rw [hspan] at h
  dsimp only at h
  split_ifs at h with hfp hdot
  · obtain ⟨m, hm, heq⟩ := Option.map_eq_some_iff.1 h
    obtain ⟨rfl, rfl⟩ := Prod.mk.inj heq
    refine ⟨⟨sign, ds, none, none, hds, hne, fun hhead => absurd hhead hlead,
      fun _ hx => (by cases hx), fun _ hx => (by cases hx)⟩, rfl, by simp, ?_⟩
    rw [← hm, ← returnIntg_eq double rfl hlead]
  · obtain ⟨c, t, rfl, hc⟩ := peek_eq_head (p := (· == 0x2E)) (by decide) (beq_iff_eq.2 hdot)
    obtain rfl := beq_iff_eq.1 hc
    obtain ⟨fs, e, hfs, hfne, htext, hval⟩ := digiFrac_sound double h
    refine reads_of_digiFinish (f := some fs) (e := e) double hds hne
      (fun hhead => absurd hhead hlead) ?_ (.inl rfl) ?_ hval
    · rintro _ hx
      obtain rfl := Option.some.inj hx
      exact ⟨hfs, hfne⟩
    · rw [show (0x2E :: t).drop 1 = t from rfl] at htext
      simp [htext]
  · rw [Bool.not_eq_true', Bool.not_eq_false, charIsFp, Bool.or_eq_true, beq_iff_eq] at hfp
    obtain ⟨e, htext, hval⟩ := digiExpMore_sound double (hfp.resolve_left hdot) h
    refine reads_of_digiFinish (f := none) (e := some e) double hds hne
      (fun hhead => absurd hhead hlead) (fun _ hx => (by cases hx)) (.inr rfl) ?_ hval
    simp [htext]

theorem digiFinish_zero {frac : Bytes} {exp : Int} (h : ∀ c ∈ frac, c = 0x30) :
    digiFinish double sign [0x30] frac exp = some (.real (double.zero sign)) := by
  have hvalue : Decimal.value ([0x30] ++ frac) = 0 := Decimal.value_zeros fun c hc => by
    rcases List.mem_append.1 hc with hc | hc
    · exact List.mem_singleton.1 hc
    · exact h c hc
  rw [digiFinish, hvalue, Nat.cast_zero, zero_mul, double.ofDecimal_zero]
  rfl

/-- The value is zero with any exponent. -/
theorem readZeroExp_eq {frac : Bytes} (hfrac : ∀ c ∈ frac, c = 0x30)
    (hcur : charIsDigit (peek cur 0) = false) :
    readZeroExp double sign cur =
      if charIsExp (peek cur 0) then digiExpMore double sign [0x30] frac cur
      else some (.real (double.zero sign), cur) := by
  have hpeek : peek (cur.drop 1) 0 = peek cur 1 := by
    rw [peek, peek, List.getD_eq_getElem?_getD, List.getElem?_drop, ← List.getD_eq_getElem?_getD]
  have hdrop : (cur.drop 1).drop 1 = cur.drop 2 := by rw [List.drop_drop]
  unfold readZeroExp digiExpMore
  dsimp only
  rw [if_neg (by simp [hcur]), hpeek, hdrop]
  generalize (if charIsSign (peek cur 1) = true then cur.drop 2 else cur.drop 1) = cur'
  rw [List.span_eq_takeWhile_dropWhile charIsDigit]
  dsimp only
  rw [digiFinish_zero double hfrac]
  rfl

theorem isDigit_zero : ∀ c ∈ [(0x30 : UInt8)], Decimal.isDigit c = true := by
  intro c hc
  rw [List.mem_singleton.1 hc]
  rfl

theorem readZeroExp_sound {f : Option Bytes} {tail : Bytes}
    (hf : ∀ ds ∈ f, (∀ c ∈ ds, c = 0x30) ∧ ds ≠ [])
    (hcur : cur = (f.elim [] fun ds => 0x2E :: ds) ++ tail)
    (h : readZeroExp double sign tail = some (n, rest))
    (hsome : f.isSome = true ∨ charIsExp (peek tail 0) = true) :
    Reads double sign (0x30 :: cur) n rest := by
  have hdigits : ∀ ds ∈ f, (∀ c ∈ ds, Decimal.isDigit c = true) ∧ ds ≠ [] := by
    intro ds hds
    refine ⟨fun c hc => ?_, (hf ds hds).2⟩
    rw [(hf ds hds).1 c hc]
    decide
  have hfrac : ∀ c ∈ f.getD [], c = 0x30 := by
    cases f with
    | none => intro c hc; cases hc
    | some ds => exact (hf ds rfl).1
  have hnot : charIsDigit (peek tail 0) = false := by
    cases hd : charIsDigit (peek tail 0) with
    | false => rfl
    | true =>
        rw [readZeroExp, if_pos hd] at h
        cases h
  rw [readZeroExp_eq double hfrac hnot] at h
  split_ifs at h with he
  · obtain ⟨e, htail, hval⟩ := digiExpMore_sound double he h
    refine reads_of_digiFinish (f := f) (e := some e) double isDigit_zero (by decide)
      (fun _ => rfl) hdigits (.inr rfl) ?_ hval
    rw [hcur, htail]
    simp
  · obtain ⟨rfl, rfl⟩ := Prod.mk.inj (Option.some.inj h)
    refine reads_of_digiFinish (f := f) (e := none) double isDigit_zero (by decide)
      (fun _ => rfl) hdigits (hsome.imp_right fun hs => absurd hs he) ?_
      (digiFinish_zero double hfrac)
    rw [hcur]
    simp

theorem readZero_sound (h : readZero double sign cur = some (n, rest)) :
    Reads double sign (0x30 :: cur) n rest := by
  unfold readZero at h
  by_cases hfp : charIsDigitOrFp (peek cur 0) = true
  swap
  · -- zero itself
    rw [if_pos (by simpa using hfp)] at h
    obtain ⟨rfl, rfl⟩ := Prod.mk.inj (Option.some.inj h)
    refine ⟨⟨sign, [0x30], none, none, isDigit_zero, by decide, fun _ => rfl,
      fun _ hx => (by cases hx), fun _ hx => (by cases hx)⟩, rfl, rfl, ?_⟩
    rw [← returnI64_eq double rfl (by cases sign <;> exact (by decide : (-2 ^ 63 : Int) ≤ 0))
      (by cases sign <;> exact (by decide : (0 : Int) < 2 ^ 64))]
    rfl
  rw [if_neg (by simp [hfp])] at h
  split_ifs at h with hdot
  · obtain ⟨c, t, rfl, hc⟩ := peek_eq_head (p := (· == 0x2E)) (by decide) (beq_iff_eq.2 hdot)
    obtain rfl := beq_iff_eq.1 hc
    rw [show (0x2E :: t).drop 1 = t from rfl] at h
    dsimp only at h
    by_cases hdigit : charIsDigit (peek t 0) = true
    swap
    · rw [if_pos (by simpa using hdigit)] at h
      cases h
    rw [if_neg (by simp [hdigit])] at h
    split_ifs at h with hmore
    · obtain ⟨fs, e, hfs, hfne, htext, hval⟩ := digiFrac_sound double h
      refine reads_of_digiFinish (f := some fs) (e := e) double isDigit_zero (by decide)
        (fun _ => rfl) ?_ (.inl rfl) ?_ hval
      · rintro _ hx
        obtain rfl := Option.some.inj hx
        exact ⟨hfs, hfne⟩
      · simp [htext]
    · refine readZeroExp_sound (f := some (t.takeWhile (· == 0x30))) double ?_ ?_ h (.inl rfl)
      · rintro _ hx
        obtain rfl := Option.some.inj hx
        refine ⟨fun c hc => ?_, fun hnil => hmore ?_⟩
        · have hc' : (c == 0x30) = true := List.mem_takeWhile_imp (p := (· == 0x30)) hc
          exact beq_iff_eq.1 hc'
        · have hall : t.dropWhile (· == 0x30) = t := by
            conv_rhs => rw [← List.takeWhile_append_dropWhile (p := (· == 0x30)) (l := t), hnil]
            rfl
          rw [hall]
          exact hdigit
      · rw [Option.elim_some, List.cons_append, List.takeWhile_append_dropWhile]
  · refine readZeroExp_sound (f := none) double (fun _ hx => (by cases hx)) rfl h (.inr ?_)
    cases hd : charIsDigit (peek cur 0) with
    | true =>
        rw [readZeroExp, if_pos hd] at h
        cases h
    | false =>
        rw [charIsDigitOrFp, hd, Bool.false_or, charIsFp, Bool.or_eq_true, beq_iff_eq] at hfp
        exact hfp.resolve_left hdot

/-- **What `read_num` takes away is a numeral**, and the number is its value. -/
theorem readNum_sound (h : readNum double cur = some (n, rest)) :
    ∃ l : Numeral, cur = l.text ++ rest ∧ numeralValue double l = some n := by
  have hreads : ∀ (sign : Bool) {tail : Bytes}, cur = (if sign then [0x2D] else []) ++ tail →
      Reads double sign tail n rest →
        ∃ l : Numeral, cur = l.text ++ rest ∧ numeralValue double l = some n := by
    rintro sign tail hcur ⟨l, rfl, htail, hval⟩
    refine ⟨l, ?_, hval⟩
    rw [hcur, htail, Numeral.text]
    simp only [List.append_assoc]
  have hbody : ∀ {sign : Bool} {tail : Bytes},
      (if !charIsNonzero (peek tail 0) then
        if peek tail 0 ≠ 0x30 then none else readZero double sign (tail.drop 1)
      else readNonzero double sign tail) = some (n, rest) → Reads double sign tail n rest := by
    intro sign tail h
    split_ifs at h with hnonzero hzero
    · obtain ⟨c, t, rfl, hc⟩ := peek_eq_head (p := (· == 0x30)) (by decide)
        (beq_iff_eq.2 (not_not.1 hzero))
      obtain rfl := beq_iff_eq.1 hc
      exact readZero_sound double h
    · exact readNonzero_sound double (by simpa using hnonzero) h
  unfold readNum at h
  dsimp only at h
  cases hsign : (peek cur 0 == 0x2D) with
  | true =>
      obtain ⟨c, t, rfl, hc⟩ := peek_eq_head (p := (· == 0x2D)) (by decide) hsign
      obtain rfl := beq_iff_eq.1 hc
      rw [hsign, if_pos rfl] at h
      exact hreads true rfl (hbody h)
  | false =>
      rw [hsign, if_neg Bool.false_ne_true] at h
      exact hreads false rfl (hbody h)

/-! ## Every numeral is read -/

theorem digit_of_not_num (hrest : ∀ c ∈ rest.head?, Json.isNumChar c = false) :
    ∀ c ∈ rest.head?, Decimal.isDigit c = false := by
  intro c hc
  have hnum := hrest c hc
  simp only [Json.isNumChar, Bool.or_eq_false_iff] at hnum
  exact hnum.1.1.1

theorem digiFinish_frac {l : Numeral} {ds : Bytes} (hfrac : l.frac = some ds) :
    digiFinish double l.neg l.int ds (l.exp.elim 0 Exponent.value) = numeralValue double l := by
  have heq := digiFinish_eq double l fun h => by
    have hnone := (isInt_iff.1 h.1).1
    rw [hfrac] at hnone
    cases hnone
  rw [hfrac] at heq
  exact heq

theorem digiFinish_exp {l : Numeral} {e : Exponent} (hfrac : l.frac = none)
    (hexp : l.exp = some e) : digiFinish double l.neg l.int [] e.value = numeralValue double l := by
  have heq := digiFinish_eq double l fun h => by
    have hnone := (isInt_iff.1 h.1).2
    rw [hexp] at hnone
    cases hnone
  rw [hfrac, hexp] at heq
  exact heq

theorem charIsExp_letter (e : Exponent) (u : Bytes) : charIsExp (peek (e.text ++ u) 0) = true := by
  rw [Exponent.text, List.cons_append, peek_cons]
  rcases e.letter_eq with h | h <;> rw [h] <;> decide

theorem letter_head (e : Exponent) (u : Bytes) :
    ∀ c ∈ (e.text ++ u).head?, Decimal.isDigit c = false := by
  intro c hc
  obtain rfl : e.letter = c := Option.some.inj hc
  rcases e.letter_eq with h | h <;> rw [h] <;> decide

theorem not_dot {c : UInt8} (h : charIsExp c = true) : c ≠ 0x2E := by
  rintro rfl
  cases h

theorem readNonzero_complete (l : Numeral) (hlead : l.int.head? ≠ some 0x30)
    (hrest : ∀ c ∈ rest.head?, Json.isNumChar c = false) :
    readNonzero double l.neg
        (l.int ++
          ((l.frac.elim [] fun ds => 0x2E :: ds) ++ (l.exp.elim [] Exponent.text ++ rest))) =
      (numeralValue double l).map (·, rest) := by
  unfold readNonzero
  cases hfrac : l.frac with
  | some ds =>
      have hdot : ∀ c ∈ (0x2E :: (ds ++ l.exp.elim [] Exponent.text ++ rest)).head?,
          Decimal.isDigit c = false := by
        intro c hc
        obtain rfl := Option.some.inj hc
        decide
      rw [Option.elim_some, List.cons_append, ← List.append_assoc, span_digits l.int_isDigit hdot]
      dsimp only
      rw [peek_cons, if_neg (by decide), if_pos rfl]
      exact (digiFrac_complete double l.exp (l.frac_isDigit ds hfrac) (l.frac_ne_nil ds hfrac)
        hrest).trans (congrArg _ (digiFinish_frac double hfrac))
  | none =>
      rw [Option.elim_none, List.nil_append]
      cases hexp : l.exp with
      | some e =>
          have hletter := charIsExp_letter e rest
          rw [Option.elim_some, span_digits l.int_isDigit (letter_head e rest)]
          dsimp only
          rw [if_neg (by simp [charIsFp, hletter]), if_neg (not_dot hletter)]
          exact (digiExpMore_complete double e (digit_of_not_num hrest)).trans
            (congrArg _ (digiFinish_exp double hfrac hexp))
      | none =>
          have hfp := head_not_num (by decide) charIsFp_imp hrest
          rw [Option.elim_none, List.nil_append, span_digits l.int_isDigit (digit_of_not_num hrest)]
          dsimp only
          rw [if_pos (by simp [hfp]), returnIntg_eq double (isInt_iff.2 ⟨hfrac, hexp⟩) hlead]

theorem readZeroExp_complete {l : Numeral} {frac : Bytes} (hint : l.int = [0x30])
    (hfrac : ∀ c ∈ frac, c = 0x30)
    (hval : digiFinish double l.neg l.int frac (l.exp.elim 0 Exponent.value) =
      numeralValue double l)
    (hrest : ∀ c ∈ rest.head?, Json.isNumChar c = false) :
    readZeroExp double l.neg (l.exp.elim [] Exponent.text ++ rest) =
      (numeralValue double l).map (·, rest) := by
  obtain ⟨hhead, hexp⟩ := exponent_head (e := l.exp) hrest
  rw [← hval, hint, readZeroExp_eq double hfrac
    (peek_of_head (by decide) fun c hc => (hhead c hc).1), hexp]
  cases l.exp with
  | none =>
      rw [digiFinish_zero double hfrac]
      rfl
  | some e => exact digiExpMore_complete double e (digit_of_not_num hrest)

/-- Zeros in front of something else. -/
theorem dropWhile_zeros {zs : Bytes} (hzs : ∀ c ∈ zs, c = 0x30)
    (hrest : ∀ c ∈ rest.head?, Decimal.isDigit c = false) :
    (zs ++ rest).dropWhile (· == 0x30) = rest := by
  rw [List.dropWhile_append_of_pos fun c hc => beq_iff_eq.2 (hzs c hc)]
  cases rest with
  | nil => rfl
  | cons c t =>
      refine List.dropWhile_cons_of_neg fun hc => ?_
      rw [beq_iff_eq.1 hc] at hrest
      exact absurd (hrest _ rfl) (by decide)

theorem readZero_complete (l : Numeral) (hint : l.int = [0x30])
    (hrest : ∀ c ∈ rest.head?, Json.isNumChar c = false) :
    readZero double l.neg
        ((l.frac.elim [] fun ds => 0x2E :: ds) ++ (l.exp.elim [] Exponent.text ++ rest)) =
      (numeralValue double l).map (·, rest) := by
  unfold readZero
  cases hfrac : l.frac with
  | some ds =>
      have hds := l.frac_isDigit ds hfrac
      have hhead := (exponent_head (e := l.exp) hrest).1
      rw [Option.elim_some, List.cons_append, peek_cons, if_neg (by decide), if_pos rfl,
        show (0x2E :: (ds ++ (l.exp.elim [] Exponent.text ++ rest))).drop 1 =
          ds ++ (l.exp.elim [] Exponent.text ++ rest) from rfl]
      dsimp only
      obtain ⟨d, ds', rfl⟩ := List.exists_cons_of_ne_nil (l.frac_ne_nil ds hfrac)
      rw [if_neg (by rw [List.cons_append, peek_cons]; simp [hds d (by simp)])]
      split_ifs with hmore
      · rw [← List.append_assoc, ← hint, digiFrac_complete double l.exp hds (by simp) hrest,
          digiFinish_frac double hfrac]
      · -- no digit is left behind the zeros
        have hzeros : ∀ c ∈ d :: ds', c = 0x30 := by
          cases hdrop : (d :: ds').dropWhile (· == 0x30) with
          | nil => exact fun c hc => beq_iff_eq.1 (List.dropWhile_eq_nil_iff.1 hdrop c hc)
          | cons c t =>
              rw [List.dropWhile_append, hdrop, List.isEmpty_cons, if_neg Bool.false_ne_true,
                List.cons_append, peek_cons] at hmore
              have hmem : c ∈ (d :: ds').dropWhile (· == 0x30) := by rw [hdrop]; simp
              exact absurd (hds c ((List.dropWhile_sublist _).subset hmem)) hmore
        rw [dropWhile_zeros hzeros fun c hc => (hhead c hc).1]
        exact readZeroExp_complete double hint hzeros (digiFinish_frac double hfrac) hrest
  | none =>
      rw [Option.elim_none, List.nil_append]
      cases hexp : l.exp with
      | some e =>
          have hletter := charIsExp_letter e rest
          rw [Option.elim_some, if_neg (by simp [charIsDigitOrFp, charIsFp, hletter]),
            if_neg (not_dot hletter)]
          have hexp' := readZeroExp_complete double hint (List.forall_mem_nil _)
            (by rw [hexp]; exact digiFinish_exp double hfrac hexp) hrest
          rw [hexp] at hexp'
          exact hexp'
      | none =>
          have hfp := head_not_num (by decide) charIsDigitOrFp_imp hrest
          rw [Option.elim_none, List.nil_append, if_pos (by simp [hfp])]
          have hvalue : intValue l = 0 := by
            rw [intValue, hint]
            cases l.neg <;> rfl
          rw [← returnI64_eq double (isInt_iff.2 ⟨hfrac, hexp⟩) (by omega) (by omega), hint]
          rfl

/-- **Every numeral with a value is read**, up to the first byte that belongs to none. -/
theorem readNum_complete {l : Numeral} (hval : numeralValue double l = some n)
    (hrest : ∀ c ∈ rest.head?, Json.isNumChar c = false) :
    readNum double (l.text ++ rest) = some (n, rest) := by
  have hbody : ∀ tail, tail = l.int ++ ((l.frac.elim [] fun ds => 0x2E :: ds) ++
      (l.exp.elim [] Exponent.text ++ rest)) →
        (if !charIsNonzero (peek tail 0) then
          if peek tail 0 ≠ 0x30 then none else readZero double l.neg (tail.drop 1)
        else readNonzero double l.neg tail) = some (n, rest) ∧ peek tail 0 ≠ 0x2D := by
    rintro tail rfl
    obtain ⟨d, ds, hds⟩ := List.exists_cons_of_ne_nil l.int_ne_nil
    have hd : Decimal.isDigit d = true := l.int_isDigit d (by simp [hds])
    have hpeek : ∀ u, peek (l.int ++ u) 0 = d := fun u => by rw [hds]; rfl
    rw [hpeek]
    refine ⟨?_, Json.digit_ne hd (by decide)⟩
    by_cases hzero : d = 0x30
    · have hint : l.int = [0x30] := l.int_leading (by rw [hds, hzero]; rfl)
      rw [if_pos (by simp [charIsNonzero, hzero]), if_neg (not_not.2 hzero), hint,
        List.singleton_append, List.drop_succ_cons, List.drop_zero,
        readZero_complete double l hint hrest, hval]
      rfl
    · have hlead : l.int.head? ≠ some 0x30 := by
        rw [hds]
        exact fun h => hzero (Option.some.inj h)
      rw [if_neg (by simp [charIsNonzero, hd, hzero]), readNonzero_complete double l hlead hrest,
        hval]
      rfl
  obtain ⟨hread, hminus⟩ := hbody _ rfl
  have htext : l.text ++ rest = (if l.neg then [0x2D] else []) ++
      (l.int ++ ((l.frac.elim [] fun ds => 0x2E :: ds) ++
        (l.exp.elim [] Exponent.text ++ rest))) := by
    simp only [Numeral.text, List.append_assoc]
  rw [htext]
  unfold readNum
  dsimp only
  cases hneg : l.neg with
  | true =>
      rw [hneg] at hread
      exact hread
  | false =>
      rw [hneg] at hread
      rw [if_neg Bool.false_ne_true, List.nil_append, beq_false_of_ne hminus,
        if_neg Bool.false_ne_true]
      exact hread

end

end ServerBase.Yyjson
