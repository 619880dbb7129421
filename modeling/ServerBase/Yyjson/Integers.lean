import ServerBase.Yyjson.Scalars

/-!
# The integers that are written

**Division** (`mulShift64_tenThousand` and the two others). Each product and shift is the division
it stands for, over the whole range in which it is used.

**The result** (`writeU64_eq`). `write_u64` prints the decimal digits of every 64-bit number.
-/

namespace ServerBase.Yyjson

open Decimal (digits fixed)

/-! ## Division by multiplication -/

/-- The product is the quotient and a rest that the shift drops. -/
theorem div_of_mul {val q r mul d shift : Nat} (hval : val = d * q + r)
    (hlow : q * 2 ^ shift ≤ val * mul) (hhigh : val * mul < (q + 1) * 2 ^ shift) (hr : r < d) :
    (val * mul) >>> shift = val / d := by
  have hd : val / d = q := by
    rw [hval, Nat.mul_add_div (Nat.zero_lt_of_lt hr), Nat.div_eq_of_lt hr, Nat.add_zero]
  rw [hd, Nat.shiftRight_eq_div_pow]
  exact Nat.div_eq_of_lt_le hlow hhigh

theorem mulShift64_tenThousand {val : Nat} (h : val < 100000000) :
    mulShift64 val 109951163 40 = val / 10000 := by
  have hval := (Nat.div_add_mod val 10000).symm
  have hr : val % 10000 < 10000 := Nat.mod_lt _ (by decide)
  have hprod : val * 109951163 < 2 ^ 64 := by omega
  rw [mulShift64, Nat.mod_eq_of_lt hprod, div_of_mul hval (by omega) (by omega) hr]
  omega

theorem mulShift64_short {val : Nat} (h : val < 1000000) :
    mulShift64 val 429497 32 = val / 10000 := by
  have hval := (Nat.div_add_mod val 10000).symm
  have hr : val % 10000 < 10000 := Nat.mod_lt _ (by decide)
  have hprod : val * 429497 < 2 ^ 64 := by omega
  rw [mulShift64, Nat.mod_eq_of_lt hprod, div_of_mul hval (by omega) (by omega) hr]
  omega

theorem mulShift32_hundred {val : Nat} (h : val < 10000) : mulShift32 val 5243 19 = val / 100 := by
  have hval := (Nat.div_add_mod val 100).symm
  have hr : val % 100 < 100 := Nat.mod_lt _ (by decide)
  rw [mulShift32, Nat.mod_eq_of_lt (by omega), div_of_mul hval (by omega) (by omega) hr]

/-! ## Two digits at a time -/

theorem digitTable_eq {k : Nat} (h : k < 100) : digitTable k = fixed 2 k := by
  have hlow : k / 10 < 10 := by omega
  simp only [digitTable, fixed, Decimal.lastDigit, Nat.mod_eq_of_lt hlow, List.nil_append,
    List.singleton_append]

/-- Without the leading zero the digits of the number itself are left. -/
theorem drop_digitTable {k : Nat} (h : k < 100) :
    (digitTable k).drop (if k < 10 then 1 else 0) = digits k := by
  rw [digitTable_eq h]
  split_ifs with hsmall
  · rw [Decimal.digits_of_lt hsmall]
    rfl
  · rw [Decimal.digits_of_le (Nat.not_lt.1 hsmall), Decimal.digits_of_lt (by omega)]
    have hlow : k / 10 < 10 := by omega
    simp [fixed]

theorem writeU32Len4_eq {val : Nat} (h : val < 10000) : writeU32Len4 val = fixed 4 val := by
  have hsplit : fixed 4 val = fixed 2 (val / 100) ++ fixed 2 (val % 100) :=
    Decimal.fixed_div_mod 2 2 val
  have hrest : val - val / 100 * 100 = val % 100 := by omega
  unfold writeU32Len4
  dsimp only
  rw [mulShift32_hundred h, hrest, digitTable_eq (by omega), digitTable_eq (by omega), hsplit]

theorem writeU32Len8_eq {val : Nat} (h : val < 100000000) : writeU32Len8 val = fixed 8 val := by
  have hsplit : fixed 8 val = fixed 4 (val / 10000) ++ fixed 4 (val % 10000) :=
    Decimal.fixed_div_mod 4 4 val
  have hrest : val - val / 10000 * 10000 = val % 10000 := by omega
  unfold writeU32Len8
  dsimp only
  rw [mulShift64_tenThousand h, hrest, hsplit, ← writeU32Len4_eq (by omega),
    ← writeU32Len4_eq (by omega), writeU32Len4, writeU32Len4, List.append_assoc]

/-! ## Numbers of varying width -/

theorem six_digits {val : Nat} (hlow : 10000 ≤ val) (h : val < 1000000) :
    (digitTable (val / 10000)).drop (if val / 10000 < 10 then 1 else 0) ++
        digitTable (mulShift32 (val - val / 10000 * 10000) 5243 19) ++
        digitTable (val - val / 10000 * 10000 -
          mulShift32 (val - val / 10000 * 10000) 5243 19 * 100) = digits val := by
  have hsplit : digits val = digits (val / 10000) ++ fixed 4 (val % 10000) :=
    Decimal.digits_div_mod (k := 4) hlow
  have hrest : val - val / 10000 * 10000 = val % 10000 := by omega
  rw [hsplit, ← writeU32Len4_eq (by omega), hrest, drop_digitTable (by omega), writeU32Len4,
    List.append_assoc]

theorem eight_digits {val : Nat} (hlow : 1000000 ≤ val) (h : val < 100000000) :
    (digitTable (mulShift32 (val / 10000) 5243 19)).drop
          (if mulShift32 (val / 10000) 5243 19 < 10 then 1 else 0) ++
        digitTable (val / 10000 - mulShift32 (val / 10000) 5243 19 * 100) ++
        digitTable (mulShift32 (val - val / 10000 * 10000) 5243 19) ++
        digitTable (val - val / 10000 * 10000 -
          mulShift32 (val - val / 10000 * 10000) 5243 19 * 100) = digits val := by
  have hsplit : digits val = digits (val / 10000) ++ fixed 4 (val % 10000) :=
    Decimal.digits_div_mod (k := 4) (by omega)
  have hhigh : digits (val / 10000) =
      digits (val / 10000 / 100) ++ fixed 2 (val / 10000 % 100) :=
    Decimal.digits_div_mod (k := 2) (by omega)
  have hrest : val - val / 10000 * 10000 = val % 10000 := by omega
  have hpair : val / 10000 - val / 10000 / 100 * 100 = val / 10000 % 100 := by omega
  rw [hsplit, hhigh, ← writeU32Len4_eq (by omega), hrest,
    mulShift32_hundred (show val / 10000 < 10000 by omega), hpair, drop_digitTable (by omega),
    digitTable_eq (k := val / 10000 % 100) (by omega), writeU32Len4, List.append_assoc]

theorem writeU32Len5To8_eq {val : Nat} (hlow : 10000 ≤ val) (h : val < 100000000) :
    writeU32Len5To8 val = digits val := by
  unfold writeU32Len5To8
  by_cases hsix : val < 1000000
  · rw [if_pos hsix, mulShift64_short hsix]
    exact six_digits hlow hsix
  · rw [if_neg hsix, mulShift64_tenThousand h]
    exact eight_digits (Nat.not_lt.1 hsix) h

theorem writeU32Len1To8_eq {val : Nat} (h : val < 100000000) :
    writeU32Len1To8 val = digits val := by
  unfold writeU32Len1To8
  by_cases htwo : val < 100
  · rw [if_pos htwo]
    exact drop_digitTable htwo
  rw [if_neg htwo]
  by_cases hfour : val < 10000
  · have hsplit : digits val = digits (val / 100) ++ fixed 2 (val % 100) :=
      Decimal.digits_div_mod (k := 2) (Nat.not_lt.1 htwo)
    have hrest : val - val / 100 * 100 = val % 100 := by omega
    rw [if_pos hfour]
    dsimp only
    rw [mulShift32_hundred hfour, hrest, hsplit, drop_digitTable (by omega),
      digitTable_eq (by omega)]
  rw [if_neg hfour]
  by_cases hsix : val < 1000000
  · rw [if_pos hsix, mulShift64_short hsix]
    exact six_digits (Nat.not_lt.1 hfour) hsix
  · rw [if_neg hsix, mulShift64_tenThousand h]
    exact eight_digits (Nat.not_lt.1 hsix) h

/-- **`write_u64`.** -/
theorem writeU64_eq {val : Nat} (h : val < 2 ^ 64) : writeU64 val = digits val := by
  have hlow : val - val / 100000000 * 100000000 = val % 100000000 := by omega
  have hsplit : 100000000 ≤ val →
      digits val = digits (val / 100000000) ++ fixed 8 (val % 100000000) :=
    fun hle => Decimal.digits_div_mod (k := 8) hle
  unfold writeU64
  by_cases height : val < 100000000
  · rw [if_pos height, writeU32Len1To8_eq height]
  rw [if_neg height]
  dsimp only
  rw [hlow, writeU32Len8_eq (Nat.mod_lt _ (by decide)), hsplit (Nat.not_lt.1 height)]
  by_cases hsixteen : val < 100000000 * 100000000
  · rw [if_pos hsixteen, writeU32Len1To8_eq (by omega)]
  · have hmid : val / 100000000 - val / 100000000 / 10000 * 10000 = val / 100000000 % 10000 := by
      omega
    have hhigh : digits (val / 100000000) =
        digits (val / 100000000 / 10000) ++ fixed 4 (val / 100000000 % 10000) :=
      Decimal.digits_div_mod (k := 4) (by omega)
    rw [if_neg hsixteen, hmid, writeU32Len5To8_eq (by omega) (by omega),
      writeU32Len4_eq (Nat.mod_lt _ (by decide)), hhigh]

end ServerBase.Yyjson
