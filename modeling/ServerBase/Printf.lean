import ServerBase.Prereqs
import ServerBase.Lib.Decimal

/-!
# Printing

What `%d` prints, and what becomes of a text that is printed into a buffer that is large enough.
-/

namespace ServerBase

/-- A sum in an `int`. -/
def int32 (x : Int) : Int := Int.bmod x (2 ^ 32)

theorem int32_of_le {x : Int} (h0 : 0 ≤ x) (h : x ≤ INT_MAX) : int32 x = x := by
  have hmax : (INT_MAX : Int) = 2147483647 := rfl
  exact Int.bmod_eq_of_le_mul_two (by omega) (by omega)

/-- `%d` -/
def printInt (x : Int) : Bytes := (if x < 0 then bytes "-" else []) ++ Decimal.digits x.natAbs

theorem digits_injective : Function.Injective Decimal.digits := by
  intro j k h
  rw [← Decimal.value_digits j, h, Decimal.value_digits]

theorem printInt_injective : Function.Injective printInt := by
  have hminus : ∀ (j k : ℕ), bytes "-" ++ Decimal.digits j ≠ Decimal.digits k := by
    intro j k h
    have hmem : (45 : UInt8) ∈ Decimal.digits k := h ▸ List.mem_append_left _ (by decide)
    exact absurd (Decimal.isDigit_of_mem_digits hmem) (by decide)
  intro x y h
  unfold printInt at h
  by_cases hx : x < 0
  · by_cases hy : y < 0
    · rw [if_pos hx, if_pos hy] at h
      have habs := digits_injective (List.append_cancel_left h)
      omega
    · rw [if_pos hx, if_neg hy, List.nil_append] at h
      exact absurd h (hminus _ _)
  · by_cases hy : y < 0
    · rw [if_neg hx, if_pos hy, List.nil_append] at h
      exact absurd h.symm (hminus _ _)
    · rw [if_neg hx, if_neg hy, List.nil_append, List.nil_append] at h
      have habs := digits_injective h
      omega

/-- An `int` has at most ten digits and a sign. -/
theorem length_printInt (x : BitVec 32) : (printInt x.toInt).length ≤ 11 := by
  have hlow := BitVec.le_two_mul_toInt (x := x)
  have hhigh := BitVec.two_mul_toInt_lt (x := x)
  have hdigits := (Decimal.length_digits_le_iff (k := x.toInt.natAbs) (m := 10) (by decide)).2
    (by omega)
  have hsign : (if x.toInt < 0 then bytes "-" else []).length ≤ 1 := by
    split <;> decide
  rw [printInt, List.length_append]
  omega

/-- A digit. -/
theorem toNat_digitByte {k : ℕ} (h : k < 10) : (48 + k.toUInt8 : UInt8).toNat = 48 + k := by
  simp only [UInt8.toNat_add, Nat.toUInt8_eq, UInt8.toNat_ofNat']
  change (48 + k % 256) % 256 = _
  omega

/-! ## Texts without a NUL -/

theorem noNul_digits (k : ℕ) : ∀ x ∈ Decimal.digits k, x ≠ 0 := by
  intro x hx
  have hdigit := Decimal.isDigit_of_mem_digits hx
  rintro rfl
  exact absurd hdigit (by decide)

theorem noNul_append {a b : Bytes} (ha : ∀ x ∈ a, x ≠ 0) (hb : ∀ x ∈ b, x ≠ 0) :
    ∀ x ∈ a ++ b, x ≠ 0 :=
  fun x hx => (List.mem_append.1 hx).elim (ha x) (hb x)

theorem noNul_printInt (x : Int) : ∀ c ∈ printInt x, c ≠ 0 := by
  refine noNul_append ?_ (noNul_digits _)
  split
  · exact forall_of_all (by decide)
  · intro c hc
    cases hc

/-- What fits into a buffer is printed as it is. -/
theorem cstr_snprintf {size : ℕ} {out : Bytes} (h : ∀ c ∈ out, c ≠ 0) (hlen : out.length < size) :
    cstr (snprintf size out).1 = out := by
  have htake : out.take (size - 1) = out := List.take_of_length_le (Nat.le_sub_one_of_lt hlen)
  simp only [snprintf, htake]
  exact cstr_append_zeros h _

end ServerBase
