import Mathlib.Algebra.Group.Nat.Defs
import Mathlib.Data.List.Basic
import Mathlib.Data.List.Induction

/-!
# Decimal numbers as bytes

The digits of a natural number as a program prints them, and the value of digits as a program reads
them.

**The round trip** (`value_digits`, `takeWhile_digits`). The digits of a number have its value, also
when something that is no digit follows them.
-/

namespace Decimal

/-- The ASCII digits of a number, without leading zeros. -/
def digits (k : Nat) : List UInt8 := (Nat.toDigits 10 k).map fun c => c.toNat.toUInt8

def isDigit (c : UInt8) : Bool := 48 ≤ c && c ≤ 57

/-- The value `v`, and one more digit. -/
def push (v : Nat) (c : UInt8) : Nat := 10 * v + (c.toNat - 48)

/-- The value of digits. -/
def value (ds : List UInt8) : Nat := ds.foldl push 0

/-! ## Digits -/

theorem isDigit_iff {c : UInt8} : isDigit c = true ↔ 48 ≤ c.toNat ∧ c.toNat ≤ 57 := by
  simp [isDigit, UInt8.le_iff_toNat_le]

theorem toNat_digit {c : Char} (h : c.isDigit = true) :
    c.toNat.toUInt8.toNat = c.toNat ∧ 48 ≤ c.toNat ∧ c.toNat ≤ 57 := by
  obtain ⟨hlow, hhigh⟩ : 48 ≤ c.toNat ∧ c.toNat ≤ 57 := by
    simpa [Char.isDigit, UInt32.le_iff_toNat_le] using h
  refine ⟨?_, hlow, hhigh⟩
  simp only [Nat.toUInt8_eq, UInt8.toNat_ofNat']
  omega

theorem isDigit_of_mem_digits {k : Nat} {c : UInt8} (h : c ∈ digits k) : isDigit c = true := by
  obtain ⟨d, hd, rfl⟩ := List.mem_map.1 h
  obtain ⟨heq, hrange⟩ := toNat_digit (Nat.isDigit_of_mem_toDigits (by decide) (by decide) hd)
  rw [isDigit_iff, heq]
  exact hrange

theorem digits_ne_nil (k : Nat) : digits k ≠ [] := by
  rw [digits, ne_eq, List.map_eq_nil_iff]
  exact List.ne_nil_of_length_pos (Nat.length_toDigits_pos)

/-- How many digits there are. -/
theorem length_digits_le_iff {k m : Nat} (hm : 0 < m) :
    (digits k).length ≤ m ↔ k < 10 ^ m := by
  rw [digits, List.length_map]
  exact Nat.length_toDigits_le_iff (by decide) hm

/-! ## Their value -/

theorem foldl_push {cs : List Char} (h : ∀ c ∈ cs, c.isDigit = true) (v : Nat) :
    (cs.map fun c => c.toNat.toUInt8).foldl push v = Nat.ofDigitChars 10 cs v := by
  induction cs generalizing v with
  | nil => rfl
  | cons c cs ih =>
      have hc := (toNat_digit (h c (by simp))).1
      rw [List.map_cons, List.foldl_cons, ih fun d hd => h d (by simp [hd]), Nat.ofDigitChars_cons,
        push, hc]
      rfl

/-- **Printing and reading.** -/
theorem value_digits (k : Nat) : value (digits k) = k := by
  rw [value, digits, foldl_push fun c hc => Nat.isDigit_of_mem_toDigits (by decide) (by decide) hc]
  exact Nat.ofDigitChars_toDigits (by decide) (by decide)

/-- The digits end where something else begins. -/
theorem takeWhile_digits (k : Nat) {rest : List UInt8} (h : ∀ c ∈ rest.head?, isDigit c = false) :
    (digits k ++ rest).takeWhile isDigit = digits k := by
  rw [List.takeWhile_append_of_pos fun c hc => isDigit_of_mem_digits hc]
  cases rest with
  | nil => rw [List.takeWhile_nil, List.append_nil]
  | cons c rest =>
      rw [List.takeWhile_cons_of_neg (by simp [h c rfl]), List.append_nil]

/-! ## The size of the value -/

theorem value_append_singleton (ds : List UInt8) (c : UInt8) :
    value (ds ++ [c]) = push (value ds) c := by
  rw [value, List.foldl_append]
  rfl

theorem value_zeros {ds : List UInt8} (h : ∀ c ∈ ds, c = 0x30) : value ds = 0 := by
  induction ds using List.reverseRecOn with
  | nil => rfl
  | append_singleton ds c ih =>
      rw [value_append_singleton, ih fun d hd => h d (by simp [hd]), h c (by simp)]
      decide

theorem value_lt {ds : List UInt8} (h : ∀ c ∈ ds, isDigit c = true) :
    value ds < 10 ^ ds.length := by
  induction ds using List.reverseRecOn with
  | nil => decide
  | append_singleton ds c ih =>
      have hc := isDigit_iff.1 (h c (by simp))
      have hds := ih fun d hd => h d (by simp [hd])
      rw [value_append_singleton, push, List.length_append, List.length_singleton, Nat.pow_succ]
      omega

/-- Digits that begin with no zero. -/
theorem le_value {ds : List UInt8} (h : ∀ c ∈ ds, isDigit c = true) (hne : ds ≠ [])
    (hhead : ds.head? ≠ some 0x30) : 10 ^ (ds.length - 1) ≤ value ds := by
  induction ds using List.reverseRecOn with
  | nil => exact absurd rfl hne
  | append_singleton ds c ih =>
      have hc := isDigit_iff.1 (h c (by simp))
      rw [value_append_singleton, push, List.length_append, List.length_singleton,
        Nat.add_sub_cancel]
      cases hds : ds with
      | nil =>
          have hzero : c.toNat ≠ 48 := by
            rintro heq
            rw [hds, List.nil_append] at hhead
            exact hhead (congrArg some (UInt8.toNat_inj.1 heq))
          rw [value, List.foldl_nil, List.length_nil]
          omega
      | cons d ds' =>
          have hle := ih (fun e he => h e (by simp [he])) (by rw [hds]; exact List.cons_ne_nil _ _)
            (by rw [hds] at hhead ⊢; exact hhead)
          rw [hds, List.length_cons, Nat.add_sub_cancel] at hle
          rw [List.length_cons, Nat.pow_succ]
          omega

/-! ## Digits of fixed width -/

/-- The last digit of a number. -/
def lastDigit (n : Nat) : UInt8 := .ofNat (0x30 + n % 10)

/-- The last `k` digits of a number, zeros included. -/
def fixed : Nat → Nat → List UInt8
  | 0, _ => []
  | k + 1, n => fixed k (n / 10) ++ [lastDigit n]

theorem digits_of_lt {n : Nat} (h : n < 10) : digits n = [lastDigit n] := by
  rw [digits, Nat.toDigits_of_lt_base h]
  revert h
  revert n
  decide

theorem digits_of_le {n : Nat} (h : 10 ≤ n) : digits n = digits (n / 10) ++ [lastDigit n] := by
  have hlast : digits (n % 10) = [lastDigit (n % 10)] := digits_of_lt (Nat.mod_lt _ (by decide))
  rw [digits, Nat.toDigits_of_lt_base (Nat.mod_lt _ (by decide))] at hlast
  rw [digits, Nat.toDigits_of_base_le (by decide) h, List.map_append, ← digits, hlast, lastDigit,
    lastDigit, Nat.mod_mod]

/-- There is no leading zero. -/
theorem digits_leading {n : Nat} (h : (digits n).head? = some 0x30) : digits n = [0x30] := by
  induction n using Nat.strongRecOn with
  | ind n ih =>
      rcases Nat.lt_or_ge n 10 with hlt | hge
      · rw [digits_of_lt hlt] at h ⊢
        rw [Option.some.inj h]
      · rw [digits_of_le hge, List.head?_append_of_ne_nil _ (digits_ne_nil _)] at h
        have hzero := congrArg value (ih (n / 10) (by omega) h)
        rw [value_digits] at hzero
        have hvalue : value [0x30] = 0 := rfl
        omega

theorem fixed_add (j k n : Nat) : fixed (j + k) n = fixed j (n / 10 ^ k) ++ fixed k n := by
  induction k generalizing n with
  | zero => rw [Nat.add_zero, Nat.pow_zero, Nat.div_one, fixed, List.append_nil]
  | succ k ih =>
      rw [← Nat.add_assoc, fixed, ih, fixed, List.append_assoc, Nat.div_div_eq_div_mul,
        Nat.pow_succ']

/-- Only the last `k` digits count. -/
theorem fixed_mod (k n m : Nat) : fixed k (m * 10 ^ k + n) = fixed k n := by
  induction k generalizing n with
  | zero => rfl
  | succ k ih =>
      have hdiv : (m * 10 ^ (k + 1) + n) / 10 = m * 10 ^ k + n / 10 := by
        rw [Nat.pow_succ, ← Nat.mul_assoc]
        omega
      have hmod : (m * 10 ^ (k + 1) + n) % 10 = n % 10 := by
        rw [Nat.pow_succ, ← Nat.mul_assoc]
        omega
      rw [fixed, fixed, hdiv, ih, lastDigit, lastDigit, hmod]

/-- **Digits are written in pieces.** -/
theorem digits_append {hi lo k : Nat} (hhi : 0 < hi) (hlo : lo < 10 ^ k) :
    digits (hi * 10 ^ k + lo) = digits hi ++ fixed k lo := by
  induction k generalizing lo with
  | zero =>
      obtain rfl : lo = 0 := by simpa using hlo
      rw [Nat.pow_zero, Nat.mul_one, Nat.add_zero, fixed, List.append_nil]
  | succ k ih =>
      have hten : 10 ≤ hi * 10 ^ (k + 1) + lo := by
        have hpow : 10 ≤ 10 ^ (k + 1) := Nat.le_self_pow (by omega) 10
        have hle : 1 * 10 ^ (k + 1) ≤ hi * 10 ^ (k + 1) := Nat.mul_le_mul_right _ hhi
        omega
      have hdiv : (hi * 10 ^ (k + 1) + lo) / 10 = hi * 10 ^ k + lo / 10 := by
        rw [Nat.pow_succ, ← Nat.mul_assoc]
        omega
      have hmod : (hi * 10 ^ (k + 1) + lo) % 10 = lo % 10 := by
        rw [Nat.pow_succ, ← Nat.mul_assoc]
        omega
      rw [Nat.pow_succ] at hlo
      rw [digits_of_le hten, hdiv, ih (by omega), fixed, lastDigit, hmod, List.append_assoc]
      rfl

theorem digits_div_mod {n k : Nat} (h : 10 ^ k ≤ n) :
    digits n = digits (n / 10 ^ k) ++ fixed k (n % 10 ^ k) := by
  have hpos : 0 < 10 ^ k := Nat.pow_pos (by decide)
  rw [← digits_append (Nat.div_pos h hpos) (Nat.mod_lt _ hpos), Nat.div_add_mod']

theorem fixed_div_mod (j k n : Nat) :
    fixed (j + k) n = fixed j (n / 10 ^ k) ++ fixed k (n % 10 ^ k) := by
  rw [fixed_add, ← fixed_mod k (n % 10 ^ k) (n / 10 ^ k), Nat.div_add_mod']

end Decimal
