import Mathlib.Data.Rat.Floor
import ServerBase.Printf

/-!
# Perf records

`utils/server_stats.h` and the records of `utils/server_stats.cpp`: how often something was called,
and how long it took.

**Timings.** A record is generic in what stands for a `double`. `Update` computes with exact
rationals; what `%.3f` prints is a parameter (`DoubleFormat`), and `printFixed3` is what it prints
of a finite `double`.
-/

namespace ServerBase

/-! ## Records -/

inductive TimingBuckets
  | perfSub1ms
  | perf1to2ms
  | perf2to5ms
  | perf5to10ms
  | perf10to50ms
  | perfOver50ms
  deriving DecidableEq

namespace TimingBuckets

/-- From 0 to `kNumTimingBuckets`. -/
def all : List TimingBuckets :=
  [perfSub1ms, perf1to2ms, perf2to5ms, perf5to10ms, perf10to50ms, perfOver50ms]

end TimingBuckets

/-- A C string that fits into `mName`. -/
structure PerfName where
  bytes : Bytes
  noNul : ∀ c ∈ bytes, c ≠ 0
  fits : bytes.length ≤ 63

def loginName : PerfName where
  bytes := bytes "login"
  noNul := forall_of_all (by decide)
  fits := by decide

structure PerfRecord (δ : Type*) where
  mName : PerfName
  mNameHash : UInt32
  mHistogram : TimingBuckets → BitVec 32
  mSum : δ
  mAverage : δ
  mMax : δ
  mCalls : BitVec 32

/-- A record as `AddPerfRecord` makes it. -/
def newPerfRecord {δ : Type*} [Zero δ] (name : PerfName) : PerfRecord δ where
  mName := name
  mNameHash := hash name.bytes
  mHistogram _ := 0
  mSum := 0
  mAverage := 0
  mMax := 0
  mCalls := 0

/-- `AddPerfRecord`: the records behind it, and the index of the new one. -/
def addPerfRecord {δ : Type*} [Zero δ] (gPerfRecords : List (PerfRecord δ)) (name : PerfName) :
    List (PerfRecord δ) × ℕ :=
  (gPerfRecords ++ [newPerfRecord name], gPerfRecords.length)

/-- The bucket in `Update`. -/
def bucketOf (ms : ℚ) : TimingBuckets :=
  if ms ≤ 1 then .perfSub1ms
  else if ms ≤ 2 then .perf1to2ms
  else if ms ≤ 5 then .perf2to5ms
  else if ms ≤ 10 then .perf5to10ms
  else if ms ≤ 50 then .perf10to50ms
  else .perfOver50ms

namespace PerfRecord

/-- `Update` -/
def update (r : PerfRecord ℚ) (ms : ℚ) : PerfRecord ℚ :=
  let bucket := bucketOf ms
  let mSum := r.mSum + ms
  let mCalls := r.mCalls + 1
  { r with
    mHistogram := Function.update r.mHistogram bucket (r.mHistogram bucket + 1)
    mSum
    mCalls
    mAverage := mSum / (mCalls.toInt : ℚ)
    mMax := if r.mMax < ms then ms else r.mMax }

/-- `Reset` -/
def reset (r : PerfRecord ℚ) : PerfRecord ℚ :=
  { r with mHistogram := fun _ => 0, mSum := 0, mAverage := 0, mMax := 0, mCalls := 0 }

end PerfRecord

/-! ## Numbers -/

/-- What `%.3f` prints: visible characters, of which the largest `double` has 314. -/
structure DoubleFormat (δ : Type*) where
  print : δ → Bytes
  visible : ∀ x, ∀ c ∈ print x, 32 < c.toNat ∧ c.toNat < 127
  length_le : ∀ x, (print x).length ≤ 314

theorem DoubleFormat.noNul {δ : Type*} (fmt : DoubleFormat δ) (x : δ) :
    ∀ c ∈ fmt.print x, c ≠ 0 := by
  rintro c hc rfl
  exact absurd (fmt.visible x 0 hc).1 (by decide)

/-- The nearest integer, and of two the even one. -/
def roundHalfEven (x : ℚ) : ℤ :=
  let f := ⌊x⌋
  if x - f < 1 / 2 then f
  else if 1 / 2 < x - f then f + 1
  else if f % 2 = 0 then f else f + 1

/-- The three digits of a number of thousandths. -/
def printThousandths (k : ℕ) : Bytes :=
  [48 + (k / 100).toUInt8, 48 + (k / 10 % 10).toUInt8, 48 + (k % 10).toUInt8]

/-- `%.3f` of a rational. -/
def printFixed3 (x : ℚ) : Bytes :=
  let k := (roundHalfEven (1000 * |x|)).toNat
  (if x < 0 then bytes "-" else []) ++ Decimal.digits (k / 1000) ++ bytes "." ++
    printThousandths (k % 1000)

example : printFixed3 (-1 / 3) = bytes "-0.333" ∧ printFixed3 (5 / 2000) = bytes "0.002" := by
  decide +kernel

/-- The finite values of a `double`, less the sign of zero. -/
structure FiniteDouble where
  value : ℚ
  bounded : |value| < 2 ^ 1024

theorem roundHalfEven_le (x : ℚ) : (roundHalfEven x : ℚ) ≤ x + 1 := by
  have hfloor := Int.floor_le x
  unfold roundHalfEven
  dsimp only
  split
  · linarith
  · split
    · push_cast
      linarith
    · split
      · linarith
      · push_cast
        linarith

/-- Digits, a point and a minus. -/
theorem visible_printFixed3 (x : ℚ) : ∀ c ∈ printFixed3 x, 32 < c.toNat ∧ c.toNat < 127 := by
  have hdigit : ∀ {k : ℕ}, k < 10 → 32 < (48 + k.toUInt8 : UInt8).toNat ∧
      (48 + k.toUInt8 : UInt8).toNat < 127 := by
    intro k hk
    rw [toNat_digitByte hk]
    omega
  intro c hc
  simp only [printFixed3, printThousandths, List.mem_append, List.mem_cons, List.not_mem_nil,
    or_false] at hc
  rcases hc with ((hc | hc) | hc) | rfl | rfl | rfl
  · split at hc
    · exact forall_of_all (p := fun c => 32 < c.toNat ∧ c.toNat < 127) (by decide) c hc
    · cases hc
  · have hrange := Decimal.isDigit_iff.1 (Decimal.isDigit_of_mem_digits hc)
    omega
  · exact forall_of_all (p := fun c => 32 < c.toNat ∧ c.toNat < 127) (by decide) c hc
  · exact hdigit (by omega)
  · exact hdigit (by omega)
  · exact hdigit (by omega)

theorem length_printFixed3 {x : ℚ} {m : ℕ} (h : |x| < m) (hm : m < 10 ^ 309) :
    (printFixed3 x).length ≤ 314 := by
  have hround : (roundHalfEven (1000 * |x|)).toNat ≤ 1000 * m := by
    have hle := roundHalfEven_le (1000 * |x|)
    have hlt : (roundHalfEven (1000 * |x|) : ℚ) < ((1000 * m : ℕ) + 1 : ℤ) := by
      push_cast
      linarith
    have hint := Int.cast_lt.1 hlt
    omega
  have hdigits : (Decimal.digits ((roundHalfEven (1000 * |x|)).toNat / 1000)).length ≤ 309 := by
    rw [Decimal.length_digits_le_iff (by decide)]
    exact Nat.lt_of_le_of_lt (Nat.div_le_of_le_mul hround) hm
  have hsign : (if x < 0 then bytes "-" else []).length ≤ 1 := by
    split <;> decide
  have hpoint : (bytes ".").length = 1 := by decide
  simp only [printFixed3, printThousandths, List.length_append, List.length_cons, List.length_nil,
    hpoint]
  omega

instance : Zero FiniteDouble := ⟨⟨0, by norm_num⟩⟩

/-- `%.3f` of a finite `double` -/
def finiteFormat : DoubleFormat FiniteDouble where
  print x := printFixed3 x.value
  visible x := visible_printFixed3 x.value
  length_le x := length_printFixed3 (by exact_mod_cast x.bounded)
    (by decide +kernel : 2 ^ 1024 < 10 ^ 309)

end ServerBase
