import Mathlib.Data.List.Basic
import Mathlib.Data.List.TakeWhile

/-!
# C strings and the name hash

`utils/prereqs.h` and the few functions of `<cstring>` the servers use. A byte string is a list of
bytes; a C string is the part of it before its first NUL.
-/

namespace ServerBase

abbrev Bytes := List UInt8

/-- The bytes of a literal of the source. -/
def bytes (s : String) : Bytes := s.toList.map fun c => c.toNat.toUInt8

/-- The C string stored in `b`: what lies before the first NUL. -/
def cstr (b : Bytes) : Bytes := b.takeWhile (· != 0)

/-- `strequal` -/
def strequal (a b : Bytes) : Bool := cstr a == cstr b

/-- `strncpy(dst, src, n)`: copies `src` up to its NUL and pads with NULs to `n` bytes; `none`
when that writes behind the end of `dst`. -/
def strncpy (dst src : Bytes) (n : Nat) : Option Bytes :=
  let copied := cstr (src.take n)
  if n ≤ dst.length then some (copied ++ List.replicate (n - copied.length) 0 ++ dst.drop n)
  else none

def INT_MAX : Nat := 2147483647

/-- `snprintf(buf, size, ...)` on a zeroed buffer, where `out` is the whole output: the buffer, and
the length it would have had, or -1 when that is no `int`. -/
def snprintf (size : Nat) (out : Bytes) : Bytes × Int :=
  (out.take (size - 1) ++ List.replicate (size - (out.take (size - 1)).length) 0,
    if out.length ≤ INT_MAX then out.length else -1)

/-- A `char` added to a `uint`: `char` is signed, so a byte from 128 on is sign-extended. -/
def charToUint (c : UInt8) : UInt32 :=
  if c < 128 then c.toUInt32 else c.toUInt32 + 0xFFFFFF00

/-- The loop of `Hash` from the accumulator `hash`. -/
def hashFrom (hash : UInt32) : Bytes → UInt32
  | [] => hash
  | c :: str => if c = 0 then hash else hashFrom ((hash <<< 5) + hash + charToUint c) str

/-- `Hash` -/
def hash (str : Bytes) : UInt32 := hashFrom 5381 str

/-- What each byte of a string is checked for, one after the other. -/
theorem forall_of_all {b : Bytes} {p : UInt8 → Prop} [DecidablePred p]
    (h : b.all (fun c => decide (p c)) = true) : ∀ c ∈ b, p c := by
  intro c hc
  exact of_decide_eq_true (List.all_eq_true.1 h c hc)

/-! ## What the hash reads -/

@[simp] theorem cstr_nil : cstr [] = [] := rfl

theorem cstr_cons (c : UInt8) (b : Bytes) : cstr (c :: b) = if c = 0 then [] else c :: cstr b := by
  by_cases h : c = 0 <;> simp [cstr, h]

/-- A string without NUL is its own C string. -/
theorem cstr_of_noNul {b : Bytes} (h : ∀ c ∈ b, c ≠ 0) : cstr b = b := by
  induction b with
  | nil => rfl
  | cons c b ih =>
      rw [cstr_cons, if_neg (h c (by simp)), ih fun d hd => h d (by simp [hd])]

theorem cstr_append_nul {b : Bytes} (h : ∀ c ∈ b, c ≠ 0) (rest : Bytes) :
    cstr (b ++ 0 :: rest) = b := by
  induction b with
  | nil => simp [cstr_cons]
  | cons c b ih =>
      rw [List.cons_append, cstr_cons, if_neg (h c (by simp)), ih fun d hd => h d (by simp [hd])]

theorem cstr_append_zeros {b : Bytes} (h : ∀ c ∈ b, c ≠ 0) (k : Nat) :
    cstr (b ++ List.replicate k 0) = b := by
  cases k with
  | zero => rw [List.replicate_zero, List.append_nil, cstr_of_noNul h]
  | succ k => exact cstr_append_nul h _

theorem cstr_noNul (b : Bytes) : ∀ c ∈ cstr b, c ≠ 0 := by
  intro c hc
  simpa using List.mem_takeWhile_imp hc

theorem hashFrom_cstr (acc : UInt32) (b : Bytes) : hashFrom acc (cstr b) = hashFrom acc b := by
  induction b generalizing acc with
  | nil => rfl
  | cons c b ih =>
      rw [cstr_cons]
      by_cases hc : c = 0
      · simp [hashFrom, hc]
      · rw [if_neg hc, hashFrom, hashFrom, if_neg hc, if_neg hc, ih]

/-- The hash stops at the first NUL. -/
theorem hash_cstr (b : Bytes) : hash (cstr b) = hash b := hashFrom_cstr 5381 b

/-! ## Copying into a zeroed buffer -/

/-- A string without NUL that is shorter than the zeroed buffer is copied whole and stays
terminated. -/
theorem strncpy_zeros {src : Bytes} {n : Nat} (h : ∀ c ∈ src, c ≠ 0) (hn : src.length < n) :
    strncpy (List.replicate n 0) src src.length =
      some (src ++ List.replicate (n - src.length) 0) := by
  have hle : src.length ≤ n := Nat.le_of_lt hn
  simp [strncpy, cstr_of_noNul h, hle]

theorem cstr_zeros {src : Bytes} {n : Nat} (h : ∀ c ∈ src, c ≠ 0) (hn : src.length < n) :
    cstr (src ++ List.replicate (n - src.length) 0) = src := by
  obtain ⟨k, hk⟩ : ∃ k, n - src.length = k + 1 := ⟨n - src.length - 1, by omega⟩
  rw [hk, List.replicate_succ]
  exact cstr_append_nul h _

end ServerBase
