import Mathlib.Logic.Basic

/-!
# Process limits

`set_process_limits` of `utils/os_utils.cpp`. The kernel keeps a soft and a hard value of each
limit; whether a call of `getrlimit` or `setrlimit` succeeds is an input.

**One limit** (`raiseLimit_cases`). Its block returns from the whole function when a call fails,
and also when the soft value is high enough. Otherwise both values become the value asked for.

**The result** (`set_process_limits_iff`). Success means that the limits are raised, unless the
first one was high enough and the second was not, or a hard value was above the value asked for.
-/

namespace ServerBase

/-- `struct rlimit`; `RLIM_INFINITY` is the largest value. -/
structure Rlimit where
  rlimCur : UInt64
  rlimMax : UInt64
  deriving DecidableEq

/-- What the kernel keeps for the process. -/
structure ProcessLimits where
  core : Rlimit
  nofile : Rlimit
  deriving DecidableEq

/-- Which calls succeed. -/
structure LimitCalls where
  getCore : Bool
  setCore : Bool
  getNofile : Bool
  setNofile : Bool

/-- A block of `set_process_limits`: the values behind it, and what the function returns if it
returns from here. -/
def raiseLimit (got set : Bool) (rlim : Rlimit) (limit : UInt64) : Rlimit × Option Int :=
  if !got then (rlim, some (-1))
  else if limit ≤ rlim.rlimCur then (rlim, some 0)
  else if !set then (rlim, some (-1))
  else ({ rlimCur := limit, rlimMax := limit }, none)

/-- `set_process_limits` -/
def setProcessLimits (calls : LimitCalls) (l : ProcessLimits)
    (coredumpFileszLimit fdLimit : UInt64) : ProcessLimits × Int :=
  match raiseLimit calls.getCore calls.setCore l.core coredumpFileszLimit with
  | (core, some ret) => ({ l with core }, ret)
  | (core, none) =>
      match raiseLimit calls.getNofile calls.setNofile l.nofile fdLimit with
      | (nofile, some ret) => ({ core, nofile }, ret)
      | (nofile, none) => ({ core, nofile }, 0)

/-! ## One limit -/

/-- How a block ends. -/
inductive RaiseLimit (got set : Bool) (rlim : Rlimit) (limit : UInt64) :
    Rlimit × Option Int → Prop
  | failed : (got = true → rlim.rlimCur < limit ∧ set = false) →
      RaiseLimit got set rlim limit (rlim, some (-1))
  | satisfied : got = true → limit ≤ rlim.rlimCur → RaiseLimit got set rlim limit (rlim, some 0)
  | raised : got = true → rlim.rlimCur < limit → set = true →
      RaiseLimit got set rlim limit (⟨limit, limit⟩, none)

theorem raiseLimit_cases (got set : Bool) (rlim : Rlimit) (limit : UInt64) :
    RaiseLimit got set rlim limit (raiseLimit got set rlim limit) := by
  unfold raiseLimit
  cases got with
  | false => exact .failed fun h => by cases h
  | true =>
      by_cases hle : limit ≤ rlim.rlimCur
      · simp only [Bool.not_true, Bool.false_eq_true, if_false, if_pos hle]
        exact .satisfied rfl hle
      · have hlt : rlim.rlimCur < limit := UInt64.not_le.1 hle
        simp only [Bool.not_true, Bool.false_eq_true, if_false, if_neg hle]
        cases set with
        | false => exact .failed fun _ => ⟨hlt, rfl⟩
        | true => exact .raised rfl hlt rfl

/-! ## The whole function -/

/-- Both soft values are as high as asked for, and no hard value has become lower. -/
structure LimitsRaised (l l' : ProcessLimits) (coredumpFileszLimit fdLimit : UInt64) : Prop where
  core : coredumpFileszLimit ≤ l'.core.rlimCur
  nofile : fdLimit ≤ l'.nofile.rlimCur
  coreMax : l.core.rlimMax ≤ l'.core.rlimMax
  nofileMax : l.nofile.rlimMax ≤ l'.nofile.rlimMax

/-- The first limit is not satisfied before the second, and what is raised had no higher hard
value. -/
structure RaisesSafely (calls : LimitCalls) (l : ProcessLimits)
    (coredumpFileszLimit fdLimit : UInt64) : Prop where
  satisfied : calls.getCore = true → coredumpFileszLimit ≤ l.core.rlimCur →
    fdLimit ≤ l.nofile.rlimCur
  coreMax : calls.getCore = true → l.core.rlimCur < coredumpFileszLimit → calls.setCore = true →
    calls.getNofile = true → (fdLimit ≤ l.nofile.rlimCur ∨ calls.setNofile = true) →
    l.core.rlimMax ≤ coredumpFileszLimit
  nofileMax : calls.getCore = true → l.core.rlimCur < coredumpFileszLimit →
    calls.setCore = true → calls.getNofile = true → l.nofile.rlimCur < fdLimit →
    calls.setNofile = true → l.nofile.rlimMax ≤ fdLimit

section
variable (calls : LimitCalls) (l : ProcessLimits) (coredumpFileszLimit fdLimit : UInt64)

/-- When the block of the first limit fails, nothing is raised. -/
theorem raisesSafely_of_core_failed
    (hfail : calls.getCore = true →
      l.core.rlimCur < coredumpFileszLimit ∧ calls.setCore = false) :
    RaisesSafely calls l coredumpFileszLimit fdLimit where
  satisfied hget hle := absurd hle (UInt64.not_le.2 (hfail hget).1)
  coreMax hget _ hset := by
    rw [(hfail hget).2] at hset
    cases hset
  nofileMax hget _ hset := by
    rw [(hfail hget).2] at hset
    cases hset

/-- When the block of the second limit fails, it is not raised, and the first one does not count. -/
theorem raisesSafely_of_nofile_failed (hlt : l.core.rlimCur < coredumpFileszLimit)
    (hfail : calls.getNofile = true → l.nofile.rlimCur < fdLimit ∧ calls.setNofile = false) :
    RaisesSafely calls l coredumpFileszLimit fdLimit where
  satisfied _ hle := absurd hle (UInt64.not_le.2 hlt)
  coreMax _ _ _ hget hor := by
    rcases hor with hle | hset
    · exact absurd hle (UInt64.not_le.2 (hfail hget).1)
    · rw [(hfail hget).2] at hset
      cases hset
  nofileMax _ _ _ hget _ hset := by
    rw [(hfail hget).2] at hset
    cases hset

/-- **Process limits.** That the function returns 0 means that the limits are raised, exactly when
they are raised safely. -/
theorem set_process_limits_iff :
    ((setProcessLimits calls l coredumpFileszLimit fdLimit).2 = 0 →
      LimitsRaised l (setProcessLimits calls l coredumpFileszLimit fdLimit).1
        coredumpFileszLimit fdLimit) ↔
      RaisesSafely calls l coredumpFileszLimit fdLimit := by
  have hcore := raiseLimit_cases calls.getCore calls.setCore l.core coredumpFileszLimit
  have hnofile := raiseLimit_cases calls.getNofile calls.setNofile l.nofile fdLimit
  unfold setProcessLimits
  generalize raiseLimit calls.getCore calls.setCore l.core coredumpFileszLimit = core at hcore
  generalize raiseLimit calls.getNofile calls.setNofile l.nofile fdLimit = nofile at hnofile
  have hne : (-1 : Int) ≠ 0 := by decide
  cases hcore with
  | failed hfail =>
      exact iff_of_true (fun h => absurd h hne)
        (raisesSafely_of_core_failed calls l coredumpFileszLimit fdLimit hfail)
  | satisfied hget hle =>
      -- the second limit is not looked at
      constructor
      · intro hraised
        exact ⟨fun _ _ => (hraised rfl).nofile, fun _ hlt => absurd hle (UInt64.not_le.2 hlt),
          fun _ hlt => absurd hle (UInt64.not_le.2 hlt)⟩
      · intro hsafe _
        exact ⟨hle, hsafe.satisfied hget hle, UInt64.le_refl _, UInt64.le_refl _⟩
  | raised hget hlt hset =>
      have hnot : ¬coredumpFileszLimit ≤ l.core.rlimCur := UInt64.not_le.2 hlt
      cases hnofile with
      | failed hfail =>
          exact iff_of_true (fun h => absurd h hne)
            (raisesSafely_of_nofile_failed calls l coredumpFileszLimit fdLimit hlt hfail)
      | satisfied hget' hle' =>
          constructor
          · intro hraised
            exact ⟨fun _ hle => absurd hle hnot, fun _ _ _ _ _ => (hraised rfl).coreMax,
              fun _ _ _ _ hlt' => absurd hle' (UInt64.not_le.2 hlt')⟩
          · intro hsafe _
            exact ⟨UInt64.le_refl _, hle', hsafe.coreMax hget hlt hset hget' (.inl hle'),
              UInt64.le_refl _⟩
      | raised hget' hlt' hset' =>
          constructor
          · intro hraised
            exact ⟨fun _ hle => absurd hle hnot, fun _ _ _ _ _ => (hraised rfl).coreMax,
              fun _ _ _ _ _ _ => (hraised rfl).nofileMax⟩
          · intro hsafe _
            exact ⟨UInt64.le_refl _, UInt64.le_refl _,
              hsafe.coreMax hget hlt hset hget' (.inr hset'),
              hsafe.nofileMax hget hlt hset hget' hlt' hset'⟩

end

/-- Core files are not limited; 1024 files may be open. -/
def usualLimits : ProcessLimits where
  core := { rlimCur := 0xFFFFFFFFFFFFFFFF, rlimMax := 0xFFFFFFFFFFFFFFFF }
  nofile := { rlimCur := 1024, rlimMax := 1048576 }

/-- **The second limit is left as it was.** The first one is high enough, and the function returns 0
with 1024 files. -/
theorem limits_not_raised :
    ¬∀ (calls : LimitCalls) (l : ProcessLimits) (coredumpFileszLimit fdLimit : UInt64),
      (setProcessLimits calls l coredumpFileszLimit fdLimit).2 = 0 →
        LimitsRaised l (setProcessLimits calls l coredumpFileszLimit fdLimit).1
          coredumpFileszLimit fdLimit := by
  intro hall
  have hraised := hall ⟨true, true, true, true⟩ usualLimits (30 * 1024) 250000 (by decide)
  exact absurd hraised.nofile (by decide)

end ServerBase
