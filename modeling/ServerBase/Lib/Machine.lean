import Mathlib.Logic.Basic

/-!
# Guarded machines

A machine has a set of initial states and a partial step function: `step s i` is `some s'` when
the input `i` can happen in `s`, and `none` when it cannot. The same step function is replayed
on concrete inputs and reasoned about.

**Runs under a condition** (`Run`). `M.Run ok s` says that `s` is reached by steps each of which
satisfies `ok` in the state it is taken from. With the condition that always holds these are
the reachable states.

**Rules.** `Run.invariant` is the induction over a run; `exists_run_of_replay` turns a concrete
replay into a run.
-/

/-- States `σ`, inputs `ι`. -/
structure Machine (σ ι : Type*) where
  init : σ → Prop
  step : σ → ι → Option σ

namespace Machine

variable {σ ι : Type*} {M : Machine σ ι} {ok ok' : σ → ι → Prop} {P Q : σ → Prop}

/-- The states reached by steps that satisfy `ok`. -/
inductive Run (M : Machine σ ι) (ok : σ → ι → Prop) : σ → Prop
  | init {s : σ} : M.init s → Run M ok s
  | step {s s' : σ} {i : ι} : Run M ok s → ok s i → M.step s i = some s' → Run M ok s'

/-- The condition every step satisfies. -/
def anyStep (_ : σ) (_ : ι) : Prop := True

/-- The states reached by any steps. -/
abbrev Reachable (M : Machine σ ι) : σ → Prop := M.Run anyStep

theorem Run.mono (hok : ∀ s i, ok s i → ok' s i) {s : σ} (h : M.Run ok s) : M.Run ok' s := by
  induction h with
  | init h => exact .init h
  | step _ hi hs ih => exact .step ih (hok _ _ hi) hs

/-- **The invariant rule.** -/
theorem Run.invariant {s : σ} (h : M.Run ok s) (hinit : ∀ s, M.init s → P s)
    (hstep : ∀ s i s', P s → ok s i → M.step s i = some s' → P s') : P s := by
  induction h with
  | init h => exact hinit _ h
  | step _ hi hs ih => exact hstep _ _ _ ih hi hs

/-! ## Replays -/

/-- Replay inputs from `s`, checking the condition before each; `none` when some input cannot
happen or breaks the condition. -/
def replayWhile (M : Machine σ ι) (ok : σ → ι → Prop) [∀ s i, Decidable (ok s i)] :
    σ → List ι → Option σ
  | s, [] => some s
  | s, i :: is =>
      if ok s i then
        match M.step s i with
        | some s' => replayWhile M ok s' is
        | none => none
      else none

theorem replayWhile_run [∀ s i, Decidable (ok s i)] {is : List ι} {s s' : σ} (hs : M.Run ok s)
    (h : M.replayWhile ok s is = some s') : M.Run ok s' := by
  induction is generalizing s with
  | nil =>
      simp only [replayWhile, Option.some.injEq] at h
      exact h ▸ hs
  | cons i is ih =>
      simp only [replayWhile] at h
      split at h
      · next hi =>
        split at h
        · next s₁ hstep => exact ih (.step hs hi hstep) h
        · cases h
      · cases h

instance : ∀ (s : σ) (i : ι), Decidable (anyStep s i) := fun _ _ => .isTrue trivial

/-- Replay inputs under no condition. -/
abbrev replay (M : Machine σ ι) : σ → List ι → Option σ := M.replayWhile anyStep

/-- A replay that ends in a state with the property `q` shows that such a state is reached. -/
theorem exists_run_of_replay (M : Machine σ ι) (ok : σ → ι → Prop) [∀ s i, Decidable (ok s i)]
    (is : List ι) (q : σ → Bool) {s : σ} (hs : M.init s)
    (h : (M.replayWhile ok s is).any q = true) :
    ∃ s', M.replayWhile ok s is = some s' ∧ M.Run ok s' ∧ q s' = true := by
  cases hr : M.replayWhile ok s is with
  | none => simp [hr] at h
  | some s' =>
      rw [hr, Option.any_some] at h
      exact ⟨s', rfl, replayWhile_run (.init hs) hr, h⟩

end Machine
