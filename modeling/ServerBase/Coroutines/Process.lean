import ServerBase.Coroutines.Reaping
import ServerBase.Lib.Machine

/-!
# The coroutine manager and its coroutines

The operations of the manager interleaved with the bodies of the coroutines: a call of
`StepCoroutines` walks through its two loops, and in between the body it has resumed runs, which may
create and destroy coroutines itself.

**Places** (`Loop`). Outside of `StepCoroutines`, or at an index of one of its loops. A body runs
(`running`) from the resumption at an index until it yields or ends.

**What is remembered.** Every handle `CreateManagedCoroutine` has returned, the coroutines whose
user data is to be freed, and about the current call of `StepCoroutines` the manager as it was at
its begin, the loop iterations, the coroutines resumed so far, and those that were destroyed before
their turn.

**Conditions** (`Allowed`). At most `2 ^ 15` managed coroutines, `DestroyCoroutine` gets returned
handles, and not the one of the coroutine that runs.
-/

namespace ServerBase

namespace CoroutineManager

inductive Loop
  /-- No call of `StepCoroutines` is going on. -/
  | outside
  | managed (i : ℕ)
  | untracked (i : ℕ)
  deriving DecidableEq

/-- The place after the turn at an index. -/
def Loop.next : Loop → Loop
  | .outside => .outside
  | .managed i => .managed (i + 1)
  | .untracked i => .untracked (i + 1)

structure Proc where
  m : CoroutineManager := {}
  loop : Loop := .outside
  running : Option CoroPtr := none
  returned : List ObjectHandle := []
  owed : List CoroPtr := []
  start : CoroutineManager := {}
  turns : ℕ := 0
  resumed : List CoroPtr := []
  early : List CoroPtr := []

inductive Op
  | createUntrackedCoroutine (clientstream : Option StreamId) (userData : Option ℕ) (freeCb : Bool)
  | createManagedCoroutine (userData : Option ℕ) (autodelete : Bool)
  | destroyCoroutine (handle : ObjectHandle)
  | cleanupDeadCoroutines
  | destroyAllCoroutines
  /-- `StepCoroutines` is called. -/
  | stepCoroutines
  /-- The next turn of a loop of `StepCoroutines`. -/
  | turn
  /-- The running body yields or ends. -/
  | leave (ended : Bool)

namespace Proc

variable (p : Proc)

/-- Code outside of coroutines or a body may call the manager. -/
def mayCall : Bool := p.loop = .outside || p.running.isSome

/-- The coroutine that is destroyed with `handle` before its turn has come. -/
def destroyedEarly (handle : ObjectHandle) : List CoroPtr :=
  match p.loop, p.m.mCoroutineData.get handle with
  | .managed i, some j => if i < j then (p.m.coroAt j).toList else []
  | _, _ => []

/-- The loop body resumes `co`. -/
def resume (co : CoroPtr) : Proc :=
  { p with m := p.m.setState co .running, running := some co, turns := p.turns + 1
           resumed := co :: p.resumed }

/-- The loop body resumes nothing, or the loop ends. -/
def goTo (loop : Loop) : Proc := { p with loop := loop, turns := p.turns + 1 }

/-- The loop body, with the coroutine at the index if that is suspended. -/
def body : Option CoroPtr → Proc
  | some co => p.resume co
  | none => p.goTo p.loop.next

/-- One turn of a loop of `StepCoroutines`. -/
def turn : Option Proc :=
  match p.loop with
  | .outside => none
  | .managed i =>
      if i < p.m.mCoroutineData.mData.length then some (p.body (p.m.suspendedManaged i))
      else some (p.goTo (.untracked 0))
  | .untracked i =>
      if i < p.m.mUntrackedCoroutines.length then some (p.body (p.m.suspendedUntracked i))
      else some (p.goTo .outside)

/-- The running body, `co`, yields or ends. -/
def left (co : CoroPtr) (ended : Bool) : Proc :=
  { p with m := p.m.setState co (if ended then .dead else .suspended)
           running := none, loop := p.loop.next }

/-- One step. -/
def step : Op → Option Proc
  | .createUntrackedCoroutine clientstream userData freeCb =>
      if p.mayCall then
        some { p with m := p.m.createUntrackedCoroutine clientstream userData freeCb
                      owed := if freeCb ∧ userData.isSome then p.owed ++ [p.m.nextCoro]
                              else p.owed }
      else none
  | .createManagedCoroutine userData autodelete =>
      if p.mayCall then
        some { p with m := p.m.createManagedCoroutine userData autodelete
                      returned := p.m.createdHandle :: p.returned }
      else none
  | .destroyCoroutine handle =>
      if p.mayCall then
        some { p with m := p.m.destroyCoroutine handle
                      early := p.destroyedEarly handle ++ p.early }
      else none
  | .cleanupDeadCoroutines =>
      if p.loop = .outside then some { p with m := p.m.cleanupDeadCoroutines } else none
  | .destroyAllCoroutines =>
      if p.loop = .outside then some { p with m := p.m.destroyAllCoroutines } else none
  | .stepCoroutines =>
      if p.loop = .outside then
        some { p with loop := .managed 0, start := p.m, turns := 0, resumed := [], early := [] }
      else none
  | .turn => if p.running = none then p.turn else none
  | .leave ended => p.running.map fun co => p.left co ended

end Proc

/-- The runs of a manager. -/
def proc : Machine Proc Op where
  init p := p = {}
  step p op := p.step op

/-- What the callers respect. -/
def Allowed (p : Proc) : Op → Prop
  | .createManagedCoroutine _ _ => p.m.managed.length < 2 ^ 15
  | .destroyCoroutine handle =>
      handle ∈ p.returned ∧ ∀ co ∈ p.running, p.m.getCoroutine handle ≠ some co
  | _ => True

instance : ∀ (p : Proc) (op : Op), Decidable (Allowed p op)
  | _, .createManagedCoroutine _ _ => Nat.decLt _ _
  | p, .destroyCoroutine handle =>
      have : Decidable (∀ co ∈ p.running, p.m.getCoroutine handle ≠ some co) :=
        Option.decidableForallMem _
      instDecidableAnd
  | _, .createUntrackedCoroutine _ _ _ => .isTrue trivial
  | _, .cleanupDeadCoroutines => .isTrue trivial
  | _, .destroyAllCoroutines => .isTrue trivial
  | _, .stepCoroutines => .isTrue trivial
  | _, .turn => .isTrue trivial
  | _, .leave _ => .isTrue trivial

/-! ## The invariant -/

structure Sound (p : Proc) : Prop where
  inv : Inv p.m p.running p.owed
  returned : ∀ h ∈ p.returned, Plain h
  outside : p.loop = .outside → p.running = none

theorem sound_init : Sound {} := ⟨inv_init, by simp, fun _ => rfl⟩

variable {p p' : Proc} {co : CoroPtr} {op : Op}

theorem of_guard {c : Prop} [Decidable c] {q : Proc} (h : (if c then some q else none) = some p') :
    c ∧ p' = q := by
  obtain ⟨hc, h⟩ := Option.ite_none_right_eq_some.1 h
  exact ⟨hc, (Option.some.inj h).symm⟩

namespace Sound

theorem outside_inv (hp : Sound p) (hout : p.loop = .outside) : Inv p.m none p.owed :=
  hp.outside hout ▸ hp.inv

theorem resume (hp : Sound p) (hrun : p.running = none) (hloop : p.loop ≠ .outside) :
    Sound (p.resume co) := by
  have hinv : Inv p.m none p.owed := hrun ▸ hp.inv
  exact ⟨hinv.setState (settled_resume hinv.settled), hp.returned, fun h => absurd h hloop⟩

theorem goTo (hp : Sound p) (hrun : p.running = none) (loop : Loop) : Sound (p.goTo loop) :=
  ⟨hp.inv, hp.returned, fun _ => hrun⟩

theorem body (hp : Sound p) (hrun : p.running = none) (hloop : p.loop ≠ .outside)
    (co : Option CoroPtr) : Sound (p.body co) := by
  cases co with
  | none => exact hp.goTo hrun _
  | some co => exact hp.resume hrun hloop

theorem turn (hp : Sound p) (hrun : p.running = none) (h : p.turn = some p') : Sound p' := by
  unfold Proc.turn at h
  split at h
  · cases h
  · next i hloop =>
    split at h
    · exact Option.some.inj h ▸ hp.body hrun (by simp [hloop]) _
    · exact Option.some.inj h ▸ hp.goTo hrun _
  · next i hloop =>
    split at h
    · exact Option.some.inj h ▸ hp.body hrun (by simp [hloop]) _
    · exact Option.some.inj h ▸ hp.goTo hrun _

/-- Every step keeps the invariant. -/
theorem step (hp : Sound p) (hok : Allowed p op) (h : p.step op = some p') : Sound p' := by
  cases op with
  | createUntrackedCoroutine clientstream userData freeCb =>
      obtain ⟨-, rfl⟩ := of_guard h
      exact ⟨hp.inv.createUntracked _ _ _, hp.returned, hp.outside⟩
  | createManagedCoroutine userData autodelete =>
      obtain ⟨-, rfl⟩ := of_guard h
      refine ⟨hp.inv.createManaged hok _ _, fun handle hh => ?_, hp.outside⟩
      rcases List.mem_cons.1 hh with rfl | hh
      · exact SlotMapTracker.plain_grantedHandle _
      · exact hp.returned handle hh
  | destroyCoroutine handle =>
      obtain ⟨-, rfl⟩ := of_guard h
      have hst := SSlotMap.not_storedByRemoved (m := p.m.mCoroutineData) (hp.returned _ hok.1)
      refine ⟨hp.inv.destroyCoroutine hst fun co hco hrun => ?_, hp.returned, hp.outside⟩
      exact hok.2 co hrun.symm hco
  | cleanupDeadCoroutines =>
      obtain ⟨hout, rfl⟩ := of_guard h
      refine ⟨?_, hp.returned, hp.outside⟩
      rw [hp.outside hout]
      exact (hp.outside_inv hout).cleanup
  | destroyAllCoroutines =>
      obtain ⟨hout, rfl⟩ := of_guard h
      refine ⟨?_, hp.returned, hp.outside⟩
      rw [hp.outside hout]
      exact (hp.outside_inv hout).destroyAll.1
  | stepCoroutines =>
      obtain ⟨hout, rfl⟩ := of_guard h
      exact ⟨hp.inv, hp.returned, fun _ => hp.outside hout⟩
  | turn =>
      obtain ⟨hrun, h⟩ := Option.ite_none_right_eq_some.1 h
      exact hp.turn hrun h
  | leave ended =>
      obtain ⟨co, hrun, rfl⟩ := Option.map_eq_some_iff.1 h
      have hinv : Inv p.m (some co) p.owed := hrun ▸ hp.inv
      refine ⟨hinv.setState (settled_leave hinv.settled ?_), hp.returned, fun _ => rfl⟩
      cases ended
      · exact .inl rfl
      · exact .inr rfl

theorem run (hp : proc.Run Allowed p) : Sound p := by
  refine hp.invariant (P := Sound) (fun p hinit => ?_) fun p op p' hsound hok hstep => ?_
  · exact hinit ▸ sound_init
  · exact hsound.step hok hstep

end Sound

end CoroutineManager

end ServerBase
