import Mathlib.Logic.Function.Basic
import ServerBase.Network
import ServerBase.Slotmap.SSlotMap

/-!
# The coroutine manager

`CoroutineManager` of `utils/coroutine_mgt.cpp`. Managed coroutines live in a slot map and are known
by their handles, untracked ones in a vector.

**Coroutines** (`McoCoro`). A coroutine is named by the order of its creation, and its entry stays
when it is destroyed, so that a pointer kept too long still has a name. `mco_create` succeeds; a
failure runs into an assertion.

**Loops.** The loops over both stores count with a `uint`. It does not wrap: a coroutine has 56 KiB
of stack, and `2 ^ 32` of them do not fit into the address space.

**The log.** What the theorems about a run speak of is recorded newest first.
-/

namespace ServerBase

namespace CoroutineManager

/-- `mco_coro *` -/
abbrev CoroPtr := ℕ

/-- `mco_state` -/
inductive McoState
  | dead
  | normal
  | running
  | suspended
  deriving DecidableEq

/-- `mco_coro`; `userData` is a pointer. -/
structure McoCoro where
  state : McoState := .suspended
  userData : Option ℕ := none

/-- What is in a `Coro` beside its handle. -/
structure Coro where
  mCoro : Option CoroPtr := none
  mAutoDelete : Bool := false

instance : Inhabited Coro := ⟨{}⟩

structure Coro2 where
  mCoro : Option CoroPtr := none
  mStream : Option StreamId := none
  /-- The callback is not null. -/
  mUserDataFreeCb : Bool := false

inductive Event
  /-- `mUserDataFreeCb(coro.mCoro->user_data)`, with the state of the coroutine. -/
  | freed (co : CoroPtr) (data : ℕ) (state : McoState)
  /-- `mco_destroy` succeeded. -/
  | destroyed (co : CoroPtr)
  /-- `DestroyAllCoroutines` is entered. -/
  | destroyAll
  /-- `DestroyAllCoroutines` returns. -/
  | allDestroyed
  | uvClose (stream : StreamId)
  /-- `uv_is_closing` reads a null stream. -/
  | nullStream
  deriving DecidableEq

end CoroutineManager

structure CoroutineManager where
  mCoroutineData : SSlotMap CoroutineManager.Coro := {}
  mUntrackedCoroutines : List CoroutineManager.Coro2 := []
  coros : CoroutineManager.CoroPtr → CoroutineManager.McoCoro := fun _ => {}
  nextCoro : CoroutineManager.CoroPtr := 0
  closing : StreamId → Bool := fun _ => false
  log : List CoroutineManager.Event := []

namespace CoroutineManager

variable (m : CoroutineManager)

/-! ## minicoro and libuv -/

def setState (co : CoroPtr) (state : McoState) : CoroutineManager :=
  { m with coros := Function.update m.coros co { m.coros co with state := state } }

/-- `mco_create`; the new coroutine is `m.nextCoro`. -/
def mcoCreate (userData : Option ℕ) : CoroutineManager :=
  { m with coros := Function.update m.coros m.nextCoro { userData := userData }
           nextCoro := m.nextCoro + 1 }

/-- `mco_destroy`: a null pointer, or a coroutine that is not dead or suspended, is an error. -/
def mcoDestroy : Option CoroPtr → CoroutineManager
  | none => m
  | some co =>
      if (m.coros co).state = .suspended ∨ (m.coros co).state = .dead then
        { m.setState co .dead with log := .destroyed co :: m.log }
      else m

/-- `SAFE_UV_CLOSE(stream, free)` -/
def safeUvClose : Option StreamId → CoroutineManager
  | none => { m with log := .nullStream :: m.log }
  | some stream =>
      if m.closing stream then m
      else { m with closing := Function.update m.closing stream true
                    log := .uvClose stream :: m.log }

/-! ## Creating and destroying -/

/-- `CreateUntrackedCoroutine` -/
def createUntrackedCoroutine (clientstream : Option StreamId) (userData : Option ℕ)
    (userDataFreeCb : Bool) : CoroutineManager :=
  { m.mcoCreate userData with
    mUntrackedCoroutines := m.mUntrackedCoroutines ++
      [{ mCoro := some m.nextCoro, mStream := clientstream, mUserDataFreeCb := userDataFreeCb }] }

/-- The slot map after `Add`, with the new entry written. -/
def addCoro (coro : Coro) : SSlotMap Coro :=
  m.mCoroutineData.add.write m.mCoroutineData.addIndex coro

/-- `CreateManagedCoroutine` -/
def createManagedCoroutine (userData : Option ℕ) (autodelete : Bool) : CoroutineManager :=
  { m.mcoCreate userData with
    mCoroutineData := m.addCoro { mCoro := some m.nextCoro, mAutoDelete := autodelete } }

/-- The handle `CreateManagedCoroutine` returns. -/
def createdHandle : ObjectHandle := m.mCoroutineData.mTracker.grantedHandle

/-- `coro->mCoro` for the entry `i`. -/
def coroAt (i : ℕ) : Option CoroPtr := (m.mCoroutineData.mData[i]?).bind fun e => e.val.mCoro

/-- `GetCoroutine` -/
def getCoroutine (handle : ObjectHandle) : Option CoroPtr :=
  match m.mCoroutineData.get handle with
  | none => none
  | some i => m.coroAt i

/-- `coro->mCoro = nullptr` for the entry `i`. -/
def clearCoro (i : ℕ) : CoroutineManager :=
  { m with mCoroutineData :=
      { m.mCoroutineData with mData := m.mCoroutineData.mData.modify i fun e =>
          { e with val := { e.val with mCoro := none } } } }

/-- The coroutine of the entry `i` is destroyed, if there is one. -/
def destroyEntry (i : ℕ) : CoroutineManager :=
  match m.coroAt i with
  | none => m
  | some co => (m.mcoDestroy (some co)).clearCoro i

/-- `DestroyCoroutine` -/
def destroyCoroutine (handle : ObjectHandle) : CoroutineManager :=
  let m' := match m.mCoroutineData.get handle with
    | none => m
    | some i => m.destroyEntry i
  { m' with mCoroutineData := m'.mCoroutineData.remove handle }

/-! ## Reaping -/

/-- The body of the first loop of `CleanupDeadCoroutines`. -/
def cleanupEntry (i : ℕ) : CoroutineManager :=
  match m.mCoroutineData.entryAt i with
  | none => m
  | some coro =>
      match coro.val.mCoro with
      | none => m
      | some co =>
          if coro.val.mAutoDelete ∧ (m.coros co).state = .dead then m.destroyCoroutine coro.mHandle
          else m

/-- The callback for the user data, where there are both. -/
def freeUserData (coro : Coro2) : CoroutineManager :=
  match coro.mCoro with
  | none => m
  | some co =>
      match (m.coros co).userData with
      | none => m
      | some data =>
          if coro.mUserDataFreeCb then
            { m with log := .freed co data (m.coros co).state :: m.log }
          else m

/-- What both reaping functions do with an untracked coroutine. -/
def reap (coro : Coro2) : CoroutineManager :=
  ((m.freeUserData coro).mcoDestroy coro.mCoro).safeUvClose coro.mStream

/-- `coro.mCoro && mco_status(coro.mCoro) == MCO_DEAD` -/
def isDead (coro : Coro2) : Bool :=
  match coro.mCoro with
  | none => false
  | some co => (m.coros co).state = .dead

/-- The second loop of `CleanupDeadCoroutines` from index `i`, with `n` entries left to visit. -/
def cleanupUntracked (m : CoroutineManager) (i : ℕ) : ℕ → CoroutineManager
  | 0 => m
  | n + 1 =>
      match m.mUntrackedCoroutines[i]? with
      | none => m
      | some coro =>
          if m.isDead coro then
            cleanupUntracked { m.reap coro with
              mUntrackedCoroutines := m.mUntrackedCoroutines.eraseIdx i } i n
          else cleanupUntracked m (i + 1) n

/-- `CleanupDeadCoroutines`; removing entries does not change the size of the slot map. -/
def cleanupDeadCoroutines : CoroutineManager :=
  let m' := (List.range m.mCoroutineData.mData.length).foldl cleanupEntry m
  m'.cleanupUntracked 0 m'.mUntrackedCoroutines.length

/-- The body of the first loop of `DestroyAllCoroutines`. -/
def destroyLiveEntry (i : ℕ) : CoroutineManager :=
  match m.mCoroutineData.entryAt i with
  | none => m
  | some _ => m.destroyEntry i

/-- `DestroyAllCoroutines` -/
def destroyAllCoroutines : CoroutineManager :=
  let m' := (List.range m.mCoroutineData.mData.length).foldl destroyLiveEntry
    { m with log := .destroyAll :: m.log }
  let m' := m'.mUntrackedCoroutines.foldl reap { m' with mCoroutineData := {} }
  { m' with mUntrackedCoroutines := [], log := .allDestroyed :: m'.log }

/-- `GetCoroutineCount`, a sum of two numbers cut to `int`. -/
def getCoroutineCount : BitVec 32 :=
  m.mCoroutineData.count + BitVec.ofNat 32 m.mUntrackedCoroutines.length

/-! ## Stepping -/

/-- The coroutine the first loop of `StepCoroutines` resumes at `i`. -/
def suspendedManaged (i : ℕ) : Option CoroPtr :=
  match m.mCoroutineData.entryAt i with
  | none => none
  | some coro =>
      match coro.val.mCoro with
      | none => none
      | some co => if (m.coros co).state = .suspended then some co else none

/-- The coroutine the second loop of `StepCoroutines` resumes at `i`. -/
def suspendedUntracked (i : ℕ) : Option CoroPtr :=
  match m.mUntrackedCoroutines[i]? with
  | none => none
  | some coro =>
      match coro.mCoro with
      | none => none
      | some co => if (m.coros co).state = .suspended then some co else none

end CoroutineManager

end ServerBase
