import ServerBase.Lib.Machine
import ServerBase.Logger.Logger

/-!
# Asynchronous logging

The machine of `log_log_async` in any number of producers, `log_async_thread` and `log_shutdown`.

**Atomicity.** `gAsyncMutex` is held from the return of `wait_for` to the end of its block, and no
producer pushes meanwhile; `gAsyncExit` is set without it. Whatever else the thread does is a step
of its own for every line and every buffer.

**The steps of the thread** (`threadStep_cases`). It moves on, takes the queue, checks for a new
day, writes a line, flushes or deletes a buffer.

**What is remembered.** Every line that was pushed, in order, and the buffers that were deleted.
-/

namespace ServerBase

/-- Where `log_async_thread` is. -/
inductive LogThread
  /-- In `wait_for`. -/
  | waiting
  /-- `wait_for` has returned. -/
  | locked
  /-- The exit flag was not set, or the queue was not empty. -/
  | deciding
  /-- The mutex is free again. -/
  | swapped (batch : List LineBuf)
  | writing (batch rest : List LineBuf)
  | deleting (rest : List LineBuf)
  | finished

namespace LogThread

/-- `gAsyncMutex` is held. -/
def isLocked : LogThread → Bool
  | locked => true
  | deciding => true
  | _ => false

def isFinished : LogThread → Bool
  | finished => true
  | _ => false

def isWriting : LogThread → Bool
  | writing _ _ => true
  | _ => false

/-- What was taken from the queue and is not written yet. -/
def unwritten : LogThread → List LineBuf
  | swapped batch => batch
  | writing _ rest => rest
  | _ => []

/-- What was taken from the queue and is not deleted yet. -/
def undeleted : LogThread → List LineBuf
  | swapped batch => batch
  | writing batch _ => batch
  | deleting rest => rest
  | _ => []

end LogThread

/-- Where `log_shutdown` is. -/
inductive LogShutdown
  | notCalled
  | exiting
  | joined
  | closed

namespace LogShutdown

/-- The thread was joined. -/
def isJoined : LogShutdown → Bool
  | joined => true
  | closed => true
  | _ => false

end LogShutdown

/-- The line in a buffer. -/
def LineBuf.line (b : LineBuf) : Bytes := cstr b.bytes

/-- The line that `log_log_async` pushes. -/
def LogCall.asyncLine (c : LogCall) : Bytes := cstr (c.fileLine.take (c.fileLen + 1).toNat)

/-- What the next step of the thread must not run into: the exit flag behind a swapped empty queue
while a line waits, and a sum that is no `int`. -/
def LogThread.Safe (l : Logger) : LogThread → Prop
  | swapped [] => l.gAsyncExit = true → l.gAsyncLogBuffer.isEmpty = true
  | writing _ (b :: _) => l.gFilePos + b.line.length ≤ INT_MAX
  | _ => True

instance LogThread.decidableSafe (l : Logger) : ∀ t : LogThread, Decidable (t.Safe l)
  | waiting => .isTrue trivial
  | locked => .isTrue trivial
  | deciding => .isTrue trivial
  | swapped [] =>
      inferInstanceAs (Decidable (l.gAsyncExit = true → l.gAsyncLogBuffer.isEmpty = true))
  | swapped (_ :: _) => .isTrue trivial
  | writing _ [] => .isTrue trivial
  | writing _ (b :: _) => inferInstanceAs (Decidable (l.gFilePos + b.line.length ≤ INT_MAX))
  | deleting _ => .isTrue trivial
  | finished => .isTrue trivial

/-- A line that fits into `file_line` is pushed as it was formatted. -/
theorem LogCall.asyncLine_eq (c : LogCall) (h : c.format.length < 8192) :
    c.asyncLine = c.format := by
  have hmax : c.format.length ≤ INT_MAX := Nat.le_trans (Nat.le_of_lt h) (by decide)
  have hlen : (c.fileLen + 1).toNat = c.format.length + 1 := by
    rw [fileLen, snprintf, if_pos hmax]
    omega
  have hline : c.fileLine = c.format ++ List.replicate (8192 - c.format.length) 0 := by
    rw [fileLine, snprintf, List.take_of_length_le (Nat.le_sub_one_of_lt h)]
  rw [asyncLine, hlen, hline, List.take_append, List.take_of_length_le (Nat.le_succ _),
    List.take_replicate]
  exact cstr_append_zeros c.noNul_format _

structure AsyncLog where
  log : Logger
  thread : LogThread := .waiting
  shutdown : LogShutdown := .notCalled
  pushed : List Bytes := []
  deleted : List ℕ := []

/-- What one step of the thread reads. -/
structure LogReadings where
  /-- `wait_for` times out. -/
  timedOut : Bool := false
  /-- Three seconds have passed since the last batch. -/
  late : Bool := false
  /-- The date in `check_new_log`. -/
  tbuf : Bytes := []
  /-- `fopen` of a new log file succeeds. -/
  opened : Bool := true

inductive AsyncInput
  | logLog (c : LogCall)
  | thread (r : LogReadings)
  | exit
  | join
  | close

namespace Logger

def gAsyncBufferLimit : ℕ := 120

/-- `log_set_async` before any other thread runs. -/
def logSetAsync (s : Logger) : Logger := { s with gLogAsync := true, gAsyncExit := false }

/-- The rest of `log_shutdown` after the join. -/
def logClose (s : Logger) : Logger :=
  let s := if 0 < s.gFilePos ∧ s.gLogFile.isSome then s.logFlush else s
  { s with gFileBuf := [], closed := s.closed ++ s.gLogFile.toList, gLogFile := none }

end Logger

namespace AsyncLog

variable (s : AsyncLog)

/-- `log_log` in some thread. -/
def logLog (c : LogCall) : AsyncLog :=
  { s with
    log := s.log.logLog c
    pushed := s.pushed ++
      if c.level.toNat < s.log.gLogMinLevel.toNat then [] else [c.asyncLine] }

/-- The predicate of `wait_for`. -/
def wakes : Bool := s.log.gAsyncExit || Logger.gAsyncBufferLimit ≤ s.log.gAsyncLogBuffer.length

/-- A step of `log_async_thread`. -/
def threadStep (r : LogReadings) : Option AsyncLog :=
  match s.thread with
  | .waiting => if s.wakes || r.timedOut then some { s with thread := .locked } else none
  | .locked =>
      if s.log.gAsyncExit && s.log.gAsyncLogBuffer.isEmpty then some { s with thread := .finished }
      else some { s with thread := .deciding }
  | .deciding =>
      if s.log.gAsyncLogBuffer.isEmpty && !r.late && !s.log.gAsyncExit then
        some { s with thread := .waiting }
      else
        some { s with
          log := { s.log with gAsyncLogBuffer := [] }
          thread := .swapped s.log.gAsyncLogBuffer }
  | .swapped [] =>
      if s.log.gAsyncExit then some { s with thread := .finished }
      else some { s with thread := .waiting }
  | .swapped (b :: batch) =>
      some { s with
        log := s.log.checkNewLog r.tbuf r.opened
        thread := .writing (b :: batch) (b :: batch) }
  | .writing batch (b :: rest) =>
      some { s with log := s.log.writeLine b.line, thread := .writing batch rest }
  | .writing batch [] => some { s with log := s.log.logFlush, thread := .deleting batch }
  | .deleting (b :: rest) =>
      some { s with deleted := b.id :: s.deleted, thread := .deleting rest }
  | .deleting [] => some { s with thread := .waiting }
  | .finished => none

/-- What a step of the thread does. -/
inductive ThreadStep (s : AsyncLog) (r : LogReadings) : AsyncLog → Prop
  /-- It goes on without lines and with the same buffers. It ends on the exit flag, with the queue
  empty or behind a swapped empty queue. -/
  | move {t t' : LogThread} (thread : s.thread = t) (going : t.isFinished = false)
      (from_writing : t.isWriting = false) (to_writing : t'.isWriting = false)
      (from_unwritten : t.unwritten = []) (to_unwritten : t'.unwritten = [])
      (undeleted : t'.undeleted = t.undeleted)
      (ends : t'.isFinished = true → s.log.gAsyncLogBuffer = [] ∨
        t = .swapped [] ∧ s.log.gAsyncExit = true) : ThreadStep s r { s with thread := t' }
  | swap (thread : s.thread = .deciding) : ThreadStep s r { s with
      log := { s.log with gAsyncLogBuffer := [] }
      thread := .swapped s.log.gAsyncLogBuffer }
  | check {b : LineBuf} {batch : List LineBuf} (thread : s.thread = .swapped (b :: batch)) :
      ThreadStep s r { s with
        log := s.log.checkNewLog r.tbuf r.opened
        thread := .writing (b :: batch) (b :: batch) }
  | write {b : LineBuf} {batch rest : List LineBuf}
      (thread : s.thread = .writing batch (b :: rest)) :
      ThreadStep s r { s with log := s.log.writeLine b.line, thread := .writing batch rest }
  | flush {batch : List LineBuf} (thread : s.thread = .writing batch []) :
      ThreadStep s r { s with log := s.log.logFlush, thread := .deleting batch }
  | delete {b : LineBuf} {rest : List LineBuf} (thread : s.thread = .deleting (b :: rest)) :
      ThreadStep s r { s with deleted := b.id :: s.deleted, thread := .deleting rest }

variable {s} in
/-- **The steps of the thread.** -/
theorem threadStep_cases {s' : AsyncLog} {r : LogReadings} (hs : s.threadStep r = some s') :
    ThreadStep s r s' := by
  unfold threadStep at hs
  cases hthread : s.thread with
  | waiting =>
      simp only [hthread, Option.ite_none_right_eq_some, Option.some.injEq] at hs
      obtain ⟨-, rfl⟩ := hs
      exact .move hthread rfl rfl rfl rfl rfl rfl fun hend => by cases hend
  | locked =>
      simp only [hthread] at hs
      split at hs
      · next hempty =>
        obtain rfl := Option.some.inj hs
        exact .move hthread rfl rfl rfl rfl rfl rfl fun _ =>
          .inl (List.isEmpty_iff.1 (Bool.and_eq_true_iff.1 hempty).2)
      · obtain rfl := Option.some.inj hs
        exact .move hthread rfl rfl rfl rfl rfl rfl fun hend => by cases hend
  | deciding =>
      simp only [hthread] at hs
      split at hs
      · obtain rfl := Option.some.inj hs
        exact .move hthread rfl rfl rfl rfl rfl rfl fun hend => by cases hend
      · obtain rfl := Option.some.inj hs
        exact .swap hthread
  | swapped batch =>
      cases batch with
      | nil =>
          simp only [hthread] at hs
          split at hs
          · next hexit =>
            obtain rfl := Option.some.inj hs
            exact .move hthread rfl rfl rfl rfl rfl rfl fun _ => .inr ⟨rfl, hexit⟩
          · obtain rfl := Option.some.inj hs
            exact .move hthread rfl rfl rfl rfl rfl rfl fun hend => by cases hend
      | cons b batch =>
          simp only [hthread] at hs
          obtain rfl := Option.some.inj hs
          exact .check hthread
  | writing batch rest =>
      cases rest with
      | nil =>
          simp only [hthread] at hs
          obtain rfl := Option.some.inj hs
          exact .flush hthread
      | cons b rest =>
          simp only [hthread] at hs
          obtain rfl := Option.some.inj hs
          exact .write hthread
  | deleting rest =>
      cases rest with
      | nil =>
          simp only [hthread] at hs
          obtain rfl := Option.some.inj hs
          exact .move hthread rfl rfl rfl rfl rfl rfl fun hend => by cases hend
      | cons b rest =>
          simp only [hthread] at hs
          obtain rfl := Option.some.inj hs
          exact .delete hthread
  | finished =>
      simp only [hthread] at hs
      cases hs

def step : AsyncInput → Option AsyncLog
  | .logLog c => if s.thread.isLocked then none else some (s.logLog c)
  | .thread r => s.threadStep r
  | .exit =>
      match s.shutdown with
      | .notCalled =>
          some { s with log := { s.log with gAsyncExit := true }, shutdown := .exiting }
      | _ => none
  | .join =>
      match s.shutdown with
      | .exiting => if s.thread.isFinished then some { s with shutdown := .joined } else none
      | _ => none
  | .close =>
      match s.shutdown with
      | .joined => some { s with log := s.log.logClose, shutdown := .closed }
      | _ => none

/-- After `log_init` and `log_set_async`. -/
def start (level : LogLevel) (flushCacheSz : BitVec 32) (timing : Bytes) (garbage : ℕ → UInt8) :
    AsyncLog where
  log := (Logger.logInit level flushCacheSz timing true garbage).logSetAsync

/-- The log file can be opened, and no line is pushed once the thread is about to end. -/
def Allowed (s : AsyncLog) : AsyncInput → Prop
  | .logLog _ => s.thread.isFinished = false
  | .thread r => r.opened = true
  | _ => True

def Safe (s : AsyncLog) : AsyncInput → Prop
  | .thread _ => s.thread.Safe s.log
  | _ => True

instance decidableAllowed (s : AsyncLog) : ∀ i, Decidable (s.Allowed i)
  | .logLog _ => inferInstanceAs (Decidable (s.thread.isFinished = false))
  | .thread r => inferInstanceAs (Decidable (r.opened = true))
  | .exit => .isTrue trivial
  | .join => .isTrue trivial
  | .close => .isTrue trivial

instance decidableSafe (s : AsyncLog) : ∀ i, Decidable (s.Safe i)
  | .logLog _ => .isTrue trivial
  | .thread _ => inferInstanceAs (Decidable (s.thread.Safe s.log))
  | .exit => .isTrue trivial
  | .join => .isTrue trivial
  | .close => .isTrue trivial

end AsyncLog

/-- Asynchronous logging with a flush cache of any size. -/
def asyncLogging : Machine AsyncLog AsyncInput where
  init s := ∃ level flushCacheSz timing garbage,
    s = AsyncLog.start level flushCacheSz timing garbage
  step := AsyncLog.step

end ServerBase
