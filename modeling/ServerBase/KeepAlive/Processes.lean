import Mathlib.Data.List.Basic
import ServerBase.Lib.Machine

/-!
# The processes of a server

What a server's `main` does before it serves: `process_exist`, `daemon` and
`fork_process_and_keepalive`, with `init_signals` and `signal_handler`, of `utils/os_utils.cpp`.

**The system** (`System`). Any number of processes of one server, by pid. A process is between two
system calls (`Pc`). It goes on, is ended or gets a signal in any order with the others. A fork
copies the descriptor of the lock file, and both descriptors stand for one open file description.
The lock of `flock` belongs to the description: it is free again when no process has it any more.

**Signals.** A launch starts with the default handlers. Those of `init_signals` and the `signal`
calls after it are set in one step; until the process waits, a handler that only logs is as good as
an ignored signal. A stopped process is one that takes no step. `waitpid` is told only of children
that have ended, and what a process leaves behind is kept.

**Moves** (`step_moves`). Every step is a launch, a call of `open` or `flock` that succeeds, a
change of one process, a fork or an end.
-/

namespace ServerBase

namespace KeepAlive

abbrev Pid := ℕ

/-- An open file description. -/
abbrev FileId := ℕ

/-- The signals whose handlers are set, `SIGKILL`, and any other signal, whose default action ends
the process or does not. -/
inductive Signal
  | usr1 | ttin | ttou | quit | term | segv | abrt | pipe | chld | int | kill
  | other (ends : Bool)
  deriving DecidableEq

/-- The default action ends the process; otherwise the signal is ignored, or stops it. -/
def Signal.ends : Signal → Bool
  | .usr1 | .quit | .term | .segv | .abrt | .pipe | .int | .kill => true
  | .ttin | .ttou | .chld => false
  | .other ends => ends

inductive Handler
  | dfl
  | ign
  | signalHandler
  deriving DecidableEq

/-- `init_signals`; `SIGKILL` cannot be handled. -/
def initSignals : Signal → Handler
  | .usr1 | .ttin | .ttou | .quit | .term | .segv | .abrt => .signalHandler
  | .pipe | .chld | .int | .kill | .other _ => .dfl

/-- The handlers of the parent: `init_signals` and four calls of `signal`. -/
def parentSignals : Signal → Handler
  | .usr1 | .ttin | .ttou => .ign
  | .quit | .term | .segv | .abrt => .signalHandler
  | .pipe | .chld | .int | .kill | .other _ => .dfl

/-- What `waitpid` tells of a child. -/
inductive Status
  | exited (code : Int)
  | signaled (signo : Signal)
  deriving DecidableEq

def EXIT_SUCCESS : Int := 0
def EXIT_FAILURE : Int := 1

/-- What a process does next. -/
inductive Pc
  | processExist
  | flock
  | setProcessLimits
  | daemon
  | daemonExit
  | fork
  | child
  | parent (pid : Pid)
  | waitpid (pid : Pid)
  | waiting (pid : Pid)
  | usleep
  | serving
  deriving DecidableEq

structure Process where
  parent : Option Pid := none
  pc : Pc := .processExist
  fd : Option FileId := none
  handlers : Signal → Handler := fun _ => .dfl
  gSignalExit : Bool := false
  restartCount : UInt32 := 0

/-- `signal_handler`; `none` when it raises the signal again, whose handler is reset by then. -/
def Process.signalHandler (p : Process) : Signal → Option Process
  | .quit | .term => some { p with gSignalExit := true }
  | .segv | .abrt => none
  | .usr1 | .ttin | .ttou | .pipe | .chld | .int | .kill | .other _ => some p

/-- A signal is delivered; `none` when it ends the process. -/
def Process.deliver (p : Process) (signo : Signal) : Option Process :=
  match p.handlers signo with
  | .dfl => if signo.ends then none else some p
  | .ign => some p
  | .signalHandler => p.signalHandler signo

inductive Slot
  | running (p : Process)
  | ended (p : Process) (status : Status)

namespace Slot

def process : Slot → Process
  | .running p => p
  | .ended p _ => p

def status : Slot → Option Status
  | .running _ => none
  | .ended _ status => some status

/-- The open file description a slot keeps alive. -/
def fd : Slot → Option FileId
  | .running p => p.fd
  | .ended _ _ => none

end Slot

/-- The processes by pid, the number of open file descriptions there have been, and the one that
was locked last. -/
structure System where
  procs : List Slot := []
  files : ℕ := 0
  lock : Option FileId := none

namespace System

variable (s : System)

def setProcess (pid : Pid) (p : Process) : System :=
  { s with procs := s.procs.set pid (.running p) }

def push (p : Process) : System := { s with procs := s.procs ++ [.running p] }

def finish (pid : Pid) (p : Process) (status : Status) : System :=
  { s with procs := s.procs.set pid (.ended p status) }

/-- A new description can lock the file. -/
def lockFree : Bool := s.lock.all fun file => s.procs.all fun slot => slot.fd != some file

def statusOf (pid : Pid) : Option Status := (s.procs[pid]?).bind Slot.status

def parentOf (pid : Pid) : Option Pid := (s.procs[pid]?).bind fun slot => slot.process.parent

/-- `fork_process_and_keepalive`, behind a `waitpid` that returns the status of the child. -/
def reaped (pid : Pid) (p : Process) : Status → System
  | .exited _ => s.finish pid p (.exited EXIT_SUCCESS)
  | .signaled _ => s.setProcess pid { p with pc := .usleep }

/-- A process takes its next step; `ok` says whether the system call it makes succeeds. A process
that serves goes on in its event loops. -/
def run (developerBuild : Bool) (pid : Pid) (p : Process) (ok : Bool) : Option System :=
  match p.pc with
  | .processExist =>
      if ok then
        some { s.setProcess pid { p with pc := .flock, fd := some s.files } with
          files := s.files + 1 }
      else some (s.finish pid p (.exited EXIT_FAILURE))
  | .flock =>
      if ok && s.lockFree then
        some { s.setProcess pid { p with pc := .setProcessLimits } with lock := p.fd }
      else some (s.finish pid p (.exited EXIT_FAILURE))
  | .setProcessLimits =>
      if ok then some (s.setProcess pid { p with pc := .daemon })
      else some (s.finish pid p (.exited EXIT_FAILURE))
  | .daemon =>
      -- `main` does not look at the result
      if ok then
        some ((s.setProcess pid { p with pc := .daemonExit }).push
          { p with parent := some pid, pc := .fork })
      else some (s.setProcess pid { p with pc := .fork })
  | .daemonExit => some (s.finish pid p (.exited EXIT_SUCCESS))
  | .fork =>
      if developerBuild && 5 ≤ p.restartCount then some (s.setProcess pid { p with pc := .serving })
      else if ok then
        some ((s.setProcess pid { p with pc := .parent s.procs.length }).push
          { p with parent := some pid, pc := .child })
      else some (s.finish pid p (.exited EXIT_FAILURE))
  | .child => some (s.setProcess pid { p with pc := .serving, handlers := initSignals })
  | .parent child =>
      some (s.setProcess pid { p with pc := .waitpid child, handlers := parentSignals })
  | .waitpid child =>
      match s.statusOf child with
      | none => some (s.setProcess pid { p with pc := .waiting child })
      | some status => some (s.reaped pid p status)
  | .waiting child => (s.statusOf child).map (s.reaped pid p)
  | .usleep => some (s.setProcess pid { p with pc := .fork, restartCount := p.restartCount + 1 })
  | .serving => none

/-- The process is inside of `waitpid`, and the child has not ended. -/
def blocked (p : Process) : Bool :=
  match p.pc with
  | .waiting child => (s.statusOf child).isNone
  | .processExist | .flock | .setProcessLimits | .daemon | .daemonExit | .fork | .child
  | .parent _ | .waitpid _ | .usleep | .serving => false

/-- A process gets a signal. A handler that returns interrupts `waitpid`, and the parent exits. -/
def signal (pid : Pid) (p : Process) (signo : Signal) : System :=
  match p.deliver signo with
  | none => s.finish pid p (.signaled signo)
  | some p' =>
      if s.blocked p && p.handlers signo == .signalHandler then
        s.finish pid p' (.exited (if p'.gSignalExit then EXIT_SUCCESS else EXIT_FAILURE))
      else s.setProcess pid p'

end System

inductive Input
  | launch
  | run (pid : Pid) (ok : Bool)
  | signal (pid : Pid) (signo : Signal)
  | exit (pid : Pid) (code : Int)

/-- What a running process does. -/
def System.act (s : System) (pid : Pid) (next : Process → Option System) : Option System :=
  match s.procs[pid]? with
  | none => none
  | some (.ended _ _) => none
  | some (.running p) => next p

def System.step (developerBuild : Bool) (s : System) : Input → Option System
  | .launch => some (s.push {})
  | .run pid ok => s.act pid fun p => s.run developerBuild pid p ok
  | .signal pid signo => s.act pid fun p => some (s.signal pid p signo)
  | .exit pid code =>
      s.act pid fun p => if p.pc = .serving then some (s.finish pid p (.exited code)) else none

def processes (developerBuild : Bool) : Machine System Input where
  init s := s = {}
  step := System.step developerBuild

/-! ## Moves -/

/-- The process waits for the child, or is about to. -/
def Pc.waitsFor : Pc → Option Pid
  | .parent pid | .waitpid pid | .waiting pid => some pid
  | .processExist | .flock | .setProcessLimits | .daemon | .daemonExit | .fork | .child | .usleep
  | .serving => none

def System.Running (s : System) (pid : Pid) (p : Process) : Prop :=
  s.procs[pid]? = some (.running p)

def System.Ended (s : System) (pid : Pid) (p : Process) (status : Status) : Prop :=
  s.procs[pid]? = some (.ended p status)

/-- A process goes on. -/
inductive Changed (s : System) (p : Process) : Process → Prop
  | limits : p.pc = .setProcessLimits → Changed s p { p with pc := .daemon }
  | notDaemon : p.pc = .daemon → Changed s p { p with pc := .fork }
  | returned : p.pc = .fork → 5 ≤ p.restartCount →
      Changed s p { p with pc := .serving }
  | child : p.pc = .child →
      Changed s p { p with pc := .serving, handlers := initSignals }
  | parent {child : Pid} : p.pc = .parent child →
      Changed s p { p with pc := .waitpid child, handlers := parentSignals }
  | waits {child : Pid} : p.pc = .waitpid child →
      Changed s p { p with pc := .waiting child }
  | crashed {child : Pid} {signo : Signal} : p.pc = .waitpid child ∨ p.pc = .waiting child →
      s.statusOf child = some (.signaled signo) → Changed s p { p with pc := .usleep }
  | slept : p.pc = .usleep →
      Changed s p { p with pc := .fork, restartCount := p.restartCount + 1 }
  | signal {signo : Signal} {p' : Process} : p.deliver signo = some p' →
      Changed s p p'

/-- A process forks: what it and its child are then. -/
inductive Forked (s : System) (pid : Pid) (p : Process) : Process → Process → Prop
  | daemon : p.pc = .daemon →
      Forked s pid p { p with pc := .daemonExit } { p with parent := some pid, pc := .fork }
  | fork : p.pc = .fork →
      Forked s pid p { p with pc := .parent s.procs.length }
        { p with parent := some pid, pc := .child }

/-- A process is ended. -/
inductive Finished (s : System) (p : Process) : Process → Status → Prop
  | failed : p.pc = .processExist ∨ p.pc = .flock ∨ p.pc = .setProcessLimits ∨ p.pc = .fork →
      Finished s p p (.exited EXIT_FAILURE)
  | daemonExit : p.pc = .daemonExit → Finished s p p (.exited EXIT_SUCCESS)
  | childExited {child : Pid} {code : Int} : p.pc = .waitpid child ∨ p.pc = .waiting child →
      s.statusOf child = some (.exited code) → Finished s p p (.exited EXIT_SUCCESS)
  | interrupted {child : Pid} {signo : Signal} {p' : Process} : p.pc = .waiting child →
      p.handlers signo = .signalHandler → p.deliver signo = some p' →
      Finished s p p' (.exited (if p'.gSignalExit then EXIT_SUCCESS else EXIT_FAILURE))
  | served {code : Int} : p.pc = .serving → Finished s p p (.exited code)
  | signaled {signo : Signal} : p.deliver signo = none → Finished s p p (.signaled signo)

/-- What a step can do. -/
inductive Move (s : System) : System → Prop
  | launched : Move s (s.push {})
  | opened {pid : Pid} {p : Process} : s.Running pid p → p.pc = .processExist →
      Move s
        { s.setProcess pid { p with pc := .flock, fd := some s.files } with files := s.files + 1 }
  | locked {pid : Pid} {p : Process} : s.Running pid p → p.pc = .flock → s.lockFree = true →
      Move s { s.setProcess pid { p with pc := .setProcessLimits } with lock := p.fd }
  | changed {pid : Pid} {p p' : Process} : s.Running pid p → Changed s p p' →
      Move s (s.setProcess pid p')
  | forked {pid : Pid} {p p' q : Process} : s.Running pid p → Forked s pid p p' q →
      Move s ((s.setProcess pid p').push q)
  | finished {pid : Pid} {p p' : Process} {status : Status} : s.Running pid p →
      Finished s p p' status → Move s (s.finish pid p' status)

variable {developerBuild : Bool} {s s' : System} {pid : Pid} {p p' : Process} {ok : Bool}

theorem act_some {next : Process → Option System} (h : s.act pid next = some s') :
    ∃ p, s.Running pid p ∧ next p = some s' := by
  unfold System.act at h
  unfold System.Running
  cases hs : s.procs[pid]? with
  | none => simp [hs] at h
  | some slot =>
      cases slot with
      | ended p status => simp [hs] at h
      | running p =>
          rw [hs] at h
          exact ⟨p, rfl, h⟩

theorem reaped_moves {child : Pid} {status : Status} (hp : s.Running pid p)
    (hpc : p.pc = .waitpid child ∨ p.pc = .waiting child)
    (hstatus : s.statusOf child = some status) :
    Move s (s.reaped pid p status) := by
  cases status with
  | exited code => exact .finished hp (.childExited hpc hstatus)
  | signaled signo => exact .changed hp (.crashed hpc hstatus)

theorem run_moves (hp : s.Running pid p) (h : s.run developerBuild pid p ok = some s') :
    Move s s' := by
  unfold System.run at h
  cases hpc : p.pc with
  | processExist =>
      rw [hpc] at h
      cases ok with
      | true => exact Option.some.inj h ▸ .opened hp hpc
      | false => exact Option.some.inj h ▸ .finished hp (.failed (.inl hpc))
  | flock =>
      rw [hpc] at h
      by_cases hfree : (ok && s.lockFree) = true
      · simp only [hfree, if_true] at h
        exact Option.some.inj h ▸ .locked hp hpc (Bool.and_eq_true_iff.1 hfree).2
      · simp only [hfree] at h
        exact Option.some.inj h ▸ .finished hp (.failed (.inr (.inl hpc)))
  | setProcessLimits =>
      rw [hpc] at h
      cases ok with
      | true => exact Option.some.inj h ▸ .changed hp (.limits hpc)
      | false => exact Option.some.inj h ▸ .finished hp (.failed (.inr (.inr (.inl hpc))))
  | daemon =>
      rw [hpc] at h
      cases ok with
      | true => exact Option.some.inj h ▸ .forked hp (.daemon hpc)
      | false => exact Option.some.inj h ▸ .changed hp (.notDaemon hpc)
  | daemonExit =>
      rw [hpc] at h
      exact Option.some.inj h ▸ .finished hp (.daemonExit hpc)
  | fork =>
      rw [hpc] at h
      by_cases hdone : (developerBuild && 5 ≤ p.restartCount) = true
      · simp only [hdone, if_true] at h
        have hcount := of_decide_eq_true (Bool.and_eq_true_iff.1 hdone).2
        exact Option.some.inj h ▸ .changed hp (.returned hpc hcount)
      · simp only [hdone] at h
        cases ok with
        | true => exact Option.some.inj h ▸ .forked hp (.fork hpc)
        | false => exact Option.some.inj h ▸ .finished hp (.failed (.inr (.inr (.inr hpc))))
  | child =>
      rw [hpc] at h
      exact Option.some.inj h ▸ .changed hp (.child hpc)
  | parent child =>
      rw [hpc] at h
      exact Option.some.inj h ▸ .changed hp (.parent hpc)
  | waitpid child =>
      simp only [hpc] at h
      cases hstatus : s.statusOf child with
      | none =>
          rw [hstatus] at h
          exact Option.some.inj h ▸ .changed hp (.waits hpc)
      | some status =>
          rw [hstatus] at h
          exact Option.some.inj h ▸ reaped_moves hp (.inl hpc) hstatus
  | waiting child =>
      simp only [hpc] at h
      obtain ⟨status, hstatus, rfl⟩ := Option.map_eq_some_iff.1 h
      exact reaped_moves hp (.inr hpc) hstatus
  | usleep =>
      rw [hpc] at h
      exact Option.some.inj h ▸ .changed hp (.slept hpc)
  | serving =>
      rw [hpc] at h
      cases h

theorem blocked_iff : s.blocked p = true ↔ ∃ child, p.pc = .waiting child ∧
    s.statusOf child = none := by
  unfold System.blocked
  cases hpc : p.pc <;> simp

theorem signal_moves (hp : s.Running pid p) (signo : Signal) :
    Move s (s.signal pid p signo) := by
  unfold System.signal
  cases hdeliver : p.deliver signo with
  | none => exact .finished hp (.signaled hdeliver)
  | some p' =>
      by_cases hint : (s.blocked p && p.handlers signo == .signalHandler) = true
      · simp only [hint, if_true]
        obtain ⟨hblocked, hhandler⟩ := Bool.and_eq_true_iff.1 hint
        obtain ⟨child, hpc, -⟩ := blocked_iff.1 hblocked
        exact .finished hp (.interrupted hpc (eq_of_beq hhandler) hdeliver)
      · simp only [hint]
        exact .changed hp (.signal hdeliver)

/-- **Every step is a move.** -/
theorem step_moves {i : Input} (h : s.step developerBuild i = some s') :
    Move s s' := by
  cases i with
  | launch => exact Option.some.inj h ▸ .launched
  | run pid ok =>
      obtain ⟨p, hp, h⟩ := act_some h
      exact run_moves hp h
  | signal pid signo =>
      obtain ⟨p, hp, h⟩ := act_some h
      exact Option.some.inj h ▸ signal_moves hp signo
  | exit pid code =>
      obtain ⟨p, hp, h⟩ := act_some h
      by_cases hpc : p.pc = .serving
      · rw [if_pos hpc] at h
        exact Option.some.inj h ▸ .finished hp (.served hpc)
      · rw [if_neg hpc] at h
        cases h

end KeepAlive

end ServerBase
