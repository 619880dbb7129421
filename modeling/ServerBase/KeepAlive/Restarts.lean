import ServerBase.KeepAlive.OneServer

/-!
# Restarts and ends

What `fork_process_and_keepalive` makes of the end of a child, and what the signals of an
administrator do.

**Restarts** (`Restarts`). A parent forks again only when the child before has been ended by a
signal. So of the children of one process all but the last have been ended by signals.

**Ends** (`Ends`). A parent that exits behind `waitpid` exits with success: its child has exited, or
the parent has been told to stop. `SIGTERM` and `SIGQUIT` never end a process that serves. They set
`gSignalExit`, which is read behind `waitpid` only. Sent to the parent they end the parent and leave
the child, which keeps the lock.
-/

namespace ServerBase

namespace KeepAlive

variable {developerBuild : Bool} {s s' : System} {pid i j : Pid} {p p' q : Process}
  {status : Status}

/-! ## What a move keeps -/

theorem parentOf_set (slot : Slot) (hp : s.Running pid p) (hparent : slot.process.parent = p.parent)
    {lock : Option FileId} {files : ℕ} (i : Pid) :
    System.parentOf { procs := s.procs.set pid slot, lock, files } i = s.parentOf i := by
  simp only [System.parentOf, List.getElem?_set]
  by_cases hi : pid = i
  · subst hi
    rw [if_pos rfl, if_pos (Running.lt hp), show s.procs[pid]? = some (.running p) from hp]
    exact hparent
  · rw [if_neg hi]

theorem statusOf_set {slot : Slot} (hp : s.Running pid p) {lock : Option FileId} {files : ℕ}
    {status : Status} (h : s.statusOf i = some status) :
    System.statusOf { procs := s.procs.set pid slot, lock, files } i = some status := by
  have hi : pid ≠ i := by
    rintro rfl
    cases (Running.statusOf hp).symm.trans h
  rw [System.statusOf, List.getElem?_set_ne hi]
  exact h

theorem statusOf_push (h : s.statusOf i = some status) : (s.push q).statusOf i = some status := by
  unfold System.statusOf System.push at *
  cases hi : s.procs[i]? with
  | none => simp [hi] at h
  | some slot =>
      rw [List.getElem?_append_left (List.getElem?_eq_some_iff.1 hi).1]
      exact h

theorem parentOf_push (h : (s.push q).parentOf i = some j) :
    s.parentOf i = some j ∨ i = s.procs.length ∧ q.parent = some j := by
  unfold System.parentOf System.push at *
  rw [List.getElem?_append] at h
  split at h
  · exact .inl h
  · next hi =>
    rw [List.getElem?_singleton] at h
    split at h
    · next hz =>
      exact .inr ⟨Nat.le_antisymm (Nat.sub_eq_zero_iff_le.1 hz) (Nat.le_of_not_lt hi), h⟩
    · cases h

/-- A process that has ended stays so. -/
theorem Move.statusOf (hmove : Move s s') (h : s.statusOf i = some status) :
    s'.statusOf i = some status := by
  cases hmove with
  | launched => exact statusOf_push h
  | opened hp | locked hp | changed hp | finished hp => exact statusOf_set hp h
  | forked hp => exact statusOf_push (statusOf_set hp h)

theorem Changed.parentOf (h : Changed s p p') : p'.parent = p.parent := by
  cases h with
  | signal h => rw [deliver_some h]
  | _ => rfl

theorem Finished.parentOf (h : Finished s p p' status) : p'.parent = p.parent := by
  cases h with
  | interrupted _ _ h => rw [deliver_some h]
  | _ => rfl

/-! ## Restarts -/

/-- The process has been ended by a signal. -/
def System.Crashed (s : System) (i : Pid) : Prop :=
  ∃ signo, s.statusOf i = some (.signaled signo)

structure Restarts (s : System) : Prop where
  older : ∀ {i j}, s.parentOf i = some j → j < i
  crashed : ∀ {i j pid}, i < j → s.parentOf i = some pid → s.parentOf j = some pid → s.Crashed i
  current : ∀ {i pid p}, s.Running pid p → s.parentOf i = some pid →
    s.Crashed i ∨ p.pc.waitsFor = some i ∨ p.pc = .daemonExit

theorem Move.crashed (hmove : Move s s') (h : s.Crashed i) : s'.Crashed i :=
  h.imp fun _ => hmove.statusOf

theorem parentOf_lt (h : s.parentOf i = some j) : i < s.procs.length := by
  unfold System.parentOf at h
  cases hi : s.procs[i]? with
  | none => simp [hi] at h
  | some slot => exact (List.getElem?_eq_some_iff.1 hi).1

namespace Restarts

/-- No process is added: every running process was there before, and waits for the same child
unless that has been ended by a signal. -/
theorem of_running (hinv : Restarts s) (hmove : Move s s')
    (hparent : ∀ i, s'.parentOf i = s.parentOf i)
    (h : ∀ {j q}, s'.Running j q → ∃ p, s.Running j p ∧
      (p.pc = .daemonExit → q.pc = .daemonExit) ∧
      ∀ {child}, p.pc.waitsFor = some child → q.pc.waitsFor = some child ∨ s.Crashed child) :
    Restarts s' where
  older hi := hinv.older (hparent _ ▸ hi)
  crashed hlt hi hj := hmove.crashed (hinv.crashed hlt (hparent _ ▸ hi) (hparent _ ▸ hj))
  current hq hi := by
    obtain ⟨p, hp, hleaves, hwaits⟩ := h hq
    rcases hinv.current hp (hparent _ ▸ hi) with hcrashed | hfor | hpc
    · exact .inl (hmove.crashed hcrashed)
    · rcases hwaits hfor with hfor | hcrashed
      · exact .inr (.inl hfor)
      · exact .inl (hmove.crashed hcrashed)
    · exact .inr (.inr (hleaves hpc))

theorem push (hinv : Restarts s) : Restarts (s.push {}) := by
  have hold : ∀ {i j}, (s.push {}).parentOf i = some j → s.parentOf i = some j := fun h => by
    rcases parentOf_push h with h | ⟨-, h⟩
    · exact h
    · cases h
  have hmove : Move s (s.push {}) := .launched
  refine ⟨fun h => hinv.older (hold h),
    fun hlt hi hj => hmove.crashed (hinv.crashed hlt (hold hi) (hold hj)), fun hq hi => ?_⟩
  rcases running_push hq with ⟨rfl, -⟩ | hq
  · exact absurd (Nat.lt_trans (hinv.older (hold hi)) (parentOf_lt (hold hi))) (Nat.lt_irrefl _)
  · exact (hinv.current hq (hold hi)).imp_left hmove.crashed

/-- A process forks only when all children it had have been ended by signals. -/
theorem fork (hinv : Restarts s) (hp : s.Running pid p) (hforked : Forked s pid p p' q) :
    Restarts ((s.setProcess pid p').push q) := by
  have hmove : Move s ((s.setProcess pid p').push q) := .forked hp hforked
  have hlen : (s.setProcess pid p').procs.length = s.procs.length := List.length_set
  have hparents : q.parent = some pid ∧ p'.parent = p.parent := by
    cases hforked <;> exact ⟨rfl, rfl⟩
  have hall : ∀ {i}, s.parentOf i = some pid → s.Crashed i := by
    intro i hi
    rcases hinv.current hp hi with hcrashed | hfor | hpc
    · exact hcrashed
    · cases hforked with | daemon h | fork h => rw [h] at hfor; cases hfor
    · cases hforked with | daemon h | fork h => rw [h] at hpc; cases hpc
  have hnew : p'.pc.waitsFor = some s.procs.length ∨ p'.pc = .daemonExit := by
    cases hforked with
    | daemon => exact .inr rfl
    | fork => exact .inl rfl
  -- the parents there were before, and the one of the new process
  have hold : ∀ {i j}, ((s.setProcess pid p').push q).parentOf i = some j →
      s.parentOf i = some j ∨ i = s.procs.length ∧ j = pid := fun {i j} h => by
    rcases parentOf_push h with h | ⟨h, hj⟩
    · exact .inl (parentOf_set (.running p') hp hparents.2 i ▸ h)
    · exact .inr ⟨h.trans hlen, Option.some.inj (hj.symm.trans hparents.1)⟩
  refine ⟨fun h => ?_, fun hlt hi hj => hmove.crashed ?_, fun hq hi => ?_⟩
  · rcases hold h with h | ⟨rfl, rfl⟩
    · exact hinv.older h
    · exact Running.lt hp
  · rcases hold hi with hi' | ⟨rfl, rfl⟩
    · rcases hold hj with hj' | ⟨-, rfl⟩
      · exact hinv.crashed hlt hi' hj'
      · exact hall hi'
    · rcases hold hj with hj' | ⟨rfl, -⟩
      · exact absurd (Nat.lt_trans hlt (parentOf_lt hj')) (Nat.lt_irrefl _)
      · exact absurd hlt (Nat.lt_irrefl _)
  · rcases running_push hq with ⟨rfl, -⟩ | hq
    · rcases hold hi with hi | ⟨-, hi⟩
      · exact absurd (Nat.lt_trans (hinv.older hi) (hlen ▸ parentOf_lt hi)) (Nat.lt_irrefl _)
      · exact absurd (hlen ▸ hi ▸ Running.lt hp) (Nat.lt_irrefl _)
    · rcases running_setProcess hq with ⟨rfl, rfl⟩ | ⟨hne, hq⟩
      · rcases hold hi with hi | ⟨rfl, -⟩
        · exact .inl (hmove.crashed (hall hi))
        · exact .inr hnew
      · rcases hold hi with hi | ⟨-, rfl⟩
        · exact (hinv.current hq hi).imp_left hmove.crashed
        · exact absurd rfl hne

theorem move (hinv : Restarts s) (hmove : Move s s') : Restarts s' := by
  cases hmove with
  | launched => exact hinv.push
  | @opened pid p hp hpc =>
      refine hinv.of_running (.opened hp hpc) (parentOf_set _ hp rfl) fun {j q} hq => ?_
      rcases running_setProcess hq with ⟨rfl, rfl⟩ | ⟨-, hq⟩
      · exact ⟨p, hp, (fun h => by rw [hpc] at h; cases h), (fun h => by rw [hpc] at h; cases h)⟩
      · exact ⟨q, hq, id, .inl⟩
  | @locked pid p hp hpc hfree =>
      refine hinv.of_running (.locked hp hpc hfree) (parentOf_set _ hp rfl) fun {j q} hq => ?_
      rcases running_setProcess hq with ⟨rfl, rfl⟩ | ⟨-, hq⟩
      · exact ⟨p, hp, (fun h => by rw [hpc] at h; cases h), (fun h => by rw [hpc] at h; cases h)⟩
      · exact ⟨q, hq, id, .inl⟩
  | @changed pid p p' hp hchanged =>
      refine hinv.of_running (.changed hp hchanged)
        (parentOf_set (.running p') hp hchanged.parentOf) fun {j q} hq => ?_
      rcases running_setProcess hq with ⟨rfl, rfl⟩ | ⟨-, hq⟩
      · refine ⟨p, hp, fun hpc => ?_, fun {child} hfor => ?_⟩
        · cases hchanged with
          | signal h => rw [deliver_some h]; exact hpc
          | crashed h _ => rcases h with h | h <;> rw [h] at hpc <;> cases hpc
          | returned h _ => rw [h] at hpc; cases hpc
          | limits h | notDaemon h | child h | parent h | waits h | slept h =>
              rw [h] at hpc; cases hpc
        · rcases hchanged.waitsFor with hsame | ⟨-, child', signo, hchild, hstatus⟩
          · exact .inl (hsame.trans hfor)
          · obtain rfl := Option.some.inj (hchild.symm.trans hfor)
            exact .inr ⟨signo, hstatus⟩
      · exact ⟨q, hq, id, .inl⟩
  | forked hp hforked => exact hinv.fork hp hforked
  | @finished pid p p' status hp hfinished =>
      refine hinv.of_running (.finished hp hfinished)
        (parentOf_set (.ended p' status) hp hfinished.parentOf) fun {j q} hq => ?_
      exact ⟨q, (running_finish hq).2, id, .inl⟩

end Restarts

/-! ## Handlers -/

/-- The process is in the loop of the parent, behind the calls of `signal`. -/
def Pc.isWaiting : Pc → Bool
  | .waitpid _ | .waiting _ | .usleep => true
  | .processExist | .flock | .setProcessLimits | .daemon | .daemonExit | .fork | .child | .parent _
  | .serving => false

/-- Which handlers a process has. -/
structure HandlersOk (p : Process) : Prop where
  before : p.pc ≠ .serving → p.restartCount = 0 ∨ p.handlers = parentSignals
  waiting : p.pc.isWaiting = true → p.handlers = parentSignals
  serving : p.pc = .serving → p.handlers = initSignals ∨ p.handlers = parentSignals

/-- The handler of a child only logs the signal, or also sets `gSignalExit`. -/
def Signal.isLogged : Signal → Bool
  | .usr1 | .ttin | .ttou | .quit | .term => true
  | .segv | .abrt | .pipe | .chld | .int | .kill | .other _ => false

theorem deliver_none {signo : Signal}
    (hhandlers : p.handlers = initSignals ∨ p.handlers = parentSignals)
    (h : p.deliver signo = none) : signo.isLogged = false := by
  unfold Process.deliver at h
  rcases hhandlers with hhandlers | hhandlers <;> rw [hhandlers] at h <;> cases signo <;>
    first | rfl | cases h

/-- `SIGTERM` and `SIGQUIT`. -/
def Signal.isStopRequest : Signal → Bool
  | .term | .quit => true
  | .usr1 | .ttin | .ttou | .segv | .abrt | .pipe | .chld | .int | .kill | .other _ => false

theorem deliver_stop {signo : Signal}
    (hhandlers : p.handlers = initSignals ∨ p.handlers = parentSignals)
    (hstop : signo.isStopRequest = true) :
    p.handlers signo = .signalHandler ∧ p.deliver signo = some { p with gSignalExit := true } := by
  have hhandler : p.handlers signo = .signalHandler := by
    rcases hhandlers with hhandlers | hhandlers <;> rw [hhandlers] <;> cases signo <;>
      first | rfl | cases hstop
  refine ⟨hhandler, ?_⟩
  rw [Process.deliver, hhandler]
  cases signo <;> first | rfl | cases hstop

/-- A handler of a parent that returns has set the flag. -/
theorem deliver_parent {signo : Signal} (hhandlers : p.handlers = parentSignals)
    (hhandler : p.handlers signo = .signalHandler) (h : p.deliver signo = some p') :
    p'.gSignalExit = true := by
  unfold Process.deliver at h
  rw [hhandlers] at h hhandler
  cases signo <;> first | exact Option.some.inj h ▸ rfl | (cases hhandler <;> cases h)

theorem HandlersOk.of_parent (h : p.handlers = parentSignals) : HandlersOk p :=
  ⟨fun _ => .inr h, fun _ => h, fun _ => .inr h⟩

theorem HandlersOk.of_before (hwaiting : p.pc.isWaiting = false) (hserving : p.pc ≠ .serving)
    (h : p.restartCount = 0 ∨ p.handlers = parentSignals) : HandlersOk p where
  before _ := h
  waiting hpc := by cases hwaiting.symm.trans hpc
  serving hpc := absurd hpc hserving

theorem Changed.handlersOk (hok : HandlersOk p) (h : Changed s p p') : HandlersOk p' := by
  have hbefore : ∀ {pc}, p.pc = pc → pc ≠ .serving →
      p.restartCount = 0 ∨ p.handlers = parentSignals := fun hpc hne => hok.before (hpc ▸ hne)
  cases h with
  | limits hpc | notDaemon hpc => exact .of_before rfl nofun (hbefore hpc (by decide))
  | returned hpc hcount =>
      rcases hbefore hpc (by decide) with hzero | hparent
      · rw [hzero] at hcount
        exact absurd hcount (by decide)
      · exact .of_parent hparent
  | child => exact ⟨fun h => absurd rfl h, nofun, fun _ => .inl rfl⟩
  | parent => exact .of_parent rfl
  | waits hpc | slept hpc => exact .of_parent (hok.waiting (by rw [hpc]; rfl))
  | crashed hpc =>
      exact .of_parent (hok.waiting (by rcases hpc with h | h <;> rw [h] <;> rfl))
  | signal h =>
      rw [deliver_some h]
      exact ⟨hok.before, hok.waiting, hok.serving⟩

theorem Forked.handlersOk (hok : HandlersOk p) (h : Forked s pid p p' q) :
    HandlersOk p' ∧ HandlersOk q := by
  cases h with
  | daemon hpc | fork hpc =>
      have hbefore := hok.before (by rw [hpc]; decide)
      exact ⟨.of_before rfl nofun hbefore, .of_before rfl nofun hbefore⟩

/-! ## Ends -/

/-- How a process has ended. -/
structure EndedOk (s : System) (p : Process) (status : Status) : Prop where
  exits : ∀ {code child}, status = .exited code → p.pc.waitsFor = some child →
    code = EXIT_SUCCESS ∧
      ((∃ code', s.statusOf child = some (.exited code')) ∨ p.gSignalExit = true)
  stops : ∀ {signo}, status = .signaled signo → p.pc = .serving → signo.isLogged = false

theorem Finished.endedOk (hok : HandlersOk p) (h : Finished s p p' status) :
    EndedOk s p' status := by
  have hnone : ∀ {pc}, p.pc = pc → pc.waitsFor = none → ∀ {child}, p.pc.waitsFor ≠ some child :=
    fun hpc hnone child hchild => by
      rw [hpc, hnone] at hchild
      cases hchild
  cases h with
  | failed hpc =>
      refine ⟨fun _ hchild => absurd hchild ?_, nofun⟩
      rcases hpc with hpc | hpc | hpc | hpc <;> exact hnone hpc rfl
  | daemonExit hpc => exact ⟨fun _ hchild => absurd hchild (hnone hpc rfl), nofun⟩
  | @childExited child code hpc hstatus =>
      refine ⟨fun {code' child'} hcode hchild => ?_, nofun⟩
      have hfor : p.pc.waitsFor = some child := by rcases hpc with h | h <;> rw [h] <;> rfl
      obtain rfl := Option.some.inj (hfor.symm.trans hchild)
      exact ⟨(Status.exited.inj hcode).symm, .inl ⟨code, hstatus⟩⟩
  | interrupted hpc hhandler hdeliver =>
      have hflag := deliver_parent (hok.waiting (by rw [hpc]; rfl)) hhandler hdeliver
      refine ⟨fun hcode _ => ⟨?_, .inr hflag⟩, nofun⟩
      rw [hflag, if_pos rfl] at hcode
      exact (Status.exited.inj hcode).symm
  | served hpc => exact ⟨fun _ hchild => absurd hchild (hnone hpc rfl), nofun⟩
  | signaled hdeliver =>
      refine ⟨nofun, fun hsigno hpc => ?_⟩
      exact Status.signaled.inj hsigno ▸ deliver_none (hok.serving hpc) hdeliver

theorem EndedOk.mono (hok : EndedOk s p status) (hmove : Move s s') : EndedOk s' p status where
  exits hcode hchild :=
    (hok.exits hcode hchild).imp_right (Or.imp_left fun ⟨code, h⟩ => ⟨code, hmove.statusOf h⟩)
  stops := hok.stops

theorem ended_set {slot : Slot} {lock : Option FileId} {files : ℕ}
    (h : System.Ended { procs := s.procs.set pid slot, lock, files } i q status) :
    slot = .ended q status ∨ s.Ended i q status := by
  simp only [System.Ended, List.getElem?_set] at h
  by_cases hi : pid = i
  · rw [if_pos hi] at h
    split at h
    · exact .inl (Option.some.inj h)
    · cases h
  · rw [if_neg hi] at h
    exact .inr h

theorem ended_push (h : (s.push p).Ended i q status) : s.Ended i q status := by
  simp only [System.Ended, System.push, List.getElem?_append] at h
  split at h
  · exact h
  · rw [List.getElem?_singleton] at h
    split at h <;> cases h

theorem Move.ended (hmove : Move s s') (h : s'.Ended i q status) :
    s.Ended i q status ∨ ∃ j p, s.Running j p ∧ Finished s p q status := by
  cases hmove with
  | launched => exact .inl (ended_push h)
  | opened | locked | changed =>
      rcases ended_set h with h | h
      · cases h
      · exact .inl h
  | forked =>
      rcases ended_set (ended_push h) with h | h
      · cases h
      · exact .inl h
  | @finished pid p p' status' hp hfinished =>
      rcases ended_set h with h | h
      · cases h
        exact .inr ⟨pid, p, hp, hfinished⟩
      · exact .inl h

structure Ends (s : System) : Prop where
  running : ∀ {i p}, s.Running i p → HandlersOk p
  ended : ∀ {i p status}, s.Ended i p status → EndedOk s p status

theorem Ends.move (hinv : Ends s) (hmove : Move s s') : Ends s' := by
  refine ⟨fun {i q} hq => ?_, fun h => ?_⟩
  · cases hmove with
    | launched =>
        rcases running_push hq with ⟨-, rfl⟩ | hq
        · exact .of_before rfl nofun (.inl rfl)
        · exact hinv.running hq
    | @opened pid p hp hpc | @locked pid p hp hpc =>
        rcases running_setProcess hq with ⟨-, rfl⟩ | ⟨-, hq⟩
        · exact .of_before rfl nofun ((hinv.running hp).before (by rw [hpc]; decide))
        · exact hinv.running hq
    | changed hp hchanged =>
        rcases running_setProcess hq with ⟨-, rfl⟩ | ⟨-, hq⟩
        · exact hchanged.handlersOk (hinv.running hp)
        · exact hinv.running hq
    | forked hp hforked =>
        rcases running_push hq with ⟨-, rfl⟩ | hq
        · exact (hforked.handlersOk (hinv.running hp)).2
        · rcases running_setProcess hq with ⟨-, rfl⟩ | ⟨-, hq⟩
          · exact (hforked.handlersOk (hinv.running hp)).1
          · exact hinv.running hq
    | finished => exact hinv.running (running_finish hq).2
  · rcases hmove.ended h with h | ⟨j, p, hp, hfinished⟩
    · exact (hinv.ended h).mono hmove
    · exact (hfinished.endedOk (hinv.running hp)).mono hmove

/-! ## Runs -/

theorem Restarts.empty : Restarts {} where
  older h := by cases h
  crashed _ h := by cases h
  current hp := absurd hp not_running_empty

theorem Ends.empty : Ends {} where
  running hp := absurd hp not_running_empty
  ended h := by cases h

theorem Reachable.ends (h : (processes developerBuild).Reachable s) : Restarts s ∧ Ends s := by
  refine Machine.Run.invariant (P := fun s => Restarts s ∧ Ends s) h (fun s hs => ?_)
    fun s i s' hinv _ hstep => ?_
  · obtain rfl : s = {} := hs
    exact ⟨.empty, .empty⟩
  · have hmove := step_moves hstep
    exact ⟨hinv.1.move hmove, hinv.2.move hmove⟩

/-- What `fork_process_and_keepalive` makes of the ends of processes. -/
structure KeptAlive (developerBuild : Bool) (s : System) : Prop where
  /-- All children of a process but the last have been ended by signals. -/
  restarts : ∀ {i j pid}, i < j → s.parentOf i = some pid → s.parentOf j = some pid → s.Crashed i
  /-- A parent that exits behind `waitpid` exits with success: its child has exited, with whatever
  code, or it has been told to stop. -/
  exits : ∀ {i p code child}, s.Ended i p (.exited code) → p.pc.waitsFor = some child →
    code = EXIT_SUCCESS ∧
      ((∃ code', s.statusOf child = some (.exited code')) ∨ p.gSignalExit = true)
  /-- A parent that is told to stop exits, and leaves its child as it is. -/
  stopRequest : ∀ {i p child signo}, s.Running i p → p.pc = .waiting child →
    s.statusOf child = none → signo.isStopRequest = true →
    s.step developerBuild (.signal i signo) =
      some (s.finish i { p with gSignalExit := true } (.exited EXIT_SUCCESS))

/-- A server goes on. -/
structure ServesOn (developerBuild : Bool) (s : System) : Prop where
  stops : ∀ {i p signo}, s.Ended i p (.signaled signo) → p.pc = .serving → signo.isLogged = false
  stopRequest : ∀ {i p signo}, s.Running i p → p.pc = .serving → signo.isStopRequest = true →
    s.step developerBuild (.signal i signo) = some (s.setProcess i { p with gSignalExit := true })

theorem step_signal (hp : s.Running i p) (signo : Signal) :
    s.step developerBuild (.signal i signo) = some (s.signal i p signo) := by
  rw [System.step, System.act, show s.procs[i]? = some (.running p) from hp]

/-- The first child crashes, and the second one serves when its parent is told to stop. -/
def orphaned : List Input :=
  [.launch, .run 0 true, .run 0 true, .run 0 true, .run 0 true, .run 1 true, .run 1 true,
    .run 1 true, .run 2 true, .signal 2 .segv, .run 1 true, .run 1 true, .run 1 true, .run 1 true,
    .run 1 true, .run 3 true, .signal 3 .term, .signal 1 .term]

def orphanedPlaces : List (Pc × Option Status) :=
  [(.daemonExit, none), (.waiting 3, some (.exited 0)), (.serving, some (.signaled .segv)),
    (.serving, none)]

theorem orphaned_reachable : ∃ s, (processes false).Reachable s ∧ s.places = orphanedPlaces := by
  obtain ⟨s, -, hs, hq⟩ := Machine.exists_run_of_replay (processes false) Machine.anyStep orphaned
    (fun s => decide (s.places = orphanedPlaces)) (s := {}) rfl (by decide)
  exact ⟨s, hs, of_decide_eq_true hq⟩

/-- **Restarts.** -/
theorem kept_alive (h : (processes developerBuild).Reachable s) : KeptAlive developerBuild s where
  restarts := (Reachable.ends h).1.crashed
  exits hended := ((Reachable.ends h).2.ended hended).exits rfl
  stopRequest {i p child signo} hp hpc hchild hstop := by
    have hhandlers := ((Reachable.ends h).2.running hp).waiting (by rw [hpc]; rfl)
    obtain ⟨hhandler, hdeliver⟩ := deliver_stop (.inr hhandlers) hstop
    have hblocked : s.blocked p = true := blocked_iff.2 ⟨child, hpc, hchild⟩
    rw [step_signal hp, System.signal, hdeliver]
    simp only [hblocked, hhandler, beq_self_eq_true, Bool.and_self, if_true]

theorem kept_alive_orphaned : ∃ s : System, s.places = orphanedPlaces ∧ KeptAlive false s := by
  obtain ⟨s, hs, hprocs⟩ := orphaned_reachable
  exact ⟨s, hprocs, kept_alive hs⟩

end KeepAlive

end ServerBase
