import ServerBase.KeepAlive.Processes

/-!
# One server

`process_exist` lets a launch go on only if no process of an earlier launch is left that is behind
it, and of all processes at most one is the server.

**The lock** (`LockInv`). A process behind `process_exist` has the locked description; every other
process has none, or one of its own.

**The family** (`Family`). Of two processes behind `process_exist` one is the parent that waits for
the other, which is a child that serves or is about to, or one of them is leaving `daemon`.
Before a fork there is no second one: nobody waits for a process that does not serve.
-/

namespace ServerBase

namespace KeepAlive

/-- The process is behind `process_exist`. -/
def Pc.hasLock : Pc → Bool
  | .processExist | .flock => false
  | .setProcessLimits | .daemon | .daemonExit | .fork | .child | .parent _ | .waitpid _ | .waiting _
  | .usleep | .serving => true

/-- The process serves, or is a child that is about to. -/
def Pc.isWorker : Pc → Bool
  | .child | .serving => true
  | .processExist | .flock | .setProcessLimits | .daemon | .daemonExit | .fork | .parent _
  | .waitpid _ | .waiting _ | .usleep => false

variable {developerBuild : Bool} {s s' : System} {pid i j : Pid} {p p' q : Process}
  {status : Status}

/-! ## The running processes behind a move -/

theorem running_unique (hp : s.Running i p) (hq : s.Running i q) : p = q := by
  unfold System.Running at hp hq
  rw [hp] at hq
  exact Slot.running.inj (Option.some.inj hq)

theorem running_setProcess (h : (s.setProcess pid p').Running i q) :
    (i = pid ∧ q = p') ∨ (i ≠ pid ∧ s.Running i q) := by
  simp only [System.Running, System.setProcess, List.getElem?_set] at h
  by_cases hi : pid = i
  · rw [if_pos hi] at h
    split at h
    · exact .inl ⟨hi.symm, (Slot.running.inj (Option.some.inj h)).symm⟩
    · cases h
  · rw [if_neg hi] at h
    exact .inr ⟨Ne.symm hi, h⟩

theorem running_finish (h : (s.finish pid p' status).Running i q) : i ≠ pid ∧ s.Running i q := by
  simp only [System.Running, System.finish, List.getElem?_set] at h
  by_cases hi : pid = i
  · rw [if_pos hi] at h
    split at h <;> cases h
  · rw [if_neg hi] at h
    exact ⟨Ne.symm hi, h⟩

theorem running_push (h : (s.push p').Running i q) :
    (i = s.procs.length ∧ q = p') ∨ s.Running i q := by
  simp only [System.Running, System.push, List.getElem?_append] at h
  split at h
  · exact .inr h
  · next hi =>
    rw [List.getElem?_singleton] at h
    split at h
    · next hz =>
      exact .inl ⟨Nat.le_antisymm (Nat.sub_eq_zero_iff_le.1 hz) (Nat.le_of_not_lt hi),
        (Slot.running.inj (Option.some.inj h)).symm⟩
    · cases h

theorem Running.lt (h : s.Running i p) : i < s.procs.length :=
  (List.getElem?_eq_some_iff.1 h).1

/-- A signal that does not end a process changes one flag of it. -/
theorem deliver_some {signo : Signal} (h : p.deliver signo = some p') :
    p' = { p with gSignalExit := p'.gSignalExit } := by
  unfold Process.deliver at h
  split at h
  · split at h
    · cases h
    · cases h
      rfl
  · cases h
    rfl
  · cases signo <;> simp only [Process.signalHandler, Option.some.injEq, reduceCtorEq] at h <;>
      subst h <;> rfl

/-! ## The lock -/

/-- Who has which description. -/
structure LockInv (s : System) : Prop where
  file : ∀ {i p file}, s.Running i p → p.fd = some file → file < s.files
  locked : ∀ {file}, s.lock = some file → file < s.files
  start : ∀ {i p}, s.Running i p → p.pc = .processExist → p.fd = none
  opened : ∀ {i p}, s.Running i p → p.pc = .flock → ∃ file, p.fd = some file ∧ s.lock ≠ some file
  own : ∀ {i j p q}, s.Running i p → s.Running j q → p.pc = .flock → p.fd = q.fd → i = j
  held : ∀ {i p}, s.Running i p → p.pc.hasLock = true →
    ∃ file, p.fd = some file ∧ s.lock = some file

theorem Changed.fd (h : Changed s p p') : p'.fd = p.fd := by
  cases h with
  | signal h => rw [deliver_some h]
  | _ => rfl

theorem Changed.pc (h : Changed s p p') :
    p'.pc = p.pc ∨ (p.pc.hasLock = true ∧ p'.pc.hasLock = true) := by
  cases h with
  | signal h => exact .inl (by rw [deliver_some h])
  | crashed h _ => exact .inr ⟨by rcases h with h | h <;> rw [h] <;> rfl, rfl⟩
  | returned h _ => exact .inr ⟨by rw [h]; rfl, rfl⟩
  | limits h | notDaemon h | child h | parent h | waits h | slept h =>
      exact .inr ⟨by rw [h]; rfl, rfl⟩

namespace LockInv

/-- The descriptions stay as they are: every process was there before, or is a copy of one that has
the lock. -/
theorem of_running (hinv : LockInv s) (hfiles : s'.files = s.files) (hlock : s'.lock = s.lock)
    (h : ∀ {i q}, s'.Running i q → ∃ j p, s.Running j p ∧ p.fd = q.fd ∧
      ((i = j ∧ q.pc = p.pc) ∨ (p.pc.hasLock = true ∧ q.pc.hasLock = true))) : LockInv s' where
  file hq hfd := by
    obtain ⟨j, p, hp, hpq, -⟩ := h hq
    exact hfiles ▸ hinv.file hp (hpq.trans hfd)
  locked hfile := hfiles ▸ hinv.locked (hlock ▸ hfile)
  start hq hpc := by
    obtain ⟨j, p, hp, hpq, ⟨-, hsame⟩ | ⟨-, hlocks⟩⟩ := h hq
    · exact hpq ▸ hinv.start hp (hsame ▸ hpc)
    · rw [hpc] at hlocks
      cases hlocks
  opened hq hpc := by
    obtain ⟨j, p, hp, hpq, ⟨-, hsame⟩ | ⟨-, hlocks⟩⟩ := h hq
    · exact hpq ▸ hlock ▸ hinv.opened hp (hsame ▸ hpc)
    · rw [hpc] at hlocks
      cases hlocks
  own hq hr hpc hfd := by
    obtain ⟨j, p, hp, hpq, ⟨rfl, hsame⟩ | ⟨-, hlocks⟩⟩ := h hq
    · obtain ⟨k, p', hp', hpr, hor⟩ := h hr
      have hsame := hsame ▸ hpc
      obtain rfl := hinv.own hp hp' hsame (hpq.trans (hfd.trans hpr.symm))
      rcases hor with ⟨rfl, -⟩ | ⟨hlocks, -⟩
      · rfl
      · -- the process before `flock` would have the lock
        rw [running_unique hp' hp, hsame] at hlocks
        cases hlocks
    · rw [hpc] at hlocks
      cases hlocks
  held hq hlocks := by
    obtain ⟨j, p, hp, hpq, ⟨-, hsame⟩ | ⟨hlocked, -⟩⟩ := h hq
    · exact hpq ▸ hlock ▸ hinv.held hp (hsame ▸ hlocks)
    · exact hpq ▸ hlock ▸ hinv.held hp hlocked

/-- **The lock is free exactly if nobody has it.** -/
theorem lockFree_iff (hinv : LockInv s) :
    s.lockFree = true ↔ ∀ i p, s.Running i p → p.pc.hasLock = false := by
  constructor
  · intro hfree i p hp
    cases hlocks : p.pc.hasLock with
    | false => rfl
    | true =>
        obtain ⟨file, hfd, hlock⟩ := hinv.held hp hlocks
        rw [System.lockFree, hlock] at hfree
        exact absurd hfd (bne_iff_ne.1 (List.all_eq_true.1 hfree _ (List.mem_of_getElem? hp)))
  · intro hnone
    unfold System.lockFree
    cases hlock : s.lock with
    | none => rfl
    | some file =>
        refine List.all_eq_true.2 fun slot hslot => bne_iff_ne.2 fun hfd => ?_
        cases slot with
        | ended p status => cases hfd
        | running p =>
            obtain ⟨i, hi⟩ := List.getElem?_of_mem hslot
            have hpc := hnone i p hi
            cases hp : p.pc <;> rw [hp] at hpc <;> try cases hpc
            · exact absurd ((hinv.start hi hp).symm.trans hfd) (by simp)
            · obtain ⟨file', hfd', hne⟩ := hinv.opened hi hp
              exact hne (hlock.trans (hfd.symm.trans hfd'))

theorem push (hinv : LockInv s) : LockInv (s.push {}) where
  file hq hfd := by
    rcases running_push hq with ⟨-, rfl⟩ | hq
    · cases hfd
    · exact hinv.file hq hfd
  locked := hinv.locked
  start hq hpc := by
    rcases running_push hq with ⟨-, rfl⟩ | hq
    · rfl
    · exact hinv.start hq hpc
  opened hq hpc := by
    rcases running_push hq with ⟨-, rfl⟩ | hq
    · cases hpc
    · exact hinv.opened hq hpc
  own hq hr hpc hfd := by
    rcases running_push hq with ⟨-, rfl⟩ | hq
    · cases hpc
    · rcases running_push hr with ⟨-, rfl⟩ | hr
      · obtain ⟨file, hfile, -⟩ := hinv.opened hq hpc
        cases hfile.symm.trans hfd
      · exact hinv.own hq hr hpc hfd
  held hq hlocks := by
    rcases running_push hq with ⟨-, rfl⟩ | hq
    · cases hlocks
    · exact hinv.held hq hlocks

theorem opens (hinv : LockInv s) :
    LockInv { s.setProcess pid { p with pc := .flock, fd := some s.files } with
      files := s.files + 1 } where
  file hq hfd := by
    rcases running_setProcess hq with ⟨-, rfl⟩ | ⟨-, hq⟩
    · cases hfd
      exact Nat.lt_succ_self _
    · exact Nat.lt_succ_of_lt (hinv.file hq hfd)
  locked hfile := Nat.lt_succ_of_lt (hinv.locked hfile)
  start hq hpc := by
    rcases running_setProcess hq with ⟨-, rfl⟩ | ⟨-, hq⟩
    · cases hpc
    · exact hinv.start hq hpc
  opened hq hpc := by
    rcases running_setProcess hq with ⟨-, rfl⟩ | ⟨-, hq⟩
    · exact ⟨s.files, rfl, fun hlock => Nat.lt_irrefl _ (hinv.locked hlock)⟩
    · exact hinv.opened hq hpc
  own hq hr hpc hfd := by
    rcases running_setProcess hq with ⟨rfl, rfl⟩ | ⟨-, hq⟩
    · rcases running_setProcess hr with ⟨rfl, rfl⟩ | ⟨-, hr⟩
      · rfl
      · exact absurd (hinv.file hr hfd.symm) (Nat.lt_irrefl _)
    · rcases running_setProcess hr with ⟨-, rfl⟩ | ⟨-, hr⟩
      · exact absurd (hinv.file hq hfd) (Nat.lt_irrefl _)
      · exact hinv.own hq hr hpc hfd
  held hq hlocks := by
    rcases running_setProcess hq with ⟨-, rfl⟩ | ⟨-, hq⟩
    · cases hlocks
    · exact hinv.held hq hlocks

theorem locks (hinv : LockInv s) (hp : s.Running pid p) (hpc : p.pc = .flock)
    (hfree : s.lockFree = true) :
    LockInv { s.setProcess pid { p with pc := .setProcessLimits } with lock := p.fd } where
  file hq hfd := by
    rcases running_setProcess hq with ⟨-, rfl⟩ | ⟨-, hq⟩
    · exact hinv.file hp hfd
    · exact hinv.file hq hfd
  locked hfile := hinv.file hp hfile
  start hq hstart := by
    rcases running_setProcess hq with ⟨-, rfl⟩ | ⟨-, hq⟩
    · cases hstart
    · exact hinv.start hq hstart
  opened hq hflock := by
    rcases running_setProcess hq with ⟨-, rfl⟩ | ⟨hne, hq⟩
    · cases hflock
    · obtain ⟨file, hfd, -⟩ := hinv.opened hq hflock
      exact ⟨file, hfd, fun hlock => hne (hinv.own hq hp hflock (hfd.trans hlock.symm))⟩
  own hq hr hflock hfd := by
    rcases running_setProcess hq with ⟨-, rfl⟩ | ⟨hne, hq⟩
    · cases hflock
    · rcases running_setProcess hr with ⟨-, rfl⟩ | ⟨-, hr⟩
      · exact absurd (hinv.own hq hp hflock hfd) hne
      · exact hinv.own hq hr hflock hfd
  held hq hlocks := by
    rcases running_setProcess hq with ⟨-, rfl⟩ | ⟨-, hq⟩
    · obtain ⟨file, hfd, -⟩ := hinv.opened hp hpc
      exact ⟨file, hfd, hfd⟩
    · rw [hinv.lockFree_iff.1 hfree _ _ hq] at hlocks
      cases hlocks

theorem move (hinv : LockInv s) (hmove : Move s s') : LockInv s' := by
  cases hmove with
  | launched => exact hinv.push
  | opened hp hpc => exact hinv.opens
  | locked hp hpc hfree => exact hinv.locks hp hpc hfree
  | @changed pid p p' hp hchanged =>
      refine hinv.of_running rfl rfl fun {i q} hq => ?_
      rcases running_setProcess hq with ⟨rfl, rfl⟩ | ⟨-, hq⟩
      · exact ⟨_, p, hp, hchanged.fd.symm, hchanged.pc.imp_left fun h => ⟨rfl, h⟩⟩
      · exact ⟨_, q, hq, rfl, .inl ⟨rfl, rfl⟩⟩
  | @forked pid p p' child hp hforked =>
      refine hinv.of_running rfl rfl fun {i q} hq => ?_
      rcases running_push hq with ⟨-, rfl⟩ | hq
      · exact ⟨pid, p, hp, by cases hforked <;> rfl,
          .inr (by cases hforked with | daemon h | fork h => rw [h]; exact ⟨rfl, rfl⟩)⟩
      · rcases running_setProcess hq with ⟨rfl, rfl⟩ | ⟨-, hq⟩
        · exact ⟨_, p, hp, by cases hforked <;> rfl,
            .inr (by cases hforked with | daemon h | fork h => rw [h]; exact ⟨rfl, rfl⟩)⟩
        · exact ⟨_, q, hq, rfl, .inl ⟨rfl, rfl⟩⟩
  | finished hp hfinished =>
      refine hinv.of_running rfl rfl fun {i q} hq => ?_
      exact ⟨_, q, (running_finish hq).2, rfl, .inl ⟨rfl, rfl⟩⟩

/-- The call of `flock`: the process goes on exactly if nobody has the lock. -/
theorem flock_iff (hinv : LockInv s) (hp : s.Running pid p) (hpc : p.pc = .flock)
    (h : s.step developerBuild (.run pid true) = some s') :
    (∃ p', s'.Running pid p' ∧ p'.pc.hasLock = true) ↔
      ∀ j q, s.Running j q → q.pc.hasLock = false := by
  rw [← hinv.lockFree_iff]
  simp only [System.step, System.act, show s.procs[pid]? = some (.running p) from hp, System.run,
    hpc, Bool.true_and] at h
  by_cases hfree : s.lockFree = true
  · rw [if_pos hfree] at h
    refine iff_of_true ⟨{ p with pc := .setProcessLimits }, ?_, rfl⟩ hfree
    exact Option.some.inj h ▸ List.getElem?_set_self (Running.lt hp)
  · rw [if_neg hfree] at h
    refine iff_of_false (fun ⟨p', hp', _⟩ => ?_) hfree
    exact (running_finish (Option.some.inj h ▸ hp')).1 rfl

end LockInv

/-! ## The family -/

/-- The process is behind `process_exist`, and not the one that leaves `daemon`. -/
def Pc.holds (pc : Pc) : Bool := pc.hasLock && pc != .daemonExit

theorem Changed.holds (h : Changed s p p') : p'.pc.holds = p.pc.holds := by
  cases h with
  | signal h => rw [deliver_some h]
  | crashed h _ => rcases h with h | h <;> rw [h] <;> rfl
  | returned h _ => rw [h]; rfl
  | limits h | notDaemon h | child h | parent h | waits h | slept h => rw [h]; rfl

theorem Changed.isWorker (h : Changed s p p') (hp : p.pc.isWorker = true) :
    p'.pc.isWorker = true := by
  cases h with
  | signal h => rwa [deliver_some h]
  | crashed h _ => rcases h with h | h <;> rw [h] at hp <;> cases hp
  | returned | child => rfl
  | limits h | notDaemon h | parent h | waits h | slept h => rw [h] at hp; cases hp

/-- A parent goes on waiting, unless its child has been ended by a signal. -/
theorem Changed.waitsFor (h : Changed s p p') :
    p'.pc.waitsFor = p.pc.waitsFor ∨ p'.pc.waitsFor = none ∧
      ∃ child signo, p.pc.waitsFor = some child ∧ s.statusOf child = some (.signaled signo) := by
  cases h with
  | signal h => exact .inl (by rw [deliver_some h])
  | @crashed child signo h hstatus =>
      exact .inr ⟨rfl, child, signo, by rcases h with h | h <;> rw [h] <;> rfl, hstatus⟩
  | returned h _ => exact .inl (by rw [h]; rfl)
  | limits h | notDaemon h | child h | parent h | waits h | slept h => exact .inl (by rw [h]; rfl)

theorem Running.statusOf (h : s.Running i p) : s.statusOf i = none := by
  rw [System.statusOf, show s.procs[i]? = some (.running p) from h]
  rfl

/-- Who waits for whom. -/
structure Family (s : System) : Prop where
  two : ∀ {i j p q}, s.Running i p → s.Running j q → p.pc.holds = true → q.pc.holds = true →
    i = j ∨ p.pc.waitsFor = some j ∨ q.pc.waitsFor = some i
  waits : ∀ {i p child}, s.Running i p → p.pc.waitsFor = some child →
    child < s.procs.length ∧ ∀ q, s.Running child q → q.pc.isWorker = true

namespace Family

/-- One process changes, and waits for nobody new. -/
theorem setProcess (hfam : Family s) (hp : s.Running pid p)
    (htwo : ∀ {j q}, j ≠ pid → s.Running j q → p'.pc.holds = true → q.pc.holds = true →
      p'.pc.waitsFor = some j ∨ q.pc.waitsFor = some pid)
    (hwaits : ∀ {child}, p'.pc.waitsFor = some child → p.pc.waitsFor = some child)
    (hworker : p.pc.isWorker = true → p'.pc.isWorker = true) : Family (s.setProcess pid p') where
  two hq hr hholds hholds' := by
    rcases running_setProcess hq with ⟨rfl, rfl⟩ | ⟨hne, hq'⟩
    · rcases running_setProcess hr with ⟨rfl, rfl⟩ | ⟨hne, hr'⟩
      · exact .inl rfl
      · exact .inr (htwo hne hr' hholds hholds')
    · rcases running_setProcess hr with ⟨rfl, rfl⟩ | ⟨-, hr'⟩
      · exact .inr (htwo hne hq' hholds' hholds).symm
      · exact hfam.two hq' hr' hholds hholds'
  waits {_ _ child} hq hchild := by
    obtain ⟨i, r, hr, hchild'⟩ : ∃ i r, s.Running i r ∧ r.pc.waitsFor = some child := by
      rcases running_setProcess hq with ⟨rfl, rfl⟩ | ⟨-, hq'⟩
      · exact ⟨_, p, hp, hwaits hchild⟩
      · exact ⟨_, _, hq', hchild⟩
    obtain ⟨hlt, hall⟩ := hfam.waits hr hchild'
    refine ⟨by simpa [System.setProcess] using hlt, fun w hw => ?_⟩
    rcases running_setProcess hw with ⟨rfl, rfl⟩ | ⟨-, hw'⟩
    · exact hworker (hall p hp)
    · exact hall w hw'

/-- A process before a fork is alone. -/
theorem alone (hfam : Family s) (hp : s.Running pid p) (hholds : p.pc.holds = true)
    (hwaits : p.pc.waitsFor = none) (hworker : p.pc.isWorker = false) (hq : s.Running j q)
    (hholds' : q.pc.holds = true) : j = pid := by
  rcases hfam.two hp hq hholds hholds' with rfl | hfor | hfor
  · rfl
  · cases hwaits.symm.trans hfor
  · exact absurd ((hfam.waits hq hfor).2 p hp) (by simp [hworker])

theorem push (hfam : Family s) : Family (s.push {}) where
  two hq hr hholds hholds' := by
    rcases running_push hq with ⟨-, rfl⟩ | hq'
    · cases hholds
    · rcases running_push hr with ⟨-, rfl⟩ | hr'
      · cases hholds'
      · exact hfam.two hq' hr' hholds hholds'
  waits hq hchild := by
    rcases running_push hq with ⟨-, rfl⟩ | hq'
    · cases hchild
    · obtain ⟨hlt, hall⟩ := hfam.waits hq' hchild
      refine ⟨by simpa [System.push] using Nat.lt_succ_of_lt hlt, fun w hw => ?_⟩
      rcases running_push hw with ⟨rfl, -⟩ | hw'
      · exact absurd hlt (Nat.lt_irrefl _)
      · exact hall w hw'

theorem finish (hfam : Family s) : Family (s.finish pid p' status) where
  two hq hr := hfam.two (running_finish hq).2 (running_finish hr).2
  waits hq hchild := by
    obtain ⟨hlt, hall⟩ := hfam.waits (running_finish hq).2 hchild
    exact ⟨by simpa [System.finish] using hlt, fun w hw => hall w (running_finish hw).2⟩

theorem fork (hfam : Family s) (hp : s.Running pid p) (hforked : Forked s pid p p' q) :
    Family ((s.setProcess pid p').push q) := by
  have hlen : (s.setProcess pid p').procs.length = s.procs.length := List.length_set
  have hholds : p.pc.holds = true := by
    cases hforked with | daemon h | fork h => rw [h]; rfl
  have hnone : p.pc.waitsFor = none := by
    cases hforked with | daemon h | fork h => rw [h]; rfl
  have hidle : p.pc.isWorker = false := by
    cases hforked with | daemon h | fork h => rw [h]; rfl
  have hchild : q.pc.waitsFor = none := by
    cases hforked <;> rfl
  -- the process that forks waits for its child, or leaves
  have hparent : p'.pc.waitsFor = some s.procs.length ∧ q.pc.isWorker = true ∨
      p'.pc.waitsFor = none ∧ p'.pc.holds = false := by
    cases hforked with
    | daemon => exact .inr ⟨rfl, rfl⟩
    | fork => exact .inl ⟨rfl, rfl⟩
  have hfor : p'.pc.holds = true → p'.pc.waitsFor = some s.procs.length := by
    intro h
    rcases hparent with ⟨hwaits, -⟩ | ⟨-, hleaves⟩
    · exact hwaits
    · cases hleaves.symm.trans h
  refine ⟨fun {i j a b} ha hb hholdsa hholdsb => ?_, fun {i a child} ha hwaits => ?_⟩
  · rcases running_push ha with ⟨rfl, rfl⟩ | ha
    · rcases running_push hb with ⟨rfl, rfl⟩ | hb
      · exact .inl rfl
      · rcases running_setProcess hb with ⟨rfl, rfl⟩ | ⟨hne, hb⟩
        · exact .inr (.inr (hlen ▸ hfor hholdsb))
        · exact absurd (hfam.alone hp hholds hnone hidle hb hholdsb) hne
    · rcases running_setProcess ha with ⟨rfl, rfl⟩ | ⟨hne, ha⟩
      · rcases running_push hb with ⟨rfl, rfl⟩ | hb
        · exact .inr (.inl (hlen ▸ hfor hholdsa))
        · rcases running_setProcess hb with ⟨rfl, rfl⟩ | ⟨hne, hb⟩
          · exact .inl rfl
          · exact absurd (hfam.alone hp hholds hnone hidle hb hholdsb) hne
      · exact absurd (hfam.alone hp hholds hnone hidle ha hholdsa) hne
  · rcases running_push ha with ⟨-, rfl⟩ | ha
    · cases hchild.symm.trans hwaits
    · rcases running_setProcess ha with ⟨rfl, rfl⟩ | ⟨-, ha⟩
      · rcases hparent with ⟨hnew, hworker⟩ | ⟨hnone, -⟩
        · obtain rfl := Option.some.inj (hnew.symm.trans hwaits)
          refine ⟨by simp [System.push, hlen], fun w hw => ?_⟩
          rcases running_push hw with ⟨-, rfl⟩ | hw
          · exact hworker
          · exact absurd (hlen ▸ Running.lt hw) (Nat.lt_irrefl _)
        · cases hnone.symm.trans hwaits
      · obtain ⟨hlt, hall⟩ := hfam.waits ha hwaits
        refine ⟨by simpa [System.push, hlen] using Nat.lt_succ_of_lt hlt, fun w hw => ?_⟩
        rcases running_push hw with ⟨rfl, -⟩ | hw
        · exact absurd (hlen ▸ hlt) (Nat.lt_irrefl _)
        · rcases running_setProcess hw with ⟨rfl, rfl⟩ | ⟨-, hw⟩
          · exact absurd (hall p hp) (by simp [hidle])
          · exact hall w hw

theorem move (hfam : Family s) (hlock : LockInv s) (hmove : Move s s') :
    Family s' := by
  cases hmove with
  | launched => exact hfam.push
  | @opened pid p hp hpc =>
      have hset : Family (s.setProcess pid { p with pc := .flock, fd := some s.files }) :=
        hfam.setProcess hp (fun _ _ h => by cases h) (fun h => by cases h)
          (fun h => by rw [hpc] at h; cases h)
      exact ⟨hset.two, hset.waits⟩
  | @locked pid p hp hpc hfree =>
      have hset : Family (s.setProcess pid { p with pc := .setProcessLimits }) := by
        refine hfam.setProcess hp (fun {j q} _ hq _ hholds => ?_) (fun h => by cases h)
          (fun h => by rw [hpc] at h; cases h)
        -- nobody else is behind `process_exist`
        have hnone := hlock.lockFree_iff.1 hfree j q hq
        rw [Pc.holds, hnone] at hholds
        cases hholds
      exact ⟨hset.two, hset.waits⟩
  | @changed pid p p' hp hchanged =>
      refine hfam.setProcess hp (fun {j q} hne hq hholds hholds' => ?_) (fun {child} h => ?_)
        hchanged.isWorker
      · rcases hfam.two hp hq (hchanged.holds ▸ hholds) hholds' with rfl | hfor | hfor
        · exact absurd rfl hne
        · rcases hchanged.waitsFor with hsame | ⟨-, child, signo, hchild, hstatus⟩
          · exact .inl (hsame.trans hfor)
          · obtain rfl := Option.some.inj (hchild.symm.trans hfor)
            cases (Running.statusOf hq).symm.trans hstatus
        · exact .inr hfor
      · rcases hchanged.waitsFor with hsame | ⟨hnone, -⟩
        · exact hsame ▸ h
        · cases hnone.symm.trans h
  | forked hp hforked => exact hfam.fork hp hforked
  | finished hp hfinished => exact hfam.finish

end Family

/-! ## Runs -/

/-- `process_exist` and `fork_process_and_keepalive` together. -/
structure OneServer (developerBuild : Bool) (s : System) : Prop where
  /-- A launch goes on exactly if no process is left that is behind `process_exist`. -/
  processExist : ∀ {i p s'}, s.Running i p → p.pc = .flock →
    s.step developerBuild (.run i true) = some s' →
    ((∃ p', s'.Running i p' ∧ p'.pc.hasLock = true) ↔
      ∀ j q, s.Running j q → q.pc.hasLock = false)
  /-- Two processes behind it are a parent and the child it waits for. -/
  family : ∀ {i j p q}, s.Running i p → s.Running j q → p.pc.holds = true → q.pc.holds = true →
    i = j ∨ p.pc.waitsFor = some j ∨ q.pc.waitsFor = some i
  /-- One process is the server. -/
  server : ∀ {i j p q}, s.Running i p → s.Running j q → p.pc.isWorker = true →
    q.pc.isWorker = true → i = j

theorem Family.server (hfam : Family s) (hp : s.Running i p) (hq : s.Running j q)
    (hworker : p.pc.isWorker = true) (hworker' : q.pc.isWorker = true) : i = j := by
  have hholds : ∀ {pc : Pc}, pc.isWorker = true → pc.holds = true ∧ pc.waitsFor = none := by
    intro pc h
    cases pc <;> first | exact ⟨rfl, rfl⟩ | cases h
  rcases hfam.two hp hq (hholds hworker).1 (hholds hworker').1 with h | h | h
  · exact h
  · cases (hholds hworker).2.symm.trans h
  · cases (hholds hworker').2.symm.trans h

theorem not_running_empty : ¬System.Running {} i p := fun hp => by cases hp

theorem LockInv.empty : LockInv {} where
  file hp := absurd hp not_running_empty
  locked h := by cases h
  start hp := absurd hp not_running_empty
  opened hp := absurd hp not_running_empty
  own hp := absurd hp not_running_empty
  held hp := absurd hp not_running_empty

theorem Family.empty : Family {} where
  two hp := absurd hp not_running_empty
  waits hp := absurd hp not_running_empty

theorem Reachable.family (h : (processes developerBuild).Reachable s) : LockInv s ∧ Family s := by
  refine Machine.Run.invariant (P := fun s => LockInv s ∧ Family s) h (fun s hs => ?_)
    fun s i s' hinv _ hstep => ?_
  · obtain rfl : s = {} := hs
    exact ⟨.empty, .empty⟩
  · have hmove := step_moves hstep
    exact ⟨hinv.1.move hmove, hinv.2.move hinv.1 hmove⟩

/-- **One server.** Whatever is launched, forked, ended or sent a signal in whatever order. -/
theorem one_server (h : (processes developerBuild).Reachable s) : OneServer developerBuild s where
  processExist := (Reachable.family h).1.flock_iff
  family := (Reachable.family h).2.two
  server := (Reachable.family h).2.server

/-- Where the processes are, and how they have ended. -/
def System.places (s : System) : List (Pc × Option Status) :=
  s.procs.map fun slot => (slot.process.pc, slot.status)

/-- A server is launched and served by its child, and a second launch is about to call `flock`. -/
def secondLaunch : List Input :=
  [.launch, .run 0 true, .run 0 true, .run 0 true, .run 0 true, .run 1 true, .run 0 true,
    .run 2 true, .run 1 true, .run 1 true, .launch, .run 3 true]

theorem one_server_secondLaunch :
    ∃ s : System, s.places =
        [(.daemonExit, some (.exited 0)), (.waiting 2, none), (.serving, none), (.flock, none)] ∧
      OneServer false s := by
  obtain ⟨s, -, hs, hq⟩ := Machine.exists_run_of_replay (processes false) Machine.anyStep
    secondLaunch (fun s => decide (s.places =
        [(.daemonExit, some (.exited 0)), (.waiting 2, none), (.serving, none), (.flock, none)]))
    (s := {}) rfl (by decide)
  exact ⟨s, of_decide_eq_true hq, one_server hs⟩

end KeepAlive

end ServerBase
