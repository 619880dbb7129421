import ServerBase.Lib.Ledger
import ServerBase.Logger.Thread

/-!
# What is pushed is written

**The order** (`Delivered.order`). What was logged, then what the thread has taken from the queue
and not written, then the queue: these are the lines, as they were pushed.

**The buffers** (`Delivered.buffers`). A buffer is in the queue, or in the batch of the thread, or
was deleted, once.

**The result** (`async_lossless`). The thread may find the exit flag after it has swapped an empty
queue. Then it ends without a look at what was pushed in between, and that is lost
(`async_loses`). In runs without this, and without a sum that is no `int`, everything pushed is
written when the thread is joined.
-/

namespace ServerBase

namespace Logger

variable {s : Logger}

/-! ## The operations of the thread -/

theorem checkNewLog_spec (h : Ready s) (tbuf : Bytes) :
    Ready (s.checkNewLog tbuf true) ∧ (s.checkNewLog tbuf true).logged = s.logged ∧
      SameQueue s (s.checkNewLog tbuf true) ∧
      (s.checkNewLog tbuf true).memcpys = s.memcpys ∧
      (s.checkNewLog tbuf true).gFlushCacheSz = s.gFlushCacheSz := by
  unfold checkNewLog
  split
  · exact ⟨h, rfl, .refl s, rfl, rfl⟩
  · obtain ⟨file, hfile⟩ := Option.isSome_iff_exists.1 h.logFlush.isOpen
    have hlogged : s.logFlush.closed.flatten ++ file = s.logged := by
      have hwritten := h.written_logFlush
      rw [written, hfile] at hwritten
      exact hwritten
    dsimp only
    rw [if_pos rfl, hfile]
    refine ⟨⟨rfl, h.logFlush.length, h.logFlush.size, h.logFlush.nonneg, h.logFlush.pos⟩, ?_,
      ?_, ?_, ?_⟩
    · have hbuffered := h.buffered_logFlush
      rw [buffered] at hbuffered
      rw [← hlogged]
      simp [logged, written, buffered, hbuffered]
    · rw [h.logFlush_eq]
      exact ⟨rfl, rfl, rfl, rfl⟩
    · rw [h.logFlush_eq]
    · rw [h.logFlush_eq]

/-- A line that is copied behind the others. -/
structure Wrote (s : Logger) (line : Bytes) (s' : Logger) : Prop where
  ready : Ready s'
  logged : s'.logged = s.logged ++ line
  queue : SameQueue s s'
  size : s'.gFlushCacheSz = s.gFlushCacheSz
  memcpys : ∀ c ∈ s'.memcpys, c ∈ s.memcpys ∨ 0 ≤ c.1 ∧ c.1 + c.2 < s.gFlushCacheSz

theorem Wrote.append (h : Ready s) {line : Bytes}
    (hroom : s.gFilePos + line.length < s.gFlushCacheSz) :
    Wrote s line (s.append line line.length) := by
  have hfit : s.gFilePos + line.length ≤ s.gFileBuf.length := by
    have hlength := h.length
    have hnonneg := h.nonneg
    omega
  refine ⟨h.append _ _, ?_, append_queue s _ _, (append_settings s _ _).size, ?_⟩
  · rw [h.logged_append (Nat.le_refl _) hfit, List.take_length]
  · rw [h.append_eq (Nat.le_refl _) hfit]
    intro c hc
    rcases List.mem_cons.1 hc with rfl | hc
    · exact .inr ⟨h.nonneg, hroom⟩
    · exact .inl hc

/-- The buffer is emptied first. -/
theorem Wrote.of_logFlush (h : Ready s) {line : Bytes} {s' : Logger}
    (hw : Wrote s.logFlush line s') : Wrote s line s' where
  ready := hw.ready
  logged := hw.logged.trans (by rw [h.logged_logFlush])
  queue := (logFlush_queue s).trans hw.queue
  size := hw.size.trans (logFlush_settings s).size
  memcpys c hc := by
    have hmem := hw.memcpys c hc
    rw [h.logFlush_eq] at hmem
    exact hmem

theorem logFlush_of_pos (s : Logger) :
    (if 0 < s.gFilePos then s.logFlush else s) = s.logFlush := by
  split
  · rfl
  · next hpos => rw [logFlush, if_neg fun hguard => hpos hguard.1]

/-- What becomes of a line of a batch. -/
inductive WriteLine (s : Logger) (line : Bytes) : Logger → Prop
  | empty (nil : line = []) : WriteLine s line s
  | copy (room : s.gFilePos + line.length < s.gFlushCacheSz) :
      WriteLine s line (s.append line line.length)
  | flush (room : (line.length : Int) < s.gFlushCacheSz) :
      WriteLine s line (s.logFlush.append line line.length)
  /-- It is longer than the buffer and written directly. -/
  | direct : WriteLine s line (s.logFlush.fwrite line)

theorem writeLine_cases (h : Ready s) {line : Bytes}
    (hsum : s.gFilePos + line.length ≤ INT_MAX) : WriteLine s line (s.writeLine line) := by
  have hnonneg := h.nonneg
  have hopen : ¬s.gLogFile.isNone = true := by
    rw [Option.isNone_iff_eq_none, ← ne_eq, ← Option.isSome_iff_ne_none]
    exact h.isOpen
  have hlen : int32 line.length = line.length := int32_of_le (Int.natCast_nonneg _) (by omega)
  unfold writeLine
  dsimp only
  by_cases hzero : line.length = 0
  · rw [if_pos (.inr hzero)]
    exact .empty (List.eq_nil_of_length_eq_zero hzero)
  · rw [if_neg (not_or.2 ⟨hopen, hzero⟩), hlen, int32_of_le (by omega) hsum, logFlush_of_pos,
      (logFlush_settings s).size]
    split
    · split
      · exact .direct
      · next hshort => exact .flush (Int.not_le.1 hshort)
    · next hroom => exact .copy (Int.not_le.1 hroom)

/-- **A line of a batch** is logged, in each of the cases. -/
theorem writeLine_spec (h : Ready s) {line : Bytes}
    (hsum : s.gFilePos + line.length ≤ INT_MAX) : Wrote s line (s.writeLine line) := by
  have hsize : s.logFlush.gFlushCacheSz = s.gFlushCacheSz := (logFlush_settings s).size
  have hpos : s.logFlush.gFilePos = 0 := by rw [h.logFlush_eq]
  have hcases := writeLine_cases h hsum
  generalize s.writeLine line = s' at hcases ⊢
  cases hcases with
  | empty hnil =>
      rw [hnil]
      exact ⟨h, (List.append_nil _).symm, .refl s, rfl, fun c hc => .inl hc⟩
  | copy hroom => exact .append h hroom
  | flush hroom =>
      refine .of_logFlush h (.append h.logFlush ?_)
      rw [hpos, hsize]
      omega
  | direct =>
      refine .of_logFlush h ⟨h.logFlush.fwrite line, ?_, ⟨rfl, rfl, rfl, rfl⟩, rfl,
        fun c hc => .inl hc⟩
      have hbuffered : (s.logFlush.fwrite line).buffered = [] := h.buffered_logFlush
      rw [Logger.logged, Logger.logged, h.logFlush.written_fwrite, hbuffered,
        h.buffered_logFlush, List.append_nil, List.append_nil]

/-- The file is closed behind an empty buffer. -/
theorem logClose_eq (hpos : s.gFilePos = 0) :
    s.logClose = { s with
      gFileBuf := [], closed := s.closed ++ s.gLogFile.toList, gLogFile := none } := by
  rw [logClose, if_neg fun hguard => absurd hguard.1 (by rw [hpos]; decide)]

end Logger

namespace AsyncLog

/-- What holds between the steps. -/
structure Delivered (s : AsyncLog) : Prop where
  ready : s.thread.isFinished = false → s.log.Ready
  pos : s.thread.isWriting = false → s.log.gFilePos = 0
  order : s.log.logged ++ (s.thread.unwritten ++ s.log.gAsyncLogBuffer).flatMap LineBuf.line =
    s.pushed.flatten
  count : s.log.nextBuf = s.pushed.length
  buffers : Ledger.Balanced (List.range s.log.nextBuf)
    ((s.thread.undeleted ++ s.log.gAsyncLogBuffer).map LineBuf.id) s.deleted
  memcpys : ∀ c ∈ s.log.memcpys, 0 ≤ c.1 ∧ c.1 + c.2 < s.log.gFlushCacheSz
  mode : s.log.gLogAsync = true
  ended : s.thread.isFinished = true → s.log.gAsyncLogBuffer = []
  joined : s.shutdown.isJoined = true → s.thread.isFinished = true

variable {s s' : AsyncLog}

theorem delivered_start (level : LogLevel) (flushCacheSz : BitVec 32) (timing : Bytes)
    (garbage : ℕ → UInt8) : Delivered (start level flushCacheSz timing garbage) where
  ready _ := by
    have h := Logger.ready_logInit level flushCacheSz timing garbage
    exact ⟨h.isOpen, h.length, h.size, h.nonneg, h.pos⟩
  pos _ := rfl
  order := rfl
  count := rfl
  buffers := Ledger.balanced_nil
  memcpys c hc := by cases hc
  mode := rfl
  ended h := by cases h
  joined h := by cases h

/-! ### Producers and the shutdown -/

theorem Delivered.logLog (h : Delivered s) (c : LogCall) (hended : s.thread.isFinished = false) :
    Delivered (s.logLog c) := by
  by_cases hlevel : c.level.toNat < s.log.gLogMinLevel.toNat
  · have hsame : s.logLog c = s := by
      rw [AsyncLog.logLog, Logger.logLog, if_pos hlevel, if_pos hlevel, List.append_nil]
    rw [hsame]
    exact h
  · have hlog : s.log.logLog c = s.log.logLogAsync c := by
      rw [Logger.logLog, if_neg hlevel, if_pos h.mode]
    have heq : s.logLog c =
        { s with log := s.log.logLogAsync c, pushed := s.pushed ++ [c.asyncLine] } := by
      rw [AsyncLog.logLog, hlog, if_neg hlevel]
    rw [heq]
    have hready := h.ready hended
    refine
      { ready := fun _ => ⟨hready.isOpen, hready.length, hready.size, hready.nonneg, hready.pos⟩
        pos := h.pos
        order := ?_
        count := ?_
        buffers := ?_
        memcpys := h.memcpys
        mode := h.mode
        ended := fun hend => ?_
        joined := h.joined }
    · change s.log.logged ++ (s.thread.unwritten ++ (s.log.gAsyncLogBuffer ++ [_])).flatMap _ = _
      rw [← List.append_assoc, List.flatMap_append, ← List.append_assoc, h.order,
        List.flatten_append]
      simp [LineBuf.line, LogCall.asyncLine]
    · change s.log.nextBuf + 1 = _
      rw [h.count, List.length_append, List.length_singleton]
    · refine h.buffers.create_range ?_
      change ((s.thread.undeleted ++ (s.log.gAsyncLogBuffer ++ [_])).map LineBuf.id).Perm _
      rw [← List.append_assoc, List.map_append]
      exact List.perm_append_singleton _ _
    · rw [hended] at hend
      cases hend

/-- Behind the join the thread has ended. -/
theorem Delivered.thread_of_joined (h : Delivered s) (hjoined : s.shutdown.isJoined = true) :
    s.thread = .finished := by
  have hended := h.joined hjoined
  cases hthread : s.thread <;> rw [hthread] at hended <;> first | rfl | cases hended

theorem Delivered.close (h : Delivered s) (hjoined : s.shutdown.isJoined = true) :
    Delivered { s with log := s.log.logClose, shutdown := .closed } := by
  have hended := h.joined hjoined
  have hpos : s.log.gFilePos = 0 := h.pos (by rw [h.thread_of_joined hjoined]; rfl)
  have hclose := Logger.logClose_eq hpos
  have hlogged : s.log.logClose.logged = s.log.logged := by
    rw [hclose]
    cases hfile : s.log.gLogFile <;>
      simp [Logger.logged, Logger.written, Logger.buffered, hpos, hfile]
  refine
    { ready := fun hnot => ?_
      pos := fun _ => by rw [hclose]; exact hpos
      order := ?_
      count := by rw [hclose]; exact h.count
      buffers := by rw [hclose]; exact h.buffers
      memcpys := by rw [hclose]; exact h.memcpys
      mode := by rw [hclose]; exact h.mode
      ended := fun _ => by rw [hclose]; exact h.ended hended
      joined := fun _ => hended }
  · rw [hended] at hnot
    cases hnot
  · rw [hlogged, hclose]
    exact h.order

/-! ### The thread -/

/-- A thread that goes on was not waited for. -/
theorem Delivered.not_joined (h : Delivered s) {t : LogThread} (hthread : s.thread = t)
    (hended : t.isFinished = false) : ¬s.shutdown.isJoined = true := by
  intro hjoined
  have hfinished := h.joined hjoined
  rw [hthread, hended] at hfinished
  cases hfinished

/-- The thread goes on, with the same lines and the same buffers. -/
theorem Delivered.move (h : Delivered s) {t t' : LogThread} (hthread : s.thread = t)
    (hended : t.isFinished = false) (hwriting : t.isWriting = false)
    (hunwritten : t'.unwritten = t.unwritten) (hundeleted : t'.undeleted = t.undeleted)
    (hend : t'.isFinished = true → s.log.gAsyncLogBuffer = []) :
    Delivered { s with thread := t' } where
  ready _ := h.ready (hthread ▸ hended)
  pos _ := h.pos (hthread ▸ hwriting)
  order := by
    dsimp only
    rw [hunwritten, ← hthread]
    exact h.order
  count := h.count
  buffers := by
    dsimp only
    rw [hundeleted, ← hthread]
    exact h.buffers
  memcpys := h.memcpys
  mode := h.mode
  ended := hend
  joined hjoined := (h.not_joined hthread hended hjoined).elim

/-- The thread writes, and holds the same buffers. -/
theorem Delivered.write (h : Delivered s) {t t' : LogThread} {l : Logger} (hthread : s.thread = t)
    (hended : t.isFinished = false) (hend : t'.isFinished = false) (hready : l.Ready)
    (hqueue : Logger.SameQueue s.log l) (hsize : l.gFlushCacheSz = s.log.gFlushCacheSz)
    (hmemcpys : ∀ c ∈ l.memcpys,
      c ∈ s.log.memcpys ∨ 0 ≤ c.1 ∧ c.1 + c.2 < s.log.gFlushCacheSz)
    (hpos : t'.isWriting = false → l.gFilePos = 0)
    (hlogged : l.logged ++ t'.unwritten.flatMap LineBuf.line =
      s.log.logged ++ t.unwritten.flatMap LineBuf.line)
    (hundeleted : t'.undeleted = t.undeleted) :
    Delivered { s with log := l, thread := t' } where
  ready _ := hready
  pos := hpos
  order := by
    have horder := h.order
    rw [List.flatMap_append, ← List.append_assoc] at horder ⊢
    rw [hlogged, hqueue.queue, ← hthread]
    exact horder
  count := hqueue.nextBuf.trans h.count
  buffers := by
    dsimp only
    rw [hundeleted, hqueue.queue, hqueue.nextBuf, ← hthread]
    exact h.buffers
  memcpys c hc := by
    dsimp only at hc ⊢
    rw [hsize]
    exact (hmemcpys c hc).elim (h.memcpys c) id
  mode := hqueue.mode.trans h.mode
  ended hfinished := by
    rw [hend] at hfinished
    cases hfinished
  joined hjoined := (h.not_joined hthread hended hjoined).elim

/-- The queue is swapped with an empty batch. -/
theorem Delivered.swap (h : Delivered s) (hthread : s.thread = .deciding) :
    Delivered { s with
      log := { s.log with gAsyncLogBuffer := [] }, thread := .swapped s.log.gAsyncLogBuffer } := by
  have hready := h.ready (by rw [hthread]; rfl)
  have horder := h.order
  have hbuffers := h.buffers
  rw [hthread] at horder hbuffers
  exact
    { ready := fun _ => ⟨hready.isOpen, hready.length, hready.size, hready.nonneg, hready.pos⟩
      pos := fun _ => h.pos (by rw [hthread]; rfl)
      order := by
        change s.log.logged ++ (s.log.gAsyncLogBuffer ++ []).flatMap LineBuf.line = _
        rw [List.append_nil]
        exact horder
      count := h.count
      buffers := by
        change Ledger.Balanced _ ((s.log.gAsyncLogBuffer ++ []).map LineBuf.id) _
        rw [List.append_nil]
        exact hbuffers
      memcpys := h.memcpys
      mode := h.mode
      ended := fun hfinished => by cases hfinished
      joined := fun hjoined => (h.not_joined hthread rfl hjoined).elim }

/-- A buffer is deleted. -/
theorem Delivered.delete (h : Delivered s) {b : LineBuf} {rest : List LineBuf}
    (hthread : s.thread = .deleting (b :: rest)) :
    Delivered { s with deleted := b.id :: s.deleted, thread := .deleting rest } := by
  have horder := h.order
  have hbuffers := h.buffers
  rw [hthread] at horder hbuffers
  exact
    { ready := fun _ => h.ready (by rw [hthread]; rfl)
      pos := fun _ => h.pos (by rw [hthread]; rfl)
      order := horder
      count := h.count
      buffers := hbuffers.release (List.Perm.refl _)
      memcpys := h.memcpys
      mode := h.mode
      ended := fun hfinished => by cases hfinished
      joined := fun hjoined => (h.not_joined hthread rfl hjoined).elim }

theorem Delivered.threadStep (h : Delivered s) {r : LogReadings} (hallowed : s.Allowed (.thread r))
    (hsafe : s.Safe (.thread r)) (hs : s.threadStep r = some s') : Delivered s' := by
  have hopened : r.opened = true := hallowed
  replace hsafe : s.thread.Safe s.log := hsafe
  cases threadStep_cases hs with
  | move hthread hgoing hwriting _ hfrom hto hundeleted hends =>
      refine h.move hthread hgoing hwriting (hto.trans hfrom.symm) hundeleted fun hend => ?_
      rcases hends hend with hempty | ⟨rfl, hexit⟩
      · exact hempty
      · rw [hthread] at hsafe
        exact List.isEmpty_iff.1 (hsafe hexit)
  | swap hthread => exact h.swap hthread
  | check hthread =>
      rw [hopened]
      obtain ⟨hready, hlogged, hqueue, hmemcpys, hsize⟩ :=
        Logger.checkNewLog_spec (h.ready (by rw [hthread]; rfl)) r.tbuf
      refine h.write hthread rfl rfl hready hqueue hsize ?_ ?_ ?_ ?_
      · rw [hmemcpys]
        exact fun c hc => .inl hc
      · intro hwriting
        cases hwriting
      · rw [hlogged]
        rfl
      · rfl
  | write hthread =>
      have hready := h.ready (by rw [hthread]; rfl)
      rw [hthread] at hsafe
      have hwrote := Logger.writeLine_spec hready hsafe
      refine h.write hthread rfl rfl hwrote.ready hwrote.queue hwrote.size hwrote.memcpys ?_ ?_ ?_
      · intro hwriting
        cases hwriting
      · rw [hwrote.logged, List.append_assoc]
        rfl
      · rfl
  | flush hthread =>
      have hready := h.ready (by rw [hthread]; rfl)
      refine h.write hthread rfl rfl hready.logFlush (Logger.logFlush_queue _)
        (Logger.logFlush_settings _).size ?_ ?_ ?_ ?_
      · rw [hready.logFlush_eq]
        exact fun c hc => .inl hc
      · intro _
        rw [hready.logFlush_eq]
      · rw [hready.logged_logFlush]
        rfl
      · rfl
  | delete hthread => exact h.delete hthread

theorem Delivered.step (h : Delivered s) {i : AsyncInput} (hallowed : s.Allowed i)
    (hsafe : s.Safe i) (hs : s.step i = some s') : Delivered s' := by
  cases i with
  | logLog c =>
      simp only [AsyncLog.step, Option.ite_none_left_eq_some, Option.some.injEq] at hs
      obtain ⟨-, rfl⟩ := hs
      exact h.logLog c hallowed
  | thread r => exact h.threadStep hallowed hsafe hs
  | exit =>
      simp only [AsyncLog.step] at hs
      split at hs
      · obtain rfl := Option.some.inj hs
        exact
          { h with
            ready := fun hended => by
              have hready := h.ready hended
              exact ⟨hready.isOpen, hready.length, hready.size, hready.nonneg, hready.pos⟩
            joined := fun hjoined => by cases hjoined }
      · cases hs
  | join =>
      simp only [AsyncLog.step] at hs
      split at hs
      · simp only [Option.ite_none_right_eq_some, Option.some.injEq] at hs
        obtain ⟨hfinished, rfl⟩ := hs
        exact { h with joined := fun _ => hfinished }
      · cases hs
  | close =>
      simp only [AsyncLog.step] at hs
      split at hs
      · next hshutdown =>
        obtain rfl := Option.some.inj hs
        exact h.close (by rw [hshutdown]; rfl)
      · cases hs

theorem Delivered.run (hs : asyncLogging.Run (fun s i => s.Allowed i ∧ s.Safe i) s) :
    Delivered s := by
  refine hs.invariant ?_ fun _ _ _ h hok hstep => h.step hok.1 hok.2 hstep
  rintro s ⟨level, flushCacheSz, timing, garbage, rfl⟩
  exact delivered_start level flushCacheSz timing garbage

/-- **Asynchronous logging.** No copy reaches the end of the buffer. When the thread was joined,
what is in the files are the lines that were pushed, in order and once each, and every buffer was
deleted once. -/
theorem async_lossless (hs : asyncLogging.Run (fun s i => s.Allowed i ∧ s.Safe i) s) :
    (∀ c ∈ s.log.memcpys, 0 ≤ c.1 ∧ c.1 + c.2 < s.log.gFlushCacheSz) ∧
      (s.shutdown.isJoined = true →
        s.log.written = s.pushed.flatten ∧ s.deleted.Nodup ∧
          s.deleted.Perm (List.range s.pushed.length)) := by
  have h := Delivered.run hs
  refine ⟨h.memcpys, fun hjoined => ?_⟩
  have hended := h.joined hjoined
  have hthread := h.thread_of_joined hjoined
  have horder := h.order
  have hbuffers := h.buffers
  rw [hthread, h.ended hended] at horder hbuffers
  have hbuffered : s.log.buffered = [] := by
    rw [Logger.buffered, h.pos (by rw [hthread]; rfl)]
    rfl
  refine ⟨?_, hbuffers.released_nodup List.nodup_range, ?_⟩
  · rw [Logger.logged, hbuffered, List.append_nil] at horder
    exact (List.append_nil _).symm.trans horder
  · rw [← h.count]
    exact hbuffers.released_perm

/-- After `log_init` with a flush cache of 128 bytes. -/
def smallStart : AsyncLog := start .info 128 (bytes "20260101_Thursday") fun _ => 0

theorem smallStart_init : asyncLogging.init smallStart :=
  ⟨.info, 128, bytes "20260101_Thursday", fun _ => 0, rfl⟩

/-- Two lines are written on the next day, then the logger is shut down. -/
def orderlyShutdown : List AsyncInput :=
  [.logLog helloCall, .logLog helloCall, .thread { timedOut := true }, .thread {}, .thread {},
    .thread { tbuf := bytes "20260102_Friday" }, .thread {}, .thread {}, .thread {}, .thread {},
    .thread {}, .thread {}, .exit, .thread {}, .thread {}, .join]

theorem async_lossless_orderly :
    ∃ s : AsyncLog, s.log.closed = [[]] ∧ s.log.written = s.pushed.flatten ∧
      s.deleted.Perm (List.range s.pushed.length) ∧ s.pushed.length = 2 := by
  obtain ⟨s, -, hs, hq⟩ := Machine.exists_run_of_replay asyncLogging
    (fun s i => s.Allowed i ∧ s.Safe i) orderlyShutdown
    (fun s => s.shutdown.isJoined && (s.log.closed == [[]] && s.pushed.length == 2))
    smallStart_init (by decide +kernel)
  rw [Bool.and_eq_true, Bool.and_eq_true, beq_iff_eq, beq_iff_eq] at hq
  obtain ⟨-, hwritten⟩ := async_lossless hs
  obtain ⟨hlines, -, hdeleted⟩ := hwritten hq.1
  exact ⟨s, hq.2.1, hlines, hdeleted, hq.2.2⟩

/-- A line is pushed after the thread has swapped an empty queue, and before it sees the exit
flag. -/
def lateLine : List AsyncInput :=
  [.thread { timedOut := true }, .thread {}, .thread { late := true }, .logLog helloCall, .exit,
    .thread {}, .join]

/-- **A line is lost**: it was pushed before the exit flag was set, and is not in the file when the
thread was joined. -/
theorem async_loses :
    ∃ s : AsyncLog, asyncLogging.replayWhile Allowed smallStart lateLine = some s ∧
      asyncLogging.Run Allowed s ∧ s.shutdown.isJoined = true ∧
      s.pushed = [helloCall.asyncLine] ∧ s.log.written ≠ s.pushed.flatten := by
  obtain ⟨s, hreplay, hs, hq⟩ := Machine.exists_run_of_replay asyncLogging Allowed lateLine
    (fun s => s.shutdown.isJoined && (s.pushed == [helloCall.asyncLine] &&
      s.log.written != s.pushed.flatten)) smallStart_init (by decide +kernel)
  rw [Bool.and_eq_true, Bool.and_eq_true, beq_iff_eq, bne_iff_ne] at hq
  exact ⟨s, hreplay, hs, hq.1, hq.2.1, hq.2.2⟩

end AsyncLog

end ServerBase
