import ServerBase.Logger.Dates
import ServerBase.Logger.Lossless

/-!
# The file of the day

Asynchronous logging with the clock. A producer reads it for the time in its line, and
`log_async_thread` once for each batch, in `check_new_log`.

**The machine** (`dailyLogging`). The clock is any time at each reading. What is remembered is the
time of every line that was pushed, and the names of the files in the order they were opened.

**Filing** (`FiledByDay`). The files hold the lines in the order they were pushed, and each line is
in a file with the name of its day.

**The result** (`filed_by_day`). So it is in every run in which the check of a batch is made on the
day of its lines. A batch that is checked after midnight takes the lines of the day before along
(`not_filed_by_day`).
-/

namespace ServerBase

/-- A line, and the time its producer has read. -/
structure StampedLine where
  stamp : UnixTime
  line : Bytes

/-- A file that was opened, and the lines written to it since. -/
structure DayFile where
  name : Bytes
  lines : List StampedLine

def DayFile.content (f : DayFile) : Bytes := f.lines.flatMap StampedLine.line

/-- The contents of the files in the order they were opened. -/
def Logger.contents (s : Logger) : List Bytes := s.closed ++ s.gLogFile.toList

/-! ## The machine -/

structure DayLog where
  async : AsyncLog
  lines : List StampedLine := []
  names : List Bytes

inductive DayInput
  /-- `timebuf` is the time of the stamp. -/
  | logLog (stamp : UnixTime) (c : LogCall)
  /-- The date is that of `now`. -/
  | thread (now : UnixTime) (r : LogReadings)
  | exit
  | join
  | close

namespace DayInput

def toAsync : DayInput → AsyncInput
  | logLog stamp c => .logLog { c with timebuf := timeOf stamp.seconds }
  | thread now r => .thread { r with tbuf := dateOf now.seconds }
  | exit => .exit
  | join => .join
  | close => .close

end DayInput

namespace DayLog

/-- The line that `log_log` pushes. -/
def pushes (s : AsyncLog) : DayInput → List StampedLine
  | .logLog stamp c =>
      if c.level.toNat < s.log.gLogMinLevel.toNat then []
      else [⟨stamp, ({ c with timebuf := timeOf stamp.seconds } : LogCall).asyncLine⟩]
  | _ => []

/-- The file that `check_new_log` opens for the date. -/
def newFile (dir : LogDir) (s : Logger) (now : UnixTime) : List Bytes :=
  if strequal s.gLastLogTiming (dateOf now.seconds) then []
  else [filenamebuf dir.bytes (cstr (snprintf 32 (dateOf now.seconds)).1)]

/-- The file that a step opens. -/
def opens (dir : LogDir) (s : AsyncLog) : DayInput → List Bytes
  | .thread now _ =>
      match s.thread with
      | .swapped (_ :: _) => newFile dir s.log now
      | _ => []
  | _ => []

def step (dir : LogDir) (s : DayLog) (i : DayInput) : Option DayLog :=
  (s.async.step i.toAsync).map fun async =>
    { async, lines := s.lines ++ pushes s.async i, names := s.names ++ opens dir s.async i }

/-- After `log_init` and `log_set_async` at the time `now`. -/
def start (dir : LogDir) (now : UnixTime) (level : LogLevel) (flushCacheSz : BitVec 32)
    (garbage : ℕ → UInt8) : DayLog where
  async := AsyncLog.start level flushCacheSz (dateOf now.seconds) garbage
  names := [logFileName dir.bytes now.seconds]

/-- As for `asyncLogging`: files can be opened, and so on. -/
def Proper (s : DayLog) (i : DayInput) : Prop :=
  s.async.Allowed i.toAsync ∧ s.async.Safe i.toAsync

/-- The batch whose check comes next. -/
def unchecked : LogThread → List LineBuf
  | .swapped batch => batch
  | _ => []

/-- A batch is checked on the day of its lines. -/
def SameDay (s : DayLog) : DayInput → Prop
  | .thread now _ => ∀ b ∈ unchecked s.async.thread, ∀ l ∈ s.lines[b.id]?,
      dayOf l.stamp.seconds = dayOf now.seconds
  | _ => True

instance (s : DayLog) (i : DayInput) : Decidable (s.Proper i) :=
  inferInstanceAs (Decidable (_ ∧ _))

instance (s : DayLog) : ∀ i, Decidable (s.SameDay i)
  | .thread now _ => inferInstanceAs (Decidable (∀ b ∈ unchecked s.async.thread,
      ∀ l ∈ s.lines[b.id]?, dayOf l.stamp.seconds = dayOf now.seconds))
  | .logLog _ _ => .isTrue trivial
  | .exit => .isTrue trivial
  | .join => .isTrue trivial
  | .close => .isTrue trivial

end DayLog

/-- Asynchronous logging into the files of a directory. -/
def dailyLogging (dir : LogDir) : Machine DayLog DayInput where
  init s := ∃ now level flushCacheSz garbage, s = DayLog.start dir now level flushCacheSz garbage
  step := DayLog.step dir

/-- The files hold lines of their days, in the order they were pushed, and the other lines are on
their way. -/
structure FiledByDay (dir : LogDir) (s : DayLog) (files : List DayFile)
    (waiting : List StampedLine) : Prop where
  names : files.map DayFile.name = s.names
  contents : files.map DayFile.content = s.async.log.contents
  byDay : ∀ f ∈ files, ∀ l ∈ f.lines, f.name = logFileName dir.bytes l.stamp.seconds
  order : s.lines = files.flatMap DayFile.lines ++ waiting
  waiting : waiting.flatMap StampedLine.line = s.async.log.buffered ++
    (s.async.thread.unwritten ++ s.async.log.gAsyncLogBuffer).flatMap LineBuf.line

/-! ## The log file and its buffer -/

namespace Logger

variable {s : Logger} {filed buffered : List StampedLine}

/-- What is in the open file, and what is in the buffer. -/
structure Splits (s : Logger) (filed buffered : List StampedLine) : Prop where
  file : s.gLogFile = some (filed.flatMap StampedLine.line)
  buffered : s.buffered = buffered.flatMap StampedLine.line

theorem Splits.logFlush (h : Splits s filed buffered) (hready : Ready s) :
    Splits s.logFlush (filed ++ buffered) [] where
  file := by
    rw [hready.logFlush_eq]
    dsimp only
    rw [h.file, h.buffered, Option.map_some, List.flatMap_append]
  buffered := hready.buffered_logFlush

theorem Splits.append (h : Splits s filed buffered) (hready : Ready s) (l : StampedLine)
    (hroom : s.gFilePos + l.line.length < s.gFlushCacheSz) :
    Splits (s.append l.line l.line.length) filed (buffered ++ [l]) := by
  have hfit : s.gFilePos + l.line.length ≤ s.gFileBuf.length := by
    have hlength := hready.length
    have hnonneg := hready.nonneg
    omega
  constructor
  · rw [hready.append_eq (Nat.le_refl _) hfit]
    exact h.file
  · rw [hready.buffered_append (Nat.le_refl _) hfit, List.take_length, h.buffered,
      List.flatMap_append, List.flatMap_singleton]

/-- **A line is written** behind the others: to the file, or to the buffer in front of it. -/
theorem Splits.writeLine (h : Splits s filed buffered) (hready : Ready s) (l : StampedLine)
    (hsum : s.gFilePos + l.line.length ≤ INT_MAX) :
    ∃ filed' buffered', Splits (s.writeLine l.line) filed' buffered' ∧
      filed' ++ buffered' = filed ++ buffered ++ [l] := by
  have hsize : s.logFlush.gFlushCacheSz = s.gFlushCacheSz := (logFlush_settings s).size
  have hpos : s.logFlush.gFilePos = 0 := by rw [hready.logFlush_eq]
  have hcases := writeLine_cases hready hsum
  generalize s.writeLine l.line = s' at hcases ⊢
  cases hcases with
  | empty hnil =>
      refine ⟨filed, buffered ++ [l], ⟨h.file, ?_⟩, (List.append_assoc ..).symm⟩
      rw [List.flatMap_append, List.flatMap_singleton, hnil, List.append_nil, h.buffered]
  | copy hroom =>
      exact ⟨filed, buffered ++ [l], h.append hready l hroom, (List.append_assoc ..).symm⟩
  | flush hroom =>
      refine ⟨filed ++ buffered, [l], (h.logFlush hready).append hready.logFlush l ?_, rfl⟩
      rw [hpos, hsize]
      omega
  | direct =>
      have hflushed := h.logFlush hready
      have hline : (filed ++ buffered ++ [l]).flatMap StampedLine.line =
          (filed ++ buffered).flatMap StampedLine.line ++ l.line := by
        rw [List.flatMap_append, List.flatMap_singleton]
      refine ⟨filed ++ buffered ++ [l], [], ⟨?_, hflushed.buffered⟩, List.append_nil _⟩
      change s.logFlush.gLogFile.map _ = _
      rw [hflushed.file, Option.map_some, hline]

/-- The thread writes to the file that is open. -/
theorem writeLine_files (s : Logger) (line : Bytes) :
    (s.writeLine line).closed = s.closed ∧
      (s.writeLine line).gLastLogTiming = s.gLastLogTiming := by
  unfold writeLine append logFlush fwrite
  dsimp only
  split_ifs <;> exact ⟨rfl, rfl⟩

theorem logFlush_files (s : Logger) :
    s.logFlush.closed = s.closed ∧ s.logFlush.gLastLogTiming = s.gLastLogTiming := by
  unfold logFlush
  split <;> exact ⟨rfl, rfl⟩

/-- A new file behind an empty buffer. -/
theorem checkNewLog_of_ne {tbuf : Bytes} (hpos : s.gFilePos = 0)
    (hne : strequal s.gLastLogTiming tbuf = false) :
    s.checkNewLog tbuf true = { s with
      closed := s.contents, gLastLogTiming := cstr (snprintf 32 tbuf).1, gLogFile := some [] } := by
  have hflush : s.logFlush = s := by
    rw [logFlush, if_neg fun hguard => absurd hguard.1 (by rw [hpos]; decide)]
  rw [checkNewLog, if_neg (by rw [hne]; decide), hflush, if_pos rfl]
  rfl

end Logger

/-! ## Dates -/

theorem logFileName_congr (dir : LogDir) {t t' : ℤ} (h : dayOf t = dayOf t') :
    logFileName dir.bytes t = logFileName dir.bytes t' := by
  rw [logFileName, dateOf_eq_iff.2 h, logFileName]

/-- The date fits into `gLastLogTiming`. -/
theorem cstr_snprintf_dateOf (now : UnixTime) :
    cstr (snprintf 32 (dateOf now.seconds)).1 = dateOf now.seconds := by
  have hday := dayOf_now now
  exact cstr_snprintf (noNul_dateOf _) (Nat.lt_of_le_of_lt (length_dateOf (by omega)) (by decide))

theorem strequal_dateOf_iff (t t' : ℤ) :
    strequal (dateOf t) (dateOf t') = true ↔ dayOf t = dayOf t' := by
  rw [strequal, cstr_of_noNul (noNul_dateOf t), cstr_of_noNul (noNul_dateOf t'), beq_iff_eq,
    dateOf_eq_iff]

namespace DayLog

/-! ## What holds between the steps -/

/-- The buffer of a line. -/
def Queued (lines : List StampedLine) (b : LineBuf) (l : StampedLine) : Prop :=
  b.line = l.line ∧ lines[b.id]? = some l

/-- The lines that were pushed, divided into those in the files, in the buffer, in the batch and in
the queue. -/
structure Filing (dir : LogDir) (s : DayLog) (before : List DayFile) (current : DayFile)
    (buffered unwritten queue : List StampedLine) : Prop where
  lines : s.lines = before.flatMap DayFile.lines ++
    (current.lines ++ buffered ++ unwritten ++ queue)
  count : s.lines.length = s.async.log.nextBuf
  names : s.names = before.map DayFile.name ++ [current.name]
  contents : s.async.log.contents = before.map DayFile.content ++ [current.content]
  inBuffer : s.async.log.buffered = buffered.flatMap StampedLine.line
  inBatch : List.Forall₂ (Queued s.lines) s.async.thread.unwritten unwritten
  inQueue : List.Forall₂ (Queued s.lines) s.async.log.gAsyncLogBuffer queue
  byDay : ∀ f ∈ before ++ [current], ∀ l ∈ f.lines, f.name = logFileName dir.bytes l.stamp.seconds
  toFile : ∀ l ∈ buffered, current.name = logFileName dir.bytes l.stamp.seconds
  batch : s.async.thread.isWriting = true →
    ∀ l ∈ unwritten, current.name = logFileName dir.bytes l.stamp.seconds
  settled : s.async.thread.isWriting = false → buffered = []
  timing : ∃ t : UnixTime, s.async.log.gLastLogTiming = dateOf t.seconds ∧
    current.name = logFileName dir.bytes t.seconds

/-- The lines are filed, in some way. -/
def Filed (dir : LogDir) (s : DayLog) : Prop :=
  ∃ before current buffered unwritten queue, Filing dir s before current buffered unwritten queue

variable {dir : LogDir} {s : DayLog}

theorem filed_start (now : UnixTime) (level : LogLevel) (flushCacheSz : BitVec 32)
    (garbage : ℕ → UInt8) : Filed dir (start dir now level flushCacheSz garbage) :=
  ⟨[], ⟨logFileName dir.bytes now.seconds, []⟩, [], [], [],
    { lines := rfl
      count := rfl
      names := rfl
      contents := rfl
      inBuffer := rfl
      inBatch := .nil
      inQueue := .nil
      byDay := fun f hf l hl => by
        obtain rfl := List.mem_singleton.1 hf
        cases hl
      toFile := fun l hl => by cases hl
      batch := fun hwriting => by cases hwriting
      settled := fun _ => rfl
      timing := ⟨now, rfl, rfl⟩ }⟩

section
variable {before : List DayFile} {current : DayFile}
  {buffered unwritten queue : List StampedLine}

/-- While the thread runs, the open file is the last one. -/
theorem Filing.splits (h : Filing dir s before current buffered unwritten queue)
    (hready : s.async.log.Ready) :
    s.async.log.closed = before.map DayFile.content ∧
      Logger.Splits s.async.log current.lines buffered := by
  obtain ⟨file, hfile⟩ := Option.isSome_iff_exists.1 hready.isOpen
  have hcontents := h.contents
  rw [Logger.contents, hfile, Option.toList_some] at hcontents
  obtain ⟨hclosed, hlast⟩ := List.append_inj' hcontents rfl
  rw [List.cons.injEq] at hlast
  exact ⟨hclosed, by rw [hfile, hlast.1]; rfl, h.inBuffer⟩

/-! ### The steps of the thread -/

/-- The thread goes on with nothing to write. -/
theorem Filing.move (h : Filing dir s before current buffered unwritten queue) {t : LogThread}
    (hwriting : s.async.thread.isWriting = false) (hto : t.isWriting = false)
    (hfrom : s.async.thread.unwritten = []) (hunwritten : t.unwritten = []) (deleted : List ℕ) :
    Filing dir { s with async := { s.async with thread := t, deleted } } before current buffered
      unwritten queue :=
  { h with
    inBatch := by
      have hbatch := h.inBatch
      rw [hfrom] at hbatch
      dsimp only
      rw [hunwritten]
      exact hbatch
    batch := fun hcontra => by
      dsimp only at hcontra
      rw [hto] at hcontra
      cases hcontra
    settled := fun _ => h.settled hwriting }

/-- The queue becomes the batch. -/
theorem Filing.swap (h : Filing dir s before current buffered unwritten queue)
    (hthread : s.async.thread = .deciding) :
    Filing dir { s with async := { s.async with
      log := { s.async.log with gAsyncLogBuffer := [] }
      thread := .swapped s.async.log.gAsyncLogBuffer } } before current buffered queue [] := by
  have hbatch := h.inBatch
  rw [hthread] at hbatch
  obtain rfl : unwritten = [] := List.forall₂_nil_left_iff.1 hbatch
  exact
    { h with
      lines := by
        rw [List.append_nil]
        have hlines := h.lines
        rw [List.append_nil] at hlines
        exact hlines
      inBatch := h.inQueue
      inQueue := .nil
      batch := fun hcontra => by cases hcontra
      settled := fun _ => h.settled (by rw [hthread]; rfl) }

/-- Lines go on from the batch to the buffer and from the buffer to the file. -/
theorem Filing.advance (h : Filing dir s before current buffered unwritten queue)
    (hready : s.async.log.Ready) {l : Logger} {t : LogThread}
    {filed' buffered' unwritten' : List StampedLine} (hsplits : l.Splits filed' buffered')
    (hfiles : l.closed = s.async.log.closed ∧ l.gLastLogTiming = s.async.log.gLastLogTiming)
    (hqueue : Logger.SameQueue s.async.log l)
    (hlines : filed' ++ buffered' ++ unwritten' = current.lines ++ buffered ++ unwritten)
    (hday : ∀ x ∈ filed' ++ buffered', current.name = logFileName dir.bytes x.stamp.seconds)
    (hbatch : List.Forall₂ (Queued s.lines) t.unwritten unwritten')
    (hwriting : t.isWriting = true →
      ∀ x ∈ unwritten', current.name = logFileName dir.bytes x.stamp.seconds)
    (hsettled : t.isWriting = false → buffered' = []) :
    Filing dir { s with async := { s.async with log := l, thread := t } } before
      ⟨current.name, filed'⟩ buffered' unwritten' queue where
  lines := by
    dsimp only
    rw [hlines]
    exact h.lines
  count := h.count.trans hqueue.nextBuf.symm
  names := h.names
  contents := by
    dsimp only
    rw [Logger.contents, hfiles.1, (h.splits hready).1, hsplits.file]
    rfl
  inBuffer := hsplits.buffered
  inBatch := hbatch
  inQueue := by
    dsimp only
    rw [hqueue.queue]
    exact h.inQueue
  byDay f hf x hx := by
    rcases List.mem_append.1 hf with hf | hf
    · exact h.byDay f (List.mem_append_left _ hf) x hx
    · obtain rfl := List.mem_singleton.1 hf
      exact hday x (List.mem_append_left _ hx)
  toFile x hx := hday x (List.mem_append_right _ hx)
  batch := hwriting
  settled := hsettled
  timing := by
    dsimp only
    rw [hfiles.2]
    exact h.timing

/-- What is in the file and in the buffer is of the day of the file. -/
theorem Filing.day (h : Filing dir s before current buffered unwritten queue) :
    ∀ x ∈ current.lines ++ buffered, current.name = logFileName dir.bytes x.stamp.seconds := by
  intro x hx
  rcases List.mem_append.1 hx with hx | hx
  · exact h.byDay current (List.mem_append_right _ (List.mem_singleton.2 rfl)) x hx
  · exact h.toFile x hx

/-- A line of the batch is written. -/
theorem Filing.write (h : Filing dir s before current buffered unwritten queue)
    (hready : s.async.log.Ready) {b : LineBuf} {batch rest : List LineBuf}
    (hthread : s.async.thread = .writing batch (b :: rest))
    (hsum : s.async.log.gFilePos + b.line.length ≤ INT_MAX) :
    Filed dir { s with async := { s.async with
      log := s.async.log.writeLine b.line, thread := .writing batch rest } } := by
  have hbatch := h.inBatch
  rw [hthread] at hbatch
  obtain ⟨x, unwritten, hx, hrest, rfl⟩ := List.forall₂_cons_left_iff.1 hbatch
  have hday := h.batch (by rw [hthread]; rfl)
  rw [hx.1] at hsum ⊢
  obtain ⟨filed', buffered', hsplits, hlines⟩ :=
    (h.splits hready).2.writeLine hready x hsum
  refine ⟨before, _, buffered', unwritten, queue, h.advance hready hsplits
    (Logger.writeLine_files _ _) (Logger.writeLine_spec hready hsum).queue ?_ ?_ hrest
    (fun _ y hy => hday y (List.mem_cons_of_mem _ hy)) fun hcontra => by cases hcontra⟩
  · rw [hlines, List.append_assoc, List.singleton_append]
  · rw [hlines]
    intro y hy
    rcases List.mem_append.1 hy with hy | hy
    · exact h.day y hy
    · obtain rfl := List.mem_singleton.1 hy
      exact hday y (List.mem_cons_self ..)

/-- The buffer is written. -/
theorem Filing.flush (h : Filing dir s before current buffered unwritten queue)
    (hready : s.async.log.Ready) {batch : List LineBuf}
    (hthread : s.async.thread = .writing batch []) :
    Filed dir { s with async := { s.async with
      log := s.async.log.logFlush, thread := .deleting batch } } := by
  have hbatch := h.inBatch
  rw [hthread] at hbatch
  refine ⟨before, _, [], unwritten, queue, h.advance hready
    ((h.splits hready).2.logFlush hready) (Logger.logFlush_files _) (Logger.logFlush_queue _)
    ?_ ?_ hbatch (fun hcontra => by cases hcontra) fun _ => rfl⟩
  · rw [List.append_nil]
  · rw [List.append_nil]
    exact h.day

/-- A batch that is checked on the day of the open file, which is the day of its lines. -/
theorem Filing.checkSame (h : Filing dir s before current buffered unwritten queue)
    {b : LineBuf} {batch : List LineBuf} (hthread : s.async.thread = .swapped (b :: batch))
    {now : UnixTime} (hequal : strequal s.async.log.gLastLogTiming (dateOf now.seconds) = true)
    (hday : ∀ x ∈ unwritten,
      logFileName dir.bytes now.seconds = logFileName dir.bytes x.stamp.seconds) :
    Filing dir { s with async := { s.async with thread := .writing (b :: batch) (b :: batch) } }
      before current buffered unwritten queue := by
  obtain ⟨t, htiming, hname⟩ := h.timing
  have hbatch := h.inBatch
  rw [hthread] at hbatch
  rw [htiming] at hequal
  have htoday : logFileName dir.bytes t.seconds = logFileName dir.bytes now.seconds :=
    logFileName_congr dir ((strequal_dateOf_iff _ _).1 hequal)
  exact
    { h with
      inBatch := hbatch
      batch := fun _ x hx => (hname.trans htoday).trans (hday x hx)
      settled := fun hcontra => by cases hcontra }

/-- A batch that is checked on another day than that of the open file: it goes to a new file. -/
theorem Filing.checkNew (h : Filing dir s before current [] unwritten queue)
    {b : LineBuf} {batch : List LineBuf} (hthread : s.async.thread = .swapped (b :: batch))
    {now : UnixTime} {log : Logger} (hlog : log = { s.async.log with
      closed := s.async.log.contents, gLastLogTiming := dateOf now.seconds, gLogFile := some [] })
    (hday : ∀ x ∈ unwritten,
      logFileName dir.bytes now.seconds = logFileName dir.bytes x.stamp.seconds) :
    Filing dir
      { async := { s.async with log, thread := .writing (b :: batch) (b :: batch) }
        lines := s.lines
        names := s.names ++ [logFileName dir.bytes now.seconds] }
      (before ++ [current]) ⟨logFileName dir.bytes now.seconds, []⟩ [] unwritten queue := by
  subst hlog
  have hbatch := h.inBatch
  rw [hthread] at hbatch
  refine
    { lines := ?_
      count := h.count
      names := ?_
      contents := ?_
      inBuffer := h.inBuffer
      inBatch := hbatch
      inQueue := h.inQueue
      byDay := ?_
      toFile := fun x hx => by cases hx
      batch := fun _ => hday
      settled := fun _ => rfl
      timing := ⟨now, rfl, rfl⟩ }
  · have hlines := h.lines
    rw [List.append_nil, List.append_assoc] at hlines
    rw [List.flatMap_append, List.flatMap_singleton, List.append_assoc]
    exact hlines
  · rw [h.names, List.map_append, List.map_singleton]
  · rw [List.map_append, List.map_singleton, ← h.contents]
    rfl
  · intro f hf x hx
    rcases List.mem_append.1 hf with hf | hf
    · exact h.byDay f hf x hx
    · obtain rfl := List.mem_singleton.1 hf
      cases hx

/-- **The check of a batch** on the day of its lines. -/
theorem Filing.check (h : Filing dir s before current buffered unwritten queue)
    {b : LineBuf} {batch : List LineBuf}
    (hthread : s.async.thread = .swapped (b :: batch)) (hpos : s.async.log.gFilePos = 0)
    (now : UnixTime) (hsame : ∀ l ∈ unwritten, dayOf l.stamp.seconds = dayOf now.seconds) :
    Filed dir
      { async := { s.async with
          log := s.async.log.checkNewLog (dateOf now.seconds) true
          thread := .writing (b :: batch) (b :: batch) }
        lines := s.lines
        names := s.names ++ newFile dir s.async.log now } := by
  have hday : ∀ x ∈ unwritten,
      logFileName dir.bytes now.seconds = logFileName dir.bytes x.stamp.seconds :=
    fun x hx => logFileName_congr dir (hsame x hx).symm
  cases hequal : strequal s.async.log.gLastLogTiming (dateOf now.seconds) with
  | true =>
      have hcheck : s.async.log.checkNewLog (dateOf now.seconds) true = s.async.log := by
        rw [Logger.checkNewLog, if_pos hequal]
      rw [hcheck, newFile, if_pos hequal, List.append_nil]
      exact ⟨before, current, buffered, unwritten, queue, h.checkSame hthread hequal hday⟩
  | false =>
      obtain rfl := h.settled (by rw [hthread]; rfl)
      rw [Logger.checkNewLog_of_ne hpos hequal, newFile, if_neg (by rw [hequal]; decide),
        cstr_snprintf_dateOf]
      exact ⟨before ++ [current], _, [], unwritten, queue, h.checkNew hthread rfl hday⟩

/-! ### The other steps -/

theorem Queued.append {lines : List StampedLine} {b : LineBuf} {l : StampedLine}
    (h : Queued lines b l) (x : StampedLine) : Queued (lines ++ [x]) b l := by
  refine ⟨h.1, ?_⟩
  rw [List.getElem?_append_left (List.getElem?_eq_some_iff.1 h.2).1]
  exact h.2

/-- A line goes to the end of the queue. -/
theorem Filing.push (h : Filing dir s before current buffered unwritten queue) {b : LineBuf}
    {x : StampedLine} (hid : b.id = s.async.log.nextBuf) (hline : b.line = x.line)
    (pushed : List Bytes) :
    Filing dir
      { async := { s.async with
          log := { s.async.log with
            gAsyncLogBuffer := s.async.log.gAsyncLogBuffer ++ [b]
            nextBuf := s.async.log.nextBuf + 1 }
          pushed }
        lines := s.lines ++ [x]
        names := s.names } before current buffered unwritten (queue ++ [x]) := by
  have hnew : Queued (s.lines ++ [x]) b x := by
    refine ⟨hline, ?_⟩
    rw [hid, ← h.count]
    exact List.getElem?_concat_length
  exact
    { h with
      lines := by
        dsimp only
        rw [h.lines]
        simp only [List.append_assoc]
      count := by
        dsimp only
        rw [List.length_append, h.count]
        rfl
      inBatch := h.inBatch.imp fun _ _ hb => hb.append x
      inQueue := List.rel_append (h.inQueue.imp fun _ _ hb => hb.append x) (.cons hnew .nil) }

theorem line_asyncLine (c : LogCall) (id : ℕ) :
    LineBuf.line ⟨id, c.fileLine.take (c.fileLen + 1).toNat⟩ = c.asyncLine := by
  rw [LineBuf.line, LogCall.asyncLine]

/-- A call of `log_log`. -/
theorem Filing.logLog (h : Filing dir s before current buffered unwritten queue)
    (hmode : s.async.log.gLogAsync = true) (stamp : UnixTime) (c : LogCall) :
    Filed dir
      { async := s.async.logLog { c with timebuf := timeOf stamp.seconds }
        lines := s.lines ++ pushes s.async (.logLog stamp c)
        names := s.names } := by
  by_cases hlevel : c.level.toNat < s.async.log.gLogMinLevel.toNat
  · have hsame : s.async.logLog { c with timebuf := timeOf stamp.seconds } = s.async := by
      rw [AsyncLog.logLog, Logger.logLog, if_pos hlevel, if_pos hlevel, List.append_nil]
    rw [hsame, pushes, if_pos hlevel, List.append_nil]
    exact ⟨before, current, buffered, unwritten, queue, h⟩
  · have hlog : s.async.logLog { c with timebuf := timeOf stamp.seconds } = { s.async with
        log := s.async.log.logLogAsync { c with timebuf := timeOf stamp.seconds }
        pushed := s.async.pushed ++
          [({ c with timebuf := timeOf stamp.seconds } : LogCall).asyncLine] } := by
      rw [AsyncLog.logLog, Logger.logLog, if_neg hlevel, if_pos hmode, if_neg hlevel]
    rw [hlog, pushes, if_neg hlevel]
    generalize ({ c with timebuf := timeOf stamp.seconds } : LogCall) = c'
    have hline := line_asyncLine c' s.async.log.nextBuf
    rw [Logger.logLogAsync]
    generalize c'.fileLine.take (c'.fileLen + 1).toNat = bs at hline
    generalize c'.asyncLine = line at hline
    exact ⟨before, current, buffered, unwritten, _, h.push rfl hline _⟩

theorem Filing.close (h : Filing dir s before current buffered unwritten queue)
    (hwriting : s.async.thread.isWriting = false) (hpos : s.async.log.gFilePos = 0) :
    Filing dir { s with async := { s.async with
      log := s.async.log.logClose, shutdown := .closed } } before current buffered unwritten
      queue := by
  obtain rfl := h.settled hwriting
  rw [Logger.logClose_eq hpos]
  exact
    { h with
      contents := by
        rw [← h.contents]
        exact List.append_nil _
      inBuffer := List.take_nil }

end

theorem exists_queued {lines ls : List StampedLine} {bs : List LineBuf} {l : StampedLine}
    (h : List.Forall₂ (Queued lines) bs ls) (hl : l ∈ ls) : ∃ b ∈ bs, Queued lines b l := by
  induction h with
  | nil => cases hl
  | cons hb _ ih =>
      rcases List.mem_cons.1 hl with rfl | hl
      · exact ⟨_, List.mem_cons_self .., hb⟩
      · obtain ⟨b, hmem, hqueued⟩ := ih hl
        exact ⟨b, List.mem_cons_of_mem _ hmem, hqueued⟩

theorem flatMap_line {lines ls : List StampedLine} {bs : List LineBuf}
    (h : List.Forall₂ (Queued lines) bs ls) :
    ls.flatMap StampedLine.line = bs.flatMap LineBuf.line := by
  induction h with
  | nil => rfl
  | cons hb _ ih => rw [List.flatMap_cons, List.flatMap_cons, ih, hb.1]

/-- Where there is no batch to check, no file is opened. -/
theorem opens_of_ne {now : UnixTime} {r : LogReadings}
    (h : ∀ b batch, s.async.thread ≠ .swapped (b :: batch)) :
    opens dir s.async (.thread now r) = [] := by
  rw [opens]
  split
  · next hthread => exact absurd hthread (h _ _)
  · rfl

/-- A step without a check leaves the names as they are. -/
theorem Filed.keepNames {now : UnixTime} {r : LogReadings} {async : AsyncLog}
    (hno : ∀ b batch, s.async.thread ≠ .swapped (b :: batch))
    (h : Filed dir { async, lines := s.lines, names := s.names }) :
    Filed dir
      { async, lines := s.lines, names := s.names ++ opens dir s.async (.thread now r) } := by
  rw [opens_of_ne hno, List.append_nil]
  exact h

theorem Filed.threadStep (h : Filed dir s) (hd : s.async.Delivered) {now : UnixTime}
    {r : LogReadings} {async : AsyncLog} (hopened : r.opened = true)
    (hsafe : s.async.thread.Safe s.async.log) (hday : s.SameDay (.thread now r))
    (hs : s.async.threadStep { r with tbuf := dateOf now.seconds } = some async) :
    Filed dir
      { async, lines := s.lines, names := s.names ++ opens dir s.async (.thread now r) } := by
  obtain ⟨before, current, buffered, unwritten, queue, h⟩ := h
  have hready : ∀ {t : LogThread}, s.async.thread = t → t.isFinished = false →
      s.async.log.Ready := fun hthread hgoing => hd.ready (hthread ▸ hgoing)
  cases AsyncLog.threadStep_cases hs with
  | move hthread _ hfromw htow hfrom hto _ _ =>
      have hno : ∀ b batch, s.async.thread ≠ .swapped (b :: batch) := by
        intro b batch hswapped
        rw [← hthread, hswapped] at hfrom
        cases hfrom
      exact .keepNames hno ⟨before, current, buffered, unwritten, queue,
        h.move (hthread ▸ hfromw) htow (hthread ▸ hfrom) hto s.async.deleted⟩
  | swap hthread =>
      exact .keepNames (fun _ _ hcontra => by rw [hthread] at hcontra; cases hcontra)
        ⟨before, current, buffered, queue, [], h.swap hthread⟩
  | check hthread =>
      have hopens : opens dir s.async (.thread now r) = newFile dir s.async.log now := by
        rw [opens, hthread]
      rw [hopens, hopened]
      refine h.check hthread (hd.pos (by rw [hthread]; rfl)) now fun l hl => ?_
      have hbatch := h.inBatch
      rw [hthread] at hbatch
      obtain ⟨b, hb, hqueued⟩ := exists_queued hbatch hl
      refine hday b ?_ l hqueued.2
      rw [hthread]
      exact hb
  | write hthread =>
      refine .keepNames (fun _ _ hcontra => by rw [hthread] at hcontra; cases hcontra) ?_
      rw [hthread] at hsafe
      exact h.write (hready hthread rfl) hthread hsafe
  | flush hthread =>
      exact .keepNames (fun _ _ hcontra => by rw [hthread] at hcontra; cases hcontra)
        (h.flush (hready hthread rfl) hthread)
  | delete hthread =>
      exact .keepNames (fun _ _ hcontra => by rw [hthread] at hcontra; cases hcontra)
        ⟨before, current, buffered, unwritten, queue,
          h.move (by rw [hthread]; rfl) rfl (by rw [hthread]; rfl) rfl _⟩

theorem Filed.step (h : Filed dir s) (hd : s.async.Delivered) {i : DayInput} {s' : DayLog}
    (hproper : s.Proper i) (hday : s.SameDay i) (hs : s.step dir i = some s') : Filed dir s' := by
  obtain ⟨hallowed, hsafe⟩ := hproper
  obtain ⟨async, hasync, rfl⟩ := Option.map_eq_some_iff.1 hs
  cases i with
  | logLog stamp c =>
      obtain ⟨before, current, buffered, unwritten, queue, h⟩ := h
      simp only [DayInput.toAsync, AsyncLog.step, Option.ite_none_left_eq_some,
        Option.some.injEq] at hasync
      obtain ⟨-, rfl⟩ := hasync
      change Filed dir { async := _, lines := _, names := s.names ++ [] }
      rw [List.append_nil]
      exact h.logLog hd.mode stamp c
  | thread now r =>
      change Filed dir { async, lines := s.lines ++ [], names := _ }
      rw [List.append_nil]
      exact h.threadStep hd hallowed hsafe hday hasync
  | exit =>
      obtain ⟨before, current, buffered, unwritten, queue, h⟩ := h
      change Filed dir { async, lines := s.lines ++ [], names := s.names ++ [] }
      rw [List.append_nil, List.append_nil]
      simp only [DayInput.toAsync, AsyncLog.step] at hasync
      split at hasync
      · obtain rfl := Option.some.inj hasync
        exact ⟨before, current, buffered, unwritten, queue, { h with }⟩
      · cases hasync
  | join =>
      obtain ⟨before, current, buffered, unwritten, queue, h⟩ := h
      change Filed dir { async, lines := s.lines ++ [], names := s.names ++ [] }
      rw [List.append_nil, List.append_nil]
      simp only [DayInput.toAsync, AsyncLog.step] at hasync
      split at hasync
      · simp only [Option.ite_none_right_eq_some, Option.some.injEq] at hasync
        obtain ⟨-, rfl⟩ := hasync
        exact ⟨before, current, buffered, unwritten, queue, { h with }⟩
      · cases hasync
  | close =>
      obtain ⟨before, current, buffered, unwritten, queue, h⟩ := h
      change Filed dir { async, lines := s.lines ++ [], names := s.names ++ [] }
      rw [List.append_nil, List.append_nil]
      simp only [DayInput.toAsync, AsyncLog.step] at hasync
      split at hasync
      · next hshutdown =>
        obtain rfl := Option.some.inj hasync
        have hthread := hd.thread_of_joined (by rw [hshutdown]; rfl)
        have hwriting : s.async.thread.isWriting = false := by rw [hthread]; rfl
        exact ⟨before, current, buffered, unwritten, queue, h.close hwriting (hd.pos hwriting)⟩
      · cases hasync

theorem Filed.run (hs : (dailyLogging dir).Run (fun s i => s.Proper i ∧ s.SameDay i) s) :
    s.async.Delivered ∧ Filed dir s := by
  refine Machine.Run.invariant (P := fun s => s.async.Delivered ∧ Filed dir s) hs ?_ ?_
  · rintro s ⟨now, level, flushCacheSz, garbage, rfl⟩
    exact ⟨AsyncLog.delivered_start .., filed_start ..⟩
  · rintro s i s' ⟨hd, hf⟩ ⟨hproper, hday⟩ hstep
    refine ⟨?_, hf.step hd hproper hday hstep⟩
    obtain ⟨async, hasync, rfl⟩ := Option.map_eq_some_iff.1 hstep
    exact hd.step hproper.1 hproper.2 hasync

/-- **Every line is in the file of its day**, or on its way, when batches are checked on the day of
their lines; and when the thread was joined, none is on its way. -/
theorem filed_by_day (hs : (dailyLogging dir).Run (fun s i => s.Proper i ∧ s.SameDay i) s) :
    ∃ files waiting, FiledByDay dir s files waiting ∧
      (s.async.shutdown.isJoined = true → waiting = []) := by
  obtain ⟨hd, before, current, buffered, unwritten, queue, h⟩ := Filed.run hs
  refine ⟨before ++ [current], buffered ++ unwritten ++ queue, ⟨?_, ?_, h.byDay, ?_, ?_⟩, ?_⟩
  · rw [List.map_append, List.map_singleton, h.names]
  · rw [List.map_append, List.map_singleton, h.contents]
  · rw [h.lines, List.flatMap_append, List.flatMap_singleton]
    simp only [List.append_assoc]
  · rw [h.inBuffer, List.flatMap_append, List.flatMap_append, List.flatMap_append,
      flatMap_line h.inBatch, flatMap_line h.inQueue, List.append_assoc]
  · intro hjoined
    have hthread := hd.thread_of_joined hjoined
    have hbatch := h.inBatch
    have hqueue := h.inQueue
    rw [hthread] at hbatch
    rw [hd.ended (by rw [hthread]; rfl)] at hqueue
    rw [h.settled (by rw [hthread]; rfl), List.forall₂_nil_left_iff.1 hbatch,
      List.forall₂_nil_left_iff.1 hqueue]
    rfl

/-! ## Around midnight -/

/-- The last second of the first day. -/
def lastSecond : UnixTime where
  seconds := 86399
  low := by decide
  high := by decide

def midnight : UnixTime where
  seconds := 86400
  low := by decide
  high := by decide

/-- After `log_init` with a flush cache of 128 bytes. -/
def eveningStart : DayLog := start logsDir lastSecond .info 128 fun _ => 0

theorem eveningStart_init : (dailyLogging logsDir).init eveningStart :=
  ⟨lastSecond, .info, 128, fun _ => 0, rfl⟩

/-- A line is pushed at the time `stamp`, and its batch written at the time `now`. -/
def logged (stamp now : UnixTime) : List DayInput :=
  [.logLog stamp helloCall, .thread now { timedOut := true }, .thread now {}, .thread now {},
    .thread now {}, .thread now {}, .thread now {}, .thread now {}, .thread now {}]

/-- A line on each side of midnight, then the logger is shut down. -/
def orderlyNight : List DayInput :=
  logged lastSecond lastSecond ++ logged midnight midnight ++
    [.exit, .thread midnight {}, .thread midnight {}, .join]

theorem filed_by_day_orderly :
    ∃ (s : DayLog) (files : List DayFile), FiledByDay logsDir s files [] ∧
      s.lines.length = 2 ∧ s.names.length = 2 := by
  obtain ⟨s, -, hs, hq⟩ := Machine.exists_run_of_replay (dailyLogging logsDir)
    (fun s i => s.Proper i ∧ s.SameDay i) orderlyNight
    (fun s => s.async.shutdown.isJoined && (s.lines.length == 2 && s.names.length == 2))
    eveningStart_init (by decide +kernel)
  rw [Bool.and_eq_true, Bool.and_eq_true, beq_iff_eq, beq_iff_eq] at hq
  obtain ⟨files, waiting, hfiled, hnone⟩ := filed_by_day hs
  obtain rfl := hnone hq.1
  exact ⟨s, files, hfiled, hq.2⟩

/-- **A line of the day before**: it was pushed in the last second of the day, and its batch is
checked after midnight. -/
theorem not_filed_by_day :
    ¬∀ (dir : LogDir) (s : DayLog), (dailyLogging dir).Run DayLog.Proper s →
      ∃ files waiting, FiledByDay dir s files waiting := by
  intro hall
  obtain ⟨s, -, hs, hq⟩ := Machine.exists_run_of_replay (dailyLogging logsDir) DayLog.Proper
    (logged lastSecond midnight)
    (fun s => s.lines.all (fun l => dayOf l.stamp.seconds == 0) &&
      (s.names.getLast? == some (logFileName logsDir.bytes 86400) &&
        s.async.log.contents.getLast? != some [])) eveningStart_init (by decide +kernel)
  rw [Bool.and_eq_true, Bool.and_eq_true, beq_iff_eq, bne_iff_ne] at hq
  obtain ⟨hdays, hname, hcontent⟩ := hq
  obtain ⟨files, waiting, hfiled⟩ := hall logsDir s hs
  rw [← hfiled.names, List.getLast?_map] at hname
  rw [← hfiled.contents, List.getLast?_map] at hcontent
  obtain ⟨f, hlast, hf⟩ := Option.map_eq_some_iff.1 hname
  rw [hlast, Option.map_some, ne_eq, Option.some.injEq] at hcontent
  have hmem := List.mem_of_getLast? hlast
  obtain ⟨l, hl⟩ : ∃ l, l ∈ f.lines := by
    refine List.exists_mem_of_ne_nil _ fun hnil => hcontent ?_
    rw [DayFile.content, hnil]
    rfl
  have hline : l ∈ s.lines := by
    rw [hfiled.order]
    exact List.mem_append_left _ (List.mem_flatMap.2 ⟨f, hmem, hl⟩)
  have hday : dayOf l.stamp.seconds = dayOf 0 := eq_of_beq (List.all_eq_true.1 hdays l hline)
  have hfile := hfiled.byDay f hmem l hl
  rw [hf, logFileName_congr logsDir hday] at hfile
  exact absurd hfile (by decide +kernel)

end DayLog

end ServerBase
