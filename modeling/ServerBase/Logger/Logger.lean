import ServerBase.Printf

/-!
# The logger

`utils/logger.cpp` as it is compiled without `LOG_TO_CONSOLE` and `LOG_AUTO_FLUSH`: the line of a
call, the buffer in front of the log file, and the two ways a line can take.

**Files.** A `FILE` is what was written to it since it was opened. Line buffers are named by the
order in which they were pushed.

**`memcpy`.** Every copy into `gFileBuf` is recorded. One that would end behind the buffer, or read
behind its source, is undefined and not carried out.

**What was logged** (`logged`) is what was written and then what is in the buffer. `log_flush` does
not change it, and a copy into the buffer extends it.
-/

namespace ServerBase

/-! ## The line of a call -/

inductive LogLevel
  | trace
  | debug
  | info
  | warn
  | error
  | fatal
  deriving DecidableEq

namespace LogLevel

def toNat : LogLevel → Nat
  | trace => 0
  | debug => 1
  | info => 2
  | warn => 3
  | error => 4
  | fatal => 5

/-- `gLogLevelNames` -/
def name : LogLevel → String
  | trace => "TRACE"
  | debug => "DEBUG"
  | info => "INFO"
  | warn => "WARN"
  | error => "ERROR"
  | fatal => "FATAL"

end LogLevel

/-- `%-5s` -/
def printPadded (b : Bytes) : Bytes := b ++ List.replicate (5 - b.length) 32

/-- The arguments of `log_log`, and what it reads of the clock and the thread. -/
structure LogCall where
  level : LogLevel
  filelog : Bytes
  func : Bytes
  line : Int
  /-- All that `fmt` prints. -/
  out : Bytes
  timebuf : Bytes
  threadId : BitVec 32
  /-- The date in `check_new_log`. -/
  tbuf : Bytes
  /-- `fopen` of a new log file succeeds. -/
  opened : Bool := true

namespace LogCall

variable (c : LogCall)

def msgbuf : Bytes := cstr (snprintf 4096 c.out).1

def filelogShortened : Bytes :=
  let filelog := cstr c.filelog
  if 15 < filelog.length then filelog.drop (filelog.length - 15) else filelog

/-- All that the format of a line prints. -/
def format : Bytes :=
  bytes "[" ++ cstr c.timebuf ++ bytes "] [pid:" ++ Decimal.digits c.threadId.toNat ++
    bytes "] [" ++ c.filelogShortened ++ bytes ":" ++ printInt c.line ++ bytes ", " ++
    cstr c.func ++ bytes "()] [" ++ printPadded (bytes c.level.name) ++ bytes "] " ++ c.msgbuf ++
    bytes "\n"

def fileLine : Bytes := (snprintf 8192 c.format).1

def fileLen : Int := (snprintf 8192 c.format).2

end LogCall

/-! ### No line has a NUL -/

namespace LogCall

variable (c : LogCall)

theorem noNul_filelogShortened : ∀ x ∈ c.filelogShortened, x ≠ 0 := by
  intro x hx
  refine cstr_noNul c.filelog x ?_
  rw [filelogShortened] at hx
  split at hx
  · exact List.mem_of_mem_drop hx
  · exact hx

theorem noNul_levelName (level : LogLevel) : ∀ x ∈ printPadded (bytes level.name), x ≠ 0 := by
  cases level <;> exact forall_of_all (by decide)

/-- What is printed is a C string. -/
theorem noNul_format : ∀ x ∈ c.format, x ≠ 0 := by
  have hlit : ∀ s : String, (bytes s).all (fun x => decide (x ≠ 0)) = true →
      ∀ x ∈ bytes s, x ≠ 0 := fun s hs => forall_of_all hs
  apply noNul_append _ (hlit "\n" (by decide))
  apply noNul_append _ (cstr_noNul _)
  apply noNul_append _ (hlit "] " (by decide))
  apply noNul_append _ (noNul_levelName c.level)
  apply noNul_append _ (hlit "()] [" (by decide))
  apply noNul_append _ (cstr_noNul _)
  apply noNul_append _ (hlit ", " (by decide))
  apply noNul_append _ (noNul_printInt c.line)
  apply noNul_append _ (hlit ":" (by decide))
  apply noNul_append _ c.noNul_filelogShortened
  apply noNul_append _ (hlit "] [" (by decide))
  apply noNul_append _ (noNul_digits _)
  apply noNul_append _ (hlit "] [pid:" (by decide))
  exact noNul_append (hlit "[" (by decide)) (cstr_noNul _)

end LogCall

/-- `LOG_INFO("hello")` in a file `main.cpp` -/
def helloCall : LogCall where
  level := .info
  filelog := bytes "main.cpp"
  func := bytes "main"
  line := 1
  out := bytes "hello"
  timebuf := bytes "12:00:00"
  threadId := 1
  tbuf := bytes "20260101_Thursday"

/-! ## The static variables -/

/-- A line in an array of its own. -/
structure LineBuf where
  id : ℕ
  bytes : Bytes

structure Logger where
  gLogMinLevel : LogLevel := .trace
  gLogFile : Option Bytes := none
  gFlushCacheSz : Int := 8 * 1024
  gLastLogTiming : Bytes := []
  gLogAsync : Bool := false
  gAsyncLogBuffer : List LineBuf := []
  gAsyncExit : Bool := false
  gFileBuf : Bytes := []
  gFilePos : Int := 0
  /-- The files that were closed, in order. -/
  closed : List Bytes := []
  nextBuf : ℕ := 0
  /-- The copies into `gFileBuf`, newest first: where each starts, and its length. -/
  memcpys : List (Int × ℕ) := []

namespace Logger

/-- `log_init`; the memory from `malloc` is filled with `garbage`, and `opened` says whether the
file can be opened. -/
def logInit (level : LogLevel) (flushCacheSz : BitVec 32) (timing : Bytes) (opened : Bool)
    (garbage : ℕ → UInt8) : Logger where
  gLogMinLevel := level
  gFlushCacheSz := flushCacheSz.toInt
  gLastLogTiming := timing
  gLogFile := if opened then some [] else none
  gFileBuf := (List.range flushCacheSz.toInt.toNat).map garbage

variable (s : Logger)

/-- `fwrite` to the log file -/
def fwrite (b : Bytes) : Logger := { s with gLogFile := s.gLogFile.map (· ++ b) }

/-- The bytes still in the buffer. -/
def buffered : Bytes := s.gFileBuf.take s.gFilePos.toNat

/-- The bytes written over all log files. -/
def written : Bytes := s.closed.flatten ++ s.gLogFile.getD []

/-- All bytes that were logged, in order. -/
def logged : Bytes := s.written ++ s.buffered

/-- `log_flush` -/
def logFlush : Logger :=
  if 0 < s.gFilePos ∧ s.gLogFile.isSome then { s.fwrite s.buffered with gFilePos := 0 } else s

/-- `check_new_log` on the date `tbuf` -/
def checkNewLog (tbuf : Bytes) (opened : Bool) : Logger :=
  if strequal s.gLastLogTiming tbuf then s
  else
    let s := s.logFlush
    { s with
      closed := s.closed ++ s.gLogFile.toList
      gLastLogTiming := cstr (snprintf 32 tbuf).1
      gLogFile := if opened then some [] else none }

/-- `memcpy(gFileBuf + gFilePos, src, len); gFilePos += len;` -/
def append (src : Bytes) (len : ℕ) : Logger :=
  let s : Logger := { s with memcpys := (s.gFilePos, len) :: s.memcpys }
  if 0 ≤ s.gFilePos ∧ s.gFilePos + len ≤ s.gFileBuf.length ∧ len ≤ src.length then
    { s with
      gFileBuf := s.gFileBuf.take s.gFilePos.toNat ++ src.take len ++
        s.gFileBuf.drop (s.gFilePos.toNat + len)
      gFilePos := int32 (s.gFilePos + len) }
  else s

/-- `log_log_sync` -/
def logLogSync (c : LogCall) : Logger :=
  let s := s.checkNewLog c.tbuf c.opened
  if s.gLogFile.isSome ∧ 0 < c.fileLen then
    if s.gFlushCacheSz ≤ int32 (s.gFilePos + c.fileLen) then s.logFlush
    else s.append c.fileLine c.fileLen.toNat
  else s

/-- `log_log_async`. A line that did not fit into `file_line` has its NUL there, so that what is
copied from behind it does not matter. -/
def logLogAsync (c : LogCall) : Logger :=
  { s with
    gAsyncLogBuffer := s.gAsyncLogBuffer ++ [⟨s.nextBuf, c.fileLine.take (c.fileLen + 1).toNat⟩]
    nextBuf := s.nextBuf + 1 }

/-- `log_log` -/
def logLog (c : LogCall) : Logger :=
  if c.level.toNat < s.gLogMinLevel.toNat then s
  else if s.gLogAsync then s.logLogAsync c else s.logLogSync c

/-- A line of the loop in `log_async_thread`. -/
def writeLine (line : Bytes) : Logger :=
  let len := line.length
  if s.gLogFile.isNone ∨ len = 0 then s
  else if s.gFlushCacheSz ≤ int32 (s.gFilePos + int32 len) then
    let s := if 0 < s.gFilePos then s.logFlush else s
    if s.gFlushCacheSz ≤ int32 len then s.fwrite line else s.append line len
  else s.append line len

/-! ## What the operations keep -/

variable {s}

/-- The settings of `log_init`, the date and the mode are the same. -/
structure SameSettings (s s' : Logger) : Prop where
  level : s'.gLogMinLevel = s.gLogMinLevel
  size : s'.gFlushCacheSz = s.gFlushCacheSz
  timing : s'.gLastLogTiming = s.gLastLogTiming
  mode : s'.gLogAsync = s.gLogAsync

/-- What producers and `log_shutdown` write is the same. -/
structure SameQueue (s s' : Logger) : Prop where
  queue : s'.gAsyncLogBuffer = s.gAsyncLogBuffer
  nextBuf : s'.nextBuf = s.nextBuf
  exit : s'.gAsyncExit = s.gAsyncExit
  mode : s'.gLogAsync = s.gLogAsync

theorem SameQueue.refl (s : Logger) : SameQueue s s := ⟨rfl, rfl, rfl, rfl⟩

theorem SameQueue.trans {s s' s'' : Logger} (h : SameQueue s s') (h' : SameQueue s' s'') :
    SameQueue s s'' :=
  ⟨h'.queue.trans h.queue, h'.nextBuf.trans h.nextBuf, h'.exit.trans h.exit,
    h'.mode.trans h.mode⟩

theorem logFlush_queue (s : Logger) : SameQueue s s.logFlush := by
  unfold logFlush
  split <;> exact ⟨rfl, rfl, rfl, rfl⟩

theorem append_queue (s : Logger) (src : Bytes) (len : ℕ) : SameQueue s (s.append src len) := by
  unfold append
  dsimp only
  split <;> exact ⟨rfl, rfl, rfl, rfl⟩

theorem SameSettings.refl (s : Logger) : SameSettings s s := ⟨rfl, rfl, rfl, rfl⟩

theorem logFlush_settings (s : Logger) : SameSettings s s.logFlush := by
  unfold logFlush
  split <;> exact ⟨rfl, rfl, rfl, rfl⟩

theorem append_settings (s : Logger) (src : Bytes) (len : ℕ) :
    SameSettings s (s.append src len) := by
  unfold append
  dsimp only
  split <;> exact ⟨rfl, rfl, rfl, rfl⟩

/-- The log file is open, and the buffer is as `log_init` and the copies have left it. -/
structure Ready (s : Logger) : Prop where
  isOpen : s.gLogFile.isSome = true
  length : s.gFileBuf.length = s.gFlushCacheSz.toNat
  size : s.gFlushCacheSz ≤ INT_MAX
  nonneg : 0 ≤ s.gFilePos
  pos : s.gFilePos ≤ s.gFileBuf.length

theorem ready_logInit (level : LogLevel) (flushCacheSz : BitVec 32) (timing : Bytes)
    (garbage : ℕ → UInt8) : Ready (logInit level flushCacheSz timing true garbage) where
  isOpen := rfl
  length := by simp [logInit]
  size := by
    have hlt := BitVec.two_mul_toInt_lt (x := flushCacheSz)
    change flushCacheSz.toInt ≤ (2147483647 : Int)
    omega
  nonneg := Int.le_refl 0
  pos := Int.natCast_nonneg _

namespace Ready

theorem length_buffered (h : Ready s) : (s.buffered.length : Int) = s.gFilePos := by
  have hpos := h.pos
  have hnonneg := h.nonneg
  rw [buffered, List.length_take]
  omega

theorem of_memcpys (h : Ready s) (m : List (Int × ℕ)) : Ready { s with memcpys := m } :=
  ⟨h.isOpen, h.length, h.size, h.nonneg, h.pos⟩

/-- Flushing moves the buffer to the file. -/
theorem logFlush_eq (h : Ready s) :
    s.logFlush = { s with gLogFile := s.gLogFile.map (· ++ s.buffered), gFilePos := 0 } := by
  unfold logFlush
  split
  · rfl
  · next hguard =>
    have hpos : s.gFilePos = 0 := by
      have hnonneg := h.nonneg
      by_contra hne
      exact hguard ⟨by omega, h.isOpen⟩
    have hnil : s.buffered = [] := by rw [buffered, hpos]; rfl
    rw [hnil]
    simp [← hpos]

theorem logFlush (h : Ready s) : Ready s.logFlush := by
  rw [h.logFlush_eq]
  exact ⟨by simpa using h.isOpen, h.length, h.size, Int.le_refl 0, Int.natCast_nonneg _⟩

theorem fwrite (h : Ready s) (b : Bytes) : Ready (s.fwrite b) :=
  ⟨by simpa [Logger.fwrite] using h.isOpen, h.length, h.size, h.nonneg, h.pos⟩

theorem written_fwrite (h : Ready s) (b : Bytes) : (s.fwrite b).written = s.written ++ b := by
  obtain ⟨file, hfile⟩ := Option.isSome_iff_exists.1 h.isOpen
  simp [Logger.fwrite, written, hfile]

theorem written_logFlush (h : Ready s) : s.logFlush.written = s.written ++ s.buffered := by
  rw [h.logFlush_eq]
  exact h.written_fwrite s.buffered

theorem buffered_logFlush (h : Ready s) : s.logFlush.buffered = [] := by
  rw [h.logFlush_eq]
  rfl

theorem logged_logFlush (h : Ready s) : s.logFlush.logged = s.logged := by
  rw [logged, h.written_logFlush, h.buffered_logFlush, List.append_nil]
  rfl

/-- A copy that stays in the buffer. -/
theorem append_eq (h : Ready s) {src : Bytes} {len : ℕ} (hlen : len ≤ src.length)
    (hfit : s.gFilePos + len ≤ s.gFileBuf.length) :
    s.append src len = { s with
      gFileBuf := s.buffered ++ src.take len ++ s.gFileBuf.drop (s.gFilePos.toNat + len)
      gFilePos := s.gFilePos + len
      memcpys := (s.gFilePos, len) :: s.memcpys } := by
  have hnonneg := h.nonneg
  have hsize := h.size
  have hlength := h.length
  have hmax : (INT_MAX : Int) = 2147483647 := rfl
  unfold append
  dsimp only
  rw [if_pos ⟨hnonneg, hfit, hlen⟩, int32_of_le (by omega) (by omega)]
  rfl

/-- A copy that does not is not carried out. -/
theorem append_of_not {src : Bytes} {len : ℕ}
    (hfit : ¬(s.gFilePos + len ≤ s.gFileBuf.length ∧ len ≤ src.length)) :
    s.append src len = { s with memcpys := (s.gFilePos, len) :: s.memcpys } := by
  unfold append
  dsimp only
  exact if_neg fun hguard => hfit hguard.2

theorem append (h : Ready s) (src : Bytes) (len : ℕ) : Ready (s.append src len) := by
  by_cases hfit : s.gFilePos + len ≤ s.gFileBuf.length ∧ len ≤ src.length
  · have hnonneg := h.nonneg
    have hbuffered := h.length_buffered
    have hlength : (s.buffered ++ src.take len ++
        s.gFileBuf.drop (s.gFilePos.toNat + len)).length = s.gFileBuf.length := by
      rw [List.length_append, List.length_append, List.length_take, List.length_drop]
      omega
    rw [h.append_eq hfit.2 hfit.1]
    exact ⟨h.isOpen, hlength.trans h.length, h.size, by dsimp only; omega,
      by dsimp only; rw [hlength]; exact hfit.1⟩
  · rw [append_of_not hfit]
    exact h.of_memcpys _

theorem buffered_append (h : Ready s) {src : Bytes} {len : ℕ} (hlen : len ≤ src.length)
    (hfit : s.gFilePos + len ≤ s.gFileBuf.length) :
    (s.append src len).buffered = s.buffered ++ src.take len := by
  have hnonneg := h.nonneg
  have hbuffered := h.length_buffered
  have hlength : (s.buffered ++ src.take len).length = (s.gFilePos + len).toNat := by
    rw [List.length_append, List.length_take]
    omega
  rw [h.append_eq hlen hfit, buffered]
  exact List.take_left' hlength

theorem written_append (s : Logger) (src : Bytes) (len : ℕ) :
    (s.append src len).written = s.written := by
  unfold Logger.append
  dsimp only
  split <;> rfl

theorem logged_append (h : Ready s) {src : Bytes} {len : ℕ} (hlen : len ≤ src.length)
    (hfit : s.gFilePos + len ≤ s.gFileBuf.length) :
    (s.append src len).logged = s.logged ++ src.take len := by
  rw [logged, written_append, h.buffered_append hlen hfit, ← List.append_assoc]
  rfl

end Ready

end Logger

end ServerBase
