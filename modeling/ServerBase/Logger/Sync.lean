import ServerBase.Logger.Logger

/-!
# Synchronous logging

Any calls of `log_log` and `log_flush` on an open file, on one day.

**Blocks.** Each call adds a block of bytes to what was logged: its line, or less. Blocks that are
no longer than the lines make up the same bytes only if they are the lines.

**The result** (`sync_lossless`): nothing is lost exactly if every line fits behind the lines since
the last flush. A line that would fill the buffer makes `log_log_sync` flush, and is itself dropped.
-/

namespace ServerBase

/-! ## Blocks of a stream -/

/-- Blocks that are at most as long as others make up the same bytes only if they are those. -/
theorem flatten_eq_iff_of_length_le {α : Type*} {xs ys : List (List α)}
    (h : List.Forall₂ (fun x y => x.length ≤ y.length) xs ys) :
    xs.flatten = ys.flatten ↔ xs = ys := by
  have hle : ∀ {xs ys : List (List α)},
      List.Forall₂ (fun x y => x.length ≤ y.length) xs ys →
        xs.flatten.length ≤ ys.flatten.length := by
    intro xs ys h
    induction h with
    | nil => exact Nat.le_refl _
    | cons hxy _ ih =>
        rw [List.flatten_cons, List.flatten_cons, List.length_append, List.length_append]
        exact Nat.add_le_add hxy ih
  induction h with
  | nil => exact ⟨fun _ => rfl, fun _ => rfl⟩
  | @cons x y xs ys hxy htail ih =>
      refine ⟨fun heq => ?_, fun heq => by rw [heq]⟩
      rw [List.flatten_cons, List.flatten_cons] at heq
      have hlength : x.length = y.length := by
        have hsum := congrArg List.length heq
        rw [List.length_append, List.length_append] at hsum
        have := hle htail
        omega
      obtain ⟨hhead, hrest⟩ := List.append_inj heq hlength
      rw [hhead, ih.1 hrest]

namespace Logger

variable {s : Logger}

/-! ## Calls -/

inductive SyncOp
  | logLog (c : LogCall)
  | logFlush

namespace SyncOp

def run (s : Logger) : SyncOp → Logger
  | logLog c => s.logLog c
  | logFlush => s.logFlush

/-- The formatted line of a call. -/
def line : SyncOp → Bytes
  | logLog c => c.format
  | logFlush => []

/-- A call at or above the minimum level, on the day of the log file. -/
def Allowed (level : LogLevel) (timing : Bytes) : SyncOp → Prop
  | logLog c => level.toNat ≤ c.level.toNat ∧ strequal timing c.tbuf = true
  | logFlush => True

end SyncOp

def runs (s : Logger) (ops : List SyncOp) : Logger := ops.foldl SyncOp.run s

/-- Every line fits: it is no longer than `file_line` holds, and from `pos` on it stays below the
end of a buffer of `sz` bytes. -/
def Fits (sz : Int) : (pos : Int) → List SyncOp → Prop
  | _, [] => True
  | pos, .logLog c :: ops =>
      (c.format.length < 8192 ∧ pos + c.format.length < sz) ∧ Fits sz (pos + c.format.length) ops
  | _, .logFlush :: ops => Fits sz 0 ops

instance decidableFits (sz : Int) : ∀ pos ops, Decidable (Fits sz pos ops)
  | _, [] => .isTrue trivial
  | pos, .logLog c :: ops =>
      have := decidableFits sz (pos + c.format.length) ops
      inferInstanceAs (Decidable ((c.format.length < 8192 ∧ pos + c.format.length < sz) ∧
        Fits sz (pos + c.format.length) ops))
  | _, .logFlush :: ops => decidableFits sz 0 ops

/-! ## One call -/

theorem format_ne_nil (c : LogCall) : 0 < c.format.length := by
  rw [LogCall.format, List.length_append]
  exact Nat.add_pos_right _ (by decide)

theorem length_fileLine (c : LogCall) : c.fileLine.length = 8192 := by
  rw [LogCall.fileLine, snprintf]
  simp only [List.length_append, List.length_replicate, List.length_take]
  omega

/-- What a synchronous call adds. -/
def added (s : Logger) : SyncOp → Bytes
  | .logLog c =>
      if c.format.length ≤ 8192 ∧ s.gFilePos + c.format.length < s.gFlushCacheSz then
        c.fileLine.take c.format.length
      else []
  | .logFlush => []

theorem length_added_le (s : Logger) (op : SyncOp) : (added s op).length ≤ op.line.length := by
  cases op with
  | logLog c =>
      rw [added]
      split
      · exact List.length_take_le _ _
      · exact Nat.zero_le _
  | logFlush => exact Nat.le_refl _

/-- Only a line that fits is added as it is. -/
theorem added_eq_iff (s : Logger) (c : LogCall) :
    added s (.logLog c) = c.format ↔
      c.format.length < 8192 ∧ s.gFilePos + c.format.length < s.gFlushCacheSz := by
  have hpos := format_ne_nil c
  rw [added]
  by_cases hfit : c.format.length < 8192
  · have htake : c.fileLine.take c.format.length = c.format := by
      rw [LogCall.fileLine, snprintf, List.take_of_length_le (Nat.le_sub_one_of_lt hfit)]
      exact List.take_left
    by_cases hroom : s.gFilePos + c.format.length < s.gFlushCacheSz
    · rw [if_pos ⟨Nat.le_of_lt hfit, hroom⟩, htake]
      exact ⟨fun _ => ⟨hfit, hroom⟩, fun _ => rfl⟩
    · rw [if_neg fun h => hroom h.2]
      refine ⟨fun h => ?_, fun h => absurd h.2 hroom⟩
      rw [← h] at hpos
      exact absurd hpos (Nat.lt_irrefl 0)
  · refine ⟨fun h => ?_, fun h => absurd h.1 hfit⟩
    split at h
    · next hlong =>
      -- the last of the bytes that are copied is the NUL
      have hlast : c.format[8191]? = some 10 := by
        have hlength : c.format.length = 8192 := by omega
        have hend : c.format.getLast? = some 10 := by
          rw [LogCall.format, List.getLast?_append]
          rfl
        rw [List.getLast?_eq_getElem?, hlength] at hend
        exact hend
      have hnul : c.fileLine[8191]? = some 0 := by
        rw [LogCall.fileLine, snprintf, List.getElem?_append_right (List.length_take_le _ _),
          List.getElem?_replicate, List.length_take]
        simp only [ite_eq_left_iff]
        omega
      rw [← h, List.getElem?_take_of_lt (by omega), hnul] at hlast
      cases hlast
    · rw [← h] at hpos
      exact absurd hpos (Nat.lt_irrefl 0)

theorem fileLen_eq (c : LogCall) :
    c.fileLen = if c.format.length ≤ INT_MAX then (c.format.length : Int) else -1 := by
  rw [LogCall.fileLen, snprintf]

theorem logLogSync_eq (h : Ready s) {c : LogCall} (hday : strequal s.gLastLogTiming c.tbuf = true) :
    s.logLogSync c =
      if 0 < c.fileLen then
        if s.gFlushCacheSz ≤ int32 (s.gFilePos + c.fileLen) then s.logFlush
        else s.append c.fileLine c.fileLen.toNat
      else s := by
  unfold logLogSync
  rw [checkNewLog, if_pos hday]
  simp only [h.isOpen, true_and]

/-- A line that is not added leaves at most a flush. -/
theorem logLogSync_of_added_nil (h : Ready s) {c : LogCall}
    (hday : strequal s.gLastLogTiming c.tbuf = true) (hnil : added s (.logLog c) = []) :
    Ready (s.logLogSync c) ∧ (s.logLogSync c).logged = s.logged := by
  rw [logLogSync_eq h hday]
  split
  · next hlen =>
    split
    · exact ⟨h.logFlush, h.logged_logFlush⟩
    · next hroom =>
      -- the sum wraps around, or the line is longer than the array it is copied from
      have hnot : ¬(s.gFilePos + c.fileLen.toNat ≤ s.gFileBuf.length ∧
          c.fileLen.toNat ≤ c.fileLine.length) := by
        rintro ⟨hfit, hread⟩
        rw [fileLen_eq] at hlen hroom hfit hread
        split at hlen
        · next hmax =>
          rw [if_pos hmax] at hroom hfit hread
          rw [Int.toNat_natCast] at hfit hread
          have hsum : s.gFilePos + c.format.length ≤ INT_MAX := by
            have hsize := h.size
            have hlength := h.length
            omega
          have hnonneg := h.nonneg
          rw [int32_of_le (by omega) hsum] at hroom
          rw [length_fileLine] at hread
          rw [added, if_pos ⟨hread, Int.not_le.1 hroom⟩] at hnil
          have hpos := format_ne_nil c
          have hlength := congrArg List.length hnil
          rw [List.length_take, length_fileLine, List.length_nil] at hlength
          omega
        · exact absurd hlen (by decide)
      rw [Ready.append_of_not hnot]
      exact ⟨h.of_memcpys _, rfl⟩
  · exact ⟨h, rfl⟩

/-- A line that is added is copied behind the others. -/
theorem logLogSync_of_room (h : Ready s) {c : LogCall}
    (hday : strequal s.gLastLogTiming c.tbuf = true) (hread : c.format.length ≤ 8192)
    (hroom : s.gFilePos + c.format.length < s.gFlushCacheSz) :
    Ready (s.logLogSync c) ∧
      (s.logLogSync c).logged = s.logged ++ c.fileLine.take c.format.length ∧
      (s.logLogSync c).gFilePos = s.gFilePos + c.format.length := by
  have hnonneg := h.nonneg
  have hsize := h.size
  have hlength := h.length
  have hpos := format_ne_nil c
  have hlen : c.fileLen = c.format.length := by
    rw [fileLen_eq, if_pos (Nat.le_trans hread (by decide))]
  have hsum : s.gFilePos + c.format.length ≤ INT_MAX := Int.le_trans (Int.le_of_lt hroom) hsize
  have hfit : s.gFilePos + c.format.length ≤ s.gFileBuf.length := by omega
  have hsrc : c.format.length ≤ c.fileLine.length := by
    rw [length_fileLine]
    exact hread
  rw [logLogSync_eq h hday, hlen, if_pos (by omega), int32_of_le (by omega) hsum,
    if_neg (Int.not_le.2 hroom), Int.toNat_natCast]
  refine ⟨h.append _ _, h.logged_append hsrc hfit, ?_⟩
  rw [h.append_eq hsrc hfit]

/-! ## Runs -/

/-- Calls on one day leave the settings alone, and the file open. -/
structure Logging (level : LogLevel) (size : Int) (timing : Bytes) (s : Logger) : Prop where
  ready : Ready s
  level : s.gLogMinLevel = level
  size : s.gFlushCacheSz = size
  timing : s.gLastLogTiming = timing
  sync : s.gLogAsync = false

variable {level : LogLevel} {size : Int} {timing : Bytes} {op : SyncOp} {ops : List SyncOp}

theorem Logging.of_settings (h : Logging level size timing s) {s' : Logger} (hready : Ready s')
    (hs : SameSettings s s') : Logging level size timing s' :=
  ⟨hready, hs.level.trans h.level, hs.size.trans h.size, hs.timing.trans h.timing,
    hs.mode.trans h.sync⟩

theorem logLogSync_settings (h : Ready s) {c : LogCall}
    (hday : strequal s.gLastLogTiming c.tbuf = true) : SameSettings s (s.logLogSync c) := by
  rw [logLogSync_eq h hday]
  split
  · split
    · exact logFlush_settings s
    · exact append_settings s _ _
  · exact .refl s

theorem Logging.logLog_eq (h : Logging level size timing s) {c : LogCall}
    (hc : (SyncOp.logLog c).Allowed level timing) :
    strequal s.gLastLogTiming c.tbuf = true ∧ SyncOp.run s (.logLog c) = s.logLogSync c := by
  refine ⟨by rw [h.timing]; exact hc.2, ?_⟩
  rw [SyncOp.run, Logger.logLog, h.level, if_neg (Nat.not_lt.2 hc.1), h.sync]
  rfl

/-- **What a call does**: it adds its block. -/
theorem Logging.run (h : Logging level size timing s) (hop : op.Allowed level timing) :
    Logging level size timing (op.run s) ∧ (op.run s).logged = s.logged ++ added s op := by
  cases op with
  | logLog c =>
      obtain ⟨hday, hrun⟩ := h.logLog_eq hop
      rw [hrun]
      have hframe := logLogSync_settings h.ready hday
      by_cases hroom : c.format.length ≤ 8192 ∧ s.gFilePos + c.format.length < s.gFlushCacheSz
      · obtain ⟨hready, hlogged, -⟩ := logLogSync_of_room h.ready hday hroom.1 hroom.2
        refine ⟨h.of_settings hready hframe, ?_⟩
        rw [hlogged, added, if_pos hroom]
      · have hnil : added s (.logLog c) = [] := by rw [added, if_neg hroom]
        obtain ⟨hready, hlogged⟩ := logLogSync_of_added_nil h.ready hday hnil
        refine ⟨h.of_settings hready hframe, ?_⟩
        rw [hlogged, hnil, List.append_nil]
  | logFlush =>
      refine ⟨h.of_settings h.ready.logFlush (logFlush_settings s), ?_⟩
      exact h.ready.logged_logFlush.trans (List.append_nil _).symm

/-- The blocks that calls add, one after the other. -/
def blocks (s : Logger) : List SyncOp → List Bytes
  | [] => []
  | op :: ops => added s op :: blocks (op.run s) ops

theorem forall₂_blocks (s : Logger) (ops : List SyncOp) :
    List.Forall₂ (fun x y => x.length ≤ y.length) (blocks s ops) (ops.map SyncOp.line) := by
  induction ops generalizing s with
  | nil => exact .nil
  | cons op ops ih => exact .cons (length_added_le s op) (ih _)

theorem Logging.logged_runs (h : Logging level size timing s)
    (hops : ∀ op ∈ ops, op.Allowed level timing) :
    (s.runs ops).logged = s.logged ++ (blocks s ops).flatten := by
  induction ops generalizing s with
  | nil => exact (List.append_nil _).symm
  | cons op ops ih =>
      obtain ⟨hrun, hlogged⟩ := h.run (hops op List.mem_cons_self)
      have htail := ih hrun fun op' hop' => hops op' (List.mem_cons_of_mem _ hop')
      change ((op.run s).runs ops).logged = _
      rw [htail, hlogged, blocks, List.flatten_cons, List.append_assoc]

/-- The blocks are the lines exactly if every line fits. -/
theorem Logging.blocks_eq_iff (h : Logging level size timing s)
    (hops : ∀ op ∈ ops, op.Allowed level timing) :
    blocks s ops = ops.map SyncOp.line ↔ Fits size s.gFilePos ops := by
  induction ops generalizing s with
  | nil => exact ⟨fun _ => trivial, fun _ => rfl⟩
  | cons op ops ih =>
      have hop := hops op List.mem_cons_self
      obtain ⟨hrun, -⟩ := h.run hop
      have htail := ih hrun fun op' hop' => hops op' (List.mem_cons_of_mem _ hop')
      rw [blocks, List.map_cons, List.cons.injEq, htail]
      cases op with
      | logLog c =>
          rw [Fits, SyncOp.line, added_eq_iff, h.size]
          refine and_congr_right fun hfit => ?_
          obtain ⟨hday, hsync⟩ := h.logLog_eq hop
          obtain ⟨-, -, hpos⟩ := logLogSync_of_room h.ready hday (Nat.le_of_lt hfit.1)
            (by rw [h.size]; exact hfit.2)
          rw [hsync, hpos]
      | logFlush =>
          have hpos : (SyncOp.run s .logFlush).gFilePos = 0 := by
            rw [SyncOp.run, h.ready.logFlush_eq]
          rw [Fits, hpos]
          exact and_iff_right rfl

/-- **Synchronous logging** on one day: what is in the file and in the buffer are the lines, in
order and once each, exactly if every line fits behind those since the last flush. -/
theorem sync_lossless (level : LogLevel) (flushCacheSz : BitVec 32) (timing : Bytes)
    (garbage : ℕ → UInt8) (ops : List SyncOp) (hops : ∀ op ∈ ops, op.Allowed level timing) :
    ((logInit level flushCacheSz timing true garbage).runs ops).written ++
        ((logInit level flushCacheSz timing true garbage).runs ops).buffered =
      ops.flatMap SyncOp.line ↔ Fits flushCacheSz.toInt 0 ops := by
  have hinit : Logging level flushCacheSz.toInt timing
      (logInit level flushCacheSz timing true garbage) :=
    ⟨ready_logInit level flushCacheSz timing garbage, rfl, rfl, rfl, rfl⟩
  have hlogged := hinit.logged_runs hops
  rw [logged, logged] at hlogged
  rw [hlogged, List.flatMap_def]
  exact (flatten_eq_iff_of_length_le (forall₂_blocks _ ops)).trans (hinit.blocks_eq_iff hops)

theorem sync_lossless_hello :
    ((logInit .info 128 (bytes "20260101_Thursday") true fun _ => 0).runs
        [.logLog helloCall, .logFlush, .logLog helloCall]).written ++
      ((logInit .info 128 (bytes "20260101_Thursday") true fun _ => 0).runs
        [.logLog helloCall, .logFlush, .logLog helloCall]).buffered =
      helloCall.format ++ helloCall.format := by
  have hops : ∀ op ∈ [SyncOp.logLog helloCall, .logFlush, .logLog helloCall],
      op.Allowed .info (bytes "20260101_Thursday") := by
    intro op hop
    have hcall : (SyncOp.logLog helloCall).Allowed .info (bytes "20260101_Thursday") := by
      exact ⟨by decide, by decide⟩
    simp only [List.mem_cons, List.not_mem_nil, or_false] at hop
    rcases hop with rfl | rfl | rfl
    · exact hcall
    · trivial
    · exact hcall
  have hfits : Fits (BitVec.toInt (128 : BitVec 32)) 0
      [.logLog helloCall, .logFlush, .logLog helloCall] := by
    decide
  exact (sync_lossless .info 128 _ _ _ hops).2 hfits

/-- The second of two lines fills the buffer and is lost. -/
theorem sync_loses :
    ¬∀ (level : LogLevel) (flushCacheSz : BitVec 32) (timing : Bytes) (garbage : ℕ → UInt8)
      (ops : List SyncOp), (∀ op ∈ ops, op.Allowed level timing) →
      ((logInit level flushCacheSz timing true garbage).runs ops).written ++
          ((logInit level flushCacheSz timing true garbage).runs ops).buffered =
        ops.flatMap SyncOp.line := by
  intro hall
  have hops : ∀ op ∈ [SyncOp.logLog helloCall, .logLog helloCall],
      op.Allowed .info (bytes "20260101_Thursday") := by
    intro op hop
    simp only [List.mem_cons, List.not_mem_nil, or_false, or_self] at hop
    rw [hop]
    exact ⟨by decide, by decide⟩
  have hlost := hall .info 64 (bytes "20260101_Thursday") (fun _ => 0) _ hops
  have hlength := congrArg List.length hlost
  exact absurd hlength (by decide +kernel)

end Logger

end ServerBase
