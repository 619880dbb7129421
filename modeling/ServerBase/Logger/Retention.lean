import ServerBase.Logger.Dates

/-!
# Old log files

`delete_logs_beyond` removes the log files of a window of days before today. The window begins
`days_ago` days back and is twice as long.

**The product** `86400 * days_ago` is an `int`. From 24856 days on it does not fit, and the window
begins some other time.

**The result** (`retention_iff`). The files of the window are removed, each once, and none of the
days behind it, exactly up to a limit of 24855 days.
-/

namespace ServerBase

/-- `strftime(del_name, sizeof(del_name), "log_%Y%m%d_%A.txt", &del_tm)` -/
def delName (t : ℤ) : Bytes := bytes "log_" ++ dateOf t ++ bytes ".txt"

/-- `snprintf(ffilename, sizeof(ffilename), "%s/%s", gLogDir, del_name)` -/
def ffilename (gLogDir : Bytes) (t : ℤ) : Bytes :=
  cstr (snprintf 256 (gLogDir ++ bytes "/" ++ delName t)).1

/-- The loop of `delete_logs_beyond`: the files that are removed in `i` rounds from the time `t`
back. -/
def removedFrom (gLogDir : Bytes) : ℕ → ℤ → List Bytes
  | 0, _ => []
  | i + 1, t => ffilename gLogDir t :: removedFrom gLogDir i (t - 86400)

/-- `delete_logs_beyond` at the time `now` -/
def deleteLogsBeyond (gLogDir : Bytes) (now : ℤ) (daysAgo : BitVec 32) : List Bytes :=
  let iterations := daysAgo * 2
  let t := now - (86400 * daysAgo).toInt
  removedFrom gLogDir iterations.toInt.toNat t

/-! ## The files of the loop -/

section
variable {dir : LogDir} {t : ℤ} {i : ℕ} {path : Bytes}

/-- The file of a day so many days before a time. -/
theorem dayOf_sub (t d : ℤ) : dayOf (t - 86400 * d) = dayOf t - d := by
  unfold dayOf
  omega

/-- What is removed is named as it was opened. -/
theorem ffilename_eq (h : (dayOf t).natAbs < 10 ^ 12 - 2000) :
    ffilename dir.bytes t = logFileName dir.bytes t := by
  have hslash : bytes "/log_" = bytes "/" ++ bytes "log_" := by decide
  have hname : dir.bytes ++ bytes "/" ++ delName t =
      dir.bytes ++ bytes "/log_" ++ dateOf t ++ bytes ".txt" := by
    rw [delName, hslash]
    simp only [List.append_assoc]
  rw [logFileName_eq dir h, ffilename, hname]
  exact cstr_snprintf (noNul_logPath dir t) ((length_logPath dir h).trans (by decide))

theorem mem_removedFrom {gLogDir : Bytes} :
    path ∈ removedFrom gLogDir i t ↔ ∃ k : ℕ, k < i ∧ path = ffilename gLogDir (t - 86400 * k) := by
  induction i generalizing t with
  | zero => simp [removedFrom]
  | succ i ih =>
      rw [removedFrom, List.mem_cons, ih]
      constructor
      · rintro (rfl | ⟨k, hk, rfl⟩)
        · exact ⟨0, Nat.succ_pos _, by simp⟩
        · refine ⟨k + 1, Nat.succ_lt_succ hk, ?_⟩
          congr 1
          push_cast
          omega
      · rintro ⟨k, hk, rfl⟩
        cases k with
        | zero => exact .inl (by simp)
        | succ k =>
            refine .inr ⟨k, Nat.lt_of_succ_lt_succ hk, ?_⟩
            congr 1
            push_cast
            omega

/-- The days of the loop are not too far from 1970. -/
def InReach (t : ℤ) (i : ℕ) : Prop := (dayOf t).natAbs + i < 10 ^ 12 - 2000

theorem mem_removedFrom_iff (h : InReach t i) :
    path ∈ removedFrom dir.bytes i t ↔
      ∃ k : ℕ, k < i ∧ path = logFileName dir.bytes (t - 86400 * k) := by
  unfold InReach at h
  rw [mem_removedFrom]
  refine exists_congr fun k => and_congr_right fun hk => ?_
  have hday := dayOf_sub t k
  rw [ffilename_eq (by omega)]

/-- No file is removed twice. -/
theorem nodup_removedFrom (h : InReach t i) : (removedFrom dir.bytes i t).Nodup := by
  induction i generalizing t with
  | zero => exact List.nodup_nil
  | succ i ih =>
      unfold InReach at h ih
      have hprev := dayOf_sub t 1
      rw [Int.mul_one] at hprev
      have hreach : InReach (t - 86400) i := by
        unfold InReach
        omega
      refine List.nodup_cons.2 ⟨fun hmem => ?_, ih (t := t - 86400) hreach⟩
      obtain ⟨k, hk, heq⟩ := (mem_removedFrom_iff hreach).1 hmem
      have hday := dayOf_sub (t - 86400) k
      rw [ffilename_eq (by omega), logFileName_eq_iff dir (by omega) (by omega)] at heq
      omega

end

/-! ## The window -/

/-- The log file dated so many days before today. -/
def fileDaysAgo (gLogDir : Bytes) (now d : ℤ) : Bytes := logFileName gLogDir (now - 86400 * d)

/-- What is removed are the files of the days from `limit` to three times as many, each once, and
none of the last days. -/
structure RemovesWindow (gLogDir : Bytes) (now limit : ℤ) (removed : List Bytes) : Prop where
  window : ∀ path, path ∈ removed ↔
    ∃ d, limit ≤ d ∧ d < 3 * limit ∧ path = fileDaysAgo gLogDir now d
  once : removed.Nodup
  kept : ∀ d, 0 ≤ d → d < limit → fileDaysAgo gLogDir now d ∉ removed

theorem toInt_twice (x : BitVec 32) : (x * 2).toInt = (x.toInt * 2).bmod (2 ^ 32) :=
  BitVec.toInt_mul x 2

theorem toInt_seconds (x : BitVec 32) : (86400 * x).toInt = (86400 * x.toInt).bmod (2 ^ 32) :=
  BitVec.toInt_mul 86400 x

/-- A loop of so many rounds from the time `t` begins `first` days back; how that day and the rounds
compare with the limit. -/
structure BeginsAt (now t limit : ℤ) (rounds : ℕ) (first : ℤ) : Prop where
  start : dayOf t = dayOf now - first
  reach : InReach t rounds
  near : first.natAbs < 2 ^ 32
  fits : limit ≤ 24855 → first = limit ∧ (rounds : ℤ) = 2 * limit
  wraps : 24855 < limit → (first < limit ∧ (rounds : ℤ) ≤ 2 * limit) ∨ rounds = 0

section
variable (dir : LogDir) (now : UnixTime) (logLimit : BitVec 32)

theorem fileDaysAgo_eq_iff {d e : ℤ} (hd : d.natAbs < 2 ^ 33) (he : e.natAbs < 2 ^ 33) :
    fileDaysAgo dir.bytes now.seconds d = fileDaysAgo dir.bytes now.seconds e ↔ d = e := by
  have hnow := dayOf_now now
  have hday := dayOf_sub now.seconds d
  have hday' := dayOf_sub now.seconds e
  rw [fileDaysAgo, fileDaysAgo, logFileName_eq_iff dir (by omega) (by omega)]
  omega

/-- **What the loop removes**: the files of as many days as it has rounds, from the day on that it
begins with. -/
theorem mem_removedFrom_ago {start first : ℤ} {i : ℕ} (path : Bytes)
    (hfirst : dayOf start = dayOf now.seconds - first) (hreach : InReach start i) :
    path ∈ removedFrom dir.bytes i start ↔
      ∃ d, first ≤ d ∧ d < first + i ∧ path = fileDaysAgo dir.bytes now.seconds d := by
  have hsame : ∀ k : ℕ, logFileName dir.bytes (start - 86400 * k) =
      fileDaysAgo dir.bytes now.seconds (first + k) := by
    intro k
    rw [fileDaysAgo, logFileName, logFileName, dateOf_eq_iff.2]
    rw [dayOf_sub, dayOf_sub, hfirst]
    omega
  rw [mem_removedFrom_iff hreach]
  constructor
  · rintro ⟨k, hk, rfl⟩
    exact ⟨first + k, by omega, by omega, hsame k⟩
  · rintro ⟨d, hle, hlt, rfl⟩
    refine ⟨(d - first).toNat, by omega, ?_⟩
    rw [hsame]
    congr 1
    omega

theorem exists_beginsAt (hlimit : 1 ≤ logLimit.toInt) :
    ∃ first, BeginsAt now.seconds (now.seconds - (86400 * logLimit).toInt) logLimit.toInt
      (logLimit * 2).toInt.toNat first := by
  have hnow := dayOf_now now
  have hlt := BitVec.two_mul_toInt_lt (x := logLimit)
  have htwice := toInt_twice logLimit
  have hseconds := toInt_seconds logLimit
  rw [Int.bmod_def] at htwice hseconds
  generalize (86400 * logLimit).toInt = seconds at hseconds
  generalize (logLimit * 2).toInt = iterations at htwice
  generalize logLimit.toInt = limit at *
  unfold dayOf at hnow
  refine ⟨now.seconds / 86400 - (now.seconds - seconds) / 86400, ?_, ?_, ?_, ?_, ?_⟩
  · unfold dayOf
    omega
  · unfold InReach dayOf
    omega
  · omega
  · omega
  · omega

theorem removesWindow_of_short (hlimit : 1 ≤ logLimit.toInt) (hshort : logLimit.toInt ≤ 24855) :
    RemovesWindow dir.bytes now.seconds logLimit.toInt
      (deleteLogsBeyond dir.bytes now.seconds logLimit) := by
  obtain ⟨first, hbegins⟩ := exists_beginsAt now logLimit hlimit
  obtain ⟨rfl, hlength⟩ := hbegins.fits hshort
  have hremoved : ∀ path, _ ↔ _ := fun path =>
    mem_removedFrom_ago dir now path hbegins.start hbegins.reach
  rw [hlength] at hremoved
  refine ⟨fun path => ?_, nodup_removedFrom hbegins.reach, fun d hd hkept hmem => ?_⟩
  · refine (hremoved path).trans (exists_congr fun d => and_congr_right fun _ => ?_)
    refine and_congr_left fun _ => ?_
    omega
  · obtain ⟨e, hle, hlt, heq⟩ := (hremoved _).1 hmem
    rw [fileDaysAgo_eq_iff dir now (by omega) (by omega)] at heq
    omega

/-- With a limit that is too long the last day of the window is not reached. -/
theorem not_removesWindow (hlong : 24855 < logLimit.toInt) :
    ¬RemovesWindow dir.bytes now.seconds logLimit.toInt
      (deleteLogsBeyond dir.bytes now.seconds logLimit) := by
  intro hwindow
  obtain ⟨first, hbegins⟩ := exists_beginsAt now logLimit (by omega)
  have hlt := BitVec.two_mul_toInt_lt (x := logLimit)
  have hnear := hbegins.near
  have hrounds := hbegins.wraps hlong
  obtain ⟨d, hle, hlt', heq⟩ := (mem_removedFrom_ago dir now _ hbegins.start hbegins.reach).1
    ((hwindow.window _).2 ⟨3 * logLimit.toInt - 1, by omega, by omega, rfl⟩)
  have hlast : 3 * logLimit.toInt - 1 = d :=
    (fileDaysAgo_eq_iff dir now (by omega) (by omega)).1 heq
  omega

/-- **The retention window.** -/
theorem retention_iff (hlimit : 1 ≤ logLimit.toInt) :
    RemovesWindow dir.bytes now.seconds logLimit.toInt
      (deleteLogsBeyond dir.bytes now.seconds logLimit) ↔ logLimit.toInt ≤ 24855 := by
  refine ⟨fun hwindow => ?_, removesWindow_of_short dir now logLimit hlimit⟩
  by_contra hlong
  exact not_removesWindow dir now logLimit (Int.not_le.1 hlong) hwindow

/-- The first second of 2026. -/
def newYear : UnixTime where
  seconds := 1767225600
  low := by decide
  high := by decide

theorem retention_thirty :
    RemovesWindow logsDir.bytes newYear.seconds 30
      (deleteLogsBeyond logsDir.bytes newYear.seconds 30) :=
  (retention_iff logsDir newYear 30 (by decide)).2 (by decide)

/-- **A limit of 100 years** does not fit: the window has moved over today. -/
theorem retention_century :
    ¬∀ (dir : LogDir) (now : UnixTime) (logLimit : BitVec 32), 1 ≤ logLimit.toInt →
      RemovesWindow dir.bytes now.seconds logLimit.toInt
        (deleteLogsBeyond dir.bytes now.seconds logLimit) := by
  intro hall
  exact not_removesWindow logsDir newYear 36525 (by decide)
    (hall logsDir newYear 36525 (by decide))

end

end ServerBase
