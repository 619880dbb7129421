import ServerBase.Lib.Calendar
import ServerBase.Logger.Logger

/-!
# The names of the log files

A log file has the date in its name, as `strftime` prints it. Its buffers are large enough for every
year that fits an `int`.

**The names** (`dateOf_eq_iff`, `logFileName_eq_iff`). Two times have the same date and the same
file exactly if they are of the same day.
-/

namespace ServerBase

/-- A `time_t` of a year that fits an `int`, so that `gmtime_r` succeeds. -/
structure UnixTime where
  seconds : ℤ
  low : -2 ^ 55 ≤ seconds
  high : seconds < 2 ^ 55

/-! ## `strftime` -/

/-- Two digits. -/
def printTwo (k : ℕ) : Bytes := [48 + (k / 10).toUInt8, 48 + (k % 10).toUInt8]

/-- `%A` -/
def weekdayName : ℕ → String
  | 0 => "Sunday"
  | 1 => "Monday"
  | 2 => "Tuesday"
  | 3 => "Wednesday"
  | 4 => "Thursday"
  | 5 => "Friday"
  | _ => "Saturday"

/-- The UTC day of a time. -/
def dayOf (t : ℤ) : ℤ := t / 86400

/-- `%Y%m%d` -/
def printDate (d : Calendar.Date) : Bytes := printInt d.year ++ (printTwo d.month ++ printTwo d.day)

/-- `%Y%m%d_%A` -/
def dateOf (t : ℤ) : Bytes :=
  printDate (Calendar.ofDays (dayOf t)) ++ bytes "_" ++
    bytes (weekdayName (Calendar.weekday (dayOf t)))

/-- `%H:%M:%S` -/
def timeOf (t : ℤ) : Bytes :=
  let s := (t % 86400).toNat
  printTwo (s / 3600) ++ bytes ":" ++ printTwo (s / 60 % 60) ++ bytes ":" ++ printTwo (s % 60)

example : dateOf 86399 = bytes "19700101_Thursday" ∧ timeOf 86399 = bytes "23:59:59" := by decide

/-! ## What is printed -/

theorem toNat_printTwo {k : ℕ} (h : k < 100) :
    (48 + (k / 10).toUInt8 : UInt8).toNat = 48 + k / 10 ∧
      (48 + (k % 10).toUInt8 : UInt8).toNat = 48 + k % 10 :=
  ⟨toNat_digitByte (Nat.div_lt_of_lt_mul h), toNat_digitByte (Nat.mod_lt k (by decide))⟩

theorem printTwo_inj {j k : ℕ} (hj : j < 100) (hk : k < 100) (h : printTwo j = printTwo k) :
    j = k := by
  obtain ⟨hj10, hj1⟩ := toNat_printTwo hj
  obtain ⟨hk10, hk1⟩ := toNat_printTwo hk
  obtain ⟨hfirst, hsecond⟩ : 48 + (j / 10).toUInt8 = 48 + (k / 10).toUInt8 ∧
      48 + (j % 10).toUInt8 = 48 + (k % 10).toUInt8 := by
    simpa only [printTwo, List.cons.injEq, and_true] using h
  rw [hfirst] at hj10
  rw [hsecond] at hj1
  omega

theorem printDate_injective {d e : Calendar.Date} (hd : d.Valid) (he : e.Valid)
    (h : printDate d = printDate e) : d = e := by
  have hday : ∀ {d : Calendar.Date}, d.Valid → d.day < 100 := fun {d} hd =>
    Nat.lt_of_le_of_lt (Nat.le_trans hd.day.2 (Calendar.monthLength_range d.year d.month).2)
      (by decide)
  obtain ⟨hyear, hrest⟩ := List.append_inj' h rfl
  obtain ⟨hmonth, hdays⟩ := List.append_inj hrest rfl
  obtain ⟨year, month, day⟩ := d
  obtain ⟨year', month', day'⟩ := e
  obtain rfl : year = year' := printInt_injective hyear
  obtain rfl : month = month' :=
    printTwo_inj (Nat.lt_of_le_of_lt hd.month.2 (by decide))
      (Nat.lt_of_le_of_lt he.month.2 (by decide)) hmonth
  obtain rfl : day = day' := printTwo_inj (hday hd) (hday he) hdays
  rfl

theorem isDigit_printTwo {k : ℕ} (h : k < 100) : ∀ c ∈ printTwo k, Decimal.isDigit c = true := by
  obtain ⟨hfirst, hsecond⟩ := toNat_printTwo h
  intro c hc
  rw [Decimal.isDigit_iff]
  rcases List.mem_cons.1 hc with rfl | hc
  · omega
  · obtain rfl := List.mem_singleton.1 hc
    omega

/-- A date has digits, and a minus before the year at most. -/
theorem mem_printDate {d : Calendar.Date} (hd : d.Valid) :
    ∀ c ∈ printDate d, Decimal.isDigit c = true ∨ c = 45 := by
  have hday := (Calendar.monthLength_range d.year d.month).2
  obtain ⟨⟨-, hmonth⟩, -, hlength⟩ := hd
  intro c hc
  simp only [printDate, printInt, List.mem_append] at hc
  rcases hc with (hc | hc) | hc | hc
  · split at hc
    · exact .inr (List.mem_singleton.1 hc)
    · cases hc
  · exact .inl (Decimal.isDigit_of_mem_digits hc)
  · exact .inl (isDigit_printTwo (by omega) c hc)
  · exact .inl (isDigit_printTwo (by omega) c hc)

/-- **Two times have the same date** exactly on the same day. -/
theorem dateOf_eq_iff {t t' : ℤ} : dateOf t = dateOf t' ↔ dayOf t = dayOf t' := by
  constructor
  · intro h
    -- the date ends at the first `_`
    have hbefore : ∀ t : ℤ, (dateOf t).takeWhile (· != 95) =
        printDate (Calendar.ofDays (dayOf t)) := by
      intro t
      rw [dateOf, List.append_assoc, List.takeWhile_append_of_pos]
      · have hunder : bytes "_" = [95] := by decide
        rw [hunder, List.singleton_append, List.takeWhile_cons_of_neg (by decide), List.append_nil]
      · intro c hc
        rcases mem_printDate (Calendar.valid_ofDays _) c hc with hdigit | rfl
        · rw [bne_iff_ne]
          rintro rfl
          exact absurd hdigit (by decide)
        · decide
    have hdate := congrArg (List.takeWhile (· != 95)) h
    rw [hbefore, hbefore] at hdate
    exact Calendar.ofDays_injective
      (printDate_injective (Calendar.valid_ofDays _) (Calendar.valid_ofDays _) hdate)
  · intro h
    rw [dateOf, dateOf, h]

theorem noNul_dateOf (t : ℤ) : ∀ c ∈ dateOf t, c ≠ 0 := by
  have hweekday : ∀ k, ∀ c ∈ bytes (weekdayName k), c ≠ 0 := by
    intro k
    unfold weekdayName
    split <;> exact forall_of_all (by decide)
  refine noNul_append (noNul_append ?_ (forall_of_all (by decide))) (hweekday _)
  intro c hc
  rcases mem_printDate (Calendar.valid_ofDays _) c hc with hdigit | rfl
  · rintro rfl
    exact absurd hdigit (by decide)
  · decide

/-- The day of a time that fits. -/
theorem dayOf_now (now : UnixTime) : (dayOf now.seconds).natAbs < 10 ^ 12 / 2 := by
  have hlow := now.low
  have hhigh := now.high
  unfold dayOf
  omega

/-- The year of a day has at most twelve digits. -/
theorem length_dateOf {t : ℤ} (h : (dayOf t).natAbs < 10 ^ 12 - 2000) : (dateOf t).length ≤ 27 := by
  have hyear : (Calendar.ofDays (dayOf t)).year.natAbs < 10 ^ 12 := by
    have hepoch : (Calendar.ofDays 0).year = 1970 := rfl
    rcases Int.le_total 0 (dayOf t) with hle | hle
    · have hgrowth := Calendar.year_ofDays hle
      rw [hepoch] at hgrowth
      omega
    · have hgrowth := Calendar.year_ofDays hle
      rw [hepoch] at hgrowth
      omega
  have hdigits := (Decimal.length_digits_le_iff (m := 12) (by decide)).2 hyear
  have hsign : (if (Calendar.ofDays (dayOf t)).year < 0 then bytes "-" else []).length ≤ 1 := by
    split <;> decide
  have hweekday : ∀ k, (bytes (weekdayName k)).length ≤ 9 := by
    intro k
    unfold weekdayName
    split <;> decide
  have hname := hweekday (Calendar.weekday (dayOf t))
  have hunder : (bytes "_").length = 1 := by decide
  simp only [dateOf, printDate, printInt, printTwo, List.length_append, List.length_cons,
    List.length_nil, hunder]
  omega

/-! ## Files -/

/-- `gLogDir`, short enough for the buffers of the file names; every server passes `logs`. -/
structure LogDir where
  bytes : Bytes
  noNul : ∀ c ∈ bytes, c ≠ 0
  fits : bytes.length ≤ 91

/-- The directory of the servers. -/
def logsDir : LogDir where
  bytes := bytes "logs"
  noNul := forall_of_all (by decide)
  fits := by decide

/-- `snprintf(filenamebuf, sizeof(filenamebuf), "%s/log_%s.txt", gLogDir, gLastLogTiming)` -/
def filenamebuf (gLogDir gLastLogTiming : Bytes) : Bytes :=
  cstr (snprintf 128 (gLogDir ++ bytes "/log_" ++ gLastLogTiming ++ bytes ".txt")).1

/-- The log file of the day of a time, as `fopen_log_file_tdy` and `check_new_log` name it. -/
def logFileName (gLogDir : Bytes) (t : ℤ) : Bytes := filenamebuf gLogDir (dateOf t)

section
variable (dir : LogDir) {t t' : ℤ}

theorem noNul_logPath (t : ℤ) :
    ∀ c ∈ dir.bytes ++ bytes "/log_" ++ dateOf t ++ bytes ".txt", c ≠ 0 := by
  have hdir : ∀ c ∈ dir.bytes ++ bytes "/log_", c ≠ 0 :=
    noNul_append dir.noNul (forall_of_all (by decide))
  exact noNul_append (noNul_append hdir (noNul_dateOf t)) (forall_of_all (by decide))

/-- The path fits into the smaller of the buffers. -/
theorem length_logPath (h : (dayOf t).natAbs < 10 ^ 12 - 2000) :
    (dir.bytes ++ bytes "/log_" ++ dateOf t ++ bytes ".txt").length < 128 := by
  have hdate := length_dateOf h
  have hdir := dir.fits
  have hliterals : (bytes "/log_").length = 5 ∧ (bytes ".txt").length = 4 := by decide
  simp only [List.length_append, hliterals]
  omega

theorem logFileName_eq (h : (dayOf t).natAbs < 10 ^ 12 - 2000) :
    logFileName dir.bytes t = dir.bytes ++ bytes "/log_" ++ dateOf t ++ bytes ".txt" :=
  cstr_snprintf (noNul_logPath dir t) (length_logPath dir h)

/-- **Two times have the same log file** exactly on the same day. -/
theorem logFileName_eq_iff (h : (dayOf t).natAbs < 10 ^ 12 - 2000)
    (h' : (dayOf t').natAbs < 10 ^ 12 - 2000) :
    logFileName dir.bytes t = logFileName dir.bytes t' ↔ dayOf t = dayOf t' := by
  rw [logFileName_eq dir h, logFileName_eq dir h', List.append_cancel_right_eq,
    List.append_cancel_left_eq, dateOf_eq_iff]

end

end ServerBase
