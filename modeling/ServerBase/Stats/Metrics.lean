import Mathlib.Algebra.Order.BigOperators.Group.List
import ServerBase.Stats.PerfRecord
import ServerBase.Stats.Rendering

/-!
# The metrics

`GeneratePrometheusMetricsText` prints the records for Prometheus. In front of each `snprintf` it
checks that the position is still in the buffer.

**The pieces** (`metricsPieces`). What is printed of a record when there is room.

**The result** (`metrics_text_cut`). The buffer holds the text of all records, cut at the end of the
buffer.
-/

namespace ServerBase

namespace TimingBuckets

/-- `bucketBounds` -/
def bound : TimingBuckets → String
  | perfSub1ms => "1"
  | perf1to2ms => "2"
  | perf2to5ms => "5"
  | perf5to10ms => "10"
  | perf10to50ms => "50"
  | perfOver50ms => "+Inf"

end TimingBuckets

/-! ## `GeneratePrometheusMetricsText` -/

/-- `HELP` and `TYPE` of the calls. -/
def callsHead : Bytes :=
  bytes "# HELP server_perf_calls_total Total number of calls.\n" ++
    bytes "# TYPE server_perf_calls_total counter\n"

/-- `HELP` and `TYPE` of the sum. -/
def sumHead : Bytes :=
  bytes "# HELP server_perf_duration_milliseconds_sum Sum of call durations in milliseconds.\n" ++
    bytes "# TYPE server_perf_duration_milliseconds_sum counter\n"

/-- `HELP` and `TYPE` of the maximum. -/
def maxHead : Bytes :=
  bytes "# HELP server_perf_duration_milliseconds_max Maximum call duration in milliseconds.\n" ++
    bytes "# TYPE server_perf_duration_milliseconds_max gauge\n"

/-- `HELP` and `TYPE` of the buckets. -/
def bucketsHead : Bytes :=
  bytes "# HELP server_perf_duration_milliseconds_bucket Call duration histogram bucket.\n" ++
    bytes "# TYPE server_perf_duration_milliseconds_bucket histogram\n"

/-- A sample of the metric with the record's name as its label: `%s\x7bapi=\"%s\"\x7d %s`. -/
def sampleLine (metric : String) (name : PerfName) (value : Bytes) : Bytes :=
  bytes metric ++ bytes "\x7bapi=\"" ++ name.bytes ++ bytes "\"\x7d " ++ value ++ bytes "\n"

/-- A sample of a bucket. -/
def countLine (name : PerfName) (b : TimingBuckets) (count : Int) : Bytes :=
  bytes "server_perf_duration_milliseconds_bucket\x7bapi=\"" ++ name.bytes ++ bytes "\",le=\"" ++
    bytes b.bound ++ bytes "\"\x7d " ++ printInt count ++ bytes "\n"

def bucketLine (name : PerfName) (b : TimingBuckets) (cumulative : BitVec 32) : Bytes :=
  countLine name b cumulative.toInt

section
variable {δ : Type*} (fixed3 : δ → Bytes)

def callsPiece (r : PerfRecord δ) : Bytes :=
  callsHead ++ sampleLine "server_perf_calls_total" r.mName (printInt r.mCalls.toInt)

def sumPiece (r : PerfRecord δ) : Bytes :=
  sumHead ++ sampleLine "server_perf_duration_milliseconds_sum" r.mName (fixed3 r.mSum)

def maxPiece (r : PerfRecord δ) : Bytes :=
  maxHead ++ sampleLine "server_perf_duration_milliseconds_max" r.mName (fixed3 r.mMax)

/-- The loop over the buckets with the running sum. -/
def printBuckets (r : PerfRecord δ) (cumulative : BitVec 32) (s : Rendering) :
    List TimingBuckets → Rendering
  | [] => s
  | b :: bs =>
      if 8192 ≤ s.n then s
      else
        let cumulative := cumulative + r.mHistogram b
        printBuckets r cumulative (s.print (bucketLine r.mName b cumulative)) bs

/-- The loop over the records. -/
def printRecords (s : Rendering) : List (PerfRecord δ) → Rendering
  | [] => s
  | r :: rs =>
      if 8192 ≤ s.n then s
      else
        let s := s.print (callsPiece r)
        if 8192 ≤ s.n then s
        else
          let s := s.print (sumPiece fixed3 r)
          if 8192 ≤ s.n then s
          else
            let s := s.print (maxPiece fixed3 r)
            if 8192 ≤ s.n then s
            else
              let s := s.print bucketsHead
              let s := printBuckets r 0 s TimingBuckets.all
              let s := if s.n < 8192 then s.print (bytes "\n") else s
              printRecords s rs

/-- `GeneratePrometheusMetricsText`; it returns `n`. -/
def generatePrometheusMetricsText (gPerfRecords : List (PerfRecord δ)) (buffer : Buffer) :
    Rendering :=
  printRecords fixed3 { buffer } gPerfRecords

/-! ## The whole text -/

/-- The samples of the buckets. -/
def bucketPieces (r : PerfRecord δ) (cumulative : BitVec 32) : List TimingBuckets → List Bytes
  | [] => []
  | b :: bs =>
      bucketLine r.mName b (cumulative + r.mHistogram b) ::
        bucketPieces r (cumulative + r.mHistogram b) bs

/-- What is printed of a record. -/
def metricsPieces (r : PerfRecord δ) : List Bytes :=
  [callsPiece r, sumPiece fixed3 r, maxPiece fixed3 r, bucketsHead] ++
    bucketPieces r 0 TimingBuckets.all ++ [bytes "\n"]

/-- What is printed of all of them. -/
def metricsText (gPerfRecords : List (PerfRecord δ)) : Bytes :=
  (gPerfRecords.flatMap (metricsPieces fixed3)).flatten

/-- The running sums that are printed. -/
def runningCounts (r : PerfRecord δ) (cumulative : BitVec 32) :
    List TimingBuckets → List (BitVec 32)
  | [] => []
  | b :: bs => (cumulative + r.mHistogram b) :: runningCounts r (cumulative + r.mHistogram b) bs

/-- How long the text of a record is. -/
def recordLength (r : PerfRecord δ) : ℕ :=
  978 + 9 * r.mName.bytes.length + (printInt r.mCalls.toInt).length + (fixed3 r.mSum).length +
    (fixed3 r.mMax).length +
    ((runningCounts r 0 TimingBuckets.all).map fun count => (printInt count.toInt).length).sum

/-- How long the text of all of them is. -/
def metricsLength (gPerfRecords : List (PerfRecord δ)) : ℕ :=
  (gPerfRecords.map (recordLength fixed3)).sum

/-- The loop over the buckets prints its pieces while there is room. -/
theorem printBuckets_eq (r : PerfRecord δ) (cumulative : BitVec 32) (s : Rendering)
    (bs : List TimingBuckets) :
    printBuckets r cumulative s bs = s.printWhile (bucketPieces r cumulative bs) := by
  induction bs generalizing cumulative s with
  | nil => rfl
  | cons b bs ih =>
      rw [printBuckets, bucketPieces]
      by_cases hn : 8192 ≤ s.n
      · rw [if_pos hn, Rendering.printWhile_of_le hn]
      · rw [if_neg hn, ih, Rendering.printWhile_cons, if_neg hn]

/-- A break in front of a piece leaves out all that follow. -/
theorem break_eq (s : Rendering) (out : Bytes) (outs : List Bytes) :
    (if 8192 ≤ s.n then s else (s.print out).printWhile outs) = s.printWhile (out :: outs) := by
  by_cases hn : 8192 ≤ s.n
  · rw [if_pos hn, Rendering.printWhile_of_le hn]
  · rw [if_neg hn, Rendering.printWhile_cons, if_neg hn]

/-- The loop over the records prints its pieces while there is room. -/
theorem printRecords_eq (s : Rendering) (rs : List (PerfRecord δ)) :
    printRecords fixed3 s rs = s.printWhile (rs.flatMap (metricsPieces fixed3)) := by
  induction rs generalizing s with
  | nil => rfl
  | cons r rs ih =>
      have hnewline : ∀ s : Rendering, (if s.n < 8192 then s.print (bytes "\n") else s) =
          s.printWhile [bytes "\n"] := by
        intro s
        rw [← break_eq]
        by_cases hn : s.n < 8192
        · rw [if_pos hn, if_neg (Int.not_le.2 hn)]
          rfl
        · rw [if_neg hn, if_pos (Int.not_lt.1 hn)]
      rw [printRecords]
      simp only [printBuckets_eq, hnewline, ih, ← Rendering.printWhile_append, break_eq]
      rw [List.flatMap_cons, metricsPieces]
      simp only [List.cons_append, List.nil_append, List.append_assoc]

/-! ## Truncation -/

theorem heads_spec :
    (callsHead.length = 93 ∧ sumHead.length = 137 ∧ maxHead.length = 135 ∧
      bucketsHead.length = 138) ∧
    [callsHead, sumHead, maxHead, bucketsHead].all (fun head =>
      head.all fun c => decide (c ≠ 0)) = true := by
  decide +kernel

theorem noNul_heads : ∀ head ∈ [callsHead, sumHead, maxHead, bucketsHead], ∀ c ∈ head, c ≠ 0 :=
  fun head hhead => forall_of_all (List.all_eq_true.1 heads_spec.2 head hhead)

theorem length_sampleLine (metric : String) (name : PerfName) (value : Bytes) :
    (sampleLine metric name value).length =
      (bytes metric).length + name.bytes.length + value.length + 10 := by
  have hliterals : (bytes "\x7bapi=\"").length = 6 ∧ (bytes "\"\x7d ").length = 3 ∧
      (bytes "\n").length = 1 := by decide
  simp only [sampleLine, List.length_append, hliterals]
  omega

theorem noNul_sampleLine {metric : String} (name : PerfName) {value : Bytes}
    (hmetric : (bytes metric).all (fun c => decide (c ≠ 0)) = true) (hvalue : ∀ c ∈ value, c ≠ 0) :
    ∀ c ∈ sampleLine metric name value, c ≠ 0 := by
  have hfront := noNul_append (forall_of_all hmetric)
    (forall_of_all (p := (· ≠ 0)) (b := bytes "\x7bapi=\"") (by decide))
  have hname := noNul_append (noNul_append hfront name.noNul)
    (forall_of_all (p := (· ≠ 0)) (b := bytes "\"\x7d ") (by decide))
  exact noNul_append (noNul_append hname hvalue) (forall_of_all (by decide))

section
variable (name : PerfName) (b : TimingBuckets) (cumulative : BitVec 32)

theorem length_bucketLine : (bucketLine name b cumulative).length =
    56 + name.bytes.length + (bytes b.bound).length + (printInt cumulative.toInt).length := by
  have hliterals : (bytes "server_perf_duration_milliseconds_bucket\x7bapi=\"").length = 46 ∧
      (bytes "\",le=\"").length = 6 ∧ (bytes "\"\x7d ").length = 3 ∧ (bytes "\n").length = 1 := by
    decide
  simp only [bucketLine, countLine, List.length_append, hliterals]
  omega

theorem noNul_bucketLine : ∀ c ∈ bucketLine name b cumulative, c ≠ 0 := by
  have hbound : ∀ c ∈ bytes b.bound, c ≠ 0 := by
    cases b <;> exact forall_of_all (by decide)
  have hfront := noNul_append (noNul_append (forall_of_all (p := (· ≠ 0))
    (b := bytes "server_perf_duration_milliseconds_bucket\x7bapi=\"") (by decide)) name.noNul)
    (forall_of_all (p := (· ≠ 0)) (b := bytes "\",le=\"") (by decide))
  have hle := noNul_append (noNul_append hfront hbound)
    (forall_of_all (p := (· ≠ 0)) (b := bytes "\"\x7d ") (by decide))
  exact noNul_append (noNul_append hle (noNul_printInt _)) (forall_of_all (by decide))

theorem exists_of_mem_bucketPieces {r : PerfRecord δ} {cumulative : BitVec 32}
    {bs : List TimingBuckets} {out : Bytes} (hout : out ∈ bucketPieces r cumulative bs) :
    ∃ b cumulative, out = bucketLine r.mName b cumulative := by
  induction bs generalizing cumulative with
  | nil => cases hout
  | cons b bs ih =>
      rcases List.mem_cons.1 hout with rfl | hout
      · exact ⟨b, _, rfl⟩
      · exact ih hout

end

/-- The counts that are printed of the buckets. -/
theorem length_bucketPieces (r : PerfRecord δ) (cumulative : BitVec 32)
    (bs : List TimingBuckets) :
    (bucketPieces r cumulative bs).flatten.length =
      (bs.map fun b => 56 + r.mName.bytes.length + (bytes b.bound).length).sum +
        ((runningCounts r cumulative bs).map fun count => (printInt count.toInt).length).sum := by
  induction bs generalizing cumulative with
  | nil => rfl
  | cons b bs ih =>
      rw [bucketPieces, List.flatten_cons, List.length_append, length_bucketLine, ih,
        runningCounts]
      simp only [List.map_cons, List.sum_cons]
      omega

theorem length_metricsPieces (r : PerfRecord δ) :
    (metricsPieces fixed3 r).flatten.length = recordLength fixed3 r := by
  have hliterals : (bytes "server_perf_calls_total").length = 23 ∧
      (bytes "server_perf_duration_milliseconds_sum").length = 37 ∧
      (bytes "server_perf_duration_milliseconds_max").length = 37 ∧ (bytes "\n").length = 1 := by
    decide
  have hbounds : (TimingBuckets.all.map fun b =>
      56 + r.mName.bytes.length + (bytes b.bound).length).sum = 347 + 6 * r.mName.bytes.length := by
    have hlengths : TimingBuckets.all.map (fun b => (bytes b.bound).length) =
        [1, 1, 1, 2, 2, 4] := by decide
    simp only [TimingBuckets.all, List.map_cons, List.map_nil, List.cons.injEq] at hlengths ⊢
    simp only [hlengths, List.sum_cons, List.sum_nil]
    omega
  simp only [metricsPieces, callsPiece, sumPiece, maxPiece, List.cons_append, List.nil_append,
    List.flatten_cons, List.flatten_append, List.flatten_nil, List.length_append,
    List.append_nil, length_sampleLine, length_bucketPieces, heads_spec.1, hliterals, hbounds]
  rw [recordLength]
  omega

theorem length_metricsText (gPerfRecords : List (PerfRecord δ)) :
    (metricsText fixed3 gPerfRecords).length = metricsLength fixed3 gPerfRecords := by
  induction gPerfRecords with
  | nil => rfl
  | cons r rs ih =>
      rw [metricsText, List.flatMap_cons, List.flatten_append, List.length_append,
        length_metricsPieces, ← metricsText, ih]
      simp only [metricsLength, List.map_cons, List.sum_cons]

section
variable (fmt : DoubleFormat δ)

theorem recordLength_le (r : PerfRecord δ) : recordLength fmt.print r ≤ 2500 := by
  have hname := r.mName.fits
  have hcalls := length_printInt r.mCalls
  have hsum := fmt.length_le r.mSum
  have hmax := fmt.length_le r.mMax
  have hcounts : ((runningCounts r 0 TimingBuckets.all).map fun count =>
      (printInt count.toInt).length).sum ≤ 6 * 11 := by
    refine List.sum_le_card_nsmul _ 11 fun x hx => ?_
    obtain ⟨count, -, rfl⟩ := List.mem_map.1 hx
    exact length_printInt _
  rw [recordLength]
  omega

/-- No piece is long. -/
theorem length_of_mem_metricsPieces {r : PerfRecord δ} {out : Bytes}
    (hout : out ∈ metricsPieces fmt.print r) : out.length ≤ 4096 := by
  have hle := (List.sublist_flatten_of_mem hout).length_le
  have hrecord := recordLength_le fmt r
  rw [length_metricsPieces] at hle
  omega

theorem noNul_metricsPieces {r : PerfRecord δ} {out : Bytes}
    (hout : out ∈ metricsPieces fmt.print r) : ∀ c ∈ out, c ≠ 0 := by
  rw [metricsPieces, List.mem_append, List.mem_append, List.mem_singleton] at hout
  rcases hout with (hout | hout) | rfl
  · simp only [List.mem_cons, List.not_mem_nil, or_false] at hout
    rcases hout with hout | hout | hout | hout
    · rw [hout]
      exact noNul_append (noNul_heads _ (by simp))
        (noNul_sampleLine _ (by decide) (noNul_printInt _))
    · rw [hout]
      exact noNul_append (noNul_heads _ (by simp)) (noNul_sampleLine _ (by decide) (fmt.noNul _))
    · rw [hout]
      exact noNul_append (noNul_heads _ (by simp)) (noNul_sampleLine _ (by decide) (fmt.noNul _))
    · rw [hout]
      exact noNul_heads _ (by simp)
  · obtain ⟨b, cumulative, rfl⟩ := exists_of_mem_bucketPieces hout
    exact noNul_bucketLine _ _ _
  · exact forall_of_all (by decide)

/-- The text has no NUL. -/
theorem noNul_metricsText (gPerfRecords : List (PerfRecord δ)) :
    ∀ c ∈ metricsText fmt.print gPerfRecords, c ≠ 0 := by
  intro c hc
  obtain ⟨out, hout, hc⟩ := List.mem_flatten.1 hc
  obtain ⟨r, -, hout⟩ := List.mem_flatMap.1 hout
  exact noNul_metricsPieces fmt hout c hc

end

/-- The text is in the buffer, cut at its end, and the length tells whether it was cut. -/
structure HoldsCut (gPerfRecords : List (PerfRecord δ)) (s : Rendering) (text : Bytes) : Prop where
  calls : ∀ c ∈ s.calls, c.InBuffer
  terminated : gPerfRecords ≠ [] → ∃ rest, s.buffer.bytes = text.take 8191 ++ 0 :: rest
  cstr : gPerfRecords ≠ [] → cstr s.buffer.bytes = text.take 8191
  n_eq : text.length ≤ 8191 → s.n = text.length
  n_ge : 8191 < text.length → 8192 ≤ s.n

end

section
variable {δ : Type*} (fmt : DoubleFormat δ) (gPerfRecords : List (PerfRecord δ)) (buffer : Buffer)

/-- What has been printed, and what has not for lack of room. -/
theorem printed_metrics : ∃ text rest,
    Printed (generatePrometheusMetricsText fmt.print gPerfRecords buffer) text ∧
      metricsText fmt.print gPerfRecords = text ++ rest ∧ (rest = [] ∨ 8192 ≤ text.length) := by
  obtain ⟨rest, hrest, hfull⟩ := TextBuffer.fill_spec 8192 []
    (gPerfRecords.flatMap (metricsPieces fmt.print))
  refine ⟨_, rest, ?_, hrest, hfull⟩
  rw [generatePrometheusMetricsText, printRecords_eq]
  refine (Printed.start buffer).printWhile fun out hout => ?_
  obtain ⟨r, -, hout⟩ := List.mem_flatMap.1 hout
  exact length_of_mem_metricsPieces fmt hout

/-- What has not been printed lies behind the end of the buffer. -/
theorem take_of_full {text rest : Bytes} (hfull : rest = [] ∨ 8192 ≤ text.length) :
    (text ++ rest).take 8191 = text.take 8191 := by
  rcases hfull with rfl | hfull
  · rw [List.append_nil]
  · exact List.take_append_of_le_length (Nat.le_trans (by decide) hfull)

/-- Of a record the first piece at least is printed. -/
theorem calls_metrics_ne_nil (hne : gPerfRecords ≠ []) :
    (generatePrometheusMetricsText fmt.print gPerfRecords buffer).calls ≠ [] := by
  rw [generatePrometheusMetricsText, printRecords_eq]
  refine Rendering.calls_printWhile_ne_nil (.inr ⟨(by decide : (0 : Int) < 8192), ?_⟩)
  obtain ⟨r, rs, rfl⟩ := List.exists_cons_of_ne_nil hne
  simp [metricsPieces]

/-- The text in the buffer. -/
theorem cstr_metrics (hne : gPerfRecords ≠ []) :
    cstr (generatePrometheusMetricsText fmt.print gPerfRecords buffer).buffer.bytes =
      (metricsText fmt.print gPerfRecords).take 8191 := by
  obtain ⟨text, rest, hprinted, htext, hfull⟩ := printed_metrics fmt gPerfRecords buffer
  have hnul := noNul_metricsText fmt gPerfRecords
  rw [hprinted.cstr_eq (calls_metrics_ne_nil fmt gPerfRecords buffer hne)
    fun c hc => hnul c (htext ▸ List.mem_append_left _ hc), htext]
  exact (take_of_full hfull).symm

/-- Also when there are no records. -/
theorem cstr_metrics_zeroed :
    cstr (generatePrometheusMetricsText fmt.print gPerfRecords zeroedBuffer).buffer.bytes =
      (metricsText fmt.print gPerfRecords).take 8191 := by
  rcases eq_or_ne gPerfRecords [] with rfl | hne
  · exact cstr_append_zeros (b := []) (fun c hc => by cases hc) 8192
  · exact cstr_metrics fmt gPerfRecords zeroedBuffer hne

/-- The length that is returned tells whether the text has been cut. -/
theorem n_metrics :
    ((metricsText fmt.print gPerfRecords).length ≤ 8191 →
      (generatePrometheusMetricsText fmt.print gPerfRecords buffer).n =
        (metricsText fmt.print gPerfRecords).length) ∧
    (8191 < (metricsText fmt.print gPerfRecords).length →
      8192 ≤ (generatePrometheusMetricsText fmt.print gPerfRecords buffer).n) := by
  obtain ⟨text, rest, hprinted, htext, hfull⟩ := printed_metrics fmt gPerfRecords buffer
  have hn := hprinted.n
  have hlength := congrArg List.length htext
  rw [List.length_append] at hlength
  rcases hfull with rfl | hfull
  · rw [List.length_nil, Nat.add_zero] at hlength
    omega
  · omega

/-- **The text is cut at the end of the buffer**, and at no other place. -/
theorem metrics_text_cut :
    HoldsCut gPerfRecords (generatePrometheusMetricsText fmt.print gPerfRecords buffer)
      (metricsText fmt.print gPerfRecords) := by
  obtain ⟨text, rest, hprinted, htext, hfull⟩ := printed_metrics fmt gPerfRecords buffer
  obtain ⟨hfits, hlong⟩ := n_metrics fmt gPerfRecords buffer
  refine ⟨hprinted.calls, fun hne => ?_, cstr_metrics fmt gPerfRecords buffer, hfits, hlong⟩
  obtain ⟨tail, htail⟩ := hprinted.holds (calls_metrics_ne_nil fmt gPerfRecords buffer hne)
  rw [Buffer.length_eq, ← take_of_full hfull, ← htext] at htail
  exact ⟨tail, htail⟩

end

end ServerBase
