import ServerBase.Lib.Exposition
import ServerBase.Stats.Metrics

/-!
# The metrics as a text for Prometheus

The loop of `GeneratePrometheusMetricsText` goes over the records and prints the heads of all
metrics for each of them.

**The result** (`metrics_wellFormed_iff`). The text keeps to the rules of the format for one record
at most: with the second one every `HELP` and `TYPE` line comes again.
-/

namespace ServerBase

open Exposition (Line WellFormed parse)

def callsMetric : Bytes := bytes "server_perf_calls_total"
def sumMetric : Bytes := bytes "server_perf_duration_milliseconds_sum"
def maxMetric : Bytes := bytes "server_perf_duration_milliseconds_max"
def bucketMetric : Bytes := bytes "server_perf_duration_milliseconds_bucket"

/-- The lines of a record, whatever it is. -/
def recordLines : List Line :=
  [.help callsMetric, .type callsMetric, .sample callsMetric,
    .help sumMetric, .type sumMetric, .sample sumMetric,
    .help maxMetric, .type maxMetric, .sample maxMetric,
    .help bucketMetric, .type bucketMetric] ++ List.replicate 6 (.sample bucketMetric)

/-! ## Reading the text -/

theorem parse_heads :
    (parse callsHead = [.help callsMetric, .type callsMetric] ∧
      parse sumHead = [.help sumMetric, .type sumMetric] ∧
      parse maxHead = [.help maxMetric, .type maxMetric] ∧
      parse bucketsHead = [.help bucketMetric, .type bucketMetric]) ∧
    callsHead.getLast? = some 10 ∧ sumHead.getLast? = some 10 ∧ maxHead.getLast? = some 10 ∧
      bucketsHead.getLast? = some 10 := by
  decide +kernel

theorem newline : bytes "\n" = [10] := by decide

theorem noNewline_printInt (x : Int) : (10 : UInt8) ∉ printInt x := by
  intro h
  rcases List.mem_append.1 h with h | h
  · split at h
    · exact absurd h (by decide)
    · cases h
  · exact absurd (Decimal.isDigit_of_mem_digits h) (by decide)

/-- A sample is read as one of its metric. -/
theorem parse_sampleLine {metric : String} (hne : bytes metric ≠ [])
    (hmetric : (bytes metric).all Exposition.isNameChar = true) {name : PerfName}
    (hname : (10 : UInt8) ∉ name.bytes) {value : Bytes} (hvalue : (10 : UInt8) ∉ value)
    (back : Bytes) :
    parse (sampleLine metric name value ++ back) = .sample (bytes metric) :: parse back := by
  have hopen : bytes "\x7bapi=\"" = 123 :: bytes "api=\"" := by decide
  have hline : sampleLine metric name value = bytes metric ++
      123 :: (bytes "api=\"" ++ name.bytes ++ bytes "\"\x7d " ++ value) ++ [10] := by
    rw [sampleLine, hopen, newline]
    simp only [List.append_assoc, List.cons_append]
  have happend := Exposition.parse_append (sampleLine metric name value)
    (by rw [hline, List.getLast?_concat]) back
  have hliterals : (10 : UInt8) ∉ bytes "api=\"" ∧ (10 : UInt8) ∉ bytes "\"\x7d " := by decide
  rw [happend, hline, Exposition.parse_sample hne hmetric (by decide), List.singleton_append]
  simp [Exposition.LF, hname, hvalue, hliterals]

theorem parse_bucketLine {name : PerfName} (hname : (10 : UInt8) ∉ name.bytes) (b : TimingBuckets)
    (cumulative : BitVec 32) (back : Bytes) :
    parse (bucketLine name b cumulative ++ back) = .sample bucketMetric :: parse back := by
  have hopen : bytes "server_perf_duration_milliseconds_bucket\x7bapi=\"" =
      bucketMetric ++ 123 :: bytes "api=\"" := by decide +kernel
  have hline : bucketLine name b cumulative = bucketMetric ++
      123 :: (bytes "api=\"" ++ name.bytes ++ bytes "\",le=\"" ++ bytes b.bound ++
        bytes "\"\x7d " ++ printInt cumulative.toInt) ++ [10] := by
    rw [bucketLine, countLine, hopen, newline]
    simp only [List.append_assoc, List.cons_append]
  have hmetric : bucketMetric.all Exposition.isNameChar = true := by decide
  have happend := Exposition.parse_append (bucketLine name b cumulative)
    (by rw [hline, List.getLast?_concat]) back
  have hliterals : (10 : UInt8) ∉ bytes "api=\"" ∧ (10 : UInt8) ∉ bytes "\",le=\"" ∧
      (10 : UInt8) ∉ bytes "\"\x7d " := by decide
  have hbound : (10 : UInt8) ∉ bytes b.bound := by cases b <;> decide
  rw [happend, hline, Exposition.parse_sample (by decide) hmetric (by decide),
    List.singleton_append]
  simp [Exposition.LF, hname, hliterals, hbound, noNewline_printInt]

section
variable {δ : Type*} (fmt : DoubleFormat δ)

theorem parse_bucketPieces {r : PerfRecord δ} (hname : (10 : UInt8) ∉ r.mName.bytes)
    (cumulative : BitVec 32) (bs : List TimingBuckets) (back : Bytes) :
    parse ((bucketPieces r cumulative bs).flatten ++ back) =
      List.replicate bs.length (.sample bucketMetric) ++ parse back := by
  induction bs generalizing cumulative with
  | nil => rfl
  | cons b bs ih =>
      rw [bucketPieces, List.flatten_cons, List.append_assoc, parse_bucketLine hname, ih]
      rfl

/-- **Every record is read as the same lines.** -/
theorem parse_metricsPieces {r : PerfRecord δ} (hname : (10 : UInt8) ∉ r.mName.bytes)
    (back : Bytes) :
    parse ((metricsPieces fmt.print r).flatten ++ back) = recordLines ++ parse back := by
  obtain ⟨⟨hcalls, hsum, hmax, hbuckets⟩, hcalls10, hsum10, hmax10, hbuckets10⟩ := parse_heads
  have hblank : parse ([10] ++ back) = parse back := Exposition.parse_cons [] back
  have hvalue : ∀ x, (10 : UInt8) ∉ fmt.print x := fun x h =>
    absurd (fmt.visible x 10 h).1 (by decide)
  simp only [metricsPieces, callsPiece, sumPiece, maxPiece, List.cons_append, List.nil_append,
    List.flatten_cons, List.flatten_append, List.flatten_nil, List.append_nil, List.append_assoc]
  rw [Exposition.parse_append _ hcalls10, hcalls,
    parse_sampleLine (by decide) (by decide) hname (noNewline_printInt _),
    Exposition.parse_append _ hsum10, hsum,
    parse_sampleLine (by decide) (by decide) hname (hvalue _),
    Exposition.parse_append _ hmax10, hmax,
    parse_sampleLine (by decide) (by decide) hname (hvalue _),
    Exposition.parse_append _ hbuckets10, hbuckets, parse_bucketPieces hname, newline, hblank]
  rfl

theorem parse_metricsText {gPerfRecords : List (PerfRecord δ)}
    (hnames : ∀ r ∈ gPerfRecords, (10 : UInt8) ∉ r.mName.bytes) :
    parse (metricsText fmt.print gPerfRecords) = gPerfRecords.flatMap fun _ => recordLines := by
  induction gPerfRecords with
  | nil => rfl
  | cons r rs ih =>
      have hrest := ih fun r' hr' => hnames r' (List.mem_cons_of_mem _ hr')
      rw [metricsText] at hrest
      rw [metricsText, List.flatMap_cons, List.flatten_append,
        parse_metricsPieces fmt (hnames r (List.mem_cons_self ..)), hrest, List.flatMap_cons]

end

/-! ## The rules -/

/-- One record keeps to the rules. -/
theorem wellFormed_recordLines : WellFormed recordLines := by
  refine .of_check (by decide +kernel) (by decide +kernel) fun metric hmem => ?_
  simp only [recordLines, List.mem_append, List.mem_cons, List.not_mem_nil, List.mem_replicate,
    reduceCtorEq, Line.sample.injEq, false_or, or_false] at hmem
  rcases hmem with (rfl | rfl | rfl) | ⟨-, rfl⟩
  · exact ⟨recordLines.take 2, 1, recordLines.drop 3, by decide +kernel⟩
  · exact ⟨recordLines.take 5, 1, recordLines.drop 6, by decide +kernel⟩
  · exact ⟨recordLines.take 8, 1, recordLines.drop 9, by decide +kernel⟩
  · exact ⟨recordLines.take 11, 6, [], by decide +kernel⟩

/-- The lines of so many records. -/
theorem wellFormed_records_iff {β : Type*} (l : List β) :
    WellFormed (l.flatMap fun _ => recordLines) ↔ l.length ≤ 1 := by
  constructor
  · intro h
    have hhelp : recordLines.count (.help callsMetric) = 1 := by decide +kernel
    have hcount := h.help_once callsMetric
    rw [List.count_flatMap] at hcount
    simpa [Function.comp_def, hhelp] using hcount
  · intro h
    match l, h with
    | [], _ => exact .of_check List.nodup_nil List.Pairwise.nil fun metric hmem => by cases hmem
    | [b], _ =>
        rw [List.flatMap_singleton]
        exact wellFormed_recordLines

section
variable {δ : Type*} (fmt : DoubleFormat δ) {gPerfRecords : List (PerfRecord δ)}

/-- What is read in the buffer. -/
theorem parse_buffer (hnames : ∀ r ∈ gPerfRecords, (10 : UInt8) ∉ r.mName.bytes)
    (hfits : metricsLength fmt.print gPerfRecords ≤ 8191) :
    parse (cstr (generatePrometheusMetricsText fmt.print gPerfRecords zeroedBuffer).buffer.bytes) =
      gPerfRecords.flatMap fun _ => recordLines := by
  have htake : (metricsText fmt.print gPerfRecords).take 8191 =
      metricsText fmt.print gPerfRecords :=
    List.take_of_length_le ((length_metricsText fmt.print gPerfRecords).trans_le hfits)
  rw [cstr_metrics_zeroed, htake, parse_metricsText fmt hnames]

/-- **The text keeps to the rules** exactly when there is one record at most. -/
theorem metrics_wellFormed_iff (hnames : ∀ r ∈ gPerfRecords, (10 : UInt8) ∉ r.mName.bytes)
    (hfits : metricsLength fmt.print gPerfRecords ≤ 8191) :
    WellFormed (parse (cstr
        (generatePrometheusMetricsText fmt.print gPerfRecords zeroedBuffer).buffer.bytes)) ↔
      gPerfRecords.length ≤ 1 := by
  rw [parse_buffer fmt hnames hfits]
  exact wellFormed_records_iff gPerfRecords

end

theorem metrics_wellFormed_login :
    WellFormed (parse (cstr (generatePrometheusMetricsText finiteFormat.print
      [newPerfRecord loginName] zeroedBuffer).buffer.bytes)) :=
  (metrics_wellFormed_iff finiteFormat (by decide) (by decide +kernel)).2 (Nat.le_refl 1)

/-- The other record of `auth_server`. -/
def restrictedName : PerfName where
  bytes := bytes "restricted"
  noNul := forall_of_all (by decide)
  fits := by decide

/-- **Two records** bring every head twice. -/
theorem metrics_not_wellFormed :
    ¬∀ gPerfRecords : List (PerfRecord FiniteDouble),
      (gPerfRecords.map fun r => r.mName.bytes).Nodup →
      (∀ r ∈ gPerfRecords, (34 : UInt8) ∉ r.mName.bytes ∧ (92 : UInt8) ∉ r.mName.bytes ∧
        (10 : UInt8) ∉ r.mName.bytes) →
      metricsLength finiteFormat.print gPerfRecords ≤ 8191 →
      WellFormed (parse (cstr (generatePrometheusMetricsText finiteFormat.print gPerfRecords
        zeroedBuffer).buffer.bytes)) := by
  intro hall
  have hwell := hall [newPerfRecord loginName, newPerfRecord restrictedName] (by decide)
    (by decide) (by decide +kernel)
  rw [parse_buffer finiteFormat (by decide) (by decide +kernel), wellFormed_records_iff] at hwell
  exact absurd hwell (by decide)

end ServerBase
