import ServerBase.Stats.Metrics

/-!
# The histogram and the samples

A record is updated with one time after the other and reset now and then.

**The samples** (`sinceReset`). The times since the last `Reset`. A record agrees with them
(`Agrees`) in every field.

**What is printed** (`metricsPieces_eq`). The metrics of a record are computed from its histogram by
a running sum; `samplePieces` says the same of the samples: behind each bound stands the number of
times that are not above it.

**The result** (`histogram_agrees`). Over every run of updates and resets.
-/

namespace ServerBase

/-! ## Samples -/

inductive PerfOp
  | update (ms : ℚ)
  | reset

namespace PerfOp

def isUpdate : PerfOp → Bool
  | update _ => true
  | reset => false

end PerfOp

/-- `Update` or `Reset` -/
def PerfRecord.apply (r : PerfRecord ℚ) : PerfOp → PerfRecord ℚ
  | .update ms => r.update ms
  | .reset => r.reset

/-- The times since the last `Reset`, and one operation more. -/
def sinceResetStep (u : List ℚ) : PerfOp → List ℚ
  | .update ms => u ++ [ms]
  | .reset => []

/-- The times since the last `Reset`. -/
def sinceReset (ops : List PerfOp) : List ℚ := ops.foldl sinceResetStep []

/-- What stands behind `le=` -/
def WithinBound (le : String) (ms : ℚ) : Prop := le = "+Inf" ∨ ms ≤ Decimal.value (bytes le)

instance (le : String) (ms : ℚ) : Decidable (WithinBound le ms) :=
  inferInstanceAs (Decidable (_ ∨ _))

/-- How many samples are not above the bound. -/
def atMost (u : List ℚ) (le : String) : ℕ := u.countP fun ms => decide (WithinBound le ms)

/-- The metrics of samples. -/
def samplePieces (fixed3 : ℚ → Bytes) (name : PerfName) (u : List ℚ) : List Bytes :=
  [callsHead ++ sampleLine "server_perf_calls_total" name (printInt u.length),
    sumHead ++ sampleLine "server_perf_duration_milliseconds_sum" name (fixed3 u.sum),
    maxHead ++ sampleLine "server_perf_duration_milliseconds_max" name (fixed3 (u.foldl max 0)),
    bucketsHead] ++
    (TimingBuckets.all.map fun b => countLine name b (atMost u b.bound)) ++ [bytes "\n"]

/-- The record and the samples agree. -/
structure Agrees (u : List ℚ) (r : PerfRecord ℚ) : Prop where
  calls : r.mCalls.toInt = u.length
  sum : r.mSum = u.sum
  average : r.mAverage * r.mCalls.toInt = r.mSum
  max : r.mMax = u.foldl max 0

/-! ## The run of a record -/

/-- A counter of samples is printed as it is, while there are fewer than 2^31. -/
theorem toInt_counter {k : ℕ} (h : k < 2 ^ 31) : (BitVec.ofNat 32 k).toInt = k := by
  rw [BitVec.toInt_ofNat']
  exact Int.bmod_eq_of_le_mul_two (by omega) (by omega)

/-- The record counts the samples, as far as its counters go. -/
structure Counts (u : List ℚ) (r : PerfRecord ℚ) : Prop where
  calls : r.mCalls = BitVec.ofNat 32 u.length
  histogram : ∀ b, r.mHistogram b = BitVec.ofNat 32 (u.countP fun ms => decide (bucketOf ms = b))
  sum : r.mSum = u.sum
  average : r.mAverage = r.mSum / r.mCalls.toInt
  max : r.mMax = u.foldl max 0

theorem Counts.start (name : PerfName) : Counts [] (newPerfRecord name) where
  calls := rfl
  histogram _ := rfl
  sum := rfl
  average := (zero_div _).symm
  max := rfl

theorem Counts.reset (r : PerfRecord ℚ) : Counts [] r.reset where
  calls := rfl
  histogram _ := rfl
  sum := rfl
  average := (zero_div _).symm
  max := rfl

theorem Counts.update {u : List ℚ} {r : PerfRecord ℚ} (h : Counts u r) (ms : ℚ) :
    Counts (u ++ [ms]) (r.update ms) where
  calls := by
    change r.mCalls + 1 = _
    rw [h.calls, List.length_append, List.length_singleton, BitVec.ofNat_add]
    rfl
  histogram b := by
    change Function.update r.mHistogram (bucketOf ms) (r.mHistogram (bucketOf ms) + 1) b = _
    rw [List.countP_append, List.countP_singleton]
    by_cases hb : b = bucketOf ms
    · subst hb
      rw [Function.update_self, h.histogram, if_pos (decide_eq_true rfl), BitVec.ofNat_add]
      rfl
    · rw [Function.update_of_ne hb, h.histogram, if_neg (by simpa using Ne.symm hb), Nat.add_zero]
  sum := by
    change r.mSum + ms = _
    rw [h.sum, List.sum_append, List.sum_singleton]
  average := rfl
  max := by
    change (if r.mMax < ms then ms else r.mMax) = _
    rw [List.foldl_append, List.foldl_cons, List.foldl_nil, ← h.max, max_def_lt]

theorem Counts.run {u : List ℚ} {r : PerfRecord ℚ} (h : Counts u r) (ops : List PerfOp) :
    Counts (ops.foldl sinceResetStep u) (ops.foldl PerfRecord.apply r) := by
  induction ops generalizing u r with
  | nil => exact h
  | cons op ops ih =>
      cases op with
      | update ms => exact ih (h.update ms)
      | reset => exact ih (Counts.reset r)

theorem Counts.agrees {u : List ℚ} {r : PerfRecord ℚ} (h : Counts u r) (hu : u.length < 2 ^ 31) :
    Agrees u r where
  calls := by rw [h.calls, toInt_counter hu]
  sum := h.sum
  average := by
    rw [h.average]
    rcases u with _ | ⟨ms, u⟩
    · rw [h.sum, h.calls]
      simp
    · refine div_mul_cancel₀ _ ?_
      rw [h.calls, toInt_counter hu, List.length_cons]
      push_cast
      positivity
  max := h.max

/-- There are no more samples than updates. -/
theorem length_sinceReset_le (u : List ℚ) (ops : List PerfOp) :
    (ops.foldl sinceResetStep u).length ≤ u.length + ops.countP PerfOp.isUpdate := by
  induction ops generalizing u with
  | nil => exact Nat.le_refl _
  | cons op ops ih =>
      have hrest := ih (sinceResetStep u op)
      rw [List.foldl_cons, List.countP_cons]
      cases op with
      | update ms =>
          simp only [sinceResetStep, PerfOp.isUpdate, List.length_append,
            List.length_singleton] at hrest ⊢
          simp only [if_true]
          omega
      | reset =>
          simp only [sinceResetStep, PerfOp.isUpdate, List.length_nil] at hrest ⊢
          simp only [Bool.false_eq_true, if_false]
          omega

/-! ## Buckets and bounds -/

/-- The value of the enumerator. -/
def TimingBuckets.index : TimingBuckets → ℕ
  | perfSub1ms => 0
  | perf1to2ms => 1
  | perf2to5ms => 2
  | perf5to10ms => 3
  | perf10to50ms => 4
  | perfOver50ms => 5

theorem TimingBuckets.index_injective : Function.Injective TimingBuckets.index := by
  intro a b h
  cases a <;> cases b <;> first | rfl | exact absurd h (by decide)

/-- **The chain of `if`s and the bounds agree.** A bound takes in its bucket and all before. -/
theorem withinBound_iff (b : TimingBuckets) (ms : ℚ) :
    WithinBound b.bound ms ↔ (bucketOf ms).index < b.index + 1 := by
  have hvalues : Decimal.value (bytes "1") = 1 ∧ Decimal.value (bytes "2") = 2 ∧
      Decimal.value (bytes "5") = 5 ∧ Decimal.value (bytes "10") = 10 ∧
      Decimal.value (bytes "50") = 50 := by decide
  unfold bucketOf
  split_ifs with h1 h2 h5 h10 h50 <;> cases b <;>
    simp [WithinBound, TimingBuckets.bound, TimingBuckets.index, hvalues] <;> linarith

/-- One bucket more. -/
theorem countP_index_succ (u : List ℚ) (b : TimingBuckets) :
    (u.countP fun ms => decide ((bucketOf ms).index < b.index + 1)) =
      (u.countP fun ms => decide ((bucketOf ms).index < b.index)) +
        u.countP fun ms => decide (bucketOf ms = b) := by
  induction u with
  | nil => rfl
  | cons ms u ih =>
      have hmem : (bucketOf ms).index < b.index + 1 ↔
          (bucketOf ms).index < b.index ∨ bucketOf ms = b := by
        rw [Nat.lt_succ_iff_lt_or_eq, TimingBuckets.index_injective.eq_iff]
      simp only [List.countP_cons, ih, decide_eq_true_eq, hmem]
      by_cases hb : bucketOf ms = b
      · rw [if_pos (.inr hb), if_pos hb, if_neg (by rw [hb]; exact Nat.lt_irrefl _)]
        omega
      · simp only [hb, or_false, if_false]
        omega

/-- The running sum at a bucket is the number of samples up to its bound. -/
theorem bucketPieces_eq {u : List ℚ} {r : PerfRecord ℚ} (h : Counts u r) (hu : u.length < 2 ^ 31)
    {k : ℕ} (bs : List TimingBuckets) (hbs : bs.map TimingBuckets.index = List.range' k bs.length) :
    bucketPieces r (BitVec.ofNat 32 (u.countP fun ms => decide ((bucketOf ms).index < k))) bs =
      bs.map fun b => countLine r.mName b (atMost u b.bound) := by
  induction bs generalizing k with
  | nil => rfl
  | cons b bs ih =>
      rw [List.map_cons, List.length_cons, List.range'_succ, List.cons.injEq] at hbs
      obtain ⟨rfl, hbs⟩ := hbs
      have hcount : atMost u b.bound =
          u.countP fun ms => decide ((bucketOf ms).index < b.index + 1) := by
        simp only [atMost, withinBound_iff]
      have hsum : BitVec.ofNat 32 (u.countP fun ms => decide ((bucketOf ms).index < b.index)) +
          r.mHistogram b =
            BitVec.ofNat 32 (u.countP fun ms => decide ((bucketOf ms).index < b.index + 1)) := by
        rw [h.histogram, ← BitVec.ofNat_add, ← countP_index_succ]
      rw [bucketPieces, hsum, ih hbs, List.map_cons, bucketLine, toInt_counter, hcount]
      exact Nat.lt_of_le_of_lt List.countP_le_length hu

/-- **The metrics of a record are those of its samples.** -/
theorem metricsPieces_eq (fixed3 : ℚ → Bytes) {u : List ℚ} {r : PerfRecord ℚ} (h : Counts u r)
    (hu : u.length < 2 ^ 31) : metricsPieces fixed3 r = samplePieces fixed3 r.mName u := by
  have hbuckets := bucketPieces_eq h hu (k := 0) TimingBuckets.all (by decide)
  have hzero : (u.countP fun ms => decide ((bucketOf ms).index < 0)) = 0 := by simp
  rw [hzero] at hbuckets
  rw [metricsPieces, samplePieces, callsPiece, sumPiece, maxPiece, h.calls, toInt_counter hu, h.sum,
    h.max]
  congr 2

/-! ## Over every run -/

/-- What has been printed. -/
def Rendering.printed (s : Rendering) : List Bytes := s.calls.reverse.map PrintCall.out

/-- Only pieces are printed, and in their order. -/
theorem printed_printWhile (s : Rendering) (outs : List Bytes) :
    (s.printWhile outs).printed <+: s.printed ++ outs := by
  induction outs generalizing s with
  | nil => exact (List.append_nil _).symm ▸ List.prefix_rfl
  | cons out outs ih =>
      rw [Rendering.printWhile_cons]
      by_cases hn : 8192 ≤ s.n
      · rw [if_pos hn, Rendering.printWhile_of_le hn]
        exact List.prefix_append ..
      · rw [if_neg hn]
        have hprint : (s.print out).printed = s.printed ++ [out] := by
          simp [Rendering.printed, Rendering.print]
        have hrest := ih (s.print out)
        rw [hprint, List.append_assoc, List.singleton_append] at hrest
        exact hrest

/-- A higher bound takes in more. -/
theorem pairwise_atMost (u : List ℚ) :
    (TimingBuckets.all.map fun b => atMost u b.bound).Pairwise (· ≤ ·) := by
  have hle : ∀ {a b : TimingBuckets}, a.index ≤ b.index → atMost u a.bound ≤ atMost u b.bound := by
    intro a b hab
    refine List.countP_mono_left fun ms _ hms => ?_
    rw [decide_eq_true_eq, withinBound_iff] at hms ⊢
    omega
  rw [List.pairwise_map]
  exact List.Pairwise.imp hle (by decide : TimingBuckets.all.Pairwise fun a b => a.index ≤ b.index)

/-- What the record says, what is printed of it among other records, and what the printed counts
are. -/
structure HistogramAgrees (fixed3 : ℚ → Bytes) (before : List (PerfRecord ℚ)) (r : PerfRecord ℚ)
    (after : List (PerfRecord ℚ)) (buffer : Buffer) (u : List ℚ) : Prop where
  fields : Agrees u r
  printed : (generatePrometheusMetricsText fixed3 (before ++ r :: after) buffer).printed <+:
    before.flatMap (metricsPieces fixed3) ++
      (samplePieces fixed3 r.mName u ++ after.flatMap (metricsPieces fixed3))
  monotone : (TimingBuckets.all.map fun b => atMost u b.bound).Pairwise (· ≤ ·)
  total : atMost u TimingBuckets.perfOver50ms.bound = u.length

/-- **The histogram agrees with the samples**, after every run of updates and resets. -/
theorem histogram_agrees (fixed3 : ℚ → Bytes) (name : PerfName) (ops : List PerfOp)
    (hops : ops.countP PerfOp.isUpdate < 2 ^ 31) (before after : List (PerfRecord ℚ))
    (buffer : Buffer) :
    HistogramAgrees fixed3 before (ops.foldl PerfRecord.apply (newPerfRecord name)) after buffer
      (sinceReset ops) := by
  have hcounts := (Counts.start name).run ops
  have hu := length_sinceReset_le [] ops
  rw [List.length_nil, Nat.zero_add] at hu
  have hlt : (sinceReset ops).length < 2 ^ 31 := Nat.lt_of_le_of_lt hu hops
  refine ⟨hcounts.agrees hlt, ?_, pairwise_atMost _, ?_⟩
  · have hprinted := printed_printWhile { buffer } ((before ++
      ops.foldl PerfRecord.apply (newPerfRecord name) :: after).flatMap (metricsPieces fixed3))
    rw [← printRecords_eq, List.flatMap_append, List.flatMap_cons, metricsPieces_eq _ hcounts hlt]
      at hprinted
    exact hprinted
  · exact List.countP_eq_length.2 fun ms _ => decide_eq_true (.inl rfl)

/-- Two samples behind a reset. -/
theorem histogram_agrees_reset :
    HistogramAgrees printFixed3 []
      ([.update 3, .reset, .update 1, .update 60].foldl PerfRecord.apply (newPerfRecord loginName))
      [] zeroedBuffer [1, 60] :=
  histogram_agrees printFixed3 loginName [.update 3, .reset, .update 1, .update 60]
    (by decide) [] [] zeroedBuffer

end ServerBase
