import MarketDataHandler.Client.ConcurrentStats
import MarketDataHandler.Lib.OrderStatistics

/-!
# Percentiles and order statistics

What the percentiles of `LatencyTracker::get_stats` say about the recorded
samples.  The loop stops at the bucket of the sample whose rank is the target;
`bucket_upper_ns` then names the smallest value of that bucket, except in the
last one.
-/

namespace MarketDataHandler

open LatencyTracker (PercentileScan bucketFor bucketUpperNs)
open OrderStatistics

/-! ## Recorded samples in the buckets -/

namespace LatencyTracker

/-- A new tracker after a call of `record` for each sample. -/
def recordAll (samples : List UInt64) : LatencyTracker :=
  samples.foldl record initial

theorem recordAll_eq_tally (samples : List UInt64) :
    recordAll samples = tally (updatesOfAll ↑samples) :=
  (tally_updatesOfAll samples).symm

theorem recordAll_buckets
    (samples : List UInt64) (bucket : Fin numBuckets) :
    (recordAll samples).buckets bucket =
      UInt64.ofNat
        (samples.countP fun sample => bucketFor sample = bucket) := by
  rw [recordAll_eq_tally, tally_buckets, samplesOf_updatesOfAll,
    Multiset.coe_countP]

theorem recordAll_count (samples : List UInt64) :
    (recordAll samples).count = UInt64.ofNat samples.length := by
  rw [recordAll_eq_tally, tally_count, samplesOf_updatesOfAll,
    Multiset.coe_card]

/-- The number of samples is also zero when it has wrapped. -/
theorem recordAll_count_eq_zero_iff (samples : List UInt64) :
    (recordAll samples).count = 0 ↔ samples.length % 2 ^ 64 = 0 := by
  rw [← UInt64.toNat_inj, recordAll_count, UInt64.toNat_ofNat']
  rfl

theorem bucketFor_val (sample : UInt64) :
    (bucketFor sample).val = Nat.log2 sample.toNat := by
  have inside : Nat.log2 sample.toNat < numBuckets := by
    by_cases zero : sample.toNat = 0
    · rw [zero]
      decide
    · exact (Nat.log2_lt zero).mpr sample.toNat_lt
  rw [bucketFor]
  split
  · rename_i zero
    subst sample
    rfl
  · rfl

/-- Different buckets hold different samples. -/
theorem bucketTotal_recordAll
    {samples : List UInt64} (few : samples.length < 2 ^ 64)
    {buckets : List (Fin numBuckets)} (distinct : buckets.Nodup) :
    (recordAll samples).bucketTotal buckets =
      samples.countP fun sample => bucketFor sample ∈ buckets := by
  induction buckets with
  | nil =>
      simp [bucketTotal]
  | cons bucket buckets inductionHypothesis =>
      obtain ⟨fresh, rest⟩ := List.nodup_cons.mp distinct
      have total :
          (recordAll samples).bucketTotal (bucket :: buckets) =
            ((recordAll samples).buckets bucket).toNat +
              (recordAll samples).bucketTotal buckets :=
        rfl
      have here :
          ((recordAll samples).buckets bucket).toNat =
            samples.countP fun sample => bucketFor sample = bucket := by
        rw [recordAll_buckets, UInt64.toNat_ofNat']
        apply Nat.mod_eq_of_lt
        exact Nat.lt_of_le_of_lt List.countP_le_length few
      rw [total, here, inductionHypothesis rest]
      clear total here inductionHypothesis few
      induction samples with
      | nil =>
          rfl
      | cons sample samples counted =>
          simp only [List.countP_cons, List.mem_cons,
            decide_eq_true_eq] at counted ⊢
          by_cases same : bucketFor sample = bucket
          · have absent : bucketFor sample ∉ buckets := same ▸ fresh
            rw [if_pos same, if_neg absent, if_pos (Or.inl same)]
            omega
          · simp only [same, false_or, if_false]
            omega

end LatencyTracker

/-! ## The four percentiles -/

/-- The percentiles that `get_stats` reports. -/
inductive Percentile where
  | p50
  | p95
  | p99
  | p999
  deriving DecidableEq, Repr

namespace Percentile

/-- The share of the samples is a fraction. -/
def numerator : Percentile → Nat
  | .p50 => 1
  | .p95 => 95
  | .p99 => 99
  | .p999 => 999

def denominator : Percentile → Nat
  | .p50 => 2
  | .p95 => 100
  | .p99 => 100
  | .p999 => 1000

/-- The rank that the loop looks for. -/
def target (percentile : Percentile) (samples : Nat) : Nat :=
  samples * percentile.numerator / percentile.denominator

/-- The least number of samples that make up the share. -/
def quota (percentile : Percentile) (samples : Nat) : Nat :=
  (samples * percentile.numerator + (percentile.denominator - 1)) /
    percentile.denominator

/-- The field of the result. -/
def value (st : LatencyStats) : Percentile → UInt64
  | .p50 => st.p50Ns
  | .p95 => st.p95Ns
  | .p99 => st.p99Ns
  | .p999 => st.p999Ns

/-- The field of the loop. -/
def done (scan : PercentileScan) : Percentile → Option UInt64
  | .p50 => scan.p50
  | .p95 => scan.p95
  | .p99 => scan.p99
  | .p999 => scan.p999

/-- The target as the loop computes it. -/
def wordTarget (samples : UInt64) : Percentile → UInt64
  | .p50 => samples / 2
  | .p95 => samples * 95 / 100
  | .p99 => samples * 99 / 100
  | .p999 => samples * 999 / 1000

theorem wordTarget_toNat
    {samples : UInt64} (few : 999 * samples.toNat < 2 ^ 64)
    (percentile : Percentile) :
    (percentile.wordTarget samples).toNat =
      percentile.target samples.toNat := by
  cases percentile with
  | p50 =>
      simp [wordTarget, target, numerator, denominator]
  | _ =>
      simp only [wordTarget, target, numerator, denominator,
        UInt64.toNat_div, UInt64.toNat_mul, UInt64.reduceToNat]
      rw [Nat.mod_eq_of_lt (by omega)]

/-- No target is above the last one. -/
theorem wordTarget_le_p999
    {samples : UInt64} (few : 999 * samples.toNat < 2 ^ 64)
    (percentile : Percentile) :
    percentile.wordTarget samples ≤ p999.wordTarget samples := by
  obtain ⟨first, second, third, _⟩ := targets_ordered few
  cases percentile with
  | p50 =>
      exact UInt64.le_trans first (UInt64.le_trans second third)
  | p95 =>
      exact UInt64.le_trans second third
  | p99 =>
      exact third
  | p999 =>
      exact UInt64.le_refl _

/-- A pass of the loop treats all percentiles alike. -/
theorem done_scanBucket
    (tracker : LatencyTracker) (samples : UInt64)
    {scan : PercentileScan} (running : scan.p999 = none)
    (bucket : Fin numBuckets) (percentile : Percentile) :
    percentile.done (tracker.scanBucket samples scan bucket) =
      LatencyTracker.settle (percentile.done scan)
        (scan.cumul + tracker.buckets bucket)
        (percentile.wordTarget samples) (bucketUpperNs bucket) := by
  rw [LatencyTracker.scanBucket, if_neg (by simp [running])]
  cases percentile <;> rfl

end Percentile

/-! ## The bucket where the loop stops -/

/-- The samples in the buckets up to one of them. -/
def LatencyTracker.cumulative (tracker : LatencyTracker)
    (bucket : Fin numBuckets) : Nat :=
  tracker.bucketTotal
    ((List.finRange numBuckets).filter fun earlier => earlier ≤ bucket)

theorem LatencyTracker.cumulative_of_split
    (tracker : LatencyTracker) {passed rest : List (Fin numBuckets)}
    {bucket : Fin numBuckets}
    (split : passed ++ bucket :: rest = List.finRange numBuckets) :
    tracker.cumulative bucket =
      tracker.bucketTotal passed + (tracker.buckets bucket).toNat := by
  have sorted := List.pairwise_lt_finRange numBuckets
  rw [← split] at sorted
  obtain ⟨_, back, across⟩ := List.pairwise_append.mp sorted
  have front :
      (passed.filter fun earlier => earlier ≤ bucket) = passed := by
    rw [List.filter_eq_self]
    intro earlier member
    have below := across earlier member bucket List.mem_cons_self
    simpa using Fin.le_of_lt below
  have behind :
      (rest.filter fun later => later ≤ bucket) = [] := by
    rw [List.filter_eq_nil_iff]
    intro later member
    have above := List.rel_of_pairwise_cons back member
    simpa using above
  rw [cumulative, ← split, List.filter_append, front,
    List.filter_cons_of_pos (by simp), behind, bucketTotal_append]
  rfl

/-- The running total of the loop does not wrap. -/
theorem LatencyTracker.cumul_of_split
    (tracker : LatencyTracker)
    (small : tracker.bucketTotal (List.finRange numBuckets) < 2 ^ 64)
    {passed rest : List (Fin numBuckets)} {bucket : Fin numBuckets}
    (split : passed ++ bucket :: rest = List.finRange numBuckets)
    {cumul : UInt64}
    (counted : cumul.toNat = tracker.bucketTotal passed) :
    (cumul + tracker.buckets bucket).toNat =
      tracker.cumulative bucket := by
  have all := tracker.bucketTotal_append passed (bucket :: rest)
  have front :
      tracker.bucketTotal (bucket :: rest) =
        (tracker.buckets bucket).toNat + tracker.bucketTotal rest :=
    rfl
  rw [split] at all
  rw [UInt64.toNat_add, tracker.cumulative_of_split split, counted]
  apply Nat.mod_eq_of_lt
  omega

theorem settle_eq_or (done : Option UInt64) (cumul target upper : UInt64) :
    LatencyTracker.settle done cumul target upper =
      done.or (if target ≤ cumul then some upper else none) := by
  cases done <;> simp [LatencyTracker.settle]

/-- The loop sets each percentile at the first bucket where its target is
reached. -/
theorem Percentile.done_foldl
    (tracker : LatencyTracker)
    (small : tracker.bucketTotal (List.finRange numBuckets) < 2 ^ 64)
    {samples : UInt64} (few : 999 * samples.toNat < 2 ^ 64)
    (percentile : Percentile) {passed rest : List (Fin numBuckets)}
    (split : passed ++ rest = List.finRange numBuckets)
    {scan : PercentileScan} (running : scan.p999 = none)
    (counted : scan.cumul.toNat = tracker.bucketTotal passed) :
    percentile.done (rest.foldl (tracker.scanBucket samples) scan) =
      (percentile.done scan).or
        ((rest.find? fun bucket =>
          percentile.target samples.toNat ≤
            tracker.cumulative bucket).map bucketUpperNs) := by
  induction rest generalizing passed scan with
  | nil =>
      simp
  | cons bucket rest inductionHypothesis =>
      have reading := tracker.cumulative_of_split split
      have cumul := tracker.cumul_of_split small split counted
      have reached (other : Percentile) :
          other.wordTarget samples ≤ scan.cumul + tracker.buckets bucket ↔
            other.target samples.toNat ≤ tracker.cumulative bucket := by
        rw [UInt64.le_iff_toNat_le, cumul, wordTarget_toNat few]
      have next (other : Percentile) :=
        other.done_scanBucket tracker samples running bucket
      simp only [settle_eq_or] at next
      rw [List.foldl_cons]
      cases finished : (tracker.scanBucket samples scan bucket).p999 with
      | none =>
          have total :
              (tracker.scanBucket samples scan bucket).cumul =
                scan.cumul + tracker.buckets bucket := by
            rw [LatencyTracker.scanBucket, if_neg (by simp [running])]
          have moved :
              passed ++ [bucket] ++ rest = List.finRange numBuckets := by
            rw [List.append_assoc]
            exact split
          have read :
              (tracker.scanBucket samples scan bucket).cumul.toNat =
                tracker.bucketTotal (passed ++ [bucket]) := by
            rw [total, cumul, reading, tracker.bucketTotal_append]
            rfl
          rw [inductionHypothesis moved finished read, next percentile,
            Option.or_assoc]
          congr 1
          by_cases here :
              percentile.target samples.toNat ≤ tracker.cumulative bucket
          · simp [reached, here]
          · simp [reached, here]
      | some last =>
          -- The last percentile is done, so all targets are reached.
          have lastReached :
              p999.wordTarget samples ≤
                scan.cumul + tracker.buckets bucket := by
            have now := next p999
            rw [show p999.done (tracker.scanBucket samples scan bucket) =
              some last from finished,
              show p999.done scan = none from running,
              Option.none_or] at now
            by_contra missed
            rw [if_neg missed] at now
            cases now
          have here :=
            UInt64.le_trans (percentile.wordTarget_le_p999 few)
              lastReached
          rw [StatsPc.scanBucket_done tracker samples (by simp [finished]),
            next percentile, if_pos here,
            List.find?_cons_of_pos (by simpa using (reached _).mp here)]
          rfl

theorem LatencyTracker.cumulative_recordAll
    {samples : List UInt64} (few : samples.length < 2 ^ 64)
    (bucket : Fin numBuckets) :
    (recordAll samples).cumulative bucket =
      samples.countP fun sample => bucketFor sample ≤ bucket := by
  rw [cumulative, bucketTotal_recordAll few
    ((List.nodup_finRange numBuckets).filter _)]
  simp

theorem Percentile.value_getStats
    {tracker : LatencyTracker} (some_ : tracker.count ≠ 0)
    (percentile : Percentile) :
    percentile.value tracker.getStats =
      (percentile.done
        ((List.finRange numBuckets).foldl
          (tracker.scanBucket tracker.count)
          PercentileScan.start)).getD 0 := by
  rw [LatencyTracker.getStats, if_neg some_, PercentileScan.start]
  generalize
    (List.finRange numBuckets).foldl (tracker.scanBucket tracker.count) _ =
      scan
  cases percentile <;> rfl

/-- A percentile names the first bucket that holds the target together with
the buckets before it. -/
theorem Percentile.value_recordAll
    {samples : List UInt64} (nonempty : samples ≠ [])
    (few : 999 * samples.length < 2 ^ 64) (percentile : Percentile)
    {bucket : Fin numBuckets}
    (first :
      ∀ other,
        percentile.target samples.length ≤
            samples.countP (fun sample => bucketFor sample ≤ other) ↔
          bucket ≤ other) :
    percentile.value (LatencyTracker.recordAll samples).getStats =
      bucketUpperNs bucket := by
  have short : samples.length < 2 ^ 64 := by
    omega
  have count :
      (LatencyTracker.recordAll samples).count.toNat =
        samples.length := by
    rw [LatencyTracker.recordAll_count, UInt64.toNat_ofNat',
      Nat.mod_eq_of_lt short]
  have some_ : (LatencyTracker.recordAll samples).count ≠ 0 := by
    rw [Ne, LatencyTracker.recordAll_count_eq_zero_iff,
      Nat.mod_eq_of_lt short, List.length_eq_zero_iff]
    exact nonempty
  have small :
      (LatencyTracker.recordAll samples).bucketTotal
        (List.finRange numBuckets) < 2 ^ 64 := by
    rw [LatencyTracker.bucketTotal_recordAll short
      (List.nodup_finRange numBuckets)]
    exact Nat.lt_of_le_of_lt List.countP_le_length short
  have fewCounted :
      999 * (LatencyTracker.recordAll samples).count.toNat < 2 ^ 64 := by
    rw [count]
    exact few
  have found :
      ((List.finRange numBuckets).find? fun other =>
        percentile.target (LatencyTracker.recordAll samples).count.toNat ≤
          (LatencyTracker.recordAll samples).cumulative other) =
        some bucket := by
    simp only [count, LatencyTracker.cumulative_recordAll short, first]
    exact find?_le_of_sorted (List.pairwise_lt_finRange numBuckets)
      (List.mem_finRange bucket)
  have begun : percentile.done PercentileScan.start = none := by
    cases percentile <;> rfl
  rw [percentile.value_getStats some_,
    percentile.done_foldl _ small fewCounted (List.nil_append _) rfl rfl,
    found, begun]
  rfl

/-! ## Order statistics of the samples -/

/-- The recorded sample of a rank, counted from one, as a number. -/
def rankedSample (samples : List UInt64) (rank : Nat) : Option Nat :=
  kthSmallest (samples.map UInt64.toNat) rank

theorem log2_mono {lower higher : Nat} (ordered : lower ≤ higher) :
    Nat.log2 lower ≤ Nat.log2 higher := by
  by_cases zero : lower = 0
  · rw [zero, Nat.log2_zero]
    exact Nat.zero_le _
  · have positive : higher ≠ 0 := by
      omega
    exact (Nat.le_log2 positive).mpr
      (Nat.le_trans (Nat.log2_self_le zero) ordered)

theorem log2_lt_63_iff {latency : Nat} :
    Nat.log2 latency < 63 ↔ latency < 2 ^ 63 := by
  by_cases zero : latency = 0
  · subst latency
    decide
  · exact Nat.log2_lt zero

/-- The loop stops in the bucket of the sample whose rank is the target. -/
theorem Percentile.value_of_rank
    {samples : List UInt64} (few : 999 * samples.length < 2 ^ 64)
    (percentile : Percentile) {latency : Nat}
    (found :
      rankedSample samples (percentile.target samples.length) =
        some latency) :
    (percentile.value
        (LatencyTracker.recordAll samples).getStats).toNat =
      if latency < 2 ^ 63 then 2 ^ Nat.log2 latency else 2 ^ 64 - 1 := by
  obtain ⟨sample, member, same⟩ :=
    List.mem_map.mp (mem_of_kthSmallest found)
  have first (other : Fin numBuckets) :
      percentile.target samples.length ≤
          samples.countP (fun sample => bucketFor sample ≤ other) ↔
        bucketFor sample ≤ other := by
    have downward :
        Downward fun number : Nat =>
          decide (Nat.log2 number ≤ other.val) := by
      intro smaller larger ordered below
      simp only [decide_eq_true_eq] at below ⊢
      exact Nat.le_trans (log2_mono ordered) below
    have counted := kthSmallest_iff downward found
    rw [decide_eq_true_eq, List.countP_map, ← same,
      ← LatencyTracker.bucketFor_val] at counted
    rw [Fin.le_def, counted]
    simp only [Function.comp_def, ← LatencyTracker.bucketFor_val,
      Fin.le_def]
  rw [percentile.value_recordAll (List.ne_nil_of_mem member) few first,
    bucketUpperNs_toNat, LatencyTracker.bucketFor_val, same]
  simp only [log2_lt_63_iff]

/-- A target of zero is reached in the first bucket. -/
theorem Percentile.value_of_zero
    {samples : List UInt64} (nonempty : samples ≠ [])
    (few : 999 * samples.length < 2 ^ 64) (percentile : Percentile)
    (zero : percentile.target samples.length = 0) :
    percentile.value (LatencyTracker.recordAll samples).getStats = 1 := by
  have first (other : Fin numBuckets) :
      percentile.target samples.length ≤
          samples.countP (fun sample => bucketFor sample ≤ other) ↔
        (⟨0, by decide⟩ : Fin numBuckets) ≤ other := by
    rw [zero, Fin.le_def]
    exact ⟨fun _ => Nat.zero_le _, fun _ => Nat.zero_le _⟩
  exact percentile.value_recordAll nonempty few first

theorem Percentile.target_le (percentile : Percentile) (samples : Nat) :
    percentile.target samples ≤ samples := by
  rw [target]
  cases percentile <;> simp only [numerator, denominator] <;> omega

/-- A percentile differs from the sample of its rank by less than a factor of
two below, and by no more than that above. -/
theorem percentile_within_factor_two
    (samples : List UInt64) (few : 999 * samples.length < 2 ^ 64)
    (percentile : Percentile)
    (positive : 1 ≤ percentile.target samples.length) :
    ∃ latency,
      rankedSample samples (percentile.target samples.length) =
          some latency ∧
        max latency 1 <
          2 * (percentile.value
            (LatencyTracker.recordAll samples).getStats).toNat ∧
        (percentile.value
            (LatencyTracker.recordAll samples).getStats).toNat ≤
          2 * max latency 1 := by
  have inside :
      percentile.target samples.length ≤
        (samples.map UInt64.toNat).length := by
    rw [List.length_map]
    exact percentile.target_le samples.length
  obtain ⟨latency, found⟩ := exists_kthSmallest positive inside
  obtain ⟨sample, _, same⟩ := List.mem_map.mp (mem_of_kthSmallest found)
  have bounded : latency < 2 ^ 64 := same ▸ sample.toNat_lt
  refine ⟨latency, found, ?_⟩
  rw [percentile.value_of_rank few found]
  split
  · by_cases zero : latency = 0
    · rw [zero]
      decide
    · have lower : 2 ^ Nat.log2 latency ≤ latency :=
        Nat.log2_self_le zero
      have upper : latency < 2 ^ (Nat.log2 latency + 1) :=
        Nat.lt_log2_self
      rw [Nat.pow_succ] at upper
      omega
  · omega

/-- The rank 1 of three samples, between its bucket's bounds. -/
theorem percentile_within_factor_two_three :
    ∃ latency,
      rankedSample [1000, 5, 3000] (Percentile.p50.target 3) =
          some latency ∧
        max latency 1 <
          2 * (Percentile.p50.value
            (LatencyTracker.recordAll [1000, 5, 3000]).getStats).toNat ∧
        (Percentile.p50.value
            (LatencyTracker.recordAll [1000, 5, 3000]).getStats).toNat ≤
          2 * max latency 1 :=
  percentile_within_factor_two [1000, 5, 3000] (by decide) .p50 (by decide)

/-! ## Upper bounds -/

/-- At least the share of the samples is at most the reported value. -/
def Percentile.Covers (percentile : Percentile) (samples : List UInt64) :
    Prop :=
  percentile.numerator * samples.length ≤
    percentile.denominator *
      samples.countP fun sample =>
        sample ≤
          percentile.value (LatencyTracker.recordAll samples).getStats

/-- The sample that completes the share is at most one, or the sample of the
target is in the last bucket, or both are the same power of two. -/
def Percentile.Representable (percentile : Percentile)
    (samples : List UInt64) : Prop :=
  ∃ high,
    rankedSample samples (percentile.quota samples.length) = some high ∧
      (high ≤ 1 ∨
        ∃ low,
          rankedSample samples (percentile.target samples.length) =
              some low ∧
            (2 ^ 63 ≤ low ∨ (low = high ∧ ∃ power, high = 2 ^ power)))

theorem Percentile.quota_le_iff
    (percentile : Percentile) (samples count : Nat) :
    percentile.quota samples ≤ count ↔
      percentile.numerator * samples ≤ percentile.denominator * count := by
  rw [quota]
  cases percentile <;> simp only [numerator, denominator] <;> omega

theorem Percentile.target_le_quota
    (percentile : Percentile) (samples : Nat) :
    percentile.target samples ≤ percentile.quota samples := by
  rw [target, quota]
  exact Nat.div_le_div_right (Nat.le_add_right _ _)

theorem Percentile.quota_bounds
    (percentile : Percentile) {samples : Nat} (some_ : 0 < samples) :
    1 ≤ percentile.quota samples ∧ percentile.quota samples ≤ samples := by
  rw [quota]
  cases percentile <;> simp only [numerator, denominator] <;> omega

/-- The value is an upper bound exactly if it is not below the sample that
completes the share. -/
theorem Percentile.covers_iff_le
    {samples : List UInt64} (percentile : Percentile) {high : Nat}
    (found :
      rankedSample samples (percentile.quota samples.length) =
        some high) :
    percentile.Covers samples ↔
      high ≤
        (percentile.value
          (LatencyTracker.recordAll samples).getStats).toNat := by
  have counted :=
    kthSmallest_iff
      (downward_le
        (percentile.value
          (LatencyTracker.recordAll samples).getStats).toNat) found
  rw [decide_eq_true_eq, List.countP_map] at counted
  rw [counted, quota_le_iff, Covers]
  simp only [Function.comp_def, UInt64.le_iff_toNat_le]

/-- Which samples the value of a bucket bounds from above. -/
theorem le_bucketValue_iff
    {low high : Nat} (ordered : low ≤ high) (bounded : high < 2 ^ 64) :
    high ≤ (if low < 2 ^ 63 then 2 ^ Nat.log2 low else 2 ^ 64 - 1) ↔
      high ≤ 1 ∨ 2 ^ 63 ≤ low ∨
        (low = high ∧ ∃ power, high = 2 ^ power) := by
  split
  · rename_i small
    by_cases zero : low = 0
    · subst low
      rw [Nat.log2_zero]
      constructor
      · exact Or.inl
      · intro condition
        rcases condition with trivial_ | large | ⟨same, power, isPower⟩
        · exact trivial_
        · omega
        · omega
    · have lower : 2 ^ Nat.log2 low ≤ low := Nat.log2_self_le zero
      constructor
      · intro covered
        exact Or.inr (Or.inr ⟨by omega, Nat.log2 low, by omega⟩)
      · intro condition
        rcases condition with trivial_ | large | ⟨same, power, isPower⟩
        · have one : low = 1 := by
            omega
          rw [one]
          exact trivial_
        · omega
        · rw [same, isPower, Nat.log2_two_pow]
  · constructor
    · intro _
      exact Or.inr (Or.inl (by omega))
    · intro _
      omega

theorem Percentile.covers_iff
    {samples : List UInt64} (nonempty : samples ≠ [])
    (few : 999 * samples.length < 2 ^ 64) (percentile : Percentile) :
    percentile.Covers samples ↔ percentile.Representable samples := by
  obtain ⟨positive, inside⟩ :=
    percentile.quota_bounds (List.length_pos_of_ne_nil nonempty)
  obtain ⟨high, highFound⟩ :=
    exists_kthSmallest positive
      (show _ ≤ (samples.map UInt64.toNat).length by simpa using inside)
  obtain ⟨sample, _, same⟩ := List.mem_map.mp (mem_of_kthSmallest highFound)
  have bounded : high < 2 ^ 64 := same ▸ sample.toNat_lt
  have completes (condition : Nat → Prop) :
      (∃ latency,
        rankedSample samples (percentile.quota samples.length) =
            some latency ∧ condition latency) ↔
        condition high := by
    rw [show rankedSample samples (percentile.quota samples.length) =
      some high from highFound]
    simp
  rw [percentile.covers_iff_le highFound, Representable, completes]
  by_cases zero : percentile.target samples.length = 0
  · rw [percentile.value_of_zero nonempty few zero, zero]
    simp [rankedSample, kthSmallest]
  · obtain ⟨low, lowFound⟩ :=
      exists_kthSmallest (Nat.pos_of_ne_zero zero)
        (show _ ≤ (samples.map UInt64.toNat).length by
          simpa using percentile.target_le samples.length)
    have ordered : low ≤ high :=
      kthSmallest_mono (percentile.target_le_quota samples.length)
        lowFound highFound
    rw [percentile.value_of_rank few lowFound,
      le_bucketValue_iff ordered bounded,
      show rankedSample samples (percentile.target samples.length) =
        some low from lowFound]
    simp

/-- All four percentiles are upper bounds for their shares exactly if every
one of them falls on a value that its bucket represents. -/
theorem percentiles_cover_iff
    (samples : List UInt64) (nonempty : samples ≠ [])
    (few : 999 * samples.length < 2 ^ 64) :
    (∀ percentile : Percentile, percentile.Covers samples) ↔
      ∀ percentile : Percentile, percentile.Representable samples := by
  apply forall_congr'
  intro percentile
  exact percentile.covers_iff nonempty few

/-- Two samples of 1024, which are reported as such. -/
theorem percentiles_cover_iff_powers :
    Percentile.p50.Covers [1024, 1024] ∧
      Percentile.p95.Covers [1024, 1024] ∧
      Percentile.p99.Covers [1024, 1024] ∧
      Percentile.p999.Covers [1024, 1024] := by
  have cover :
      ∀ percentile : Percentile, percentile.Covers [1024, 1024] := by
    apply (percentiles_cover_iff [1024, 1024] (by simp) (by simp)).mpr
    intro percentile
    refine ⟨1024, ?_, Or.inr ⟨1024, ?_, Or.inr ⟨rfl, 10, by decide⟩⟩⟩
    · cases percentile <;> decide
    · cases percentile <;> decide
  exact ⟨cover .p50, cover .p95, cover .p99, cover .p999⟩

/-- All percentiles of a single sample of a microsecond are one. -/
theorem percentiles_understate :
    ¬ ∀ percentile : Percentile, percentile.Covers [1000] := by
  intro covers
  have half := covers .p50
  have reported :
      Percentile.p50.value
        (LatencyTracker.recordAll [1000]).getStats = 1 :=
    Percentile.value_of_zero (by simp) (by simp) .p50 rfl
  rw [Percentile.Covers, reported] at half
  revert half
  decide

end MarketDataHandler
