import MarketDataHandler.Client.ConcurrentRecord
import Mathlib.Algebra.Order.BigOperators.Group.Finset
import Mathlib.Data.List.FinRange

/-!
# Statistics under concurrent recording

`LatencyTracker::get_stats` against any number of recording threads.  The
reader loads the number of samples first and the buckets last; a call of
`record` increments its bucket first and the number of samples last.  So the
buckets that the reader finds hold at least as many samples as it counted, and
its loop reaches every target.
-/

namespace MarketDataHandler

open Interleaving

/-! ## The reader -/

deriving instance DecidableEq for LatencyTracker.PercentileScan

/-- Where a call of `get_stats` is, with its local variables. -/
inductive StatsPc where
  | loadCount
  | loadMin (sampleCount : UInt64)
  | loadMax (sampleCount minNs : UInt64)
  | loadSum (sampleCount minNs maxNs : UInt64)
  /-- In front of the load of the first of the given buckets, or at the end of
  the loop. -/
  | scanning (st : LatencyStats) (scan : LatencyTracker.PercentileScan)
      (buckets : List (Fin numBuckets))
  | returned (st : LatencyStats)
  deriving DecidableEq

namespace LatencyTracker.PercentileScan

/-- The local variables in front of the loop. -/
def start : PercentileScan where
  cumul := 0
  p50 := none
  p95 := none
  p99 := none
  p999 := none

/-- The percentiles are stored in the result; one that is not done keeps its
initial value. -/
def finish (scan : PercentileScan) (st : LatencyStats) : LatencyStats :=
  { st with
    p50Ns := scan.p50.getD 0
    p95Ns := scan.p95.getD 0
    p99Ns := scan.p99.getD 0
    p999Ns := scan.p999.getD 0 }

end LatencyTracker.PercentileScan

open LatencyTracker (PercentileScan)

namespace StatsPc

/-- One load. -/
def step (tracker : LatencyTracker) : StatsPc → StatsPc
  | .loadCount =>
      if tracker.count = 0 then
        .returned ⟨0, 0, 0, 0, 0, 0, 0, 0⟩
      else
        .loadMin tracker.count
  | .loadMin sampleCount => .loadMax sampleCount tracker.minNs
  | .loadMax sampleCount minNs =>
      .loadSum sampleCount minNs tracker.maxNs
  | .loadSum sampleCount minNs maxNs =>
      .scanning
        { minNs := minNs
          maxNs := maxNs
          meanNs := tracker.sum / sampleCount
          p50Ns := 0
          p95Ns := 0
          p99Ns := 0
          p999Ns := 0
          sampleCount := sampleCount }
        PercentileScan.start (List.finRange numBuckets)
  | .scanning st scan [] => .returned (scan.finish st)
  | .scanning st scan (bucket :: buckets) =>
      let next := tracker.scanBucket st.sampleCount scan bucket
      if next.p999.isSome then
        .returned (next.finish st)
      else
        .scanning st next buckets
  | .returned st => .returned st

theorem step_returned (tracker : LatencyTracker) (st : LatencyStats) :
    step tracker (.returned st) = .returned st :=
  rfl

/-- Once the last percentile is done the loop changes nothing. -/
theorem scanBucket_done
    (tracker : LatencyTracker) (samples : UInt64)
    {scan : PercentileScan} (done : scan.p999.isSome = true)
    (buckets : List (Fin numBuckets)) :
    buckets.foldl (tracker.scanBucket samples) scan = scan := by
  induction buckets with
  | nil =>
      rfl
  | cons bucket buckets inductionHypothesis =>
      rw [List.foldl_cons, LatencyTracker.scanBucket, if_pos done]
      exact inductionHypothesis

/-- The loop of a reader that nobody disturbs. -/
theorem scanning_alone
    (tracker : LatencyTracker) (st : LatencyStats)
    (scan : PercentileScan) (buckets : List (Fin numBuckets)) :
    (step tracker)^[buckets.length + 1] (.scanning st scan buckets) =
      .returned
        ((buckets.foldl (tracker.scanBucket st.sampleCount) scan).finish
          st) := by
  induction buckets generalizing scan with
  | nil =>
      rfl
  | cons bucket buckets inductionHypothesis =>
      rw [List.length_cons, Function.iterate_succ_apply, step,
        List.foldl_cons]
      split
      · rename_i done
        rw [Function.iterate_fixed (step_returned tracker _),
          scanBucket_done tracker _ done]
      · exact inductionHypothesis _

/-- A reader that nobody disturbs returns the statistics of the tracker. -/
theorem getStats_alone (tracker : LatencyTracker) :
    (step tracker)^[numBuckets + 5] .loadCount =
      .returned tracker.getStats := by
  rw [Function.iterate_succ_apply, step, LatencyTracker.getStats]
  split
  · rw [Function.iterate_fixed (step_returned tracker _)]
  · rw [Function.iterate_succ_apply, Function.iterate_succ_apply,
      Function.iterate_succ_apply]
    exact scanning_alone tracker _ PercentileScan.start
      (List.finRange numBuckets)

end StatsPc

/-! ## The reader and the recording threads -/

inductive StatsMove (τ : Type*) where
  | record (thread : τ) (spurious : Bool)
  | read

structure StatsSystem (τ : Type*) where
  recorders : Config τ LatencyTracker Recorder
  reader : StatsPc

namespace StatsSystem

variable {τ : Type*} [DecidableEq τ]

def start (samples : τ → List UInt64) : StatsSystem τ where
  recorders := recordStart samples
  reader := .loadCount

def step (system : StatsSystem τ) : StatsMove τ → StatsSystem τ
  | .record thread spurious =>
      { system with
        recorders :=
          Interleaving.step Recorder.step system.recorders
            (thread, spurious) }
  | .read =>
      { system with
        reader := system.reader.step system.recorders.shared }

def run (system : StatsSystem τ) (schedule : List (StatsMove τ)) :
    StatsSystem τ :=
  schedule.foldl step system

end StatsSystem

/-- The samples of the calls of `record` that have returned: their last
update is not pending any more. -/
def returnedSamples {τ : Type*} [Fintype τ] (samples : τ → List UInt64)
    (recorders : Config τ LatencyTracker Recorder) : Multiset UInt64 :=
  recorded samples -
    ∑ thread, samplesOf .count (recorders.locals thread).pending

/-- A percentile field has been set to the upper bound of a bucket. -/
def IsBucketUpper (value : UInt64) : Prop :=
  value ≠ 0 ∧ ∃ bucket, value = LatencyTracker.bucketUpperNs bucket

/-- What is promised about statistics of at least one sample. -/
structure StatsWellFormed (returned : Multiset UInt64)
    (st : LatencyStats) : Prop where
  p50_set : IsBucketUpper st.p50Ns
  p95_set : IsBucketUpper st.p95Ns
  p99_set : IsBucketUpper st.p99Ns
  p999_set : IsBucketUpper st.p999Ns
  p50_le : st.p50Ns ≤ st.p95Ns
  p95_le : st.p95Ns ≤ st.p99Ns
  p99_le : st.p99Ns ≤ st.p999Ns
  min_le_max : st.minNs ≤ st.maxNs
  min_recorded :
    st.minNs = LatencyTracker.initial.minNs →
      LatencyTracker.initial.minNs ∈ returned

/-! ## The percentiles of one scan -/

theorem bucketUpperNs_toNat (bucket : Fin numBuckets) :
    (LatencyTracker.bucketUpperNs bucket).toNat =
      if bucket.val < 63 then 2 ^ bucket.val else 2 ^ 64 - 1 := by
  revert bucket
  decide +kernel

theorem bucketUpperNs_mono {lower upper : Fin numBuckets}
    (ordered : lower ≤ upper) :
    LatencyTracker.bucketUpperNs lower ≤
      LatencyTracker.bucketUpperNs upper := by
  have values : lower.val ≤ upper.val := ordered
  have power : 2 ^ lower.val ≤ 2 ^ upper.val :=
    Nat.pow_le_pow_right (by decide) values
  rw [UInt64.le_iff_toNat_le, bucketUpperNs_toNat, bucketUpperNs_toNat]
  split
  · split
    · exact power
    · rename_i small _
      have bound : 2 ^ lower.val < 2 ^ 63 :=
        Nat.pow_lt_pow_right (by decide) small
      omega
  · rw [if_neg (by omega)]

theorem isBucketUpper_bucketUpperNs (bucket : Fin numBuckets) :
    IsBucketUpper (LatencyTracker.bucketUpperNs bucket) := by
  refine ⟨?_, bucket, rfl⟩
  intro zero
  have value := bucketUpperNs_toNat bucket
  rw [zero] at value
  split at value
  · exact absurd value (Nat.ne_of_lt (Nat.two_pow_pos _))
  · cases value

/-- The second percentile is done with the first one only, and at no smaller
bound. -/
def DoneInOrder (first second : Option UInt64) : Prop :=
  ∀ later, second = some later →
    ∃ earlier, first = some earlier ∧ earlier ≤ later

/-- A percentile that is done has the bound of a bucket, which is not above
those of the buckets to come. -/
def SettledBelow (done : Option UInt64)
    (buckets : List (Fin numBuckets)) : Prop :=
  ∀ value, done = some value →
    IsBucketUpper value ∧
      ∀ bucket ∈ buckets,
        value ≤ LatencyTracker.bucketUpperNs bucket

theorem settle_cases (done : Option UInt64) (cumul target upper : UInt64) :
    LatencyTracker.settle done cumul target upper = done ∨
      (done = none ∧ target ≤ cumul ∧
        LatencyTracker.settle done cumul target upper = some upper) := by
  cases done with
  | some value =>
      exact Or.inl rfl
  | none =>
      rw [LatencyTracker.settle]
      by_cases reached : target ≤ cumul
      · exact Or.inr ⟨rfl, reached, by simp [reached]⟩
      · exact Or.inl (by simp [reached])

/-- A target that is not reached leaves its percentile open. -/
theorem settle_eq_none
    {done : Option UInt64} {cumul target upper : UInt64}
    (open_ : LatencyTracker.settle done cumul target upper = none) :
    cumul < target := by
  cases done with
  | some value =>
      cases open_
  | none =>
      by_contra reached
      rw [LatencyTracker.settle] at open_
      simp [UInt64.not_lt.mp reached] at open_

theorem DoneInOrder.settle
    {first second : Option UInt64} (inOrder : DoneInOrder first second)
    {cumul lower higher upper : UInt64} (ordered : lower ≤ higher)
    (below : ∀ value, first = some value → value ≤ upper) :
    DoneInOrder (LatencyTracker.settle first cumul lower upper)
      (LatencyTracker.settle second cumul higher upper) := by
  intro later done
  rcases settle_cases second cumul higher upper with
    same | ⟨_, reached, now⟩
  · obtain ⟨earlier, found, smaller⟩ := inOrder later (same ▸ done)
    subst first
    exact ⟨earlier, rfl, smaller⟩
  · rw [now] at done
    cases done
    have early := UInt64.le_trans ordered reached
    cases first with
    | some value =>
        exact ⟨value, rfl, below value rfl⟩
    | none =>
        refine ⟨upper, ?_, UInt64.le_refl _⟩
        simp [LatencyTracker.settle, early]

theorem SettledBelow.settle
    {done : Option UInt64} {bucket : Fin numBuckets}
    {buckets : List (Fin numBuckets)}
    (settled : SettledBelow done (bucket :: buckets))
    (sorted : (bucket :: buckets).Pairwise (· < ·))
    (cumul target : UInt64) :
    SettledBelow
      (LatencyTracker.settle done cumul target
        (LatencyTracker.bucketUpperNs bucket))
      buckets := by
  intro value isDone
  rcases settle_cases done cumul target
    (LatencyTracker.bucketUpperNs bucket) with same | ⟨_, _, now⟩
  · obtain ⟨isUpper, below⟩ := settled value (same ▸ isDone)
    exact ⟨isUpper, fun later member =>
      below later (List.mem_cons_of_mem bucket member)⟩
  · rw [now] at isDone
    cases isDone
    refine ⟨isBucketUpper_bucketUpperNs bucket, ?_⟩
    intro later member
    exact bucketUpperNs_mono
      (Fin.le_of_lt (List.rel_of_pairwise_cons sorted member))

/-- The percentiles are done in order, at bounds of buckets that have been
passed. -/
structure ScanSound (scan : PercentileScan)
    (buckets : List (Fin numBuckets)) : Prop where
  p50_p95 : DoneInOrder scan.p50 scan.p95
  p95_p99 : DoneInOrder scan.p95 scan.p99
  p99_p999 : DoneInOrder scan.p99 scan.p999
  p50 : SettledBelow scan.p50 buckets
  p95 : SettledBelow scan.p95 buckets
  p99 : SettledBelow scan.p99 buckets
  p999 : SettledBelow scan.p999 buckets

/-- The targets of the percentiles, without overflow. -/
theorem targets_ordered {samples : UInt64}
    (few : 999 * samples.toNat < 2 ^ 64) :
    samples / 2 ≤ samples * 95 / 100 ∧
      samples * 95 / 100 ≤ samples * 99 / 100 ∧
      samples * 99 / 100 ≤ samples * 999 / 1000 ∧
      samples * 999 / 1000 ≤ samples := by
  have exact_ {factor : Nat} (small : factor ≤ 999) :
      samples.toNat * factor % 2 ^ 64 = samples.toNat * factor := by
    apply Nat.mod_eq_of_lt
    calc
      samples.toNat * factor ≤ samples.toNat * 999 :=
        Nat.mul_le_mul_left _ small
      _ < 2 ^ 64 := by omega
  simp only [UInt64.le_iff_toNat_le, UInt64.toNat_div, UInt64.toNat_mul,
    UInt64.reduceToNat]
  rw [exact_ (by decide), exact_ (by decide), exact_ (by decide)]
  omega

theorem ScanSound.scanBucket
    {scan : PercentileScan} {bucket : Fin numBuckets}
    {buckets : List (Fin numBuckets)}
    (sound : ScanSound scan (bucket :: buckets))
    (sorted : (bucket :: buckets).Pairwise (· < ·))
    (running : scan.p999 = none) (tracker : LatencyTracker)
    {samples : UInt64} (few : 999 * samples.toNat < 2 ^ 64) :
    ScanSound (tracker.scanBucket samples scan bucket) buckets := by
  obtain ⟨first, second, third, _⟩ := targets_ordered few
  have below {done : Option UInt64}
      (settled : SettledBelow done (bucket :: buckets))
      (value : UInt64) (isDone : done = some value) :
      value ≤ LatencyTracker.bucketUpperNs bucket :=
    (settled value isDone).2 bucket List.mem_cons_self
  rw [LatencyTracker.scanBucket, if_neg (by simp [running])]
  exact
    { p50_p95 := sound.p50_p95.settle first (below sound.p50)
      p95_p99 := sound.p95_p99.settle second (below sound.p95)
      p99_p999 := sound.p99_p999.settle third (below sound.p99)
      p50 := sound.p50.settle sorted _ _
      p95 := sound.p95.settle sorted _ _
      p99 := sound.p99.settle sorted _ _
      p999 := sound.p999.settle sorted _ _ }

/-! ## What holds of the tracker at every moment -/

/-- The samples found in some buckets. -/
def LatencyTracker.bucketTotal (tracker : LatencyTracker)
    (buckets : List (Fin numBuckets)) : Nat :=
  (buckets.map fun bucket => (tracker.buckets bucket).toNat).sum

/-- The counted samples are in the buckets, and one of them lies between the
extremes. -/
structure TrackerSound (returned : Multiset UInt64) (total : Nat)
    (tracker : LatencyTracker) : Prop where
  counted :
    tracker.count.toNat ≤
      tracker.bucketTotal (List.finRange numBuckets)
  bounded : tracker.bucketTotal (List.finRange numBuckets) ≤ total
  between :
    tracker.count ≠ 0 →
      ∃ sample ∈ returned,
        tracker.minNs ≤ sample ∧ sample ≤ tracker.maxNs

/-- What recording does to a tracker. -/
structure Grows (earlier later : LatencyTracker) : Prop where
  buckets :
    ∀ bucket,
      (earlier.buckets bucket).toNat ≤ (later.buckets bucket).toNat
  minNs : later.minNs ≤ earlier.minNs
  maxNs : earlier.maxNs ≤ later.maxNs

theorem Grows.refl (tracker : LatencyTracker) : Grows tracker tracker :=
  ⟨fun _ => Nat.le_refl _, UInt64.le_refl _, UInt64.le_refl _⟩

theorem Grows.bucketTotal
    {earlier later : LatencyTracker} (grows : Grows earlier later)
    (buckets : List (Fin numBuckets)) :
    earlier.bucketTotal buckets ≤ later.bucketTotal buckets :=
  List.sum_le_sum fun bucket _ => grows.buckets bucket

theorem bucketTotal_tally
    {updates : Multiset TrackerUpdate}
    (few : (samplesOf .bucket updates).card < 2 ^ 64) :
    (LatencyTracker.tally updates).bucketTotal
        (List.finRange numBuckets) =
      (samplesOf .bucket updates).card := by
  rw [← sum_countP_bucketFor, LatencyTracker.bucketTotal,
    ← List.ofFn_eq_map, List.sum_ofFn]
  apply Finset.sum_congr rfl
  intro bucket _
  rw [LatencyTracker.tally_buckets, UInt64.toNat_ofNat']
  apply Nat.mod_eq_of_lt
  exact Nat.lt_of_le_of_lt (Multiset.countP_le_card _ _) few

/-- A call that has updated the number of samples has updated everything. -/
theorem Recorder.samplesOf_pending_le
    (cell : TrackerCell) (recorder : Recorder) :
    samplesOf cell recorder.pending ≤
      samplesOf .count recorder.pending := by
  have current :
      samplesOf cell ↑recorder.pc.pending ≤
        samplesOf .count ↑recorder.pc.pending := by
    cases recorder.pc <;> cases cell <;> first
      | exact Multiset.zero_le _
      | exact le_refl _
  have later (cell : TrackerCell) :
      samplesOf cell
          ↑(recorder.samples.flatMap LatencyTracker.updatesOf) =
        ↑recorder.samples := by
    rw [← updatesOfAll_coe, samplesOf_updatesOfAll]
  rw [Recorder.pending, ← Multiset.coe_add, map_add, map_add, later,
    later]
  exact add_le_add_left current _

section Threads

variable {τ : Type*} [DecidableEq τ] [Fintype τ]
variable {samples : τ → List UInt64}
variable {recorders : Config τ LatencyTracker Recorder}

/-- The ledger of all calls. -/
abbrev RecordLedger (samples : τ → List UInt64)
    (recorders : Config τ LatencyTracker Recorder) : Prop :=
  Ledger LatencyTracker.perform id Recorder.pending
    LatencyTracker.initial (updatesOfAll (recorded samples)) recorders

omit [DecidableEq τ] in
theorem trackerSound_of_ledger
    (ledger : RecordLedger samples recorders)
    (few : (recorded samples).card < 2 ^ 64) :
    TrackerSound (returnedSamples samples recorders)
      (recorded samples).card recorders.shared := by
  obtain ⟨done, balance, value⟩ := ledger
  change recorders.shared = LatencyTracker.tally done at value
  have split (cell : TrackerCell) :
      samplesOf cell done +
          ∑ thread, samplesOf cell (recorders.locals thread).pending =
        recorded samples := by
    rw [← map_sum, ← map_add, balance, samplesOf_updatesOfAll]
  have ahead (cell : TrackerCell) :
      samplesOf .count done ≤ samplesOf cell done := by
    have pending :
        ∑ thread, samplesOf cell (recorders.locals thread).pending ≤
          ∑ thread, samplesOf .count (recorders.locals thread).pending :=
      Finset.sum_le_sum fun thread _ =>
        Recorder.samplesOf_pending_le cell _
    apply le_of_add_le_add_right
    calc
      samplesOf .count done +
            ∑ thread, samplesOf cell (recorders.locals thread).pending ≤
          samplesOf .count done +
            ∑ thread,
              samplesOf .count (recorders.locals thread).pending :=
        add_le_add_right pending _
      _ = samplesOf cell done +
            ∑ thread,
              samplesOf cell (recorders.locals thread).pending := by
        rw [split, split]
  have returned :
      returnedSamples samples recorders = samplesOf .count done := by
    rw [returnedSamples, ← split .count, add_tsub_cancel_right]
  have within (cell : TrackerCell) :
      (samplesOf cell done).card ≤ (recorded samples).card := by
    rw [← split cell]
    exact Multiset.card_le_card (Multiset.le_add_right _ _)
  have total :=
    bucketTotal_tally
      (Nat.lt_of_le_of_lt (within .bucket) few)
  refine ⟨?_, ?_, ?_⟩
  · rw [value, total, LatencyTracker.tally_count, UInt64.toNat_ofNat',
      Nat.mod_eq_of_lt (Nat.lt_of_le_of_lt (within .count) few)]
    exact Multiset.card_le_card (ahead .bucket)
  · rw [value, total]
    exact within .bucket
  · intro positive
    rw [value, LatencyTracker.tally_count] at positive
    have nonempty : samplesOf .count done ≠ 0 := by
      intro empty
      rw [empty] at positive
      exact positive rfl
    obtain ⟨sample, member⟩ := Multiset.exists_mem_of_ne_zero nonempty
    rw [value, returned]
    exact ⟨sample, member,
      LatencyTracker.tally_minNs_le
        (Multiset.mem_of_le (ahead .min) member),
      LatencyTracker.le_tally_maxNs
        (Multiset.mem_of_le (ahead .max) member)⟩

theorem bucket_le_bucketTotal
    (tracker : LatencyTracker) (bucket : Fin numBuckets) :
    (tracker.buckets bucket).toNat ≤
      tracker.bucketTotal (List.finRange numBuckets) :=
  List.single_le_sum (fun _ _ => Nat.zero_le _) _
    (List.mem_map_of_mem (List.mem_finRange bucket))

theorem LatencyTracker.grows_perform
    (tracker : LatencyTracker) (update : TrackerUpdate)
    (room :
      tracker.bucketTotal (List.finRange numBuckets) + 1 < 2 ^ 64) :
    Grows tracker (tracker.perform update) := by
  obtain ⟨cell, sample⟩ := update
  have same := Grows.refl tracker
  cases cell with
  | bucket =>
      refine ⟨?_, same.minNs, same.maxNs⟩
      intro bucket
      simp only [perform, Function.update_apply]
      split
      · rename_i hit
        subst bucket
        have bound :=
          bucket_le_bucketTotal tracker (bucketFor sample)
        rw [UInt64.toNat_add, UInt64.toNat_one]
        omega
      · exact Nat.le_refl _
  | min =>
      refine ⟨same.buckets, ?_, same.maxNs⟩
      simp only [perform]
      grind
  | max =>
      refine ⟨same.buckets, same.minNs, ?_⟩
      simp only [perform]
      grind
  | sum =>
      exact ⟨same.buckets, same.minNs, same.maxNs⟩
  | count =>
      exact ⟨same.buckets, same.minNs, same.maxNs⟩

/-- A step of a recording thread. -/
theorem grows_step
    (sound :
      TrackerSound (returnedSamples samples recorders)
        (recorded samples).card recorders.shared)
    (few : 999 * (recorded samples).card < 2 ^ 64) (move : τ × Bool) :
    Grows recorders.shared
        (Interleaving.step Recorder.step recorders move).shared ∧
      returnedSamples samples recorders ≤
        returnedSamples samples
          (Interleaving.step Recorder.step recorders move) := by
  obtain ⟨thread, spurious⟩ := move
  have room :
      recorders.shared.bucketTotal (List.finRange numBuckets) + 1 <
        2 ^ 64 := by
    have bounded := sound.bounded
    omega
  have moved :=
    sum_pending_update
      (fun recorder : Recorder => samplesOf .count recorder.pending)
      recorders.locals thread
      (Recorder.step spurious recorders.shared
        (recorders.locals thread)).2
  have fewer :
      samplesOf .count
          (Recorder.step spurious recorders.shared
            (recorders.locals thread)).2.pending ≤
        samplesOf .count (recorders.locals thread).pending ∧
      Grows recorders.shared
        (Recorder.step spurious recorders.shared
          (recorders.locals thread)).1 := by
    rcases Recorder.performsAtMostOne spurious recorders.shared
      (recorders.locals thread) with
        ⟨same, kept⟩ | ⟨update, taken, performed⟩
    · rw [kept]
      refine ⟨le_refl _, ?_⟩
      rw [id_eq] at same
      rw [same]
      exact Grows.refl recorders.shared
    · rw [taken, ← Multiset.singleton_add, map_add]
      refine ⟨Multiset.le_add_left _ _, ?_⟩
      rw [id_eq] at performed
      rw [performed]
      exact recorders.shared.grows_perform update room
  refine ⟨fewer.2, ?_⟩
  apply tsub_le_tsub_left
  have total := add_le_add_left fewer.1 (∑ other, samplesOf .count
    (recorders.locals other).pending)
  rw [← moved] at total
  exact le_of_add_le_add_left total

end Threads

/-! ## The invariant of the reader -/

/-- A returned call lies between the two values. -/
def Between (returned : Multiset UInt64) (minNs maxNs : UInt64) : Prop :=
  ∃ sample ∈ returned, minNs ≤ sample ∧ sample ≤ maxNs

/-- The loop has read some of the buckets, and what it has not read yet makes
up for the samples that it still misses. -/
structure ScanProgress (tracker : LatencyTracker) (samples : UInt64)
    (scan : PercentileScan) (buckets : List (Fin numBuckets)) :
    Prop where
  sound : ScanSound scan buckets
  running : scan.p999 = none
  read :
    ∃ passed, passed ++ buckets = List.finRange numBuckets ∧
      scan.cumul.toNat ≤ tracker.bucketTotal passed
  enough :
    samples.toNat ≤ scan.cumul.toNat + tracker.bucketTotal buckets
  ended : buckets = [] → scan.cumul < samples * 999 / 1000

def ReaderSound (returned : Multiset UInt64) (tracker : LatencyTracker) :
    StatsPc → Prop
  | .loadCount => True
  | .loadMin sampleCount =>
      sampleCount.toNat ≤
          tracker.bucketTotal (List.finRange numBuckets) ∧
        Between returned tracker.minNs tracker.maxNs
  | .loadMax sampleCount minNs =>
      sampleCount.toNat ≤
          tracker.bucketTotal (List.finRange numBuckets) ∧
        Between returned minNs tracker.maxNs
  | .loadSum sampleCount minNs maxNs =>
      sampleCount.toNat ≤
          tracker.bucketTotal (List.finRange numBuckets) ∧
        Between returned minNs maxNs
  | .scanning st scan buckets =>
      ScanProgress tracker st.sampleCount scan buckets ∧
        Between returned st.minNs st.maxNs
  | .returned st =>
      st.sampleCount ≠ 0 → StatsWellFormed returned st

theorem Between.mono
    {earlier later : Multiset UInt64} {minNs maxNs : UInt64}
    (between : Between earlier minNs maxNs) (more : earlier ≤ later)
    {lower higher : UInt64} (below : lower ≤ minNs)
    (above : maxNs ≤ higher) :
    Between later lower higher := by
  obtain ⟨sample, member, low, high⟩ := between
  exact ⟨sample, Multiset.mem_of_le more member,
    UInt64.le_trans below low, UInt64.le_trans high above⟩

/-- Recording does not disturb the reader. -/
theorem ReaderSound.grow
    {earlier later : Multiset UInt64} {before after : LatencyTracker}
    (grows : Grows before after) (more : earlier ≤ later)
    {reader : StatsPc} (sound : ReaderSound earlier before reader) :
    ReaderSound later after reader := by
  have all := grows.bucketTotal (List.finRange numBuckets)
  cases reader with
  | loadCount =>
      exact trivial
  | loadMin sampleCount =>
      exact ⟨Nat.le_trans sound.1 all,
        sound.2.mono more grows.minNs grows.maxNs⟩
  | loadMax sampleCount minNs =>
      exact ⟨Nat.le_trans sound.1 all,
        sound.2.mono more (UInt64.le_refl _) grows.maxNs⟩
  | loadSum sampleCount minNs maxNs =>
      exact ⟨Nat.le_trans sound.1 all,
        sound.2.mono more (UInt64.le_refl _) (UInt64.le_refl _)⟩
  | scanning st scan buckets =>
      obtain ⟨progress, between⟩ := sound
      obtain ⟨passed, split, read⟩ := progress.read
      have remaining := grows.bucketTotal buckets
      have enough := progress.enough
      refine ⟨{ progress with read := ?_, enough := by omega },
        between.mono more (UInt64.le_refl _) (UInt64.le_refl _)⟩
      exact ⟨passed, split,
        Nat.le_trans read (grows.bucketTotal passed)⟩
  | returned st =>
      intro positive
      have wellFormed := sound positive
      exact
        { wellFormed with
          min_recorded := fun sentinel =>
            Multiset.mem_of_le more
              (wellFormed.min_recorded sentinel) }

/-- Once the last percentile is done all are, in order. -/
theorem ScanSound.finish
    {scan : PercentileScan} {buckets : List (Fin numBuckets)}
    (sound : ScanSound scan buckets) (done : scan.p999.isSome = true)
    {returned : Multiset UInt64} {st : LatencyStats}
    (between : Between returned st.minNs st.maxNs) :
    StatsWellFormed returned (scan.finish st) := by
  obtain ⟨v999, found999⟩ := Option.isSome_iff_exists.mp done
  obtain ⟨v99, found99, below99⟩ := sound.p99_p999 v999 found999
  obtain ⟨v95, found95, below95⟩ := sound.p95_p99 v99 found99
  obtain ⟨v50, found50, below50⟩ := sound.p50_p95 v95 found95
  obtain ⟨sample, member, low, high⟩ := between
  rw [PercentileScan.finish, found50, found95, found99, found999]
  exact
    { p50_set := (sound.p50 v50 found50).1
      p95_set := (sound.p95 v95 found95).1
      p99_set := (sound.p99 v99 found99).1
      p999_set := (sound.p999 v999 found999).1
      p50_le := below50
      p95_le := below95
      p99_le := below99
      min_le_max := UInt64.le_trans low high
      min_recorded := by
        intro sentinel
        have largest : sample ≤ LatencyTracker.initial.minNs := by
          rw [UInt64.le_iff_toNat_le]
          exact Nat.le_of_lt_succ sample.toNat_lt
        have same : LatencyTracker.initial.minNs = sample :=
          UInt64.le_antisymm (sentinel ▸ low) largest
        rw [same]
        exact member }

theorem LatencyTracker.bucketTotal_append
    (tracker : LatencyTracker) (first second : List (Fin numBuckets)) :
    tracker.bucketTotal (first ++ second) =
      tracker.bucketTotal first + tracker.bucketTotal second := by
  rw [bucketTotal, List.map_append, List.sum_append]
  rfl

/-- The loop reads one more bucket. -/
theorem ScanProgress.next
    {tracker : LatencyTracker} {samples : UInt64}
    {scan : PercentileScan} {bucket : Fin numBuckets}
    {buckets : List (Fin numBuckets)}
    (progress : ScanProgress tracker samples scan (bucket :: buckets))
    (few :
      999 * tracker.bucketTotal (List.finRange numBuckets) < 2 ^ 64) :
    ScanSound (tracker.scanBucket samples scan bucket) buckets ∧
      ((tracker.scanBucket samples scan bucket).p999 = none →
        ScanProgress tracker samples
          (tracker.scanBucket samples scan bucket) buckets) := by
  obtain ⟨passed, split, read⟩ := progress.read
  have enough := progress.enough
  have total :
      tracker.bucketTotal (List.finRange numBuckets) =
        tracker.bucketTotal passed +
          ((tracker.buckets bucket).toNat +
            tracker.bucketTotal buckets) := by
    rw [← split, tracker.bucketTotal_append]
    rfl
  have front :
      tracker.bucketTotal (bucket :: buckets) =
        (tracker.buckets bucket).toNat + tracker.bucketTotal buckets :=
    rfl
  have sorted : (bucket :: buckets).Pairwise (· < ·) := by
    have all := List.pairwise_lt_finRange numBuckets
    rw [← split] at all
    exact (List.pairwise_append.mp all).2.1
  have cumul :
      (tracker.scanBucket samples scan bucket).cumul =
        scan.cumul + tracker.buckets bucket := by
    rw [LatencyTracker.scanBucket, if_neg (by simp [progress.running])]
  have value :
      (scan.cumul + tracker.buckets bucket).toNat =
        scan.cumul.toNat + (tracker.buckets bucket).toNat := by
    rw [UInt64.toNat_add]
    apply Nat.mod_eq_of_lt
    omega
  have sound :
      ScanSound (tracker.scanBucket samples scan bucket) buckets :=
    progress.sound.scanBucket sorted progress.running tracker (by omega)
  refine ⟨sound, ?_⟩
  intro running
  refine
    { sound := sound
      running := running
      read := ⟨passed ++ [bucket], ?_, ?_⟩
      enough := ?_
      ended := ?_ }
  · rw [List.append_assoc]
    exact split
  · rw [cumul, value, tracker.bucketTotal_append]
    exact Nat.add_le_add_right read _
  · rw [cumul, value]
    omega
  · intro _
    rw [cumul]
    rw [LatencyTracker.scanBucket, if_neg (by simp [progress.running])]
      at running
    exact settle_eq_none running

/-- A load by the reader. -/
theorem ReaderSound.read
    {returned : Multiset UInt64} {total : Nat}
    {tracker : LatencyTracker}
    (recording : TrackerSound returned total tracker)
    (few : 999 * total < 2 ^ 64)
    {reader : StatsPc} (sound : ReaderSound returned tracker reader) :
    ReaderSound returned tracker (reader.step tracker) := by
  have bounded := recording.bounded
  cases reader with
  | loadCount =>
      rw [StatsPc.step]
      split
      · exact fun positive => absurd rfl positive
      · rename_i positive
        exact ⟨recording.counted, recording.between positive⟩
  | loadMin sampleCount =>
      exact sound
  | loadMax sampleCount minNs =>
      exact sound
  | loadSum sampleCount minNs maxNs =>
      refine
        ⟨{ sound := ?_
           running := rfl
           read := ⟨[], rfl, Nat.zero_le _⟩
           enough := ?_
           ended := fun nothing => by cases nothing },
          sound.2⟩
      · constructor <;> exact fun _ impossible => by cases impossible
      · exact Nat.le_trans sound.1 (Nat.le_add_left _ _)
  | scanning st scan buckets =>
      obtain ⟨progress, between⟩ := sound
      cases buckets with
      | nil =>
          -- The loop does not end here: all samples have been found.
          have enough := progress.enough
          have open_ := progress.ended rfl
          obtain ⟨passed, split, read⟩ := progress.read
          rw [List.append_nil] at split
          rw [split] at read
          have zero : tracker.bucketTotal [] = 0 := rfl
          have last :
              st.sampleCount * 999 / 1000 ≤ st.sampleCount :=
            (targets_ordered (by omega)).2.2.2
          have short := UInt64.lt_of_lt_of_le open_ last
          rw [UInt64.lt_iff_toNat_lt] at short
          omega
      | cons bucket buckets =>
          obtain ⟨sound, continues⟩ := progress.next (by omega)
          rw [StatsPc.step]
          split
          · rename_i done
            exact fun _ => sound.finish done between
          · rename_i running
            exact ⟨continues (Option.not_isSome_iff_eq_none.mp running),
              between⟩
  | returned st =>
      exact sound

/-! ## Whole runs -/

section Threads

variable {τ : Type*} [DecidableEq τ] [Fintype τ]

/-- What every moment of a run has in common. -/
structure StatsSystem.Sound (samples : τ → List UInt64)
    (system : StatsSystem τ) : Prop where
  ledger : RecordLedger samples system.recorders
  reader :
    ReaderSound (returnedSamples samples system.recorders)
      system.recorders.shared system.reader

theorem StatsSystem.Sound.step
    {samples : τ → List UInt64} {system : StatsSystem τ}
    (sound : system.Sound samples)
    (few : 999 * (recorded samples).card < 2 ^ 64)
    (move : StatsMove τ) :
    (system.step move).Sound samples := by
  have recording := trackerSound_of_ledger sound.ledger (by omega)
  cases move with
  | record thread spurious =>
      obtain ⟨grows, more⟩ :=
        grows_step recording few (thread, spurious)
      exact
        { ledger := sound.ledger.step Recorder.performsAtMostOne _
          reader := sound.reader.grow grows more }
  | read =>
      exact
        { ledger := sound.ledger
          reader := sound.reader.read recording few }

theorem StatsSystem.Sound.run
    {samples : τ → List UInt64} {system : StatsSystem τ}
    (sound : system.Sound samples)
    (few : 999 * (recorded samples).card < 2 ^ 64)
    (schedule : List (StatsMove τ)) :
    (system.run schedule).Sound samples := by
  induction schedule generalizing system with
  | nil =>
      exact sound
  | cons move schedule inductionHypothesis =>
      exact inductionHypothesis (sound.step few move)

/-- Statistics that are taken while any threads record any samples are well
formed as soon as they count a sample. -/
theorem getStats_wellFormed
    (samples : τ → List UInt64)
    (few : 999 * (recorded samples).card < 2 ^ 64)
    (schedule : List (StatsMove τ)) {st : LatencyStats}
    (returned :
      ((StatsSystem.start samples).run schedule).reader = .returned st)
    (positive : st.sampleCount ≠ 0) :
    StatsWellFormed
      (returnedSamples samples
        ((StatsSystem.start samples).run schedule).recorders)
      st := by
  have start : (StatsSystem.start samples).Sound samples :=
    { ledger := record_ledger samples []
      reader := trivial }
  have sound := (start.run few schedule).reader
  rw [returned] at sound
  exact sound positive

end Threads

/-- One thread has recorded two samples when the reader counts them; another
one starts to record between that load and the others. -/
theorem getStats_wellFormed_overtaken :
    let samples : Bool → List UInt64 :=
      fun thread => if thread then [3, 5] else [1]
    let schedule : List (StatsMove Bool) :=
      List.replicate 14 (.record true false) ++ [.read] ++
        List.replicate 5 (.record false false) ++
        List.replicate 6 .read
    let system := (StatsSystem.start samples).run schedule
    let st : LatencyStats := ⟨1, 5, 4, 1, 1, 1, 1, 2⟩
    system.reader = .returned st ∧
      StatsWellFormed (returnedSamples samples system.recorders) st := by
  intro samples schedule system st
  have returned : system.reader = .returned st := by
    decide +kernel
  refine ⟨returned, ?_⟩
  exact getStats_wellFormed samples (by decide +kernel) schedule returned
    (by decide)

end MarketDataHandler
