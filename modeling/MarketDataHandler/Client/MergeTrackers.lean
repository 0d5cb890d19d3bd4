import MarketDataHandler.Client.Percentiles
import Mathlib.Data.UInt

/-!
# Merging latency trackers

`merge_latency_trackers` of `src/common/latency_tracker.cpp` replays a value
for each sample that it finds in a bucket.  The value belongs to that bucket
again, so the merged histogram is the one of all samples; the extremes and the
sum are not.
-/

namespace MarketDataHandler

open LatencyTracker (bucketFor bucketUpperNs record recordAll)

namespace LatencyTracker

def rawBucket (tracker : LatencyTracker) (bucket : Fin numBuckets) :
    UInt64 :=
  tracker.buckets bucket

/-- The value that is recorded for the samples of a bucket. -/
def mergedValue (bucket : Fin numBuckets) : UInt64 :=
  if bucket.val < 63 then
    1 <<< UInt64.ofNat bucket.val
  else
    0xffffffffffffffff

variable {κ : Type*} [DecidableEq κ]

/-- A call of `record` on one of some trackers. -/
def recordAt (dst : κ) (latencyNs : UInt64)
    (trackers : κ → LatencyTracker) : κ → LatencyTracker :=
  Function.update trackers dst ((trackers dst).record latencyNs)

/-- One pass of the outer loop in `merge_latency_trackers`. -/
def mergeBucket (dst src : κ) (trackers : κ → LatencyTracker)
    (bucket : Fin numBuckets) : κ → LatencyTracker :=
  let cnt := (trackers src).rawBucket bucket
  let val := mergedValue bucket
  (recordAt dst val)^[cnt.toNat] trackers

/-- The trackers that the two references name may be any of some trackers. -/
def mergeLatencyTrackers (dst src : κ) (trackers : κ → LatencyTracker) :
    κ → LatencyTracker :=
  (List.finRange numBuckets).foldl (mergeBucket dst src) trackers

/-! ## One tracker at a time -/

/-- The value of a bucket belongs to that bucket. -/
theorem bucketFor_mergedValue (bucket : Fin numBuckets) :
    bucketFor (mergedValue bucket) = bucket := by
  revert bucket
  decide +kernel

/-- The inner loop on the tracker that it records in. -/
def replay (tracker : LatencyTracker) (bucket : Fin numBuckets)
    (cnt : UInt64) : LatencyTracker :=
  (fun current => record current (mergedValue bucket))^[cnt.toNat] tracker

theorem recordAt_iterate
    (dst : κ) (latencyNs : UInt64) (times : Nat)
    (trackers : κ → LatencyTracker) :
    (recordAt dst latencyNs)^[times] trackers =
      Function.update trackers dst
        ((fun current => record current latencyNs)^[times]
          (trackers dst)) := by
  induction times with
  | zero =>
      exact (Function.update_eq_self dst trackers).symm
  | succ times inductionHypothesis =>
      rw [Function.iterate_succ_apply', inductionHypothesis,
        Function.iterate_succ_apply', recordAt, Function.update_self,
        Function.update_idem]

/-- The loops change the first tracker only, by what the second one holds. -/
theorem mergeLatencyTrackers_eq
    {dst src : κ} (different : dst ≠ src)
    (trackers : κ → LatencyTracker) :
    mergeLatencyTrackers dst src trackers =
      Function.update trackers dst
        ((List.finRange numBuckets).foldl
          (fun current bucket =>
            current.replay bucket ((trackers src).rawBucket bucket))
          (trackers dst)) := by
  rw [mergeLatencyTrackers]
  generalize List.finRange numBuckets = buckets
  induction buckets generalizing trackers with
  | nil =>
      exact (Function.update_eq_self dst trackers).symm
  | cons bucket buckets inductionHypothesis =>
      have source :
          mergeBucket dst src trackers bucket src = trackers src := by
        rw [mergeBucket, recordAt_iterate,
          Function.update_of_ne different.symm]
      have target :
          mergeBucket dst src trackers bucket dst =
            (trackers dst).replay bucket
              ((trackers src).rawBucket bucket) := by
        rw [mergeBucket, recordAt_iterate, Function.update_self, replay]
      rw [List.foldl_cons, inductionHypothesis, source, target,
        List.foldl_cons, mergeBucket, recordAt_iterate,
        Function.update_idem]

theorem record_buckets
    (tracker : LatencyTracker) (latencyNs : UInt64)
    (bucket : Fin numBuckets) :
    (tracker.record latencyNs).buckets bucket =
      tracker.buckets bucket +
        if bucket = bucketFor latencyNs then 1 else 0 := by
  simp only [record, Function.update_apply]
  split
  · rename_i same
    rw [same]
  · exact (UInt64.add_zero _).symm

theorem record_count (tracker : LatencyTracker) (latencyNs : UInt64) :
    (tracker.record latencyNs).count = tracker.count + 1 :=
  rfl

theorem replay_buckets
    (tracker : LatencyTracker) (bucket : Fin numBuckets) (cnt : UInt64)
    (other : Fin numBuckets) :
    (tracker.replay bucket cnt).buckets other =
      tracker.buckets other + if other = bucket then cnt else 0 := by
  have repeated (times : Nat) :
      ((fun current => record current (mergedValue bucket))^[times]
          tracker).buckets other =
        tracker.buckets other +
          if other = bucket then UInt64.ofNat times else 0 := by
    induction times with
    | zero =>
        simp
    | succ times inductionHypothesis =>
        rw [Function.iterate_succ_apply', record_buckets,
          inductionHypothesis, bucketFor_mergedValue, UInt64.add_assoc]
        by_cases same : other = bucket
        · simp only [if_pos same, UInt64.ofNat_add]
          rfl
        · simp [same]
  rw [replay, repeated, UInt64.ofNat_toNat]

theorem replay_count
    (tracker : LatencyTracker) (bucket : Fin numBuckets) (cnt : UInt64) :
    (tracker.replay bucket cnt).count = tracker.count + cnt := by
  have repeated (times : Nat) :
      ((fun current => record current (mergedValue bucket))^[times]
          tracker).count =
        tracker.count + UInt64.ofNat times := by
    induction times with
    | zero =>
        simp
    | succ times inductionHypothesis =>
        rw [Function.iterate_succ_apply', record_count,
          inductionHypothesis, UInt64.ofNat_add, UInt64.add_assoc]
        rfl
  rw [replay, repeated, UInt64.ofNat_toNat]

/-! ## Histograms -/

/-- The number of samples is found in the buckets again. -/
def Consistent (tracker : LatencyTracker) : Prop :=
  tracker.count = ∑ bucket, tracker.buckets bucket

theorem Consistent.record
    {tracker : LatencyTracker} (consistent : tracker.Consistent)
    (latencyNs : UInt64) :
    (tracker.record latencyNs).Consistent := by
  rw [Consistent] at consistent ⊢
  rw [record_count]
  simp only [record_buckets]
  rw [Finset.sum_add_distrib, consistent, Finset.sum_ite_eq']
  simp

theorem consistent_recordAll (samples : List UInt64) :
    (recordAll samples).Consistent := by
  have start : initial.Consistent := by
    simp [Consistent, initial]
  rw [recordAll]
  generalize initial = tracker at start
  induction samples generalizing tracker with
  | nil =>
      exact start
  | cons sample samples inductionHypothesis =>
      exact inductionHypothesis _ (start.record sample)

/-- What the loops add to a tracker. -/
theorem merged_counts
    {dst src : κ} (different : dst ≠ src)
    (trackers : κ → LatencyTracker) :
    (∀ bucket,
        (mergeLatencyTrackers dst src trackers dst).buckets bucket =
          (trackers dst).buckets bucket +
            (trackers src).buckets bucket) ∧
      (mergeLatencyTrackers dst src trackers dst).count =
        (trackers dst).count +
          ∑ bucket, (trackers src).buckets bucket := by
  rw [mergeLatencyTrackers_eq different, Function.update_self]
  have passes (buckets : List (Fin numBuckets)) (distinct : buckets.Nodup)
      (current : LatencyTracker) :
      (∀ bucket,
          (buckets.foldl (fun current bucket =>
            current.replay bucket ((trackers src).rawBucket bucket))
            current).buckets bucket =
          current.buckets bucket +
            if bucket ∈ buckets then
              (trackers src).buckets bucket
            else
              0) ∧
        (buckets.foldl (fun current bucket =>
          current.replay bucket ((trackers src).rawBucket bucket))
          current).count =
        current.count +
          (buckets.map (trackers src).buckets).sum := by
    induction buckets generalizing current with
    | nil =>
        simp
    | cons first buckets inductionHypothesis =>
        obtain ⟨fresh, rest⟩ := List.nodup_cons.mp distinct
        obtain ⟨found, counted⟩ :=
          inductionHypothesis rest
            (current.replay first ((trackers src).rawBucket first))
        constructor
        · intro bucket
          rw [List.foldl_cons, found, replay_buckets, UInt64.add_assoc]
          by_cases same : bucket = first
          · subst bucket
            simp [fresh, rawBucket]
          · simp [same]
        · rw [List.foldl_cons, counted, replay_count, List.map_cons,
            List.sum_cons, UInt64.add_assoc]
          rfl
  obtain ⟨found, counted⟩ :=
    passes (List.finRange numBuckets) (List.nodup_finRange numBuckets)
      (trackers dst)
  refine ⟨?_, ?_⟩
  · intro bucket
    rw [found, if_pos (List.mem_finRange bucket)]
  · rw [counted, ← List.ofFn_eq_map, List.sum_ofFn]

/-- Two trackers with the same buckets, and the same statistics apart from the
extremes and the mean. -/
structure SameHistogram (first second : LatencyTracker) : Prop where
  buckets : ∀ bucket, first.rawBucket bucket = second.rawBucket bucket
  sampleCount :
    first.getStats.sampleCount = second.getStats.sampleCount
  percentiles :
    ∀ percentile : Percentile,
      percentile.value first.getStats = percentile.value second.getStats

theorem sameHistogram_of_counts
    {first second : LatencyTracker}
    (buckets : ∀ bucket, first.buckets bucket = second.buckets bucket)
    (count : first.count = second.count) :
    SameHistogram first second where
  buckets := buckets
  sampleCount := by
    rw [getStats_sampleCount, getStats_sampleCount, count]
  percentiles := by
    intro percentile
    have same : first.buckets = second.buckets := funext buckets
    by_cases zero : second.count = 0
    · rw [getStats, getStats, count, if_pos zero, if_pos zero]
    · have scan :
          first.scanBucket first.count =
            second.scanBucket second.count := by
        funext scan bucket
        rw [scanBucket, scanBucket, same, count]
      rw [percentile.value_getStats (count ▸ zero),
        percentile.value_getStats zero, scan]

/-- The buckets and the number of samples are those of a new tracker after a
call of `record` for each of the samples. -/
structure Holds (tracker : LatencyTracker) (samples : List UInt64) :
    Prop where
  buckets :
    ∀ bucket, tracker.buckets bucket = (recordAll samples).buckets bucket
  count : tracker.count = (recordAll samples).count

theorem holds_recordAll (samples : List UInt64) :
    (recordAll samples).Holds samples :=
  ⟨fun _ => rfl, rfl⟩

/-- A call of `merge_latency_trackers` adds the samples of its source. -/
theorem Holds.merge
    {dst src : κ} (different : dst ≠ src)
    {trackers : κ → LatencyTracker} {xs ys : List UInt64}
    (target : (trackers dst).Holds xs)
    (source : (trackers src).Holds ys) :
    (mergeLatencyTrackers dst src trackers dst).Holds (xs ++ ys) := by
  obtain ⟨buckets, count⟩ := merged_counts different trackers
  constructor
  · intro bucket
    rw [buckets, target.buckets, source.buckets, recordAll_buckets,
      recordAll_buckets, recordAll_buckets, List.countP_append,
      UInt64.ofNat_add]
  · have found :
        ∑ bucket, (trackers src).buckets bucket =
          (recordAll ys).count := by
      rw [consistent_recordAll ys]
      exact Finset.sum_congr rfl fun bucket _ => source.buckets bucket
    rw [count, target.count, found, recordAll_count, recordAll_count,
      recordAll_count, List.length_append, UInt64.ofNat_add]

theorem mergeLatencyTrackers_other
    {dst src : κ} (different : dst ≠ src)
    (trackers : κ → LatencyTracker) {other : κ} (apart : other ≠ dst) :
    mergeLatencyTrackers dst src trackers other = trackers other := by
  rw [mergeLatencyTrackers_eq different, Function.update_of_ne apart]

/-- Only which samples were recorded matters, not their order. -/
theorem Holds.same
    {first second : LatencyTracker} {xs ys : List UInt64}
    (left : first.Holds xs) (right : second.Holds ys)
    (reordered : xs.Perm ys) :
    SameHistogram first second := by
  have equal : recordAll xs = recordAll ys := by
    rw [recordAll_eq_tally, recordAll_eq_tally,
      Multiset.coe_eq_coe.mpr reordered]
  apply sameHistogram_of_counts
  · intro bucket
    rw [left.buckets, right.buckets, equal]
  · rw [left.count, right.count, equal]

/-- Merging two trackers equals recording all samples in one, leaves every
other tracker as it is, and neither the order nor the grouping of merges
matters. -/
theorem mergeLatencyTrackers_recordsTogether
    (samples : κ → List UInt64) {dst src : κ} (different : dst ≠ src) :
    let trackers : κ → LatencyTracker :=
      fun tracker => recordAll (samples tracker)
    let merged := mergeLatencyTrackers dst src trackers
    SameHistogram (merged dst) (recordAll (samples dst ++ samples src)) ∧
      (∀ other, other ≠ dst → merged other = trackers other) ∧
      SameHistogram (merged dst)
        (mergeLatencyTrackers src dst trackers src) ∧
      ∀ third, third ≠ dst → third ≠ src →
        SameHistogram (mergeLatencyTrackers dst third merged dst)
          (mergeLatencyTrackers dst src
            (mergeLatencyTrackers src third trackers) dst) := by
  intro trackers merged
  have recorded (tracker : κ) : (trackers tracker).Holds (samples tracker) :=
    holds_recordAll (samples tracker)
  have together : (merged dst).Holds (samples dst ++ samples src) :=
    Holds.merge different (recorded dst) (recorded src)
  refine ⟨together.same (holds_recordAll _) (List.Perm.refl _), ?_, ?_,
    ?_⟩
  · intro other apart
    exact mergeLatencyTrackers_other different trackers apart
  · have reversed :=
      Holds.merge different.symm (recorded src) (recorded dst)
    exact together.same reversed List.perm_append_comm
  · intro third notDst notSrc
    have thirdKept : (merged third).Holds (samples third) := by
      rw [show merged third = trackers third from
        mergeLatencyTrackers_other different trackers notDst]
      exact recorded third
    have left := Holds.merge notDst.symm together thirdKept
    have inner := Holds.merge notSrc.symm (recorded src) (recorded third)
    have dstKept :
        (mergeLatencyTrackers src third trackers dst).Holds
          (samples dst) := by
      rw [mergeLatencyTrackers_other notSrc.symm trackers different]
      exact recorded dst
    have right := Holds.merge different dstKept inner
    apply left.same right
    rw [List.append_assoc]

/-- Three trackers, the samples of two of them in the end buckets. -/
theorem mergeLatencyTrackers_recordsTogether_three :
    let samples : Fin 3 → List UInt64 :=
      fun tracker =>
        if tracker = 0 then [0, 1000] else
          if tracker = 1 then [0xffffffffffffffff] else [7]
    let trackers := fun tracker => recordAll (samples tracker)
    let merged := mergeLatencyTrackers 0 1 trackers 0
    SameHistogram merged (recordAll [0, 1000, 0xffffffffffffffff]) ∧
      merged.getStats.sampleCount = 3 ∧
      merged.getStats.p50Ns = 1 ∧
      merged.getStats.p999Ns = 512 := by
  intro samples trackers merged
  have different : (0 : Fin 3) ≠ 1 := by
    decide
  have same : SameHistogram merged (recordAll _) :=
    (mergeLatencyTrackers_recordsTogether samples different).1
  refine ⟨same, same.sampleCount.trans ?_,
    (same.percentiles .p50).trans ?_, (same.percentiles .p999).trans ?_⟩
  · decide +kernel
  · decide +kernel
  · decide +kernel

end LatencyTracker

end MarketDataHandler
