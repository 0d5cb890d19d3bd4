import MarketDataHandler.Client.LatencySummary
import MarketDataHandler.Client.MergeTrackers

/-!
# The extremes of merged trackers

A merge records a value for each bucket of its source, not the samples, so the
extremes are those of the target's samples and of these values.  They are the
extremes of all samples only where such a value does not lie further out and,
if the source has the extreme sample, is that sample.
-/

namespace MarketDataHandler

open LatencyTracker (bucketFor mergedValue record recordAll
  mergeLatencyTrackers mergeLatencyTrackers_eq)

/-- The value that is recorded for a sample of the source. -/
def standIn (sample : UInt64) : UInt64 :=
  mergedValue (bucketFor sample)

/-- A value is recorded for the sample: the count of its bucket, modulo 2^64,
is not zero. -/
def Replayed (samples : List UInt64) (sample : UInt64) : Prop :=
  sample ∈ samples ∧
    (samples.countP fun other => bucketFor other = bucketFor sample) %
        2 ^ 64 ≠ 0

/-- The least sample of all is in the target, or stands for itself, and no
value is below. -/
def LeastKept (xs ys : List UInt64) : Prop :=
  ∃ least,
    IsLeast { sample | sample ∈ xs ++ ys } least ∧
      (least ∈ xs ∨ (Replayed ys least ∧ standIn least = least)) ∧
      ∀ sample, Replayed ys sample → least ≤ standIn sample

/-- The greatest sample of all is in the target, or stands for itself, and no
value is above. -/
def GreatestKept (xs ys : List UInt64) : Prop :=
  ∃ greatest,
    IsGreatest { sample | sample ∈ xs ++ ys } greatest ∧
      (greatest ∈ xs ∨ (Replayed ys greatest ∧ standIn greatest = greatest)) ∧
      ∀ sample, Replayed ys sample → standIn sample ≤ greatest

/-- What the extremes are after a merge, and when they are those of all
samples. -/
structure ExtremesMerged (xs ys : List UInt64) (merged : LatencyTracker) :
    Prop where
  least :
    IsLeast
      { value | value ∈ xs ∨ ∃ sample, Replayed ys sample ∧
        standIn sample = value } merged.minNs
  greatest :
    IsGreatest
      { value | value ∈ xs ∨ ∃ sample, Replayed ys sample ∧
        standIn sample = value } merged.maxNs
  leastKept :
    IsLeast { sample | sample ∈ xs ++ ys } merged.minNs ↔ LeastKept xs ys
  greatestKept :
    IsGreatest { sample | sample ∈ xs ++ ys } merged.maxNs ↔
      GreatestKept xs ys

/-! ## The recorded values -/

/-- The values in the order in which the loops record them. -/
def replayedValues (tracker : LatencyTracker) : List UInt64 :=
  (List.finRange numBuckets).flatMap fun bucket =>
    List.replicate (tracker.rawBucket bucket).toNat (mergedValue bucket)

theorem record_iterate
    (latencyNs : UInt64) (times : Nat) (tracker : LatencyTracker) :
    (fun current => record current latencyNs)^[times] tracker =
      (List.replicate times latencyNs).foldl record tracker := by
  induction times generalizing tracker with
  | zero =>
      rfl
  | succ times inductionHypothesis =>
      rw [Function.iterate_succ_apply, inductionHypothesis,
        List.replicate_succ, List.foldl_cons]

/-- A merge is a sequence of calls of `record` on its target. -/
theorem merge_eq_recordAll
    {κ : Type*} [DecidableEq κ] {dst src : κ} (different : dst ≠ src)
    {trackers : κ → LatencyTracker} {xs : List UInt64}
    (target : trackers dst = recordAll xs) :
    mergeLatencyTrackers dst src trackers dst =
      recordAll (xs ++ replayedValues (trackers src)) := by
  have passes (buckets : List (Fin numBuckets)) (current : LatencyTracker) :
      buckets.foldl
          (fun current bucket =>
            current.replay bucket ((trackers src).rawBucket bucket))
          current =
        (buckets.flatMap fun bucket =>
          List.replicate ((trackers src).rawBucket bucket).toNat
            (mergedValue bucket)).foldl record current := by
    induction buckets generalizing current with
    | nil =>
        rfl
    | cons bucket buckets inductionHypothesis =>
        rw [List.foldl_cons, inductionHypothesis, List.flatMap_cons,
          List.foldl_append, LatencyTracker.replay, record_iterate]
  rw [mergeLatencyTrackers_eq different, Function.update_self, passes,
    target, recordAll, recordAll, List.foldl_append]
  rfl

theorem mem_replayedValues_iff (ys : List UInt64) (value : UInt64) :
    value ∈ replayedValues (recordAll ys) ↔
      ∃ sample, Replayed ys sample ∧ standIn sample = value := by
  have counted (bucket : Fin numBuckets) :
      ((recordAll ys).rawBucket bucket).toNat =
        (ys.countP fun sample => bucketFor sample = bucket) % 2 ^ 64 := by
    rw [LatencyTracker.rawBucket, LatencyTracker.recordAll_buckets,
      UInt64.toNat_ofNat']
  rw [replayedValues, List.mem_flatMap]
  constructor
  · intro found
    obtain ⟨bucket, _, member⟩ := found
    obtain ⟨some_, same⟩ := List.mem_replicate.mp member
    rw [counted] at some_
    have occupied :
        0 < ys.countP fun sample => bucketFor sample = bucket := by
      by_contra empty
      rw [Nat.eq_zero_of_not_pos empty] at some_
      exact some_ rfl
    obtain ⟨sample, inside, here⟩ := List.countP_pos_iff.mp occupied
    rw [decide_eq_true_eq] at here
    refine ⟨sample, ⟨inside, ?_⟩, ?_⟩
    · rw [here]
      exact some_
    · rw [standIn, here, same]
  · intro found
    obtain ⟨sample, replayed, same⟩ := found
    refine ⟨bucketFor sample, List.mem_finRange _, ?_⟩
    rw [List.mem_replicate, counted]
    exact ⟨replayed.2, same.symm⟩

/-! ## The extremes -/

theorem standIn_standIn (sample : UInt64) :
    standIn (standIn sample) = standIn sample := by
  rw [standIn, standIn, LatencyTracker.bucketFor_mergedValue]

/-- Whether a value is recorded depends on the bucket only. -/
theorem Replayed.standIn_of_mem
    {samples : List UInt64} {sample : UInt64}
    (replayed : Replayed samples sample)
    (member : standIn sample ∈ samples) :
    Replayed samples (standIn sample) := by
  refine ⟨member, ?_⟩
  rw [standIn, LatencyTracker.bucketFor_mergedValue]
  exact replayed.2

section Kept

variable {xs ys : List UInt64} {extreme : UInt64}

/-- The argument for both extremes: what is extreme among the target's samples
and the recorded values is so among all samples. -/
theorem kept_iff
    {before : UInt64 → UInt64 → Prop}
    (antisymm :
      ∀ first second, before first second → before second first →
        first = second)
    (merged :
      (extreme ∈ xs ∨ ∃ sample, Replayed ys sample ∧
          standIn sample = extreme) ∧
        ∀ value, (value ∈ xs ∨ ∃ sample, Replayed ys sample ∧
          standIn sample = value) → before extreme value) :
    (extreme ∈ xs ++ ys ∧
        ∀ sample, sample ∈ xs ++ ys → before extreme sample) ↔
      ∃ other,
        (other ∈ xs ++ ys ∧
            ∀ sample, sample ∈ xs ++ ys → before other sample) ∧
          (other ∈ xs ∨ (Replayed ys other ∧ standIn other = other)) ∧
          ∀ sample, Replayed ys sample → before other (standIn sample) := by
  constructor
  · intro all
    refine ⟨extreme, all, ?_, ?_⟩
    · rcases merged.1 with inTarget | ⟨sample, replayed, same⟩
      · exact Or.inl inTarget
      · rcases List.mem_append.mp all.1 with inTarget | inSource
        · exact Or.inl inTarget
        · -- A recorded value belongs to the bucket that it stands for.
          subst same
          exact Or.inr ⟨replayed.standIn_of_mem inSource,
            standIn_standIn sample⟩
    · intro sample replayed
      exact merged.2 _ (Or.inr ⟨sample, replayed, rfl⟩)
  · intro kept
    obtain ⟨other, all, found, recorded⟩ := kept
    have same : extreme = other := by
      apply antisymm
      · apply merged.2
        rcases found with inTarget | ⟨replayed, itself⟩
        · exact Or.inl inTarget
        · exact Or.inr ⟨other, replayed, itself⟩
      · rcases merged.1 with inTarget | ⟨sample, replayed, here⟩
        · exact all.2 _ (List.mem_append_left ys inTarget)
        · rw [← here]
          exact recorded sample replayed
    rw [same]
    exact all

theorem leastKept_iff
    (merged :
      IsLeast
        { value | value ∈ xs ∨ ∃ sample, Replayed ys sample ∧
          standIn sample = value } extreme) :
    IsLeast { sample | sample ∈ xs ++ ys } extreme ↔ LeastKept xs ys :=
  kept_iff (fun _ _ => UInt64.le_antisymm) merged

theorem greatestKept_iff
    (merged :
      IsGreatest
        { value | value ∈ xs ∨ ∃ sample, Replayed ys sample ∧
          standIn sample = value } extreme) :
    IsGreatest { sample | sample ∈ xs ++ ys } extreme ↔
      GreatestKept xs ys :=
  kept_iff (fun _ _ below above => UInt64.le_antisymm above below) merged

end Kept

/-- The extremes after a merge are those of the target's samples and of the
values that were recorded for the source's.  The statistics show them unless
the number of samples wrapped to zero. -/
theorem mergeLatencyTrackers_extremes
    {κ : Type*} [DecidableEq κ] {dst src : κ} (different : dst ≠ src)
    {trackers : κ → LatencyTracker} {xs ys : List UInt64}
    (target : trackers dst = recordAll xs) (someTarget : xs ≠ [])
    (source : trackers src = recordAll ys) :
    let merged := mergeLatencyTrackers dst src trackers dst
    let st := merged.getStats
    ExtremesMerged xs ys merged ∧
      if (xs.length + ys.length) % 2 ^ 64 = 0 then
        st.minNs = 0 ∧ st.maxNs = 0
      else
        st.minNs = merged.minNs ∧ st.maxNs = merged.maxNs := by
  intro merged st
  have same : merged = recordAll (xs ++ replayedValues (recordAll ys)) := by
    rw [← source]
    exact merge_eq_recordAll different target
  have recorded : xs ++ replayedValues (recordAll ys) ≠ [] :=
    List.append_ne_nil_of_left_ne_nil someTarget _
  have values :
      { value | value ∈ xs ++ replayedValues (recordAll ys) } =
        { value | value ∈ xs ∨ ∃ sample, Replayed ys sample ∧
          standIn sample = value } := by
    ext value
    rw [Set.mem_ofPred_eq, List.mem_append, mem_replayedValues_iff,
      Set.mem_ofPred_eq]
  have least := LatencyTracker.recordAll_minNs recorded
  have greatest := LatencyTracker.recordAll_maxNs recorded
  rw [values, ← same] at least greatest
  have empty_iff :
      merged.count = 0 ↔ (xs.length + ys.length) % 2 ^ 64 = 0 := by
    have together :=
      LatencyTracker.Holds.merge different
        (target ▸ LatencyTracker.holds_recordAll xs)
        (source ▸ LatencyTracker.holds_recordAll ys)
    rw [together.count, LatencyTracker.recordAll_count_eq_zero_iff,
      List.length_append]
  refine ⟨⟨least, greatest, leastKept_iff least, greatestKept_iff greatest⟩,
    ?_⟩
  split
  · rename_i wrapped
    simp only [st, LatencyTracker.getStats,
      if_pos (empty_iff.mpr wrapped), and_self]
  · rename_i counts
    simp only [st, LatencyTracker.getStats,
      if_neg (empty_iff.not.mpr counts), and_self]

/-- A source whose sample is a power of two: the least sample is kept. -/
theorem mergeLatencyTrackers_extremes_power :
    let trackers : Bool → LatencyTracker :=
      fun tracker => if tracker then recordAll [512] else recordAll [1000]
    (mergeLatencyTrackers false true trackers false).getStats.minNs =
        512 ∧
      ExtremesMerged [1000] [512]
        (mergeLatencyTrackers false true trackers false) := by
  intro trackers
  have different : false ≠ true := by
    decide
  have merged :=
    mergeLatencyTrackers_extremes different
      (show trackers false = recordAll [1000] from rfl) (by simp)
      (show trackers true = recordAll [512] from rfl)
  refine ⟨?_, merged.1⟩
  decide +kernel

/-- Samples of 600 and of 1000 in the two trackers: the extremes are then 512
and 600. -/
theorem mergeLatencyTrackers_loses_extremes :
    let trackers : Bool → LatencyTracker :=
      fun tracker => if tracker then recordAll [1000] else recordAll [600]
    let st := (mergeLatencyTrackers false true trackers false).getStats
    ¬ IsLeast { sample | sample ∈ [600] ++ [1000] } st.minNs ∧
      ¬ IsGreatest { sample | sample ∈ [600] ++ [1000] } st.maxNs := by
  intro trackers st
  have values : st.minNs = 512 ∧ st.maxNs = 600 := by
    decide +kernel
  constructor
  · intro least
    have member := least.1
    rw [values.1] at member
    revert member
    decide
  · intro greatest
    have above : (1000 : UInt64) ≤ st.maxNs := greatest.2 (by decide)
    rw [values.2] at above
    revert above
    decide

end MarketDataHandler
