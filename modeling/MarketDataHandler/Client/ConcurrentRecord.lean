import MarketDataHandler.Client.LatencyTracker
import MarketDataHandler.Lib.Interleaving
import Mathlib.Algebra.BigOperators.Fin
import Mathlib.Algebra.BigOperators.Group.Multiset.Basic
import Mathlib.Algebra.Order.Group.Multiset
import Mathlib.Order.Bounds.Defs

/-!
# Concurrent recording

`LatencyTracker::record` by any number of threads, as a sequentially
consistent interleaving of its atomic operations.  A call updates five members
one after the other: a bucket, the two extremes with loops of weak
compare-exchanges, the sum and the number of samples.  The test of such a loop
is taken together with the load or the failed exchange in front of it, which
set the value that it tests.

All updates commute, so a run whose calls have all finished leaves what
recording the samples one by one, in whatever order, leaves.
-/

namespace MarketDataHandler

open Interleaving

/-! ## The updates of one call -/

/-- The member that an operation of `record` updates. -/
inductive TrackerCell where
  | bucket
  | min
  | max
  | sum
  | count
  deriving DecidableEq, Repr

structure TrackerUpdate where
  cell : TrackerCell
  sample : UInt64
  deriving DecidableEq, Repr

namespace LatencyTracker

/-- One member is updated for a sample. -/
def perform (tracker : LatencyTracker) (update : TrackerUpdate) :
    LatencyTracker :=
  match update.cell with
  | .bucket =>
      { tracker with
        buckets :=
          Function.update tracker.buckets (bucketFor update.sample)
            (tracker.buckets (bucketFor update.sample) + 1) }
  | .min =>
      { tracker with
        minNs :=
          if update.sample < tracker.minNs then
            update.sample
          else
            tracker.minNs }
  | .max =>
      { tracker with
        maxNs :=
          if tracker.maxNs < update.sample then
            update.sample
          else
            tracker.maxNs }
  | .sum => { tracker with sum := tracker.sum + update.sample }
  | .count => { tracker with count := tracker.count + 1 }

instance : RightCommutative perform where
  right_comm := by
    rintro tracker ⟨first, left⟩ ⟨second, right⟩
    cases first <;> cases second <;> try rfl
    · have same (bucket : Fin numBuckets) :
          Function.update
              (Function.update tracker.buckets (bucketFor left)
                (tracker.buckets (bucketFor left) + 1))
              (bucketFor right)
              (Function.update tracker.buckets (bucketFor left)
                (tracker.buckets (bucketFor left) + 1)
                (bucketFor right) + 1) bucket =
            Function.update
              (Function.update tracker.buckets (bucketFor right)
                (tracker.buckets (bucketFor right) + 1))
              (bucketFor left)
              (Function.update tracker.buckets (bucketFor right)
                (tracker.buckets (bucketFor right) + 1)
                (bucketFor left) + 1) bucket := by
        simp only [Function.update_apply]
        grind
      simp only [perform]
      exact congrArg (fun buckets => { tracker with buckets := buckets })
        (funext same)
    · simp only [perform, mk.injEq, true_and, and_true]
      grind
    · simp only [perform, mk.injEq, true_and, and_true]
      grind
    · simp only [perform, mk.injEq, true_and, and_true]
      grind

/-- The updates of a call, in the order of the source. -/
def updatesOf (sample : UInt64) : List TrackerUpdate :=
  [⟨.bucket, sample⟩, ⟨.min, sample⟩, ⟨.max, sample⟩, ⟨.sum, sample⟩,
    ⟨.count, sample⟩]

theorem record_eq_perform (tracker : LatencyTracker) (sample : UInt64) :
    tracker.record sample = (updatesOf sample).foldl perform tracker :=
  rfl

end LatencyTracker

/-! ## The threads -/

/-- Where a recording thread is.  A thread in front of an exchange has found
that its sample improves the value it loaded. -/
inductive RecordPc where
  /-- In front of the next call. -/
  | ready
  | loadMin (latencyNs : UInt64)
  | exchangeMin (latencyNs oldMin : UInt64) (below : latencyNs < oldMin)
  | loadMax (latencyNs : UInt64)
  | exchangeMax (latencyNs oldMax : UInt64) (above : oldMax < latencyNs)
  | addSum (latencyNs : UInt64)
  | addCount (latencyNs : UInt64)
  deriving DecidableEq

/-- A thread and the samples of its calls that have not started. -/
structure Recorder where
  pc : RecordPc
  samples : List UInt64
  deriving DecidableEq

/-- The test of the first loop. -/
def minTest (latencyNs oldMin : UInt64) : RecordPc :=
  if below : latencyNs < oldMin then
    .exchangeMin latencyNs oldMin below
  else
    .loadMax latencyNs

/-- The test of the second loop. -/
def maxTest (latencyNs oldMax : UInt64) : RecordPc :=
  if above : oldMax < latencyNs then
    .exchangeMax latencyNs oldMax above
  else
    .addSum latencyNs

namespace Recorder

/-- One atomic operation; the input says whether an exchange fails
spuriously. -/
def step (spurious : Bool) (tracker : LatencyTracker)
    (recorder : Recorder) : LatencyTracker × Recorder :=
  match recorder.pc with
  | .ready =>
      match recorder.samples with
      | [] => (tracker, recorder)
      | latencyNs :: samples =>
          let bucket := LatencyTracker.bucketFor latencyNs
          ({ tracker with
              buckets :=
                Function.update tracker.buckets bucket
                  (tracker.buckets bucket + 1) },
            { pc := .loadMin latencyNs
              samples := samples })
  | .loadMin latencyNs =>
      (tracker, { recorder with pc := minTest latencyNs tracker.minNs })
  | .exchangeMin latencyNs oldMin _ =>
      match compareExchangeWeak tracker.minNs oldMin latencyNs
          spurious with
      | (cell, none) =>
          ({ tracker with minNs := cell },
            { recorder with pc := .loadMax latencyNs })
      | (cell, some found) =>
          ({ tracker with minNs := cell },
            { recorder with pc := minTest latencyNs found })
  | .loadMax latencyNs =>
      (tracker, { recorder with pc := maxTest latencyNs tracker.maxNs })
  | .exchangeMax latencyNs oldMax _ =>
      match compareExchangeWeak tracker.maxNs oldMax latencyNs
          spurious with
      | (cell, none) =>
          ({ tracker with maxNs := cell },
            { recorder with pc := .addSum latencyNs })
      | (cell, some found) =>
          ({ tracker with maxNs := cell },
            { recorder with pc := maxTest latencyNs found })
  | .addSum latencyNs =>
      ({ tracker with sum := tracker.sum + latencyNs },
        { recorder with pc := .addCount latencyNs })
  | .addCount _ =>
      ({ tracker with count := tracker.count + 1 },
        { recorder with pc := .ready })

/-- All calls of the thread have returned. -/
def Finished (recorder : Recorder) : Prop :=
  recorder.pc = .ready ∧ recorder.samples = []

instance (recorder : Recorder) : Decidable recorder.Finished :=
  inferInstanceAs (Decidable (_ ∧ _))

end Recorder

/-- The updates that remain of the call in progress. -/
def RecordPc.pending : RecordPc → List TrackerUpdate
  | .ready => []
  | .loadMin latencyNs => (LatencyTracker.updatesOf latencyNs).drop 1
  | .exchangeMin latencyNs _ _ =>
      (LatencyTracker.updatesOf latencyNs).drop 1
  | .loadMax latencyNs => (LatencyTracker.updatesOf latencyNs).drop 2
  | .exchangeMax latencyNs _ _ =>
      (LatencyTracker.updatesOf latencyNs).drop 2
  | .addSum latencyNs => (LatencyTracker.updatesOf latencyNs).drop 3
  | .addCount latencyNs => (LatencyTracker.updatesOf latencyNs).drop 4

namespace Recorder

/-- The updates that a thread still has to perform. -/
def pending (recorder : Recorder) : Multiset TrackerUpdate :=
  ↑(recorder.pc.pending ++
    recorder.samples.flatMap LatencyTracker.updatesOf)

/-- A step that goes on to the next update has performed the first one. -/
theorem pending_cons
    {pc next : RecordPc} {update : TrackerUpdate}
    (split : pc.pending = update :: next.pending)
    (samples : List UInt64) :
    pending ⟨pc, samples⟩ = update ::ₘ pending ⟨next, samples⟩ := by
  rw [pending, pending, split]
  rfl

/-- A test of a loop that is left without an exchange has performed the
update, which changes nothing. -/
private def TestOutcome (tracker : LatencyTracker) (pc next : RecordPc) :
    Prop :=
  next.pending = pc.pending ∨
    ∃ update,
      pc.pending = update :: next.pending ∧
        tracker.perform update = tracker

private theorem minTest_outcome
    (tracker : LatencyTracker) {pc : RecordPc} {latencyNs : UInt64}
    (remaining :
      pc.pending = (LatencyTracker.updatesOf latencyNs).drop 1) :
    TestOutcome tracker pc (minTest latencyNs tracker.minNs) := by
  rw [TestOutcome, remaining, minTest]
  split
  · exact Or.inl rfl
  · rename_i noImprovement
    refine Or.inr ⟨⟨.min, latencyNs⟩, rfl, ?_⟩
    simp only [LatencyTracker.perform, if_neg noImprovement]

private theorem maxTest_outcome
    (tracker : LatencyTracker) {pc : RecordPc} {latencyNs : UInt64}
    (remaining :
      pc.pending = (LatencyTracker.updatesOf latencyNs).drop 2) :
    TestOutcome tracker pc (maxTest latencyNs tracker.maxNs) := by
  rw [TestOutcome, remaining, maxTest]
  split
  · exact Or.inl rfl
  · rename_i noImprovement
    refine Or.inr ⟨⟨.max, latencyNs⟩, rfl, ?_⟩
    simp only [LatencyTracker.perform, if_neg noImprovement]

private theorem TestOutcome.performs
    {tracker : LatencyTracker} {pc next : RecordPc}
    (outcome : TestOutcome tracker pc next) (samples : List UInt64) :
    (tracker = tracker ∧
        pending ⟨next, samples⟩ = pending ⟨pc, samples⟩) ∨
      ∃ update,
        pending ⟨pc, samples⟩ = update ::ₘ pending ⟨next, samples⟩ ∧
          tracker = tracker.perform update := by
  rcases outcome with retried | ⟨update, split, performed⟩
  · refine Or.inl ⟨rfl, ?_⟩
    rw [pending, pending, retried]
  · exact Or.inr ⟨update, pending_cons split samples, performed.symm⟩

theorem performsAtMostOne :
    PerformsAtMostOne step LatencyTracker.perform id pending := by
  rintro spurious tracker ⟨pc, samples⟩
  cases pc with
  | ready =>
      cases samples with
      | nil =>
          exact Or.inl ⟨rfl, rfl⟩
      | cons latencyNs samples =>
          exact Or.inr ⟨⟨.bucket, latencyNs⟩, rfl, rfl⟩
  | loadMin latencyNs =>
      exact (minTest_outcome tracker rfl).performs samples
  | exchangeMin latencyNs oldMin below =>
      simp only [step]
      rcases compareExchangeWeak_cases tracker.minNs oldMin latencyNs
        spurious with ⟨found, _, swapped⟩ | failed
      · rw [swapped]
        refine Or.inr
          ⟨⟨.min, latencyNs⟩, pending_cons rfl samples, ?_⟩
        simp only [id, LatencyTracker.perform, found, if_pos below]
      · rw [failed]
        exact (minTest_outcome tracker rfl).performs samples
  | loadMax latencyNs =>
      exact (maxTest_outcome tracker rfl).performs samples
  | exchangeMax latencyNs oldMax above =>
      simp only [step]
      rcases compareExchangeWeak_cases tracker.maxNs oldMax latencyNs
        spurious with ⟨found, _, swapped⟩ | failed
      · rw [swapped]
        refine Or.inr
          ⟨⟨.max, latencyNs⟩, pending_cons rfl samples, ?_⟩
        simp only [id, LatencyTracker.perform, found, if_pos above]
      · rw [failed]
        exact (maxTest_outcome tracker rfl).performs samples
  | addSum latencyNs =>
      exact Or.inr
        ⟨⟨.sum, latencyNs⟩, pending_cons rfl samples, rfl⟩
  | addCount latencyNs =>
      exact Or.inr
        ⟨⟨.count, latencyNs⟩, pending_cons rfl samples, rfl⟩

end Recorder

/-! ## What a collection of updates leaves -/

/-- The samples for which a member is updated. -/
def samplesOf (cell : TrackerCell) :
    Multiset TrackerUpdate →+ Multiset UInt64 where
  toFun := fun updates =>
    (updates.filter fun update => update.cell = cell).map
      TrackerUpdate.sample
  map_zero' := rfl
  map_add' := fun first second => by
    rw [Multiset.filter_add, Multiset.map_add]

theorem samplesOf_cons
    (cell : TrackerCell) (update : TrackerUpdate)
    (updates : Multiset TrackerUpdate) :
    samplesOf cell (update ::ₘ updates) =
      if update.cell = cell then
        update.sample ::ₘ samplesOf cell updates
      else
        samplesOf cell updates := by
  change Multiset.map _ (Multiset.filter _ _) = _
  split
  · rename_i same
    rw [Multiset.filter_cons_of_pos
        (p := fun other : TrackerUpdate => other.cell = cell) _ same,
      Multiset.map_cons]
    rfl
  · rename_i other
    rw [Multiset.filter_cons_of_neg
        (p := fun other : TrackerUpdate => other.cell = cell) _ other]
    rfl

namespace LatencyTracker

/-- The tracker after a collection of updates. -/
def tally (updates : Multiset TrackerUpdate) : LatencyTracker :=
  updates.foldl perform initial

theorem tally_cons
    (update : TrackerUpdate) (updates : Multiset TrackerUpdate) :
    tally (update ::ₘ updates) = (tally updates).perform update := by
  rw [tally, ← Multiset.singleton_add, add_comm, Multiset.foldl_add]
  rfl

theorem tally_count (updates : Multiset TrackerUpdate) :
    (tally updates).count =
      UInt64.ofNat (samplesOf .count updates).card := by
  induction updates using Multiset.induction with
  | empty =>
      rfl
  | cons update updates inductionHypothesis =>
      obtain ⟨cell, sample⟩ := update
      rw [tally_cons, samplesOf_cons]
      cases cell with
      | count =>
          rw [if_pos rfl, Multiset.card_cons, UInt64.ofNat_add,
            ← inductionHypothesis]
          rfl
      | _ =>
          exact inductionHypothesis

theorem tally_sum (updates : Multiset TrackerUpdate) :
    (tally updates).sum =
      UInt64.ofNat ((samplesOf .sum updates).map UInt64.toNat).sum := by
  induction updates using Multiset.induction with
  | empty =>
      rfl
  | cons update updates inductionHypothesis =>
      obtain ⟨cell, sample⟩ := update
      rw [tally_cons, samplesOf_cons]
      cases cell with
      | sum =>
          rw [if_pos rfl, Multiset.map_cons, Multiset.sum_cons, add_comm,
            UInt64.ofNat_add, ← inductionHypothesis, UInt64.ofNat_toNat]
          rfl
      | _ =>
          exact inductionHypothesis

theorem tally_buckets
    (updates : Multiset TrackerUpdate) (bucket : Fin numBuckets) :
    (tally updates).buckets bucket =
      UInt64.ofNat
        ((samplesOf .bucket updates).countP
          fun sample => bucketFor sample = bucket) := by
  induction updates using Multiset.induction with
  | empty =>
      rfl
  | cons update updates inductionHypothesis =>
      obtain ⟨cell, sample⟩ := update
      rw [tally_cons, samplesOf_cons]
      cases cell with
      | bucket =>
          rw [if_pos rfl, Multiset.countP_cons, UInt64.ofNat_add,
            ← inductionHypothesis]
          simp only [perform, Function.update_apply]
          by_cases same : bucketFor sample = bucket
          · subst bucket
            simp
          · simp [same, Ne.symm same]
      | _ =>
          exact inductionHypothesis

theorem tally_minNs_le
    {updates : Multiset TrackerUpdate} {sample : UInt64}
    (member : sample ∈ samplesOf .min updates) :
    (tally updates).minNs ≤ sample := by
  induction updates using Multiset.induction with
  | empty =>
      simp at member
  | cons update updates inductionHypothesis =>
      obtain ⟨cell, now⟩ := update
      rw [samplesOf_cons] at member
      rw [tally_cons]
      cases cell with
      | min =>
          rw [if_pos rfl, Multiset.mem_cons] at member
          simp only [perform]
          rcases member with rfl | earlier
          · grind
          · have below := inductionHypothesis earlier
            grind
      | _ =>
          exact inductionHypothesis member

theorem tally_minNs_cases (updates : Multiset TrackerUpdate) :
    (tally updates).minNs = initial.minNs ∨
      (tally updates).minNs ∈ samplesOf .min updates := by
  induction updates using Multiset.induction with
  | empty =>
      exact Or.inl rfl
  | cons update updates inductionHypothesis =>
      obtain ⟨cell, now⟩ := update
      rw [tally_cons, samplesOf_cons]
      cases cell with
      | min =>
          rw [if_pos rfl]
          simp only [perform]
          split
          · exact Or.inr (Multiset.mem_cons_self _ _)
          · exact inductionHypothesis.imp_right Multiset.mem_cons_of_mem
      | _ =>
          exact inductionHypothesis

theorem le_tally_maxNs
    {updates : Multiset TrackerUpdate} {sample : UInt64}
    (member : sample ∈ samplesOf .max updates) :
    sample ≤ (tally updates).maxNs := by
  induction updates using Multiset.induction with
  | empty =>
      simp at member
  | cons update updates inductionHypothesis =>
      obtain ⟨cell, now⟩ := update
      rw [samplesOf_cons] at member
      rw [tally_cons]
      cases cell with
      | max =>
          rw [if_pos rfl, Multiset.mem_cons] at member
          simp only [perform]
          rcases member with rfl | earlier
          · grind
          · have above := inductionHypothesis earlier
            grind
      | _ =>
          exact inductionHypothesis member

theorem tally_maxNs_cases (updates : Multiset TrackerUpdate) :
    (tally updates).maxNs = initial.maxNs ∨
      (tally updates).maxNs ∈ samplesOf .max updates := by
  induction updates using Multiset.induction with
  | empty =>
      exact Or.inl rfl
  | cons update updates inductionHypothesis =>
      obtain ⟨cell, now⟩ := update
      rw [tally_cons, samplesOf_cons]
      cases cell with
      | max =>
          rw [if_pos rfl]
          simp only [perform]
          split
          · exact Or.inr (Multiset.mem_cons_self _ _)
          · exact inductionHypothesis.imp_right Multiset.mem_cons_of_mem
      | _ =>
          exact inductionHypothesis

/-- The initial value of the minimum is the largest word, so it is the least
sample if there is any. -/
theorem tally_minNs_isLeast
    {updates : Multiset TrackerUpdate}
    (some : samplesOf .min updates ≠ 0) :
    IsLeast { sample | sample ∈ samplesOf .min updates }
      (tally updates).minNs := by
  refine ⟨?_, fun sample member => tally_minNs_le member⟩
  rcases tally_minNs_cases updates with untouched | member
  · obtain ⟨sample, member⟩ := Multiset.exists_mem_of_ne_zero some
    have below := tally_minNs_le member
    have largest : sample ≤ initial.minNs := by
      rw [UInt64.le_iff_toNat_le]
      exact Nat.le_of_lt_succ sample.toNat_lt
    have same : (tally updates).minNs = sample := by
      rw [untouched] at below ⊢
      exact UInt64.le_antisymm below largest
    rw [same]
    exact member
  · exact member

theorem tally_maxNs_isGreatest
    {updates : Multiset TrackerUpdate}
    (some : samplesOf .max updates ≠ 0) :
    IsGreatest { sample | sample ∈ samplesOf .max updates }
      (tally updates).maxNs := by
  refine ⟨?_, fun sample member => le_tally_maxNs member⟩
  rcases tally_maxNs_cases updates with untouched | member
  · obtain ⟨sample, member⟩ := Multiset.exists_mem_of_ne_zero some
    have above := le_tally_maxNs member
    have least : initial.maxNs ≤ sample := by
      rw [UInt64.le_iff_toNat_le]
      exact Nat.zero_le _
    have same : (tally updates).maxNs = sample := by
      rw [untouched] at above ⊢
      exact UInt64.le_antisymm least above
    rw [same]
    exact member
  · exact member

end LatencyTracker

/-! ## Recording threads -/

theorem samplesOf_updatesOf (cell : TrackerCell) (sample : UInt64) :
    samplesOf cell ↑(LatencyTracker.updatesOf sample) = {sample} := by
  cases cell <;> rfl

/-- The updates of the calls for some samples. -/
def updatesOfAll : Multiset UInt64 →+ Multiset TrackerUpdate where
  toFun := fun samples =>
    samples.bind fun sample => ↑(LatencyTracker.updatesOf sample)
  map_zero' := Multiset.zero_bind _
  map_add' := fun first second => Multiset.add_bind first second _

theorem updatesOfAll_coe (samples : List UInt64) :
    updatesOfAll ↑samples =
      ↑(samples.flatMap LatencyTracker.updatesOf) :=
  Multiset.coe_bind _ _

/-- Every call updates every member once. -/
theorem samplesOf_updatesOfAll
    (cell : TrackerCell) (samples : Multiset UInt64) :
    samplesOf cell (updatesOfAll samples) = samples := by
  induction samples using Multiset.induction with
  | empty =>
      rfl
  | cons sample samples inductionHypothesis =>
      have first :
          updatesOfAll {sample} = ↑(LatencyTracker.updatesOf sample) :=
        Multiset.singleton_bind _ _
      rw [← Multiset.singleton_add, map_add, map_add,
        inductionHypothesis, first, samplesOf_updatesOf]

/-- Recording one by one performs the updates of all calls. -/
theorem foldl_record (tracker : LatencyTracker) (samples : List UInt64) :
    samples.foldl LatencyTracker.record tracker =
      (samples.flatMap LatencyTracker.updatesOf).foldl
        LatencyTracker.perform tracker := by
  induction samples generalizing tracker with
  | nil =>
      rfl
  | cons sample samples inductionHypothesis =>
      rw [List.foldl_cons, inductionHypothesis, List.flatMap_cons,
        List.foldl_append, LatencyTracker.record_eq_perform]

/-- Recording the same samples in any order leaves the same tracker. -/
theorem tally_updatesOfAll (samples : List UInt64) :
    LatencyTracker.tally (updatesOfAll ↑samples) =
      samples.foldl LatencyTracker.record LatencyTracker.initial := by
  rw [foldl_record, updatesOfAll_coe]
  exact Multiset.coe_foldl _ _ _

/-- Each bucket counts its own samples. -/
theorem sum_countP_bucketFor (samples : Multiset UInt64) :
    ∑ bucket : Fin numBuckets,
        samples.countP
          (fun sample => LatencyTracker.bucketFor sample = bucket) =
      samples.card := by
  induction samples using Multiset.induction with
  | empty =>
      simp
  | cons sample samples inductionHypothesis =>
      simp only [Multiset.countP_cons, Finset.sum_add_distrib,
        inductionHypothesis, Multiset.card_cons, Finset.sum_ite_eq,
        Finset.mem_univ, if_true]

/-- A new tracker and the threads in front of their calls. -/
def recordStart {τ : Type*} (samples : τ → List UInt64) :
    Config τ LatencyTracker Recorder where
  shared := LatencyTracker.initial
  locals := fun thread =>
    { pc := .ready
      samples := samples thread }

section Threads

variable {τ : Type*} [DecidableEq τ] [Fintype τ]

/-- All samples of all threads. -/
def recorded (samples : τ → List UInt64) : Multiset UInt64 :=
  ∑ thread, (samples thread : Multiset UInt64)

/-- At every moment the tracker holds the updates that have been performed,
and the others are still to come. -/
theorem record_ledger
    (samples : τ → List UInt64) (schedule : List (τ × Bool)) :
    Ledger LatencyTracker.perform id Recorder.pending
      LatencyTracker.initial (updatesOfAll (recorded samples))
      (run Recorder.step (recordStart samples) schedule) := by
  have total :
      ∑ thread, ((recordStart samples).locals thread).pending =
        updatesOfAll (recorded samples) := by
    rw [recorded, map_sum]
    apply Finset.sum_congr rfl
    intro thread _
    rw [updatesOfAll_coe]
    rfl
  rw [← total]
  exact (Ledger.initially rfl).run Recorder.performsAtMostOne schedule

theorem Recorder.pending_finished
    {recorder : Recorder} (finished : recorder.Finished) :
    recorder.pending = 0 := by
  rw [Recorder.pending, finished.1, finished.2]
  rfl

/-- When all calls have returned, nothing is lost. -/
theorem record_finished
    {samples : τ → List UInt64} {schedule : List (τ × Bool)}
    (finished :
      ∀ thread,
        ((run Recorder.step (recordStart samples) schedule).locals
          thread).Finished) :
    (run Recorder.step (recordStart samples) schedule).shared =
      LatencyTracker.tally (updatesOfAll (recorded samples)) :=
  (record_ledger samples schedule).finished fun thread =>
    Recorder.pending_finished (finished thread)

/-- No update of concurrent calls of `record` is lost: once they have all
returned the tracker is the one that recording the samples one by one, in
whatever order, leaves. -/
theorem record_noLostUpdate
    (samples : τ → List UInt64) (schedule : List (τ × Bool))
    (finished :
      ∀ thread,
        ((run Recorder.step (recordStart samples) schedule).locals
          thread).Finished) :
    let final :=
      (run Recorder.step (recordStart samples) schedule).shared
    let all := recorded samples
    final.count = UInt64.ofNat all.card ∧
      (∀ bucket,
        final.buckets bucket =
          UInt64.ofNat
            (all.countP fun sample =>
              LatencyTracker.bucketFor sample = bucket)) ∧
      (all.card < 2 ^ 64 →
        ∑ bucket, (final.buckets bucket).toNat = all.card) ∧
      (all ≠ 0 →
        IsLeast { sample | sample ∈ all } final.minNs ∧
          IsGreatest { sample | sample ∈ all } final.maxNs) ∧
      final.sum = UInt64.ofNat (all.map UInt64.toNat).sum ∧
      ∀ order : List UInt64, ↑order = all →
        final =
            order.foldl LatencyTracker.record LatencyTracker.initial ∧
          final.getStats =
            (order.foldl LatencyTracker.record
              LatencyTracker.initial).getStats := by
  intro final all
  have tallied : final = LatencyTracker.tally (updatesOfAll all) :=
    record_finished finished
  have each (cell : TrackerCell) :
      samplesOf cell (updatesOfAll all) = all :=
    samplesOf_updatesOfAll cell all
  have buckets (bucket : Fin numBuckets) :
      final.buckets bucket =
        UInt64.ofNat
          (all.countP fun sample =>
            LatencyTracker.bucketFor sample = bucket) := by
    rw [tallied, LatencyTracker.tally_buckets, each]
  refine ⟨?_, buckets, ?_, ?_, ?_, ?_⟩
  · rw [tallied, LatencyTracker.tally_count, each]
  · intro small
    rw [← sum_countP_bucketFor all]
    apply Finset.sum_congr rfl
    intro bucket _
    rw [buckets, UInt64.toNat_ofNat']
    apply Nat.mod_eq_of_lt
    exact Nat.lt_of_le_of_lt (Multiset.countP_le_card _ _) small
  · intro some
    rw [tallied]
    have least :=
      @LatencyTracker.tally_minNs_isLeast (updatesOfAll all)
    have greatest :=
      @LatencyTracker.tally_maxNs_isGreatest (updatesOfAll all)
    rw [each] at least greatest
    exact ⟨least some, greatest some⟩
  · rw [tallied, LatencyTracker.tally_sum, each]
  · intro order same
    have sequential :
        final =
          order.foldl LatencyTracker.record LatencyTracker.initial := by
      rw [tallied, ← same, tally_updatesOfAll]
    exact ⟨sequential, congrArg LatencyTracker.getStats sequential⟩

end Threads

/-- Two calls whose loops meet: the smaller sample overtakes the larger one,
and one exchange fails spuriously. -/
def meetingSchedule : List (Bool × Bool) :=
  [(false, false), (false, false), (true, false), (true, false),
    (true, false), (false, false), (false, false), (true, false),
    (true, true), (false, false), (true, false), (false, false),
    (true, false), (false, false), (true, false)]

theorem record_noLostUpdate_two :
    let samples : Bool → List UInt64 :=
      fun thread => if thread then [3] else [5]
    let final :=
      (run Recorder.step (recordStart samples) meetingSchedule).shared
    final.count = 2 ∧ final.sum = 8 ∧
      final = [5, 3].foldl LatencyTracker.record LatencyTracker.initial ∧
      final.minNs = 3 ∧ final.maxNs = 5 := by
  intro samples final
  have all : recorded samples = ↑[(5 : UInt64), 3] := by
    decide +kernel
  obtain ⟨count, _, _, _, sum, sequential⟩ :=
    record_noLostUpdate samples meetingSchedule (by decide +kernel)
  rw [all] at count sum sequential
  obtain ⟨same, _⟩ := sequential [5, 3] rfl
  refine ⟨count, sum, same, ?_, ?_⟩
  · rw [show final = _ from same]
    decide +kernel
  · rw [show final = _ from same]
    decide +kernel

end MarketDataHandler
