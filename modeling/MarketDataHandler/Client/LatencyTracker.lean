import Mathlib.Data.Fin.Basic
import Mathlib.Logic.Function.Basic

/-!
# The latency tracker

`LatencyTracker` of `include/latency_tracker.h` as one thread sees it: a
histogram with a bucket for each power of two, the extremes, the sum and the
number of samples.
-/

namespace MarketDataHandler

def numBuckets : Nat := 64

structure LatencyTracker where
  buckets : Fin numBuckets → UInt64
  minNs : UInt64
  maxNs : UInt64
  sum : UInt64
  count : UInt64

structure LatencyStats where
  minNs : UInt64
  maxNs : UInt64
  meanNs : UInt64
  p50Ns : UInt64
  p95Ns : UInt64
  p99Ns : UInt64
  p999Ns : UInt64
  sampleCount : UInt64
  deriving DecidableEq, Repr

namespace LatencyTracker

/-- The constructor, and the state after `reset`. -/
def initial : LatencyTracker where
  buckets := fun _ => 0
  minNs := 0xffffffffffffffff
  maxNs := 0
  sum := 0
  count := 0

/-- The position of the highest bit that is set, zero for zero. -/
def bucketFor (ns : UInt64) : Fin numBuckets :=
  if ns = 0 then
    ⟨0, by decide⟩
  else if inside : Nat.log2 ns.toNat < numBuckets then
    ⟨Nat.log2 ns.toNat, inside⟩
  else
    ⟨numBuckets - 1, by decide⟩

def bucketUpperNs (bucket : Fin numBuckets) : UInt64 :=
  if bucket.val < 63 then
    1 <<< UInt64.ofNat bucket.val
  else
    0xffffffffffffffff

def record (tracker : LatencyTracker) (latencyNs : UInt64) :
    LatencyTracker where
  buckets :=
    Function.update tracker.buckets (bucketFor latencyNs)
      (tracker.buckets (bucketFor latencyNs) + 1)
  minNs :=
    if latencyNs < tracker.minNs then latencyNs else tracker.minNs
  maxNs :=
    if tracker.maxNs < latencyNs then latencyNs else tracker.maxNs
  sum := tracker.sum + latencyNs
  count := tracker.count + 1

/-- The local variables of the loop in `get_stats`.  A percentile that is not
done yet has no value. -/
structure PercentileScan where
  cumul : UInt64
  p50 : Option UInt64
  p95 : Option UInt64
  p99 : Option UInt64
  p999 : Option UInt64

/-- Set a percentile once the running total reaches its target. -/
def settle (done : Option UInt64) (cumul target upper : UInt64) :
    Option UInt64 :=
  if done.isNone && decide (target ≤ cumul) then some upper else done

/-- One pass of the loop in `get_stats`.  Once the last percentile is done the
loop has been left. -/
def scanBucket (tracker : LatencyTracker) (samples : UInt64)
    (scan : PercentileScan) (bucket : Fin numBuckets) : PercentileScan :=
  if scan.p999.isSome then
    scan
  else
    let cumul := scan.cumul + tracker.buckets bucket
    let upper := bucketUpperNs bucket
    { cumul := cumul
      p50 := settle scan.p50 cumul (samples / 2) upper
      p95 := settle scan.p95 cumul (samples * 95 / 100) upper
      p99 := settle scan.p99 cumul (samples * 99 / 100) upper
      p999 := settle scan.p999 cumul (samples * 999 / 1000) upper }

def getStats (tracker : LatencyTracker) : LatencyStats :=
  if tracker.count = 0 then
    ⟨0, 0, 0, 0, 0, 0, 0, 0⟩
  else
    let scan :=
      (List.finRange numBuckets).foldl
        (tracker.scanBucket tracker.count) ⟨0, none, none, none, none⟩
    { minNs := tracker.minNs
      maxNs := tracker.maxNs
      meanNs := tracker.sum / tracker.count
      p50Ns := scan.p50.getD 0
      p95Ns := scan.p95.getD 0
      p99Ns := scan.p99.getD 0
      p999Ns := scan.p999.getD 0
      sampleCount := tracker.count }

@[simp]
theorem getStats_sampleCount (tracker : LatencyTracker) :
    tracker.getStats.sampleCount = tracker.count := by
  rw [getStats]
  split
  · rename_i empty
    exact empty.symm
  · rfl

end LatencyTracker

end MarketDataHandler
