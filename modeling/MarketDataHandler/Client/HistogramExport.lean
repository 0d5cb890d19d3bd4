import MarketDataHandler.Client.MergeTrackers

/-!
# The exported histogram

`export_csv` of `include/latency_tracker.h` and `print_latency_histogram` of
`src/common/latency_tracker.cpp`.  Both print a lower and an upper bound for
each bucket, by formulas of their own.

A sample goes into the bucket of its highest bit, so bucket `i` holds what is
not below `2 ^ i`, but its row ends there.
-/

namespace MarketDataHandler

open LatencyTracker (bucketFor bucketUpperNs)

structure CsvRow where
  lo : UInt64
  hi : UInt64
  count : UInt64
  deriving DecidableEq, Repr

/-- The file that `export_csv` writes. -/
structure CsvFile where
  header : String
  rows : List CsvRow
  deriving DecidableEq, Repr

/-- A line of `print_latency_histogram`, for one value of its loop variable. -/
structure HistogramRow where
  bucket : Fin numBuckets
  lo : UInt64
  hi : UInt64
  label : String
  barLen : UInt64
  cnt : UInt64
  deriving DecidableEq, Repr

inductive PrintedHistogram where
  | noSamples (title : String)
  | samples (title : String) (st : LatencyStats) (rows : List HistogramRow)
  deriving DecidableEq, Repr

/-- The unit that a bound is printed in. -/
def fmtNs (ns : UInt64) : String :=
  if ns = 0xffffffffffffffff then
    "  ∞    "
  else if 1000000000 ≤ ns then
    toString (ns / 1000000000) ++ "s   "
  else if 1000000 ≤ ns then
    toString (ns / 1000000) ++ "ms  "
  else if 1000 ≤ ns then
    toString (ns / 1000) ++ "μs  "
  else
    toString ns ++ "ns  "

namespace LatencyTracker

def csvRow (tracker : LatencyTracker) (bucket : Fin numBuckets) : CsvRow where
  lo :=
    if bucket.val = 0 then 0 else 1 <<< UInt64.ofNat (bucket.val - 1)
  hi := bucketUpperNs bucket
  count := tracker.buckets bucket

def exportCsv (tracker : LatencyTracker) : CsvFile where
  header := "bucket_lower_ns,bucket_upper_ns,count"
  rows := (List.finRange numBuckets).map tracker.csvRow

/-- The first loop of `print_latency_histogram`. -/
def peak (tracker : LatencyTracker) : UInt64 :=
  (List.finRange numBuckets).foldl
    (fun peak bucket =>
      if peak < tracker.rawBucket bucket then
        tracker.rawBucket bucket
      else
        peak) 0

/-- One pass of the second loop.  An empty bucket is passed over. -/
def histogramRow (tracker : LatencyTracker) (maxBarWidth peak : UInt64)
    (bucket : Fin numBuckets) : Option HistogramRow :=
  let cnt := tracker.rawBucket bucket
  if cnt = 0 then
    none
  else
    let lo : UInt64 :=
      if bucket.val = 0 then 0 else 1 <<< UInt64.ofNat (bucket.val - 1)
    let hi : UInt64 :=
      if bucket.val < 63 then
        1 <<< UInt64.ofNat bucket.val
      else
        0xffffffffffffffff
    some
      { bucket := bucket
        lo := lo
        hi := hi
        label := fmtNs lo ++ "– " ++ fmtNs hi
        barLen := cnt * maxBarWidth / peak
        cnt := cnt }

def printLatencyHistogram (tracker : LatencyTracker) (title : String)
    (maxBarWidth : UInt64) : PrintedHistogram :=
  let st := tracker.getStats
  if st.sampleCount = 0 then
    .noSamples title
  else if tracker.peak = 0 then
    .samples title st []
  else
    .samples title st
      ((List.finRange numBuckets).filterMap
        (tracker.histogramRow maxBarWidth tracker.peak))

end LatencyTracker

def PrintedHistogram.rows : PrintedHistogram → List HistogramRow
  | .noSamples _ => []
  | .samples _ _ rows => rows

/-! ## The bounds of a row -/

/-- The bounds are a half-open interval, closed for the last bucket. -/
def WithinBounds (bucket : Fin numBuckets) (lo hi ns : UInt64) : Prop :=
  lo ≤ ns ∧ if bucket.val = 63 then ns ≤ hi else ns < hi

/-- The rows that count a latency have it within their bounds. -/
structure RowsDescribe (tracker : LatencyTracker) (title : String)
    (maxBarWidth : UInt64) (ns : UInt64) : Prop where
  csv :
    ∃ row,
      tracker.exportCsv.rows[(bucketFor ns).val]? = some row ∧
        WithinBounds (bucketFor ns) row.lo row.hi ns
  histogram :
    ∀ row ∈ (tracker.printLatencyHistogram title maxBarWidth).rows,
      row.bucket = bucketFor ns →
        WithinBounds (bucketFor ns) row.lo row.hi ns

theorem csvRow_lo_toNat
    (tracker : LatencyTracker) (bucket : Fin numBuckets) :
    (tracker.csvRow bucket).lo.toNat =
      if bucket.val = 0 then 0 else 2 ^ (bucket.val - 1) := by
  change (if bucket.val = 0 then (0 : UInt64) else
    1 <<< UInt64.ofNat (bucket.val - 1)).toNat = _
  clear tracker
  revert bucket
  decide +kernel

/-- The two functions print the same bounds. -/
theorem histogramRow_bounds
    {tracker : LatencyTracker} {maxBarWidth peak : UInt64}
    {bucket : Fin numBuckets} {row : HistogramRow}
    (printed : tracker.histogramRow maxBarWidth peak bucket = some row) :
    row.bucket = bucket ∧ row.lo = (tracker.csvRow bucket).lo ∧
      row.hi = (tracker.csvRow bucket).hi := by
  rw [LatencyTracker.histogramRow] at printed
  simp only at printed
  split at printed
  · cases printed
  · cases printed
    exact ⟨rfl, rfl, rfl⟩

theorem mem_rows_printLatencyHistogram
    {tracker : LatencyTracker} {title : String} {maxBarWidth : UInt64}
    {row : HistogramRow}
    (member :
      row ∈ (tracker.printLatencyHistogram title maxBarWidth).rows) :
    row.lo = (tracker.csvRow row.bucket).lo ∧
      row.hi = (tracker.csvRow row.bucket).hi := by
  rw [LatencyTracker.printLatencyHistogram] at member
  split at member
  · cases member
  · split at member
    · cases member
    · obtain ⟨bucket, _, printed⟩ := List.mem_filterMap.mp member
      obtain ⟨same, lo, hi⟩ := histogramRow_bounds printed
      rw [same]
      exact ⟨lo, hi⟩

/-- Only zero and the samples of the last bucket lie within the bounds that are
printed for them. -/
theorem withinBounds_csvRow_iff (tracker : LatencyTracker) (ns : UInt64) :
    WithinBounds (bucketFor ns) (tracker.csvRow (bucketFor ns)).lo
        (tracker.csvRow (bucketFor ns)).hi ns ↔
      ns = 0 ∨ 2 ^ 63 ≤ ns.toNat := by
  have hi :
      (tracker.csvRow (bucketFor ns)).hi = bucketUpperNs (bucketFor ns) :=
    rfl
  have index := LatencyTracker.bucketFor_val ns
  have bound := ns.toNat_lt
  rw [WithinBounds, UInt64.le_iff_toNat_le, UInt64.le_iff_toNat_le,
    UInt64.lt_iff_toNat_lt, csvRow_lo_toNat, hi, bucketUpperNs_toNat, index]
  by_cases zero : ns = 0
  · subst ns
    decide
  · have positive : ns.toNat ≠ 0 := by
      intro none_
      exact zero (UInt64.toNat_inj.mp none_)
    have floor := Nat.log2_self_le positive
    have small : Nat.log2 ns.toNat < 63 ↔ ns.toNat < 2 ^ 63 :=
      log2_lt_63_iff
    simp only [zero, false_or]
    by_cases last : ns.toNat < 2 ^ 63
    · have below := small.mpr last
      rw [if_pos below, if_neg (show ¬ Nat.log2 ns.toNat = 63 by omega)]
      omega
    · have top : Nat.log2 ns.toNat = 63 := by
        have width := (Nat.log2_lt positive).mpr bound
        omega
      rw [top, if_pos rfl, if_neg (show ¬ 63 = 0 by decide),
        if_neg (Nat.lt_irrefl 63)]
      omega

/-- The printed bounds of the row that counts a latency hold it exactly if it
is zero or in the last bucket. -/
theorem exportedRows_describe_iff
    (tracker : LatencyTracker) (title : String)
    (maxBarWidth ns : UInt64) :
    RowsDescribe tracker title maxBarWidth ns ↔
      ns = 0 ∨ 2 ^ 63 ≤ ns.toNat := by
  have row :
      tracker.exportCsv.rows[(bucketFor ns).val]? =
        some (tracker.csvRow (bucketFor ns)) := by
    rw [LatencyTracker.exportCsv, List.getElem?_map]
    simp
  rw [← withinBounds_csvRow_iff tracker ns]
  constructor
  · intro describe
    obtain ⟨found, here, within⟩ := describe.csv
    rw [row] at here
    cases here
    exact within
  · intro within
    refine ⟨⟨_, row, within⟩, ?_⟩
    intro printed member same
    obtain ⟨lo, hi⟩ := mem_rows_printLatencyHistogram member
    rw [lo, hi, same]
    exact within

/-- A sample of a microsecond is counted in the row from 256 to 512. -/
theorem exportedRows_misplace_microsecond :
    (LatencyTracker.recordAll [1000]).exportCsv.rows[9]? =
        some ⟨256, 512, 1⟩ ∧
      bucketFor 1000 = ⟨9, by decide⟩ ∧
      ¬ RowsDescribe (LatencyTracker.recordAll [1000]) "latency" 40
        1000 := by
  have row :
      (LatencyTracker.recordAll [1000]).exportCsv.rows[9]? =
        some ⟨256, 512, 1⟩ := by
    decide +kernel
  have bucket : bucketFor 1000 = ⟨9, by decide⟩ := by
    decide
  refine ⟨row, bucket, ?_⟩
  intro describe
  obtain ⟨found, here, within⟩ := describe.csv
  rw [bucket, row] at here
  cases here
  have below := within.2
  rw [bucket] at below
  exact absurd below (by decide)

end MarketDataHandler
