import MarketDataHandler.Client.FeedHandler
import MarketDataHandler.Client.Percentiles

/-!
# The latency summary of a feed

What the callbacks record is the clock reading less the timestamp of the
message, modulo 2^64.  A timestamp that is ahead of the reading gives a latency
near the largest word, and the running sum wraps too.
-/

namespace MarketDataHandler

/-! ## What the callbacks record -/

/-- A clock reading and the timestamp of the message. -/
structure Arrival where
  recvNs : UInt64
  timestampNs : UInt64
  deriving DecidableEq, Repr

def Arrival.latency (arrival : Arrival) : UInt64 :=
  arrival.recvNs - arrival.timestampNs

/-- The timestamp that `on_trade` and `on_quote` read; `on_hb` reads none. -/
def tickTimestamp (kind : MsgKind) (data : List UInt8) : Option UInt64 :=
  match kind with
  | .trade => some (TradeMsg.codec.decode data).header.timestampNs
  | .quote => some (QuoteMsg.codec.decode data).header.timestampNs
  | .heartbeat => none

/-- The arrivals of successive callbacks; the clock is indexed by them. -/
def arrivals (clock : Nat → UInt64) :
    Nat → List (MsgKind × List UInt8) → List Arrival
  | _, [] => []
  | index, (kind, data) :: calls =>
      match tickTimestamp kind data with
      | some timestampNs =>
          ⟨clock index, timestampNs⟩ :: arrivals clock (index + 1) calls
      | none =>
          arrivals clock (index + 1) calls

theorem Handler.invoke_lat
    {handler next : Handler} {recvNs : UInt64} {kind : MsgKind}
    {data : List UInt8}
    (invoked : handler.invoke recvNs kind data = some next) :
    next.lat =
      match tickTimestamp kind data with
      | some timestampNs => handler.lat.record (recvNs - timestampNs)
      | none => handler.lat := by
  cases kind with
  | trade =>
      obtain ⟨cache, _, made⟩ := Option.bind_eq_some_iff.mp invoked
      cases made
      rfl
  | quote =>
      obtain ⟨cache, _, made⟩ := Option.bind_eq_some_iff.mp invoked
      cases made
      rfl
  | heartbeat =>
      cases invoked
      rfl

/-- The callbacks record the latencies of the arrivals. -/
theorem Handler.invokeAll_lat
    {clock : Nat → UInt64} {index : Nat} {handler final : Handler}
    {calls : List (MsgKind × List UInt8)}
    (invoked : Handler.invokeAll clock index handler calls = some final) :
    final.lat =
      ((arrivals clock index calls).map Arrival.latency).foldl
        LatencyTracker.record handler.lat := by
  induction calls generalizing index handler with
  | nil =>
      cases invoked
      rfl
  | cons call calls inductionHypothesis =>
      obtain ⟨kind, data⟩ := call
      obtain ⟨next, first, rest⟩ := Option.bind_eq_some_iff.mp invoked
      rw [inductionHypothesis rest, invoke_lat first, arrivals]
      cases tickTimestamp kind data <;> rfl

/-- The readings of the arrivals do not decrease. -/
theorem arrivals_pairwise
    {clock : Nat → UInt64}
    (forward : ∀ earlier later, earlier ≤ later →
      clock earlier ≤ clock later)
    (index : Nat) (calls : List (MsgKind × List UInt8)) :
    (arrivals clock index calls).Pairwise
        (fun first second => first.recvNs ≤ second.recvNs) ∧
      ∀ arrival ∈ arrivals clock index calls,
        clock index ≤ arrival.recvNs := by
  induction calls generalizing index with
  | nil =>
      exact ⟨List.Pairwise.nil, fun _ member => by cases member⟩
  | cons call calls inductionHypothesis =>
      obtain ⟨kind, data⟩ := call
      obtain ⟨ordered, after⟩ := inductionHypothesis (index + 1)
      have later (arrival : Arrival)
          (member : arrival ∈ arrivals clock (index + 1) calls) :
          clock index ≤ arrival.recvNs :=
        UInt64.le_trans (forward index (index + 1) (Nat.le_succ index))
          (after arrival member)
      rw [arrivals]
      cases tickTimestamp kind data with
      | none =>
          exact ⟨ordered, later⟩
      | some timestampNs =>
          refine ⟨List.pairwise_cons.mpr ⟨later, ordered⟩, ?_⟩
          intro arrival member
          rcases List.mem_cons.mp member with same | rest
          · rw [same]
            exact UInt64.le_refl _
          · exact later arrival rest

/-! ## The extremes and the mean -/

namespace LatencyTracker

theorem recordAll_minNs
    {samples : List UInt64} (nonempty : samples ≠ []) :
    IsLeast { sample | sample ∈ samples } (recordAll samples).minNs := by
  have least :=
    tally_minNs_isLeast
      (show samplesOf .min (updatesOfAll ↑samples) ≠ 0 by
        simpa [samplesOf_updatesOfAll] using nonempty)
  rw [← recordAll_eq_tally, samplesOf_updatesOfAll] at least
  exact least

theorem recordAll_maxNs
    {samples : List UInt64} (nonempty : samples ≠ []) :
    IsGreatest { sample | sample ∈ samples } (recordAll samples).maxNs := by
  have greatest :=
    tally_maxNs_isGreatest
      (show samplesOf .max (updatesOfAll ↑samples) ≠ 0 by
        simpa [samplesOf_updatesOfAll] using nonempty)
  rw [← recordAll_eq_tally, samplesOf_updatesOfAll] at greatest
  exact greatest

theorem recordAll_sum (samples : List UInt64) :
    (recordAll samples).sum =
      UInt64.ofNat (samples.map UInt64.toNat).sum := by
  rw [recordAll_eq_tally, tally_sum, samplesOf_updatesOfAll,
    Multiset.map_coe, Multiset.sum_coe]

/-- The mean of the statistics.  The number of samples does not wrap, but the
sum may. -/
theorem recordAll_mean
    {samples : List UInt64} (few : samples.length < 2 ^ 64) :
    ((recordAll samples).sum / (recordAll samples).count).toNat =
      (samples.map UInt64.toNat).sum % 2 ^ 64 / samples.length := by
  rw [UInt64.toNat_div, recordAll_sum, recordAll_count,
    UInt64.toNat_ofNat', UInt64.toNat_ofNat', Nat.mod_eq_of_lt few]

section Extremes

variable {samples : List UInt64} (nonempty : samples ≠ [])

include nonempty

theorem recordAll_maxNs_le_iff (bound : UInt64) :
    (recordAll samples).maxNs ≤ bound ↔
      ∀ sample ∈ samples, sample ≤ bound := by
  obtain ⟨member, greatest⟩ := recordAll_maxNs nonempty
  constructor
  · intro below sample inside
    exact UInt64.le_trans (greatest inside) below
  · intro below
    exact below _ member

/-- The sum lies between the extremes, each taken for every sample. -/
theorem sum_between_extremes :
    samples.length * (recordAll samples).minNs.toNat ≤
        (samples.map UInt64.toNat).sum ∧
      (samples.map UInt64.toNat).sum ≤
        samples.length * (recordAll samples).maxNs.toNat := by
  have below :=
    List.card_nsmul_le_sum (samples.map UInt64.toNat)
      (recordAll samples).minNs.toNat (by
        rw [List.forall_mem_map]
        intro sample inside
        exact UInt64.le_iff_toNat_le.mp
          ((recordAll_minNs nonempty).2 inside))
  have above :=
    List.sum_le_card_nsmul (samples.map UInt64.toNat)
      (recordAll samples).maxNs.toNat (by
        rw [List.forall_mem_map]
        intro sample inside
        exact UInt64.le_iff_toNat_le.mp
          ((recordAll_maxNs nonempty).2 inside))
  rw [List.length_map, smul_eq_mul] at below above
  exact ⟨below, above⟩

variable (few : samples.length < 2 ^ 64)

include few

/-- The mean does not exceed the greatest sample, even if the sum wraps. -/
theorem recordAll_mean_le_maxNs :
    (recordAll samples).sum / (recordAll samples).count ≤
      (recordAll samples).maxNs := by
  rw [UInt64.le_iff_toNat_le, recordAll_mean few]
  calc
    (samples.map UInt64.toNat).sum % 2 ^ 64 / samples.length
        ≤ (samples.map UInt64.toNat).sum / samples.length :=
      Nat.div_le_div_right (Nat.mod_le _ _)
    _ ≤ (recordAll samples).maxNs.toNat :=
      Nat.div_le_of_le_mul (sum_between_extremes nonempty).2

theorem recordAll_minNs_le_mean
    (fits : (samples.map UInt64.toNat).sum < 2 ^ 64) :
    (recordAll samples).minNs ≤
      (recordAll samples).sum / (recordAll samples).count := by
  have positive := List.length_pos_of_ne_nil nonempty
  rw [UInt64.le_iff_toNat_le, recordAll_mean few, Nat.mod_eq_of_lt fits,
    Nat.le_div_iff_mul_le positive, Nat.mul_comm]
  exact (sum_between_extremes nonempty).1

/-- A sum that wraps and exceeds the least sample, taken for every sample, by
less than a wrap gives a mean below the least sample. -/
theorem recordAll_mean_lt_minNs
    (wraps : 2 ^ 64 ≤ (samples.map UInt64.toNat).sum)
    (close :
      ∀ sample ∈ samples,
        (samples.map UInt64.toNat).sum <
          2 ^ 64 + samples.length * sample.toNat) :
    (recordAll samples).sum / (recordAll samples).count <
      (recordAll samples).minNs := by
  have positive := List.length_pos_of_ne_nil nonempty
  have least := close _ (recordAll_minNs nonempty).1
  have lost :
      (samples.map UInt64.toNat).sum % 2 ^ 64 ≤
        (samples.map UInt64.toNat).sum - 2 ^ 64 := by
    rw [Nat.mod_eq_sub_mod wraps]
    exact Nat.mod_le _ _
  rw [UInt64.lt_iff_toNat_lt, recordAll_mean few,
    Nat.div_lt_iff_lt_mul positive, Nat.mul_comm]
  omega

end Extremes

end LatencyTracker

/-- The last reading of the clock. -/
def lastReading (taken : List Arrival) : UInt64 :=
  (taken.getLast?.map Arrival.recvNs).getD 0

/-- What the statistics of the recorded latencies should satisfy. -/
def SummarySound (taken : List Arrival) : Prop :=
  let st :=
    (LatencyTracker.recordAll (taken.map Arrival.latency)).getStats
  st.minNs ≤ st.meanNs ∧ st.meanNs ≤ st.maxNs ∧
    st.maxNs ≤ lastReading taken

/-- A timestamp that is not ahead of its reading, or so far ahead that the
difference wraps to no more than the last reading. -/
def Arrival.Timely (arrival : Arrival) (last : UInt64) : Prop :=
  arrival.timestampNs ≤ arrival.recvNs ∨
    2 ^ 64 ≤
      last.toNat + (arrival.timestampNs.toNat - arrival.recvNs.toNat)

/-- The sum of the latencies, without wraps. -/
def latencySum (taken : List Arrival) : Nat :=
  (taken.map fun arrival => arrival.latency.toNat).sum

/-- Every timestamp is timely, and neither the number of samples
nor their sum wraps. -/
structure Summarisable (taken : List Arrival) : Prop where
  timely : ∀ arrival ∈ taken, arrival.Timely (lastReading taken)
  fewSamples : taken.length < 2 ^ 64
  sumFits : latencySum taken < 2 ^ 64

/-- All latencies together exceed the least of them, taken as often, by less
than 2^64. -/
def SpreadFits (taken : List Arrival) : Prop :=
  ∀ arrival ∈ taken,
    latencySum taken < 2 ^ 64 + taken.length * arrival.latency.toNat

theorem Arrival.latency_le_iff
    (arrival : Arrival) {last : UInt64} (before : arrival.recvNs ≤ last) :
    arrival.latency ≤ last ↔ arrival.Timely last := by
  have recv := arrival.recvNs.toNat_lt
  have timestamp := arrival.timestampNs.toNat_lt
  rw [UInt64.le_iff_toNat_le] at before
  rw [Timely, UInt64.le_iff_toNat_le, UInt64.le_iff_toNat_le, latency,
    UInt64.toNat_sub]
  by_cases inTime : arrival.timestampNs.toNat ≤ arrival.recvNs.toNat
  · have value :
        (2 ^ 64 - arrival.timestampNs.toNat + arrival.recvNs.toNat) %
            2 ^ 64 =
          arrival.recvNs.toNat - arrival.timestampNs.toNat := by
      rw [Nat.mod_eq_sub_mod (by omega), Nat.mod_eq_of_lt (by omega)]
      omega
    rw [value]
    exact ⟨fun _ => Or.inl inTime, fun _ => by omega⟩
  · rw [Nat.mod_eq_of_lt (by omega)]
    omega

theorem recvNs_le_lastReading
    {taken : List Arrival}
    (ordered :
      taken.Pairwise fun first second => first.recvNs ≤ second.recvNs)
    {arrival : Arrival} (member : arrival ∈ taken) :
    arrival.recvNs ≤ lastReading taken := by
  have nonempty := List.ne_nil_of_mem member
  rw [lastReading, List.getLast?_eq_getLast_of_ne_nil nonempty]
  rw [← List.dropLast_append_getLast nonempty] at ordered member
  rcases List.mem_append.mp member with earlier | last
  · exact (List.pairwise_append.mp ordered).2.2 arrival earlier _
      List.mem_cons_self
  · rw [List.mem_singleton.mp last]
    exact UInt64.le_refl _

section Summary

variable {taken : List Arrival} (nonempty : taken ≠ [])
  (few : taken.length < 2 ^ 64)

include nonempty few

theorem getStats_recordAll :
    let tracker := LatencyTracker.recordAll (taken.map Arrival.latency)
    tracker.getStats.minNs = tracker.minNs ∧
      tracker.getStats.maxNs = tracker.maxNs ∧
      tracker.getStats.meanNs = tracker.sum / tracker.count := by
  intro tracker
  have counted : tracker.count ≠ 0 := by
    rw [Ne, LatencyTracker.recordAll_count_eq_zero_iff, List.length_map,
      Nat.mod_eq_of_lt few]
    exact (List.length_pos_of_ne_nil nonempty).ne'
  rw [LatencyTracker.getStats, if_neg counted]
  exact ⟨rfl, rfl, rfl⟩

variable
  (ordered :
    taken.Pairwise fun first second => first.recvNs ≤ second.recvNs)

include ordered

/-- The greatest latency is not beyond the last reading exactly if the
timestamps are timely. -/
theorem maxNs_le_lastReading_iff :
    (LatencyTracker.recordAll
          (taken.map Arrival.latency)).getStats.maxNs ≤
        lastReading taken ↔
      ∀ arrival ∈ taken, arrival.Timely (lastReading taken) := by
  have sampled : taken.map Arrival.latency ≠ [] := by
    simpa using nonempty
  rw [(getStats_recordAll nonempty few).2.1,
    LatencyTracker.recordAll_maxNs_le_iff sampled, List.forall_mem_map]
  apply forall₂_congr
  intro arrival member
  exact arrival.latency_le_iff (recvNs_le_lastReading ordered member)

omit few in
theorem summarySound_of_summarisable
    (summarisable : Summarisable taken) : SummarySound taken := by
  have sampled : taken.map Arrival.latency ≠ [] := by
    simpa using nonempty
  have few := summarisable.fewSamples
  have fewSamples : (taken.map Arrival.latency).length < 2 ^ 64 := by
    rwa [List.length_map]
  have fits :
      ((taken.map Arrival.latency).map UInt64.toNat).sum < 2 ^ 64 := by
    rw [List.map_map]
    exact summarisable.sumFits
  obtain ⟨least, greatest, mean⟩ := getStats_recordAll nonempty few
  refine ⟨?_, ?_,
    (maxNs_le_lastReading_iff nonempty few ordered).mpr
      summarisable.timely⟩
  · rw [least, mean]
    exact LatencyTracker.recordAll_minNs_le_mean sampled fewSamples fits
  · rw [greatest, mean]
    exact LatencyTracker.recordAll_mean_le_maxNs sampled fewSamples

theorem SummarySound.timely
    (sound : SummarySound taken) :
    ∀ arrival ∈ taken, arrival.Timely (lastReading taken) :=
  (maxNs_le_lastReading_iff nonempty few ordered).mp sound.2.2

omit ordered in
theorem SummarySound.sumFits
    (sound : SummarySound taken) (close : SpreadFits taken) :
    latencySum taken < 2 ^ 64 := by
  have sampled : taken.map Arrival.latency ≠ [] := by
    simpa using nonempty
  obtain ⟨least, _, mean⟩ := getStats_recordAll nonempty few
  have bound := sound.1
  rw [least, mean, UInt64.le_iff_toNat_le] at bound
  by_contra wraps
  have sums :
      ((taken.map Arrival.latency).map UInt64.toNat).sum =
        latencySum taken := by
    rw [List.map_map]
    rfl
  have below :=
    LatencyTracker.recordAll_mean_lt_minNs sampled
      (by rwa [List.length_map])
      (by rw [sums]; exact Nat.le_of_not_lt wraps)
      (by
        rw [sums, List.forall_mem_map, List.length_map]
        exact close)
  rw [UInt64.lt_iff_toNat_lt] at below
  exact absurd bound (Nat.not_le_of_lt below)

end Summary

/-- The statistics of any feed: the callbacks record the arrivals.  The mean
lies between the extremes and no latency is beyond the last reading if the
timestamps are timely and nothing wraps.  Without the first it never is so,
and without the second never if the latencies are close together. -/
theorem latencySummary_sound_of_summarisable
    (clock : Nat → UInt64)
    (forward : ∀ earlier later, earlier ≤ later →
      clock earlier ≤ clock later)
    (calls : List (MsgKind × List UInt8))
    (nonempty : arrivals clock 0 calls ≠ []) :
    let taken := arrivals clock 0 calls
    (∀ final, Handler.invokeAll clock 0 Handler.initial calls = some final →
        final.lat =
          LatencyTracker.recordAll (taken.map Arrival.latency)) ∧
      (Summarisable taken → SummarySound taken) ∧
      (taken.length < 2 ^ 64 →
        SummarySound taken →
          (∀ arrival ∈ taken, arrival.Timely (lastReading taken)) ∧
            (SpreadFits taken → latencySum taken < 2 ^ 64)) := by
  intro taken
  have ordered := (arrivals_pairwise forward 0 calls).1
  refine ⟨?_, ?_, ?_⟩
  · intro final invoked
    exact Handler.invokeAll_lat invoked
  · intro summarisable
    exact summarySound_of_summarisable nonempty ordered summarisable
  · intro few sound
    exact ⟨sound.timely nonempty few ordered,
      sound.sumFits nonempty few⟩

/-- A trade that was sent 500 nanoseconds before the only reading. -/
theorem latencySummary_sound_of_summarisable_late :
    let frame := TickGenerator.tradeFrame 3 1 ⟨500, 31, 32⟩
    SummarySound
      (arrivals (fun _ => 1000) 0 [(frame.kind, frame.bytes)]) := by
  intro frame
  have taken :
      arrivals (fun _ => 1000) 0 [(frame.kind, frame.bytes)] =
        [⟨1000, 500⟩] := by
    decide +kernel
  apply (latencySummary_sound_of_summarisable (fun _ => 1000)
    (fun _ _ _ => UInt64.le_refl _) [(frame.kind, frame.bytes)]
    (by rw [taken]; simp)).2.1
  rw [taken]
  refine ⟨?_, by decide, by decide⟩
  intro arrival member
  rw [List.mem_singleton.mp member]
  exact Or.inl (by decide)

/-- A trade whose timestamp is one nanosecond ahead of the reading. -/
theorem latencySummary_ahead :
    let frame := TickGenerator.tradeFrame 3 1 ⟨1001, 31, 32⟩
    ¬ SummarySound
      (arrivals (fun _ => 1000) 0 [(frame.kind, frame.bytes)]) := by
  intro frame sound
  have taken :
      arrivals (fun _ => 1000) 0 [(frame.kind, frame.bytes)] =
        [⟨1000, 1001⟩] := by
    decide +kernel
  rw [taken] at sound
  have bound := sound.2.2
  revert bound
  decide +kernel

end MarketDataHandler
