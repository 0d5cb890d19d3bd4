import MarketDataHandler.Client.FrameStream

/-!
# Skipping unknown bytes

Bytes in which no known type can be read are passed over one by one.  The last
of them meets the first byte of a frame: read together they are a type of at
least 256, so the frame behind them is not touched.
-/

namespace MarketDataHandler

open PackedCodec.Words

/-- No two adjacent bytes are a known type. -/
def Garbage (bytes : List UInt8) : Prop :=
  ∀ index, index + 1 < bytes.length →
    msgTotalSize (msgTypeAt (bytes.drop index)) = 0

instance (bytes : List UInt8) : Decidable (Garbage bytes) :=
  decidable_of_iff
    (∀ index, index < bytes.length → index + 1 < bytes.length →
      msgTotalSize (msgTypeAt (bytes.drop index)) = 0)
    ⟨fun every index inside => every index (by omega) inside,
      fun every index _ inside => every index inside⟩

theorem Garbage.tail
    {byte : UInt8} {bytes : List UInt8} (garbage : Garbage (byte :: bytes)) :
    Garbage bytes := by
  intro index inside
  have later := garbage (index + 1) (by rw [List.length_cons]; omega)
  rwa [List.drop_succ_cons] at later

theorem msgTypeAt_cons_cons
    (first second : UInt8) (bytes : List UInt8) :
    msgTypeAt (first :: second :: bytes) =
      UInt16.ofNat (first.toNat + 256 * second.toNat) := by
  change
    UInt16.ofNat (leValue [first, second]) = _
  simp

/-- The first byte of a frame is one to three. -/
theorem Frame.bytes_eq_cons (frame : Frame) :
    ∃ (first : UInt8) (rest : List UInt8),
      frame.bytes = first :: rest ∧ first.toNat ≠ 0 := by
  have long := frame.raw.two_le_length
  have typed := frame.msgTypeAt_bytes []
  rw [List.append_nil] at typed
  change 2 ≤ frame.bytes.length at long
  match bytes : frame.bytes with
  | [] =>
      rw [bytes] at long
      simp at long
  | [_] =>
      rw [bytes] at long
      simp at long
  | first :: second :: rest =>
      refine ⟨first, second :: rest, rfl, ?_⟩
      intro zero
      rw [bytes, msgTypeAt_cons_cons, zero] at typed
      have value := congrArg UInt16.toNat typed
      rw [UInt16.toNat_ofNat'] at value
      have code :
          0 < frame.kind.code.toNat ∧ frame.kind.code.toNat < 256 := by
        cases frame.kind <;> decide
      have bound := second.toNat_lt
      omega

/-- A type whose higher byte is not zero is unknown. -/
theorem msgTotalSize_of_high
    {first second : UInt8} (high : second.toNat ≠ 0)
    (bytes : List UInt8) :
    msgTotalSize (msgTypeAt (first :: second :: bytes)) = 0 := by
  rcases msgTotalSize_cases (msgTypeAt (first :: second :: bytes)) with
    unknown | ⟨kind, same, _⟩
  · exact unknown.1
  · rw [msgTypeAt_cons_cons] at same
    have value := congrArg UInt16.toNat same
    rw [UInt16.toNat_ofNat'] at value
    have code : kind.code.toNat < 256 := by
      cases kind <;> decide
    have low := first.toNat_lt
    have bound := second.toNat_lt
    omega

/-- The scanner passes over the bytes in front of a frame. -/
theorem referenceScanner_garbage
    (counters : ParseCounters) {garbage : List UInt8}
    (unknown : Garbage garbage) (frame : Frame) (rest : List UInt8) :
    referenceScanner.run counters (garbage ++ (frame.bytes ++ rest)) =
      (referenceScanner.run counters (frame.bytes ++ rest)).after
        (garbage.map ParseEvent.skipByte) := by
  have size : 20 ≤ frame.bytes.length := by
    rw [Frame.bytes, frame.msg.bytes_length]
    exact (msgTotalSize_code frame.msg.kind).1
  induction garbage with
  | nil =>
      simp
  | cons byte garbage inductionHypothesis =>
      have typed :
          msgTotalSize
            (msgTypeAt (byte :: garbage ++ (frame.bytes ++ rest))) = 0 := by
        cases garbage with
        | nil =>
            -- The type is read across the border.
            obtain ⟨first, behind, bytes, high⟩ := frame.bytes_eq_cons
            rw [bytes]
            exact msgTotalSize_of_high high _
        | cons second garbage =>
            rw [msgTypeAt_append (by simp)]
            exact unknown 0 (by simp)
      have long :
          16 ≤ (byte :: garbage ++ (frame.bytes ++ rest)).length := by
        simp only [List.length_append]
        omega
      rw [referenceScanner.run_of_step_some (scanStep_skip long typed)]
      change
        (referenceScanner.run counters
          (garbage ++ (frame.bytes ++ rest))).after _ = _
      rw [inductionHypothesis unknown.tail]
      rfl

theorem callbacks_skipBytes (bytes : List UInt8) :
    callbacks (bytes.map ParseEvent.skipByte) = [] := by
  induction bytes with
  | nil =>
      rfl
  | cons byte bytes inductionHypothesis =>
      exact inductionHypothesis

/-- The bytes of some frames, each behind some bytes of its own. -/
def garbledStream (segments : List (List UInt8 × Frame)) : List UInt8 :=
  segments.flatMap fun segment => segment.1 ++ segment.2.bytes

/-- A scan of frames with unknown bytes in front of them. -/
theorem referenceScanner_garbled
    (counters : ParseCounters) {segments : List (List UInt8 × Frame)}
    (unknown : ∀ segment ∈ segments, Garbage segment.1) :
    callbacks
        (referenceScanner.run counters (garbledStream segments)).output =
        segments.map (fun segment =>
          (segment.2.kind, segment.2.bytes)) ∧
      (referenceScanner.run counters
          (garbledStream segments)).state.badChecksums =
        counters.badChecksums ∧
      (referenceScanner.run counters (garbledStream segments)).rest =
        [] := by
  induction segments generalizing counters with
  | nil =>
      rw [show garbledStream [] = [] from rfl,
        referenceScanner.run_of_step_none rfl]
      exact ⟨rfl, rfl, rfl⟩
  | cons segment segments inductionHypothesis =>
      obtain ⟨garbage, frame⟩ := segment
      have stream :
          garbledStream ((garbage, frame) :: segments) =
            garbage ++ (frame.bytes ++ garbledStream segments) := by
        rw [garbledStream, List.flatMap_cons, List.append_assoc]
        rfl
      have consumed :=
        referenceScanner.run_of_step_some
          (frame.raw.scanStep_eq counters (garbledStream segments))
      rw [List.drop_left' rfl, show frame.raw.bytes = frame.bytes from rfl,
        frame.receive_eq] at consumed
      obtain ⟨calls, bad, rest⟩ :=
        inductionHypothesis (counters.accept frame.seqNo).1
          (fun other member =>
            unknown other (List.mem_cons_of_mem _ member))
      rw [stream, referenceScanner_garbage counters
        (unknown _ List.mem_cons_self) frame, consumed]
      refine ⟨?_, bad, rest⟩
      simp only [StreamScanner.Outcome.after_output, callbacks_append,
        callbacks_skipBytes, callbacks_accept, calls, List.map_cons]
      rfl

/-- Frames with unknown bytes anywhere in front of them are all delivered,
however the stream is cut. -/
theorem feedAll_skips_garbage
    {parser : Parser} (fresh : parser.Fresh)
    {segments : List (List UInt8 × Frame)}
    (unknown : ∀ segment ∈ segments, Garbage segment.1)
    {chunks : List (List UInt8)}
    (cuts : chunks.flatten = garbledStream segments)
    (bounded : ∀ chunk ∈ chunks, chunk.length ≤ 65536) :
    ∃ final events,
      parser.feedAll chunks = some (final, events) ∧
        callbacks events =
          segments.map (fun segment =>
            (segment.2.kind, segment.2.bytes)) ∧
        final.badChecksums = 0 ∧
        final.bufUsed = 0 := by
  obtain ⟨final, fed, counters, residue⟩ := fresh.feedAll_reads bounded
  obtain ⟨calls, bad, rest⟩ :=
    referenceScanner_garbled ParseCounters.zero unknown
  rw [cuts] at fed counters residue
  refine ⟨final, _, fed, calls, ?_, ?_⟩
  · rw [counters]
    exact bad
  · rw [← Parser.residue_length, residue]
    exact congrArg List.length rest

/-- A heartbeat and a trade with unknown bytes in front of both, cut where the
last unknown byte meets the heartbeat. -/
theorem feedAll_skips_garbage_two :
    let segments : List (List UInt8 × Frame) :=
      [([1, 1, 255], TickGenerator.heartbeatFrame 41 2000),
        ([0, 4, 0],
          TickGenerator.tradeFrame 7 42 ⟨1000, 4657857021149446144, 250⟩)]
    let stream := garbledStream segments
    ∃ final events,
      (Parser.new ⟨fun _ => 0⟩).feedAll [stream.take 3, stream.drop 3] =
          some (final, events) ∧
        callbacks events =
          segments.map (fun segment =>
            (segment.2.kind, segment.2.bytes)) ∧
        final.badChecksums = 0 := by
  intro segments stream
  have unknown : ∀ segment ∈ segments, Garbage segment.1 := by
    intro segment member
    simp only [segments, List.mem_cons, List.not_mem_nil, or_false]
      at member
    rcases member with same | same
    · rw [same]
      decide
    · rw [same]
      decide
  obtain ⟨final, events, fed, calls, bad, _⟩ :=
    feedAll_skips_garbage (Parser.Fresh.constructed ⟨fun _ => 0⟩) unknown
      (show
        [stream.take 3, stream.drop 3].flatten = garbledStream segments
        from rfl)
      (by decide)
  exact ⟨final, events, fed, calls, bad⟩

end MarketDataHandler
