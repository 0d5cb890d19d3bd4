import MarketDataHandler.Client.ReferenceScanner
import MarketDataHandler.Server.TickGenerator

/-!
# Streams of whole frames

A byte string that starts with a known type and has that type's length is
consumed by the scanner as one unit, whether its checksum is right or wrong
and whatever follows it.  A stream of such strings is therefore processed
string by string.  For the frames of the exchange this is the wire round
trip: every message comes out of the parser once, in order and unchanged.
-/

namespace MarketDataHandler

/-! ## Self-delimiting byte strings -/

/-- A byte string with a known type and the length of that type. -/
structure RawFrame where
  bytes : List UInt8
  known : msgTotalSize (msgTypeAt bytes) ≠ 0
  sized : bytes.length = msgTotalSize (msgTypeAt bytes)

namespace RawFrame

theorem two_le_length (raw : RawFrame) : 2 ≤ raw.bytes.length := by
  have bounds := msgTotalSize_bounds raw.known
  rw [raw.sized]
  omega

/-- The scanner consumes the string whole. -/
theorem scanStep_eq
    (counters : ParseCounters) (raw : RawFrame) (rest : List UInt8) :
    scanStep counters (raw.bytes ++ rest) =
      some ((counters.receive raw.bytes).1,
        (counters.receive raw.bytes).2, raw.bytes.length) := by
  have sameType : msgTypeAt (raw.bytes ++ rest) = msgTypeAt raw.bytes :=
    msgTypeAt_append raw.two_le_length rest
  have known := raw.known
  rw [← sameType] at known
  have complete :
      msgTotalSize (msgTypeAt (raw.bytes ++ rest)) ≤
        (raw.bytes ++ rest).length := by
    rw [sameType, ← raw.sized, List.length_append]
    omega
  rw [scanStep_frame known complete, sameType, ← raw.sized,
    List.take_left' rfl]

end RawFrame

/-- Check and account for one frame after the other. -/
def ParseCounters.receiveAll
    (counters : ParseCounters) (raws : List RawFrame) :
    ParseCounters × List ParseEvent :=
  Mealy.run (fun current raw => current.receive raw.bytes) counters raws

theorem referenceScanner_rawFrames
    (counters : ParseCounters) (raws : List RawFrame)
    (rest : List UInt8) :
    referenceScanner.run counters (raws.flatMap RawFrame.bytes ++ rest) =
      (referenceScanner.run (counters.receiveAll raws).1 rest).after
        (counters.receiveAll raws).2 :=
  referenceScanner.run_tokens RawFrame.scanStep_eq counters raws rest

/-- A stream of whole frames leaves nothing unread. -/
theorem referenceScan_rawFrames (raws : List RawFrame) :
    referenceScan (raws.flatMap RawFrame.bytes) =
      ⟨(ParseCounters.zero.receiveAll raws).1,
        (ParseCounters.zero.receiveAll raws).2, []⟩ := by
  have whole :=
    referenceScanner_rawFrames ParseCounters.zero raws []
  rw [List.append_nil] at whole
  unfold referenceScan
  rw [whole, referenceScanner.run_of_step_none rfl]
  simp [StreamScanner.Outcome.after]

/-! ## Frames of the exchange -/

/-- The callbacks among the events, with the bytes they are given. -/
def callbacks (events : List ParseEvent) : List (MsgKind × List UInt8) :=
  events.filterMap fun event =>
    match event with
    | .invoke kind frame => some (kind, frame)
    | _ => none

@[simp]
theorem callbacks_append (first second : List ParseEvent) :
    callbacks (first ++ second) = callbacks first ++ callbacks second :=
  List.filterMap_append

@[simp]
theorem callbacks_accept (counters : ParseCounters) (seq : UInt32) :
    callbacks (counters.accept seq).2 = [] := by
  unfold ParseCounters.accept
  split <;> rfl

theorem skipByte_notMem_accept
    (counters : ParseCounters) (seq : UInt32) (byte : UInt8) :
    ParseEvent.skipByte byte ∉ (counters.accept seq).2 := by
  unfold ParseCounters.accept
  split <;> simp

namespace Frame

/-- A frame of the exchange is self-delimiting. -/
def raw (frame : Frame) : RawFrame where
  bytes := frame.bytes
  known := by
    have typed := frame.msgTypeAt_bytes []
    rw [List.append_nil] at typed
    rw [typed]
    have bounds := msgTotalSize_code frame.kind
    omega
  sized := by
    have typed := frame.msgTypeAt_bytes []
    rw [List.append_nil] at typed
    rw [typed]
    exact frame.msg.bytes_length

/-- A frame of the exchange passes its check and reaches its callback. -/
theorem receive_eq (counters : ParseCounters) (frame : Frame) :
    counters.receive frame.bytes =
      ((counters.accept frame.seqNo).1,
        (counters.accept frame.seqNo).2 ++
          [.invoke frame.kind frame.bytes]) := by
  have typed := frame.msgTypeAt_bytes []
  rw [List.append_nil] at typed
  have delivered :
      dispatch (msgTypeAt frame.bytes) frame.bytes =
        [.invoke frame.kind frame.bytes] := by
    unfold dispatch
    rw [typed, MsgKind.ofCode_code]
  rw [ParseCounters.receive_eq_dispatch]
  rw [if_neg (not_not.mpr frame.bodyChecksum_bytes),
    frame.seqNoAt_bytes, delivered]

end Frame

/-- Deliver one frame after the other. -/
def ParseCounters.deliverAll
    (counters : ParseCounters) (frames : List Frame) :
    ParseCounters × List ParseEvent :=
  counters.receiveAll (frames.map Frame.raw)

namespace ParseCounters

@[simp]
theorem deliverAll_nil (counters : ParseCounters) :
    counters.deliverAll [] = (counters, []) :=
  rfl

theorem deliverAll_cons
    (counters : ParseCounters) (frame : Frame) (frames : List Frame) :
    counters.deliverAll (frame :: frames) =
      (((counters.accept frame.seqNo).1.deliverAll frames).1,
        (counters.accept frame.seqNo).2 ++
          [.invoke frame.kind frame.bytes] ++
          ((counters.accept frame.seqNo).1.deliverAll frames).2) := by
  unfold deliverAll receiveAll
  rw [List.map_cons, Mealy.run_cons]
  change
    ((Mealy.run _ (counters.receive frame.bytes).1 _).1,
      (counters.receive frame.bytes).2 ++
        (Mealy.run _ (counters.receive frame.bytes).1 _).2) = _
  rw [frame.receive_eq]

/-- Every frame is delivered once, in order. -/
theorem callbacks_deliverAll
    (counters : ParseCounters) (frames : List Frame) :
    callbacks (counters.deliverAll frames).2 =
      frames.map fun frame => (frame.kind, frame.bytes) := by
  induction frames generalizing counters with
  | nil =>
      rfl
  | cons frame frames inductionHypothesis =>
      rw [deliverAll_cons, List.map_cons]
      simp only [callbacks_append, callbacks_accept,
        inductionHypothesis]
      rfl

theorem skipByte_notMem_deliverAll
    (counters : ParseCounters) (frames : List Frame) (byte : UInt8) :
    ParseEvent.skipByte byte ∉ (counters.deliverAll frames).2 := by
  induction frames generalizing counters with
  | nil =>
      simp
  | cons frame frames inductionHypothesis =>
      rw [deliverAll_cons]
      simp only [List.mem_append, List.mem_singleton, not_or]
      exact ⟨⟨skipByte_notMem_accept counters frame.seqNo byte,
        by simp⟩, inductionHypothesis _⟩

theorem totalParsed_deliverAll
    (counters : ParseCounters) (frames : List Frame) :
    (counters.deliverAll frames).1.totalParsed =
      counters.totalParsed + UInt64.ofNat frames.length := by
  induction frames generalizing counters with
  | nil =>
      simp
  | cons frame frames inductionHypothesis =>
      rw [deliverAll_cons, inductionHypothesis, List.length_cons,
        UInt64.ofNat_add]
      change counters.totalParsed + 1 + _ = _
      rw [UInt64.add_assoc, UInt64.add_comm 1]
      rfl

theorem badChecksums_deliverAll
    (counters : ParseCounters) (frames : List Frame) :
    (counters.deliverAll frames).1.badChecksums =
      counters.badChecksums := by
  induction frames generalizing counters with
  | nil =>
      rfl
  | cons frame frames inductionHypothesis =>
      rw [deliverAll_cons, inductionHypothesis]
      rfl

end ParseCounters

/-- What a fresh parser does with a stream of frames, however it is cut. -/
theorem Parser.Fresh.feedAll_frames
    {parser : Parser} (fresh : parser.Fresh)
    {frames : List Frame} {chunks : List (List UInt8)}
    (cuts : chunks.flatten = frames.flatMap Frame.bytes)
    (bounded : ∀ chunk ∈ chunks, chunk.length ≤ 65536) :
    ∃ final,
      parser.feedAll chunks =
          some (final, (ParseCounters.zero.deliverAll frames).2) ∧
        final.toParseCounters =
          (ParseCounters.zero.deliverAll frames).1 ∧
        final.residue = [] := by
  have rawBytes :
      frames.flatMap Frame.bytes =
        (frames.map Frame.raw).flatMap RawFrame.bytes := by
    rw [List.flatMap_map]
    rfl
  have scanned := fresh.feedAll_reads bounded
  rw [cuts, rawBytes, referenceScan_rawFrames] at scanned
  exact scanned

/-- The wire round trip: whatever the fragmentation, the callback of each
message is invoked once and in order with the bytes of the message, from which
its fields can be read back; nothing is skipped, refused or left over. -/
theorem feedAll_frames_roundTrip
    {parser : Parser} (fresh : parser.Fresh)
    {frames : List Frame} {chunks : List (List UInt8)}
    (cuts : chunks.flatten = frames.flatMap Frame.bytes)
    (bounded : ∀ chunk ∈ chunks, chunk.length ≤ 65536) :
    ∃ final events,
      parser.feedAll chunks = some (final, events) ∧
        callbacks events =
          frames.map (fun frame => (frame.kind, frame.bytes)) ∧
        (callbacks events).map (fun call => Msg.ofBytes call.1 call.2) =
          frames.map Frame.msg ∧
        final.badChecksums = 0 ∧
        final.totalParsed = UInt64.ofNat frames.length ∧
        (∀ byte, ParseEvent.skipByte byte ∉ events) ∧
        final.bufUsed = 0 := by
  obtain ⟨final, feedAllEq, counters, residue⟩ :=
    fresh.feedAll_frames cuts bounded
  have calls :=
    ParseCounters.callbacks_deliverAll ParseCounters.zero frames
  refine ⟨final, _, feedAllEq, calls, ?_, ?_, ?_, ?_, ?_⟩
  · rw [calls, List.map_map]
    apply List.map_congr_left
    intro frame _
    exact frame.msg.ofBytes_bytes
  · rw [counters, ParseCounters.badChecksums_deliverAll]
    rfl
  · rw [counters, ParseCounters.totalParsed_deliverAll]
    exact UInt64.zero_add _
  · exact ParseCounters.skipByte_notMem_deliverAll _ frames
  · rw [← Parser.residue_length, residue]
    rfl

/-- A generated trade and a generated heartbeat, cut inside the header of the
trade. -/
theorem feedAll_frames_roundTrip_generated :
    let frames :=
      [TickGenerator.tradeFrame 7 41 ⟨1000, 4657857021149446144, 250⟩,
        TickGenerator.heartbeatFrame 42 2000]
    let stream := frames.flatMap Frame.bytes
    let received : List Msg :=
      [.trade
          { header :=
              { msgType := msgTrade
                seqNo := 41
                timestampNs := 1000
                symbolId := 7 }
            payload :=
              { price := 4657857021149446144
                quantity := 250 }
            checksum := 189663411 },
        .heartbeat
          { header :=
              { msgType := msgHeartbeat
                seqNo := 42
                timestampNs := 2000
                symbolId := 0 }
            checksum := 133824515 }]
    ∃ final events,
      (Parser.new ⟨fun _ => 0⟩).feedAll
          [stream.take 5, [], stream.drop 5] = some (final, events) ∧
        (callbacks events).map Prod.fst = [.trade, .heartbeat] ∧
        (callbacks events).map (fun call => Msg.ofBytes call.1 call.2) =
          received ∧
        final.totalParsed = 2 := by
  intro frames stream received
  obtain ⟨final, events, feedAllEq, calls, fields, _, total, _⟩ :=
    feedAll_frames_roundTrip
      (Parser.Fresh.constructed ⟨fun _ => 0⟩)
      (show
        [stream.take 5, [], stream.drop 5].flatten =
          frames.flatMap Frame.bytes
        from rfl)
      (by decide)
  refine ⟨final, events, feedAllEq, ?_, fields.trans ?_, total⟩
  · rw [calls]
    rfl
  · decide +kernel

end MarketDataHandler
