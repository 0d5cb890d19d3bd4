import MarketDataHandler.Client.FrameStream
import Mathlib.Data.List.Range

/-!
# Resynchronisation

A stream that starts in the middle of a frame is read from a wrong position.
At an unknown type the parser moves on by one byte, but at a known one it
moves on by a whole frame, also when the checksum shows that no frame starts
there.  `HeaderChain` is the orbit of positions that this gives.  It depends
on the type codes found along the way only, and the parser is back in step
exactly when the orbit meets the start of a frame.  It need not: quotes of
symbol 2 carry the code of a quote in their symbol field.
-/

namespace MarketDataHandler

open PackedCodec (u16 u32 u64)

/-! ## Positions of events in the stream -/

/-- How many bytes of the stream an event uses up. -/
def ParseEvent.consumed : ParseEvent → Nat
  | .logOverflow _ => 0
  | .skipByte _ => 1
  | .badChecksum frame => frame.length
  | .logGap _ _ => 0
  | .invoke _ frame => frame.length

/-- The callbacks among the events, with the stream position of the frame
they are given. -/
def positionedCallbacks :
    Nat → List ParseEvent → List (Nat × MsgKind × List UInt8)
  | _, [] => []
  | position, event :: events =>
      (match event with
        | .invoke kind frame => [(position, kind, frame)]
        | _ => []) ++
        positionedCallbacks (position + event.consumed) events

def consumedBytes (events : List ParseEvent) : Nat :=
  (events.map ParseEvent.consumed).sum

theorem positionedCallbacks_append
    (position : Nat) (first second : List ParseEvent) :
    positionedCallbacks position (first ++ second) =
      positionedCallbacks position first ++
        positionedCallbacks (position + consumedBytes first) second := by
  induction first generalizing position with
  | nil =>
      rfl
  | cons event events inductionHypothesis =>
      simp only [List.cons_append, positionedCallbacks,
        inductionHypothesis, consumedBytes, List.map_cons,
        List.sum_cons, List.append_assoc, Nat.add_assoc]

theorem consumedBytes_append (first second : List ParseEvent) :
    consumedBytes (first ++ second) =
      consumedBytes first + consumedBytes second := by
  rw [consumedBytes, List.map_append, List.sum_append]
  rfl

/-- No callback is given a position in front of where the count starts. -/
theorem le_of_mem_positionedCallbacks
    {start : Nat} {events : List ParseEvent}
    {call : Nat × MsgKind × List UInt8}
    (member : call ∈ positionedCallbacks start events) :
    start ≤ call.1 := by
  induction events generalizing start with
  | nil =>
      cases member
  | cons event events inductionHypothesis =>
      simp only [positionedCallbacks, List.mem_append] at member
      rcases member with now | later
      · cases event with
        | invoke kind frame =>
            exact Nat.le_of_eq
              (congrArg Prod.fst (List.mem_singleton.mp now)).symm
        | _ =>
            cases now
      · exact Nat.le_trans (Nat.le_add_right start event.consumed)
          (inductionHypothesis later)

/-- The warning about an overflow uses up nothing and is no callback. -/
theorem Parser.overflowLog_silent (parser : Parser) (len : Nat) :
    consumedBytes (parser.overflowLog len) = 0 ∧
      positionedCallbacks 0 (parser.overflowLog len) = [] := by
  rw [Parser.overflowLog]
  split <;> exact ⟨rfl, rfl⟩

theorem positionedCallbacks_map_snd
    (position : Nat) (events : List ParseEvent) :
    (positionedCallbacks position events).map Prod.snd =
      callbacks events := by
  induction events generalizing position with
  | nil =>
      rfl
  | cons event events inductionHypothesis =>
      cases event with
      | invoke kind frame =>
          exact congrArg _ (inductionHypothesis _)
      | _ =>
          exact inductionHypothesis _

theorem positionedCallbacks_accept
    (position : Nat) (counters : ParseCounters) (seq : UInt32)
    (events : List ParseEvent) :
    positionedCallbacks position ((counters.accept seq).2 ++ events) =
      positionedCallbacks position events := by
  rw [ParseCounters.accept]
  split <;> rfl

/-- A frame uses up its bytes, whether it passes its check or not. -/
theorem consumedBytes_receive
    (counters : ParseCounters) {input : List UInt8}
    (known : msgTotalSize (msgTypeAt input) ≠ 0)
    (complete : msgTotalSize (msgTypeAt input) ≤ input.length) :
    consumedBytes
        (counters.receive
          (input.take (msgTotalSize (msgTypeAt input)))).2 =
      msgTotalSize (msgTypeAt input) := by
  have wide := (msgTotalSize_bounds known).1
  have sameType :
      msgTypeAt (input.take (msgTotalSize (msgTypeAt input))) =
        msgTypeAt input :=
    msgTypeAt_take input (by omega)
  have frameLength := List.length_take_of_le complete
  generalize input.take (msgTotalSize (msgTypeAt input)) = frame at *
  rw [ParseCounters.receive_eq_dispatch]
  split
  · simp [consumedBytes, ParseEvent.consumed, frameLength]
  · rcases msgTotalSize_cases (msgTypeAt input) with
      ⟨unknown, _⟩ | ⟨kind, typed, _⟩
    · exact absurd unknown known
    · rw [ParseCounters.accept, dispatch, sameType, typed,
        MsgKind.ofCode_code]
      rw [typed] at frameLength
      split <;> simp [consumedBytes, ParseEvent.consumed, frameLength]

/-- The events of a decision use up the bytes that it passes over. -/
theorem consumedBytes_of_decision
    {counters next : ParseCounters} {input : List UInt8}
    {events : List ParseEvent} {count : Nat}
    (decision : scanStep counters input = some (next, events, count)) :
    consumedBytes events = count := by
  obtain ⟨_, shape⟩ := scanStep_cases decision
  rcases shape with
    ⟨_, _, skipped, one⟩ | ⟨known, size, complete, received⟩
  · rw [skipped, one]
    rfl
  · subst count
    rw [show events = _ from congrArg Prod.snd received]
    exact consumedBytes_receive counters known complete

/-- Callbacks of one received frame are at the position of that frame. -/
theorem position_of_mem_receive
    {counters : ParseCounters} {frame : List UInt8} {position : Nat}
    {call : Nat × MsgKind × List UInt8}
    (member :
      call ∈ positionedCallbacks position (counters.receive frame).2) :
    call.1 = position := by
  rw [ParseCounters.receive_eq_dispatch] at member
  split at member
  · simp [positionedCallbacks] at member
  · rw [positionedCallbacks_accept, dispatch] at member
    split at member
    · simp only [positionedCallbacks, List.append_nil,
        List.mem_singleton] at member
      rw [member]
    · simp [positionedCallbacks] at member

/-! ## The orbit of header positions -/

/-- The positions that are reached from the front of the input by passing
over single bytes in front of which the type is unknown and over the frame
length of a known type. -/
inductive HeaderChain : List UInt8 → Nat → Prop
  | here (input : List UInt8) : HeaderChain input 0
  | skip {input : List UInt8} {position : Nat} :
      16 ≤ input.length →
      msgTotalSize (msgTypeAt input) = 0 →
      HeaderChain (input.drop 1) position →
      HeaderChain input (1 + position)
  | hop {input : List UInt8} {position : Nat} :
      msgTotalSize (msgTypeAt input) ≠ 0 →
      msgTotalSize (msgTypeAt input) ≤ input.length →
      HeaderChain (input.drop (msgTotalSize (msgTypeAt input)))
        position →
      HeaderChain input (msgTotalSize (msgTypeAt input) + position)

/-- Callbacks are invoked at positions of the orbit only. -/
theorem headerChain_of_positionedCallbacks
    (counters : ParseCounters) (input : List UInt8) (start : Nat)
    {call : Nat × MsgKind × List UInt8}
    (member :
      call ∈
        positionedCallbacks start
          (referenceScanner.run counters input).output) :
    ∃ position, call.1 = start + position ∧
      HeaderChain input position := by
  revert start
  refine referenceScanner.run_induction
    (motive := fun _ input outcome =>
      ∀ start, call ∈ positionedCallbacks start outcome.output →
        ∃ position, call.1 = start + position ∧
          HeaderChain input position) ?_ ?_ counters input
  · intro counters input _ start member
    simp [positionedCallbacks] at member
  · intro counters input next output count decision inductionHypothesis
      start member
    rw [StreamScanner.Outcome.after_output, positionedCallbacks_append,
      List.mem_append] at member
    obtain ⟨long, shape⟩ := scanStep_cases decision
    rcases shape with
      ⟨unknown, rfl, rfl, rfl⟩ | ⟨known, rfl, complete, received⟩
    · rcases member with now | later
      · simp [positionedCallbacks] at now
      · obtain ⟨position, placed, chain⟩ :=
          inductionHypothesis _ later
        refine ⟨1 + position, ?_, HeaderChain.skip long unknown chain⟩
        rw [placed, ← Nat.add_assoc]
        rfl
    · have outputEq : output = (counters.receive _).2 :=
        congrArg Prod.snd received
      rw [outputEq, consumedBytes_receive counters known complete]
        at member
      rcases member with now | later
      · exact ⟨0, position_of_mem_receive now, HeaderChain.here input⟩
      · obtain ⟨position, placed, chain⟩ :=
          inductionHypothesis _ later
        refine ⟨msgTotalSize (msgTypeAt input) + position, ?_,
          HeaderChain.hop known complete chain⟩
        rw [placed, Nat.add_assoc]

/-- A frame of the exchange that lies at a position of the orbit reaches its
callback there. -/
theorem positionedCallbacks_of_headerChain
    {input : List UInt8} {position : Nat}
    (chain : HeaderChain input position)
    (counters : ParseCounters) (start : Nat)
    {frame : Frame} {rest : List UInt8}
    (lies : input.drop position = frame.bytes ++ rest) :
    (start + position, frame.kind, frame.bytes) ∈
      positionedCallbacks start
        (referenceScanner.run counters input).output := by
  induction chain generalizing counters start with
  | here input =>
      rw [List.drop_zero] at lies
      subst input
      have decision := frame.raw.scanStep_eq counters rest
      change
        scanStep counters (frame.bytes ++ rest) =
          some ((counters.receive frame.bytes).1,
            (counters.receive frame.bytes).2, frame.bytes.length)
        at decision
      rw [frame.receive_eq] at decision
      rw [referenceScanner.run_of_step_some decision,
        StreamScanner.Outcome.after_output, List.append_assoc,
        positionedCallbacks_accept]
      exact List.mem_append_left _ (List.mem_singleton.mpr rfl)
  | @skip input position long unknown _ inductionHypothesis =>
      rw [← List.drop_drop] at lies
      rw [referenceScanner.run_of_step_some
          (scanStep_skip long unknown),
        StreamScanner.Outcome.after_output, positionedCallbacks_append,
        ← Nat.add_assoc]
      exact List.mem_append_right _ (inductionHypothesis _ _ lies)
  | @hop input position known complete _ inductionHypothesis =>
      rw [← List.drop_drop] at lies
      rw [referenceScanner.run_of_step_some
          (scanStep_frame known complete),
        StreamScanner.Outcome.after_output, positionedCallbacks_append,
        consumedBytes_receive counters known complete, ← Nat.add_assoc]
      exact List.mem_append_right _ (inductionHypothesis _ _ lies)

/-! ## Meeting a true boundary -/

/-- The parser invokes the callback of some frame at the position where that
frame really starts, behind the garbage and the frames before it. -/
def InvokesAtBoundary (parser : Parser) (chunks : List (List UInt8))
    (garbage : List UInt8) (frames : List Frame) : Prop :=
  ∃ final events,
    parser.feedAll chunks = some (final, events) ∧
      ∃ before frame behind,
        frames = before ++ frame :: behind ∧
          ((garbage ++ before.flatMap Frame.bytes).length,
              frame.kind, frame.bytes) ∈
            positionedCallbacks 0 events

/-- The orbit that starts at the first byte of the stream meets the start of
a frame. -/
def MeetsBoundary (garbage : List UInt8) (frames : List Frame) : Prop :=
  ∃ before frame behind,
    frames = before ++ frame :: behind ∧
      HeaderChain (garbage ++ frames.flatMap Frame.bytes)
        (garbage ++ before.flatMap Frame.bytes).length

/-- Feeding the stream in pieces is scanning it. -/
private theorem Parser.Fresh.invokesAtBoundary_iff_scan
    {parser : Parser} (fresh : parser.Fresh)
    {garbage : List UInt8} {frames : List Frame}
    {chunks : List (List UInt8)}
    (cuts : chunks.flatten = garbage ++ frames.flatMap Frame.bytes)
    (bounded : ∀ chunk ∈ chunks, chunk.length ≤ 65536) :
    InvokesAtBoundary parser chunks garbage frames ↔
      ∃ before frame behind,
        frames = before ++ frame :: behind ∧
          ((garbage ++ before.flatMap Frame.bytes).length,
              frame.kind, frame.bytes) ∈
            positionedCallbacks 0
              (referenceScan
                (garbage ++ frames.flatMap Frame.bytes)).output := by
  obtain ⟨final, feedAllEq, _, _⟩ :=
    fresh.feedAll_reads bounded
  rw [cuts] at feedAllEq
  constructor
  · rintro ⟨_, events, fed, invoked⟩
    rw [feedAllEq] at fed
    cases fed
    exact invoked
  · intro invoked
    exact ⟨final, _, feedAllEq, invoked⟩

/-- Only a stream whose orbit meets a boundary brings the parser back into
step. -/
theorem Parser.Fresh.meetsBoundary
    {parser : Parser} (fresh : parser.Fresh)
    {garbage : List UInt8} {frames : List Frame}
    {chunks : List (List UInt8)}
    (cuts : chunks.flatten = garbage ++ frames.flatMap Frame.bytes)
    (bounded : ∀ chunk ∈ chunks, chunk.length ≤ 65536)
    (invokes : InvokesAtBoundary parser chunks garbage frames) :
    MeetsBoundary garbage frames := by
  rw [fresh.invokesAtBoundary_iff_scan cuts bounded] at invokes
  obtain ⟨before, frame, behind, split, member⟩ := invokes
  obtain ⟨position, placed, chain⟩ :=
    headerChain_of_positionedCallbacks _ _ 0 member
  rw [Nat.zero_add] at placed
  subst position
  exact ⟨before, frame, behind, split, chain⟩

/-- Whatever stands in front of a clean stream and however it is cut, the
parser invokes a callback on a frame at its true position exactly when the
orbit of header positions meets a true position. -/
theorem invokesAtBoundary_iff_meetsBoundary
    {parser : Parser} (fresh : parser.Fresh)
    {garbage : List UInt8} {frames : List Frame}
    {chunks : List (List UInt8)}
    (cuts : chunks.flatten = garbage ++ frames.flatMap Frame.bytes)
    (bounded : ∀ chunk ∈ chunks, chunk.length ≤ 65536) :
    InvokesAtBoundary parser chunks garbage frames ↔
      MeetsBoundary garbage frames := by
  constructor
  · intro invokes
    exact fresh.meetsBoundary cuts bounded invokes
  · rintro ⟨before, frame, behind, split, chain⟩
    rw [fresh.invokesAtBoundary_iff_scan cuts bounded]
    refine ⟨before, frame, behind, split, ?_⟩
    have lies :
        (garbage ++ frames.flatMap Frame.bytes).drop
            (garbage ++ before.flatMap Frame.bytes).length =
          frame.bytes ++ behind.flatMap Frame.bytes := by
      rw [split, List.flatMap_append, List.flatMap_cons,
        ← List.append_assoc, List.drop_left' rfl]
    have member :=
      positionedCallbacks_of_headerChain chain ParseCounters.zero 0 lies
    rw [Nat.zero_add] at member
    exact member

/-- One stray byte in front of a heartbeat: the orbit starts with a skip and
then stands at the heartbeat. -/
theorem invokesAtBoundary_stray_byte :
    InvokesAtBoundary (Parser.new ⟨fun _ => 0⟩)
      [[9], (TickGenerator.heartbeatFrame 5 2000).bytes] [9]
      [TickGenerator.heartbeatFrame 5 2000] := by
  apply
    (invokesAtBoundary_iff_meetsBoundary
      (Parser.Fresh.constructed ⟨fun _ => 0⟩) rfl (by decide)).mpr
  refine ⟨[], _, [], rfl, ?_⟩
  exact HeaderChain.skip (by decide) (by decide) (HeaderChain.here _)

/-! ## Quotes of symbol 2 -/

/-- If every frame carries the code of a quote 30 bytes before its end, and
30 bytes that start with this code stand in front, the orbit has a constant
stride. -/
theorem headerChain_stride
    {front : List UInt8} {frames : List Frame} {position : Nat}
    (frontLength : front.length = 30)
    (frontType : msgTypeAt front = msgQuote)
    (quotes :
      ∀ frame ∈ frames,
        frame.bytes.length = 44 ∧
          msgTypeAt (frame.bytes.drop 14) = msgQuote)
    (chain :
      HeaderChain (front ++ frames.flatMap Frame.bytes) position) :
    position % 44 = 0 := by
  have inputType :
      msgTypeAt (front ++ frames.flatMap Frame.bytes) = msgQuote := by
    rw [msgTypeAt_append (by omega), frontType]
  induction frames generalizing front position with
  | nil =>
      cases chain with
      | here _ =>
          rfl
      | skip _ unknown _ =>
          rw [inputType] at unknown
          exact absurd unknown (by decide)
      | hop _ complete _ =>
          rw [inputType] at complete
          change 44 ≤ _ at complete
          simp only [List.flatMap_nil, List.append_nil] at complete
          omega
  | cons frame frames inductionHypothesis =>
      obtain ⟨frameLength, innerType⟩ :=
        quotes frame List.mem_cons_self
      generalize inputEq :
        front ++ (frame :: frames).flatMap Frame.bytes = input at *
      cases chain with
      | here _ =>
          rfl
      | skip _ unknown _ =>
          rw [inputType] at unknown
          exact absurd unknown (by decide)
      | hop _ _ later =>
          rw [inputType] at later ⊢
          change HeaderChain (input.drop 44) _ at later
          have rest :
              input.drop 44 =
                frame.bytes.drop 14 ++ frames.flatMap Frame.bytes := by
            rw [← inputEq, List.flatMap_cons, List.drop_append,
              List.drop_of_length_le (by omega), List.nil_append,
              List.drop_append_of_le_length (by omega), frontLength]
          rw [rest] at later
          have innerLength : (frame.bytes.drop 14).length = 30 := by
            rw [List.length_drop, frameLength]
          have stride :=
            inductionHypothesis innerLength innerType
              (fun other member =>
                quotes other (List.mem_cons_of_mem frame member))
              later
              (by rw [msgTypeAt_append (by omega), innerType])
          change (44 + _) % 44 = 0
          omega

/-- A quote of symbol 2 with some prices and quantities. -/
def symbolTwoQuote (seq : UInt32) : Frame :=
  TickGenerator.quoteFrame 2 seq
    { nowNs := 1000
      bidPrice := 4657857021149446144
      askPrice := 4657857021149446145
      bidQty := 500
      askQty := 700 }

theorem symbolTwoQuote_length (seq : UInt32) :
    (symbolTwoQuote seq).bytes.length = 44 :=
  Msg.bytes_length _

/-- The symbol field reads as the type of a quote. -/
theorem symbolTwoQuote_symbol (seq : UInt32) :
    msgTypeAt ((symbolTwoQuote seq).bytes.drop 14) = msgQuote := by
  obtain ⟨behind, shape⟩ := (symbolTwoQuote seq).msg.bytes_header
  have front :
      MsgHeader.codec.encode (symbolTwoQuote seq).msg.header =
        (u16.encode msgQuote ++ (u32.encode seq ++ u64.encode 1000)) ++
          u16.encode 2 := by
    rfl
  have fourteen :
      (u16.encode msgQuote ++
        (u32.encode seq ++ u64.encode 1000)).length = 14 := by
    rw [List.length_append, List.length_append, u16.encode_length,
      u32.encode_length, u64.encode_length]
    rfl
  rw [Frame.bytes, shape, front, List.append_assoc,
    List.drop_left' fourteen, msgTypeAt, u16.decode_encode_append]
  rfl

/-- Behind the first 30 bytes of a quote of symbol 2, no number of such
quotes brings the orbit to a boundary. -/
theorem not_meetsBoundary_symbolTwo (numbers : List UInt32) :
    ¬ MeetsBoundary ((symbolTwoQuote 0).bytes.take 30)
      (numbers.map symbolTwoQuote) := by
  rintro ⟨before, frame, behind, split, chain⟩
  have frontLength :
      ((symbolTwoQuote 0).bytes.take 30).length = 30 := by
    rw [List.length_take, symbolTwoQuote_length]
    decide
  have quotes :
      ∀ frame ∈ numbers.map symbolTwoQuote,
        frame.bytes.length = 44 ∧
          msgTypeAt (frame.bytes.drop 14) = msgQuote := by
    intro frame member
    obtain ⟨seq, _, rfl⟩ := List.mem_map.mp member
    exact ⟨symbolTwoQuote_length seq, symbolTwoQuote_symbol seq⟩
  have stride :=
    headerChain_stride frontLength
      (by rw [msgTypeAt_take _ (by decide)]; rfl) quotes chain
  have beforeLength :
      (before.flatMap Frame.bytes).length = 44 * before.length := by
    have sizes : ∀ frame ∈ before, frame.bytes.length = 44 := by
      intro earlier member
      apply (quotes earlier _).1
      rw [split]
      exact List.mem_append_left _ member
    rw [List.length_flatMap, List.map_congr_left sizes,
      List.map_const', List.sum_replicate_nat, Nat.mul_comm]
  rw [List.length_append, frontLength, beforeLength] at stride
  omega

/-- No number of clean frames is enough: the head of a truncated quote in
front of quotes of symbol 2 with consecutive numbers keeps the parser out of
step for ever. -/
theorem not_resynchronises_within_any_bound :
    ¬ ∃ bound,
      ∀ (parser : Parser) (garbage : List UInt8) (frames : List Frame)
        (chunks : List (List UInt8)),
        parser.Fresh →
        garbage.length ≤ maxMsgSize - 1 →
        bound ≤ frames.length →
        frames.IsChain (fun one next => next.seqNo = one.seqNo + 1) →
        chunks.flatten = garbage ++ frames.flatMap Frame.bytes →
        (∀ chunk ∈ chunks, chunk.length ≤ 65536) →
          InvokesAtBoundary parser chunks garbage frames := by
  rintro ⟨bound, resynchronises⟩
  have fresh := Parser.Fresh.constructed ⟨fun _ => 0⟩
  let garbage := (symbolTwoQuote 0).bytes.take 30
  let numbers := (List.range bound).map UInt32.ofNat
  let frames := numbers.map symbolTwoQuote
  have framesLength : frames.length = bound := by
    rw [List.length_map, List.length_map, List.length_range]
  have consecutive :
      frames.IsChain (fun one next => next.seqNo = one.seqNo + 1) := by
    rw [List.isChain_map, List.isChain_map, List.isChain_range]
    intro index _
    exact UInt32.ofNat_add index 1
  have cuts :
      (garbage :: frames.map Frame.bytes).flatten =
        garbage ++ frames.flatMap Frame.bytes := by
    rw [List.flatten_cons, List.flatMap_def]
  have bounded :
      ∀ chunk ∈ garbage :: frames.map Frame.bytes,
        chunk.length ≤ 65536 := by
    intro chunk member
    rcases List.mem_cons.mp member with rfl | member
    · rw [List.length_take]
      omega
    · obtain ⟨frame, frameMember, rfl⟩ := List.mem_map.mp member
      obtain ⟨seq, _, rfl⟩ := List.mem_map.mp frameMember
      rw [symbolTwoQuote_length]
      decide
  have invokes :=
    resynchronises _ garbage frames _ fresh
      (by rw [List.length_take, symbolTwoQuote_length]; decide)
      (Nat.le_of_eq framesLength.symm) consecutive cuts bounded
  exact not_meetsBoundary_symbolTwo numbers
    (fresh.meetsBoundary cuts bounded invokes)

end MarketDataHandler
