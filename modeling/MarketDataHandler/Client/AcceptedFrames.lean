import MarketDataHandler.Client.BufferDiscipline
import MarketDataHandler.Client.CacheBounds
import MarketDataHandler.Client.FinalStatistics

/-!
# The accepted part of a stream

The parser is a filter.  Whatever arrives, the callbacks are given frames that
the exchange could have sent: a byte string with a known type, the length of
that type and a matching checksum is the encoding of a message.  Apart from the
count of bad checksums the parser ends as if these frames alone had arrived,
and a second parser behind the first one changes nothing.
-/

namespace MarketDataHandler

open PackedCodec (u16 u32 exact_u16 exact_u32 exact_u64)

/-! ## Checked byte strings are frames -/

theorem MsgHeader.codec_exact : MsgHeader.codec.Exact :=
  (exact_u16.pair (exact_u32.pair (exact_u64.pair exact_u16))).along _

theorem TradePay.codec_exact : TradePay.codec.Exact :=
  (exact_u64.pair exact_u32).along _

theorem QuotePay.codec_exact : QuotePay.codec.Exact :=
  (exact_u64.pair (exact_u32.pair (exact_u64.pair exact_u32))).along _

theorem TradeMsg.codec_exact : TradeMsg.codec.Exact :=
  ((MsgHeader.codec_exact.pair TradePay.codec_exact).pair exact_u32).along _

theorem QuoteMsg.codec_exact : QuoteMsg.codec.Exact :=
  ((MsgHeader.codec_exact.pair QuotePay.codec_exact).pair exact_u32).along _

theorem HeartbeatMsg.codec_exact : HeartbeatMsg.codec.Exact :=
  (MsgHeader.codec_exact.pair exact_u32).along _

@[simp]
theorem Msg.kind_ofBytes (kind : MsgKind) (bytes : List UInt8) :
    (Msg.ofBytes kind bytes).kind = kind := by
  cases kind <;> rfl

/-- Every byte string of the right length lies in memory as some message. -/
theorem Msg.bytes_ofBytes
    {kind : MsgKind} {bytes : List UInt8}
    (sized : bytes.length = msgTotalSize kind.code) :
    (Msg.ofBytes kind bytes).bytes = bytes := by
  cases kind with
  | trade =>
      exact TradeMsg.codec_exact bytes sized
  | quote =>
      exact QuoteMsg.codec_exact bytes sized
  | heartbeat =>
      exact HeartbeatMsg.codec_exact bytes sized

theorem Msg.msgTypeAt_bytes (msg : Msg) :
    msgTypeAt msg.bytes = msg.header.msgType := by
  obtain ⟨behind, shape⟩ := msg.bytes_front
  rw [msgTypeAt, shape, u16.decode_encode_append]

theorem Msg.bodyChecksum_bytes (msg : Msg) :
    bodyChecksum msg.bytes = computeChecksum msg.body := by
  rw [bodyChecksum, msg.bytes_length, msg.bytes_take_body]

theorem Msg.wireChecksum_bytes (msg : Msg) :
    wireChecksum msg.bytes = msg.checksum := by
  have split : msg.bytes.length - 4 = msg.body.length := by
    rw [msg.bytes_length, msg.body_length]
  rw [wireChecksum, split, msg.bytes_eq, List.drop_left' rfl,
    u32.decode_encode]

/-- What passes the tests of the parser is a frame of the exchange. -/
theorem Frame.exists_of_checked
    {kind : MsgKind} {bytes : List UInt8}
    (typed : msgTypeAt bytes = kind.code)
    (sized : bytes.length = msgTotalSize kind.code)
    (checked : bodyChecksum bytes = wireChecksum bytes) :
    ∃ frame : Frame, frame.kind = kind ∧ frame.bytes = bytes := by
  have whole := Msg.bytes_ofBytes sized
  refine ⟨⟨Msg.ofBytes kind bytes, ?_, ?_⟩, Msg.kind_ofBytes kind bytes,
    whole⟩
  · rw [Msg.kind_ofBytes, ← Msg.msgTypeAt_bytes, whole, typed]
  · rw [← Msg.wireChecksum_bytes, ← Msg.bodyChecksum_bytes, whole, checked]

/-! ## The events of a scan -/

/-- Events that only a frame that passes its check gives rise to. -/
def ParseEvent.ofFrame : ParseEvent → Bool
  | .logGap _ _ => true
  | .invoke _ _ => true
  | _ => false

/-- The bytes of the stream that an event uses up. -/
def ParseEvent.bytes : ParseEvent → List UInt8
  | .skipByte byte => [byte]
  | .badChecksum frame => frame
  | .invoke _ frame => frame
  | _ => []

/-- The warnings about gaps and the callbacks. -/
def ofFrames (events : List ParseEvent) : List ParseEvent :=
  events.filter ParseEvent.ofFrame

namespace ParseCounters

/-- The counters with another number of bad checksums. -/
def withBad (counters : ParseCounters) (bad : UInt64) : ParseCounters :=
  { counters with badChecksums := bad }

@[simp]
theorem withBad_withBad (counters : ParseCounters) (first second : UInt64) :
    (counters.withBad first).withBad second = counters.withBad second :=
  rfl

/-- Frames that pass their check do not look at the bad ones. -/
theorem deliverAll_withBad
    (counters : ParseCounters) (bad : UInt64) (frames : List Frame) :
    (counters.withBad bad).deliverAll frames =
      ((counters.deliverAll frames).1.withBad bad,
        (counters.deliverAll frames).2) := by
  induction frames generalizing counters with
  | nil =>
      rfl
  | cons frame frames inductionHypothesis =>
      have first :
          (counters.withBad bad).accept frame.seqNo =
            ((counters.accept frame.seqNo).1.withBad bad,
              (counters.accept frame.seqNo).2) :=
        rfl
      rw [deliverAll_cons, deliverAll_cons, first, inductionHypothesis]

end ParseCounters

theorem ofFrames_append (first second : List ParseEvent) :
    ofFrames (first ++ second) = ofFrames first ++ ofFrames second :=
  List.filter_append first second

theorem callbacks_ofFrames (events : List ParseEvent) :
    callbacks (ofFrames events) = callbacks events := by
  rw [callbacks, ofFrames, List.filterMap_filter]
  apply List.filterMap_congr
  intro event _
  cases event <;> rfl

theorem ofFrames_accept (counters : ParseCounters) (seq : UInt32) :
    ofFrames (counters.accept seq).2 = (counters.accept seq).2 ∧
      (counters.accept seq).2.flatMap ParseEvent.bytes = [] := by
  rw [ParseCounters.accept]
  split <;> exact ⟨rfl, rfl⟩

/-- A whole frame at the front is refused, or it is a frame of the
exchange. -/
theorem receive_cases
    (counters : ParseCounters) {input : List UInt8}
    (known : msgTotalSize (msgTypeAt input) ≠ 0)
    (complete : msgTotalSize (msgTypeAt input) ≤ input.length) :
    counters.receive (input.take (msgTotalSize (msgTypeAt input))) =
        (counters.reject,
          [.badChecksum (input.take (msgTotalSize (msgTypeAt input)))]) ∨
      ∃ frame : Frame,
        frame.bytes = input.take (msgTotalSize (msgTypeAt input)) := by
  have wide := (msgTotalSize_bounds known).1
  rcases msgTotalSize_cases (msgTypeAt input) with
    ⟨unknown, _⟩ | ⟨kind, typed, size⟩
  · exact absurd unknown known
  · rw [size] at complete wide ⊢
    by_cases checked :
        bodyChecksum (input.take (msgTotalSize kind.code)) =
          wireChecksum (input.take (msgTotalSize kind.code))
    · have named :
          msgTypeAt (input.take (msgTotalSize kind.code)) = kind.code := by
        rw [msgTypeAt_take input (by omega), typed]
      obtain ⟨frame, _, bytes⟩ :=
        Frame.exists_of_checked named (List.length_take_of_le complete)
          checked
      exact Or.inr ⟨frame, bytes⟩
    · left
      rw [ParseCounters.receive, if_pos checked]

/-- What a scan has accepted: it did with its input what it does with these
frames alone, apart from the count of bad checksums. -/
structure Accepts (counters : ParseCounters)
    (outcome : StreamScanner.Outcome ParseCounters ParseEvent UInt8)
    (frames : List Frame) : Prop where
  delivered : ofFrames outcome.output = (counters.deliverAll frames).2
  state :
    outcome.state =
      (counters.deliverAll frames).1.withBad outcome.state.badChecksums

theorem Accepts.callbacks
    {counters : ParseCounters} {frames : List Frame}
    {outcome : StreamScanner.Outcome ParseCounters ParseEvent UInt8}
    (accepts : Accepts counters outcome frames) :
    callbacks outcome.output =
      frames.map fun frame => (frame.kind, frame.bytes) := by
  rw [← callbacks_ofFrames, accepts.delivered,
    ParseCounters.callbacks_deliverAll]

/-- Every scan accepts some frames, whatever its input is. -/
theorem accepts_run (counters : ParseCounters) (input : List UInt8) :
    ∃ frames,
      Accepts counters (referenceScanner.run counters input) frames := by
  refine referenceScanner.run_induction
    (motive := fun counters _ outcome =>
      ∃ frames, Accepts counters outcome frames) ?_ ?_ counters input
  · intro counters input _
    exact ⟨[], rfl, rfl⟩
  · intro counters input next events count decision inductionHypothesis
    obtain ⟨frames, laterEvents, laterState⟩ := inductionHypothesis
    obtain ⟨_, shape⟩ := scanStep_cases decision
    -- Neither a skipped byte nor a refused frame is seen by later frames.
    have passedOver (bad : UInt64) (silent : ofFrames events = [])
        (same : next = counters.withBad bad) :
        Accepts counters
          ((referenceScanner.run next (input.drop count)).after events)
          frames := by
      rw [same, ParseCounters.deliverAll_withBad] at laterEvents laterState
      rw [same]
      constructor
      · rw [StreamScanner.Outcome.after_output, ofFrames_append, silent,
          laterEvents, List.nil_append]
      · rw [StreamScanner.Outcome.after_state]
        exact laterState
    rcases shape with ⟨_, same, skipped, _⟩ | ⟨known, rfl, complete, received⟩
    · refine ⟨frames, passedOver counters.badChecksums ?_ ?_⟩
      · rw [skipped]
        rfl
      · rw [same]
        rfl
    · rcases receive_cases counters known complete with
        refused | ⟨frame, bytes⟩
      · rw [refused] at received
        cases received
        exact ⟨frames, passedOver (counters.badChecksums + 1) rfl rfl⟩
      · rw [← bytes, frame.receive_eq] at received
        cases received
        refine ⟨frame :: frames, ?_, ?_⟩
        · rw [StreamScanner.Outcome.after_output, ofFrames_append,
            ofFrames_append, (ofFrames_accept counters _).1, laterEvents,
            ParseCounters.deliverAll_cons]
          rfl
        · rw [StreamScanner.Outcome.after_state,
            ParseCounters.deliverAll_cons]
          exact laterState

/-- The events use up the input in order, and the rest is left. -/
theorem bytes_run (counters : ParseCounters) (input : List UInt8) :
    (referenceScanner.run counters input).output.flatMap
          ParseEvent.bytes ++
        (referenceScanner.run counters input).rest =
      input := by
  refine referenceScanner.run_induction
    (motive := fun _ input outcome =>
      outcome.output.flatMap ParseEvent.bytes ++ outcome.rest = input)
    ?_ ?_ counters input
  · intro counters input _
    rfl
  · intro counters input next events count decision inductionHypothesis
    have first : events.flatMap ParseEvent.bytes = input.take count := by
      obtain ⟨long, shape⟩ := scanStep_cases decision
      rcases shape with ⟨_, _, rfl, rfl⟩ | ⟨known, rfl, complete, received⟩
      · cases input with
        | nil =>
            simp at long
        | cons byte rest =>
            rfl
      · rcases receive_cases counters known complete with
          refused | ⟨frame, bytes⟩
        · rw [refused] at received
          cases received
          exact List.append_nil _
        · rw [← bytes, frame.receive_eq] at received
          cases received
          rw [List.flatMap_append, (ofFrames_accept counters _).2, ← bytes]
          exact List.append_nil _
    rw [StreamScanner.Outcome.after_output,
      StreamScanner.Outcome.after_rest, List.flatMap_append, first,
      List.append_assoc, inductionHypothesis, List.take_append_drop]

/-! ## The parser as a filter -/

/-- What the parser made of a stream: the frames that reach their callbacks,
the warnings and counters that these frames alone give rise to, and a place for
every byte. -/
structure Sifted (stream : List UInt8) (events : List ParseEvent)
    (final : Parser) (frames : List Frame) : Prop where
  callbacks :
    callbacks events = frames.map fun frame => (frame.kind, frame.bytes)
  delivered : ofFrames events = (ParseCounters.zero.deliverAll frames).2
  counters :
    final.toParseCounters =
      (ParseCounters.zero.deliverAll frames).1.withBad
        (UInt64.ofNat (badFrames events))
  bytes :
    events.flatMap ParseEvent.bytes ++ final.residue = stream

theorem sifted_of_scan
    {final : Parser} {stream : List UInt8}
    (counters : final.toParseCounters = (referenceScan stream).state)
    (residue : final.residue = (referenceScan stream).rest) :
    ∃ frames,
      Sifted stream (referenceScan stream).output final frames := by
  obtain ⟨frames, accepts⟩ := accepts_run ParseCounters.zero stream
  have bad :
      (referenceScan stream).state.badChecksums =
        UInt64.ofNat (badFrames (referenceScan stream).output) := by
    rw [referenceScan, (counts_run _ _).2]
    exact UInt64.zero_add _
  refine ⟨frames, accepts.callbacks, accepts.delivered, ?_, ?_⟩
  · rw [counters, ← bad]
    exact accepts.state
  · rw [residue]
    exact bytes_run ParseCounters.zero stream

/-- Whatever arrives and however it is cut, every callback is given a frame of
the exchange, and the parser ends as if these frames alone had arrived. -/
theorem feedAll_sifted
    {parser : Parser} (fresh : parser.Fresh)
    {chunks : List (List UInt8)}
    (bounded : ∀ chunk ∈ chunks, chunk.length ≤ 65536) :
    ∃ final events frames,
      parser.feedAll chunks = some (final, events) ∧
        Sifted chunks.flatten events final frames := by
  obtain ⟨final, fed, counters, residue⟩ := fresh.feedAll_reads bounded
  obtain ⟨frames, sifted⟩ := sifted_of_scan counters residue
  exact ⟨final, _, frames, fed, sifted⟩

/-- A byte of an unknown type, a heartbeat with a wrong checksum, a trade and
the beginning of a quote. -/
theorem feedAll_sifted_mixed :
    let trade := TickGenerator.tradeFrame 7 41 ⟨1000, 21, 250⟩
    let stream :=
      [255] ++ ((TickGenerator.heartbeatFrame 40 0).bytes.set 19 1) ++
        trade.bytes ++ [2, 0, 9]
    ∃ final events frames,
      (Parser.new ⟨fun _ => 0⟩).feedAll [stream.take 30, stream.drop 30] =
          some (final, events) ∧
        Sifted stream events final frames := by
  intro trade stream
  have cut : [stream.take 30, stream.drop 30].flatten = stream := rfl
  have sifted :=
    feedAll_sifted (Parser.Fresh.constructed ⟨fun _ => 0⟩)
      (show
        ∀ chunk ∈ [stream.take 30, stream.drop 30],
          chunk.length ≤ 65536
        from by decide)
  rw [cut] at sifted
  exact sifted

/-- A second parser behind the first one lets everything through: fed the
frames that the callbacks were given, in any pieces, it invokes the same
callbacks, gives the same warnings and ends with the same counters, and it
skips, refuses and keeps nothing. -/
theorem feedAll_accepted_again
    {first second : Parser} (firstFresh : first.Fresh)
    (secondFresh : second.Fresh) {chunks again : List (List UInt8)}
    (bounded : ∀ chunk ∈ chunks, chunk.length ≤ 65536)
    (againBounded : ∀ chunk ∈ again, chunk.length ≤ 65536)
    {firstFinal : Parser} {events : List ParseEvent}
    (fed : first.feedAll chunks = some (firstFinal, events))
    (cuts : again.flatten = (callbacks events).flatMap Prod.snd) :
    ∃ secondFinal,
      second.feedAll again = some (secondFinal, ofFrames events) ∧
        callbacks (ofFrames events) = callbacks events ∧
        secondFinal.toParseCounters =
          firstFinal.toParseCounters.withBad 0 ∧
        secondFinal.residue = [] := by
  obtain ⟨_, sameFed, firstCounters, firstResidue⟩ :=
    firstFresh.feedAll_reads bounded
  rw [fed] at sameFed
  cases sameFed
  obtain ⟨frames, sifted⟩ := sifted_of_scan firstCounters firstResidue
  have stream : again.flatten = frames.flatMap Frame.bytes := by
    rw [cuts, sifted.callbacks, List.flatMap_map]
  obtain ⟨secondFinal, secondFed, counters, residue⟩ :=
    secondFresh.feedAll_frames stream againBounded
  refine ⟨secondFinal, ?_, callbacks_ofFrames _, ?_, residue⟩
  · rw [secondFed, sifted.delivered]
  · have clean :
        (ParseCounters.zero.deliverAll frames).1.badChecksums = 0 :=
      ParseCounters.badChecksums_deliverAll ParseCounters.zero frames
    rw [counters, sifted.counters, ParseCounters.withBad_withBad, ← clean]
    rfl

/-- The trade of a stream that also holds a byte of an unknown type, sent
through a second parser. -/
theorem feedAll_accepted_again_trade :
    let trade := TickGenerator.tradeFrame 7 41 ⟨1000, 21, 250⟩
    ∃ firstFinal events secondFinal,
      (Parser.new ⟨fun _ => 0⟩).feedAll [[255] ++ trade.bytes] =
          some (firstFinal, events) ∧
        (Parser.new ⟨fun _ => 0⟩).feedAll [trade.bytes] =
          some (secondFinal, ofFrames events) ∧
        secondFinal.residue = [] := by
  intro trade
  have short : ∀ chunk ∈ [[255] ++ trade.bytes], chunk.length ≤ 65536 := by
    decide
  have shorter : ∀ chunk ∈ [trade.bytes], chunk.length ≤ 65536 := by
    decide
  obtain ⟨firstFinal, fed, _, _⟩ :=
    (Parser.Fresh.constructed ⟨fun _ => 0⟩).feedAll_reads short
  obtain ⟨secondFinal, secondFed, _, _, residue⟩ :=
    feedAll_accepted_again (Parser.Fresh.constructed ⟨fun _ => 0⟩)
      (Parser.Fresh.constructed ⟨fun _ => 0⟩) short shorter fed
      (by decide)
  exact ⟨firstFinal, _, secondFinal, fed, secondFed, residue⟩

/-! ## Data of any length -/

/-- Also a parser that is fed data of any length and reset at any time gives
its callbacks frames of the exchange only. -/
theorem performAll_callbacks
    {parser : Parser} (settled : parser.Settled)
    {calls : List ParserCall} (allowed : ∀ call ∈ calls, call.Allowed) :
    ∃ final events,
      parser.performAll calls = some (final, events) ∧
        ∃ frames : List Frame,
          callbacks events =
            frames.map fun frame => (frame.kind, frame.bytes) := by
  induction calls generalizing parser with
  | nil =>
      exact ⟨parser, [], rfl, [], rfl⟩
  | cons call calls inductionHypothesis =>
      have first :
          ∃ next events,
            parser.perform call = some (next, events) ∧ next.Settled ∧
              ∃ frames : List Frame,
                callbacks events =
                  frames.map fun frame => (frame.kind, frame.bytes) := by
        cases call with
        | feed data =>
            obtain ⟨next, fed, _, _, nextSettled⟩ :=
              Parser.feed_data settled
                (allowed (.feed data) List.mem_cons_self)
            obtain ⟨frames, accepts⟩ :=
              accepts_run parser.toParseCounters (parser.joined data)
            refine ⟨next, _, fed, nextSettled, frames, ?_⟩
            have quiet :
                callbacks (parser.overflowLog data.length) = [] := by
              rw [Parser.overflowLog]
              split <;> rfl
            rw [callbacks_append, quiet, List.nil_append,
              accepts.callbacks]
        | reset =>
            exact ⟨parser.reset, [], rfl, parser.settled_reset, [], rfl⟩
      obtain ⟨next, events, performed, nextSettled, frames, now⟩ := first
      obtain ⟨final, later, rest, laterFrames, behind⟩ :=
        inductionHypothesis nextSettled
          (fun other member =>
            allowed other (List.mem_cons_of_mem call member))
      refine ⟨final, events ++ later,
        Parser.performAll_cons performed rest, frames ++ laterFrames, ?_⟩
      rw [callbacks_append, now, behind, List.map_append]

/-- A call that overflows the buffer between two resets. -/
theorem performAll_callbacks_overflow :
    ∃ final events,
      (Parser.new ⟨fun _ => 0⟩).performAll
          [.reset, .feed (List.replicate 200000 1), .reset] =
            some (final, events) ∧
        ∃ frames : List Frame,
          callbacks events =
            frames.map fun frame => (frame.kind, frame.bytes) := by
  have start : (Parser.new ⟨fun _ => 0⟩).Settled :=
    Parser.Reachable.settled
      ⟨⟨fun _ => 0⟩, [], [], List.forall_mem_nil _, rfl⟩
  apply performAll_callbacks start
  intro call member
  simp only [List.mem_cons, List.not_mem_nil, or_false] at member
  rcases member with rfl | rfl | rfl
  · trivial
  · rw [ParserCall.Allowed, List.length_replicate]
    decide
  · trivial

end MarketDataHandler
