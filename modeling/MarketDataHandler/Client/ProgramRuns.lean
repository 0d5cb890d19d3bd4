import MarketDataHandler.Client.AcceptedFrames

/-!
# Runs of the feed handler

When the main loop stays inside its objects, over any number of connections,
and what it has built up by then.  Two things lead out of them: the end of a
connection, and a frame that passes its check with a symbol number behind the
cache.  As long as neither happens the handler holds the fold of all frames
that were accepted so far.
-/

namespace MarketDataHandler

/-! ## Frames without a place in the cache -/

/-- No callback of the connection indexes behind the cache. -/
theorem symbolsInRange_of_scanned
    {connection : List SessionEvent} (scanned : Scanned connection) :
    SymbolsInRange (streamOf connection) ↔
      ∀ sym ∈ (callsOn connection).filterMap cacheIndex,
        sym.toNat < maxSymbols := by
  rw [scanned.calls]
  exact (cacheIndices_scan_iff ParseCounters.zero _).symm

theorem LogAccounted.symbolsInRange
    {clock : Nat → UInt64} {state : MainState} {log : List SessionEvent}
    (accounted : LogAccounted clock state log)
    {connection : List SessionEvent}
    (member : connection ∈ connections log) :
    SymbolsInRange (streamOf connection) := by
  have ran :
      (Handler.invokeAll clock 0 Handler.initial
        ((connections log).flatMap callsOn)).isSome := by
    rw [accounted.handled]
    rfl
  rw [Handler.invokeAll_isSome_iff] at ran
  rw [symbolsInRange_of_scanned (accounted.scanned connection member)]
  intro sym used
  obtain ⟨call, called, indexed⟩ := List.mem_filterMap.mp used
  apply ran
  rw [List.mem_filterMap]
  exact ⟨call, List.mem_flatMap.mpr ⟨connection, member, called⟩, indexed⟩

/-- Callbacks that cannot be run to their end find a symbol behind the
cache. -/
theorem LogAccounted.not_symbolsInRange
    {clock : Nat → UInt64} {state : MainState} {log : List SessionEvent}
    (accounted : LogAccounted clock state log) {bytes : List UInt8}
    {outcome : StreamScanner.Outcome ParseCounters ParseEvent UInt8}
    (scanned :
      referenceScanner.run state.loop.parser.toParseCounters
        (state.loop.parser.residue ++ bytes) = outcome)
    {index : Nat}
    (failed :
      Handler.invokeAll clock index state.handler
        (callbacks outcome.output) = none) :
    ¬ SymbolsInRange (streamOf (currentConnection log) ++ bytes) := by
  have whole := accounted.scan_append scanned
  rw [← cacheIndices_scan_iff ParseCounters.zero]
  intro inRange
  have ran :
      (Handler.invokeAll clock index state.handler
        (callbacks outcome.output)).isSome := by
    rw [Handler.invokeAll_isSome_iff]
    intro sym used
    apply inRange
    change
      sym ∈
        (callbacks
          (referenceScan
            (streamOf (currentConnection log) ++ bytes)).output).filterMap
          cacheIndex
    rw [whole, StreamScanner.Outcome.after_output, callbacks_append,
      List.filterMap_append]
    exact List.mem_append_right _ used
  rw [failed] at ran
  cases ran

/-! ## One turn -/

namespace MainState

/-- No call of `recv` that the loop makes finds the end of a connection. -/
def NeverEnds (clock : Nat → UInt64) (state : MainState)
    (turns : List Turn) : Prop :=
  Mealy.Guarded (step clock)
    (fun state turn =>
      state.loop.pc = .receiving → ¬ turn.outcome.ends)
    state turns

theorem step_sound
    (clock : Nat → UInt64) {state : MainState} (sound : state.loop.Sound)
    {turn : Turn}
    (goesOn : state.loop.pc = .receiving → ¬ turn.outcome.ends) :
    (state.step clock turn).1.loop.Sound := by
  have loop := (LoopState.step_lawful sound goesOn).1
  rw [step]
  simp only
  split
  · exact loop
  · refine ⟨?_, loop.small⟩
    intro receiving
    cases receiving

/-- A turn that receives data: the parser goes on with its scan, and the
callbacks decide whether the program stays defined. -/
theorem step_received
    (clock : Nat → UInt64) {state : MainState} (sound : state.loop.Sound)
    (receiving : state.loop.pc = .receiving)
    {turn : Turn} {received : Received}
    (arrived : turn.outcome = .data received)
    {outcome : StreamScanner.Outcome ParseCounters ParseEvent UInt8}
    (scanned :
      referenceScanner.run state.loop.parser.toParseCounters
        (state.loop.parser.residue ++ received.bytes) = outcome) :
    ∃ parser : Parser,
      parser.toParseCounters = outcome.state ∧
        parser.residue = outcome.rest ∧
        state.step clock turn =
          (match Handler.invokeAll clock state.invoked state.handler
              (callbacks outcome.output) with
            | some handler =>
                { loop :=
                    { state.loop with
                      recvBuf := state.loop.recvBuf.write 0 received.bytes
                      parser := parser }
                  handler := handler
                  invoked :=
                    state.invoked + (callbacks outcome.output).length }
            | none =>
                { state with
                  loop :=
                    { state.loop with
                      recvBuf := state.loop.recvBuf.write 0 received.bytes
                      parser := parser
                      pc := .undefined } },
            [.parsed received.bytes (callbacks outcome.output)
              parser.toParseCounters]) := by
  have up := sound.connected receiving
  obtain ⟨parser, fed, counters, residue⟩ :=
    Parser.feed_read sound.small
      (state.loop.recvBuf.write 0 received.bytes) received.fits
  rw [ByteBuffer.slice_write_self, scanned] at fed counters residue
  have called : state.calls turn = callbacks outcome.output := by
    rw [calls, if_pos receiving, arrived,
      LoopState.feedEvents_data up fed]
  have looped :
      state.loop.step turn =
        ({ state.loop with
            recvBuf := state.loop.recvBuf.write 0 received.bytes
            parser := parser },
          [.iteration (some (.data received))
            (.fed received.bytes.length received.bytes)]) := by
    rw [LoopState.step, receiving]
    simp only
    rw [arrived, LoopState.iterate_data up, fed]
  refine ⟨parser, counters, residue, ?_⟩
  rw [step, called, looped]
  simp only
  cases Handler.invokeAll clock state.invoked state.handler
      (callbacks outcome.output) with
  | some handler =>
      simp only
      rfl
  | none =>
      simp only
      rfl

/-- A turn that does not find the end of a connection leaves the program
defined, or the stream of the connection holds a symbol behind the cache. -/
theorem step_goesOn
    {clock : Nat → UInt64} {state : MainState} {log : List SessionEvent}
    (accounted : LogAccounted clock state log)
    (defined : state.loop.pc ≠ .undefined) {turn : Turn}
    (goesOn : state.loop.pc = .receiving → ¬ turn.outcome.ends) :
    (state.step clock turn).1.loop.pc ≠ .undefined ∨
      ∃ connection ∈ connections (log ++ (state.step clock turn).2),
        ¬ SymbolsInRange (streamOf connection) := by
  have loopDefined :=
    (LoopState.step_lawful accounted.sound goesOn).2.2 defined
  by_cases noCalls : state.calls turn = []
  · left
    rw [step_of_no_calls clock noCalls]
    exact loopDefined
  · have receiving : state.loop.pc = .receiving := by
      by_contra elsewhere
      exact noCalls (if_neg elsewhere)
    cases arrived : turn.outcome with
    | data received =>
        obtain ⟨parser, _, _, stepped⟩ :=
          step_received clock accounted.sound receiving arrived rfl
        cases invoked :
            Handler.invokeAll clock state.invoked state.handler
              (callbacks
                (referenceScanner.run state.loop.parser.toParseCounters
                  (state.loop.parser.residue ++
                    received.bytes)).output) with
        | some handler =>
            left
            rw [stepped, invoked]
            exact defined
        | none =>
            right
            have outOfRange :=
              accounted.not_symbolsInRange rfl invoked
            rw [stepped, connections_parsed]
            refine ⟨_, List.mem_append_right _ List.mem_cons_self, ?_⟩
            rw [streamOf_concat]
            exact outOfRange
    | wouldBlock =>
        refine absurd ?_ noCalls
        rw [calls, if_pos receiving, arrived,
          LoopState.feedEvents_wouldBlock
            (accounted.sound.connected receiving)]
        rfl
    | closed =>
        exact absurd (by rw [arrived]; rfl) (goesOn receiving)
    | hardError =>
        exact absurd (by rw [arrived]; rfl) (goesOn receiving)

/-! ## Runs -/

theorem run_undefined
    (clock : Nat → UInt64) {state : MainState}
    (undefined : state.loop.pc = .undefined) (turns : List Turn) :
    (state.run clock turns).1.loop.pc = .undefined := by
  induction turns generalizing state with
  | nil =>
      exact undefined
  | cons turn turns inductionHypothesis =>
      rw [run, Mealy.run_cons]
      exact inductionHypothesis (step_undefined clock turn undefined)

/-- The end of a connection leads out of the buffers. -/
theorem run_undefined_of_ends
    (clock : Nat → UInt64) {state : MainState} (sound : state.loop.Sound)
    {turns : List Turn} (ends : ¬ state.NeverEnds clock turns) :
    (state.run clock turns).1.loop.pc = .undefined := by
  induction turns generalizing state with
  | nil =>
      exact absurd trivial ends
  | cons turn turns inductionHypothesis =>
      rw [run, Mealy.run_cons]
      by_cases now : state.loop.pc = .receiving ∧ turn.outcome.ends
      · exact run_undefined clock
          (step_of_ends clock sound now.1 now.2) turns
      · have goesOn :
            state.loop.pc = .receiving → ¬ turn.outcome.ends := by
          intro receiving ended
          exact now ⟨receiving, ended⟩
        apply inductionHypothesis (step_sound clock sound goesOn)
        intro never
        exact ends ⟨goesOn, never⟩

/-- While no connection ends, a run that has become undefined was led there by
a symbol behind the cache. -/
theorem run_of_neverEnds
    (clock : Nat → UInt64) (recvBuf : ByteBuffer recvBufSize)
    (buf : ByteBuffer parseBufSize) {turns : List Turn}
    (never : (start recvBuf buf).NeverEnds clock turns) :
    ((start recvBuf buf).run clock turns).1.loop.pc ≠ .undefined ∨
      ∃ connection ∈
          connections ((start recvBuf buf).run clock turns).2,
        ¬ SymbolsInRange (streamOf connection) := by
  have kept :=
    Mealy.run_invariant (step clock)
      (fun state log =>
        (state.loop.pc ≠ .undefined ∧ LogAccounted clock state log) ∨
          (state.loop.pc = .undefined ∧
            ∃ connection ∈ connections log,
              ¬ SymbolsInRange (streamOf connection)))
      (by
        rintro state log turn goesOn (⟨defined, accounted⟩ | broken)
        · by_cases nextDefined :
              (state.step clock turn).1.loop.pc = .undefined
          · rcases step_goesOn accounted defined goesOn with
              still | outOfRange
            · exact absurd nextDefined still
            · exact Or.inr ⟨nextDefined, outOfRange⟩
          · exact Or.inl ⟨nextDefined,
              (step_advances clock accounted.sound nextDefined).accounted
                accounted⟩
        · obtain ⟨undefined, outOfRange⟩ := broken
          right
          refine ⟨step_undefined clock turn undefined, ?_⟩
          rw [step_of_no_calls clock (if_neg (by simp [undefined])),
            LoopState.step, undefined, List.flatMap_nil, List.append_nil]
          exact outOfRange)
      (Or.inl ⟨by simp [start, LoopState.start],
        start_accounted clock recvBuf buf⟩)
      never
  rcases kept with ⟨defined, _⟩ | ⟨_, outOfRange⟩
  · exact Or.inl defined
  · exact Or.inr outOfRange

/-- The feed handler stays inside its buffers and its cache in exactly the
runs in which no connection ends and every trade and quote that is accepted on
any connection has a symbol number below the size of the cache. -/
theorem run_defined_iff
    (clock : Nat → UInt64) (recvBuf : ByteBuffer recvBufSize)
    (buf : ByteBuffer parseBufSize) (turns : List Turn) :
    ((start recvBuf buf).run clock turns).1.loop.pc ≠ .undefined ↔
      (start recvBuf buf).NeverEnds clock turns ∧
        ∀ connection ∈
            connections ((start recvBuf buf).run clock turns).2,
          SymbolsInRange (streamOf connection) := by
  constructor
  · intro defined
    refine ⟨?_, ?_⟩
    · by_contra ends
      exact defined
        (run_undefined_of_ends clock (LoopState.sound_start recvBuf buf)
          ends)
    · intro connection member
      exact (run_accounted clock recvBuf buf turns defined).symbolsInRange
        member
  · intro given
    obtain ⟨never, inRange⟩ := given
    rcases run_of_neverEnds clock recvBuf buf never with
      defined | ⟨connection, member, outOfRange⟩
    · exact defined
    · exact absurd (inRange connection member) outOfRange

end MainState

/-! ## What a run builds up -/

/-- The frames that each connection let through, in order. -/
def AcceptedOn (connections : List (List SessionEvent))
    (accepted : List (List Frame)) : Prop :=
  List.Forall₂
    (fun connection frames =>
      Accepts ParseCounters.zero (referenceScan (streamOf connection))
        frames)
    connections accepted

theorem acceptedOn_exists (connections : List (List SessionEvent)) :
    ∃ accepted, AcceptedOn connections accepted := by
  induction connections with
  | nil =>
      exact ⟨[], List.Forall₂.nil⟩
  | cons connection connections inductionHypothesis =>
      obtain ⟨later, rest⟩ := inductionHypothesis
      obtain ⟨frames, accepts⟩ :=
        accepts_run ParseCounters.zero (streamOf connection)
      exact ⟨frames :: later, List.Forall₂.cons accepts rest⟩

/-- The callbacks of all connections are those of the accepted frames. -/
theorem AcceptedOn.calls
    {connections : List (List SessionEvent)}
    {accepted : List (List Frame)}
    (acceptedOn : AcceptedOn connections accepted)
    (scanned : ∀ connection ∈ connections, Scanned connection) :
    connections.flatMap callsOn =
      accepted.flatten.map fun frame => (frame.kind, frame.bytes) := by
  induction acceptedOn with
  | nil =>
      rfl
  | cons accepts _ inductionHypothesis =>
      obtain ⟨first, others⟩ := List.forall_mem_cons.mp scanned
      rw [List.flatMap_cons, first.calls, accepts.callbacks,
        inductionHypothesis others, List.flatten_cons, List.map_append]

/-- The latest connection is the one whose frames come last. -/
theorem AcceptedOn.latest
    {connections : List (List SessionEvent)}
    {accepted : List (List Frame)}
    (acceptedOn : AcceptedOn connections accepted) :
    Accepts ParseCounters.zero
      (referenceScan (streamOf (connections.getLastD [])))
      (accepted.getLastD []) := by
  induction acceptedOn with
  | nil =>
      exact ⟨rfl, rfl⟩
  | @cons connection frames connections accepted accepts rest
      inductionHypothesis =>
      cases rest with
      | nil =>
          exact accepts
      | cons next others =>
          exact inductionHypothesis

theorem cacheIndex_frame (frame : Frame) :
    cacheIndex (frame.kind, frame.bytes) =
      if frame.msg.isTick then
        some frame.msg.header.symbolId
      else
        none := by
  obtain ⟨msg, _⟩ := frame
  cases msg with
  | trade msg =>
      exact congrArg (fun read : TradeMsg => some read.header.symbolId)
        (TradeMsg.codec.decode_encode msg)
  | quote msg =>
      exact congrArg (fun read : QuoteMsg => some read.header.symbolId)
        (QuoteMsg.codec.decode_encode msg)
  | heartbeat msg =>
      rfl

/-- A callback on a frame that has a result applies the message. -/
theorem Handler.invoke_frame_of_some
    {handler next : Handler} {recvNs : UInt64} {frame : Frame}
    (invoked : handler.invoke recvNs frame.kind frame.bytes = some next) :
    next.cache = handler.cache.apply frame.msg ∧
      next.totalMessages = handler.totalMessages + 1 := by
  by_cases tick : frame.msg.isTick = true
  · have ran :
        (handler.invoke recvNs frame.kind frame.bytes).isSome := by
      rw [invoked]
      rfl
    have inside :=
      (handler.invoke_isSome_iff recvNs (frame.kind, frame.bytes)).mp ran
    rw [cacheIndex_frame, if_pos tick] at inside
    obtain ⟨_, again, cache, _, total⟩ :=
      handler.invoke_frame recvNs (inside _ rfl)
    rw [invoked] at again
    cases again
    exact ⟨cache, total⟩
  · obtain ⟨msg, _⟩ := frame
    cases msg with
    | trade msg =>
        exact absurd rfl tick
    | quote msg =>
        exact absurd rfl tick
    | heartbeat msg =>
        cases invoked
        exact ⟨rfl, rfl⟩

/-- Callbacks on frames that run to their end fold the messages. -/
theorem Handler.invokeAll_frames_of_some
    {clock : Nat → UInt64} {index : Nat} {handler final : Handler}
    {frames : List Frame}
    (invoked :
      Handler.invokeAll clock index handler
          (frames.map fun frame => (frame.kind, frame.bytes)) =
        some final) :
    final.cache =
        (frames.map Frame.msg).foldl SymbolCache.apply handler.cache ∧
      final.totalMessages =
        handler.totalMessages + UInt64.ofNat frames.length := by
  induction frames generalizing index handler with
  | nil =>
      cases invoked
      exact ⟨rfl, (UInt64.add_zero _).symm⟩
  | cons frame frames inductionHypothesis =>
      rw [List.map_cons, invokeAll] at invoked
      obtain ⟨next, now, later⟩ := Option.bind_eq_some_iff.mp invoked
      obtain ⟨cache, total⟩ := invoke_frame_of_some now
      obtain ⟨finalCache, finalTotal⟩ := inductionHypothesis later
      refine ⟨?_, ?_⟩
      · rw [finalCache, cache, List.map_cons, List.foldl_cons]
      · rw [finalTotal, total, List.length_cons, UInt64.add_assoc,
          Nat.add_comm, UInt64.ofNat_add]
        rfl

theorem tickCount_frames (frames : List Frame) :
    tickCount (frames.map fun frame => (frame.kind, frame.bytes)) =
      (frames.map Frame.msg).countP Msg.isTick := by
  rw [tickCount, List.countP_map, List.countP_map]
  apply List.countP_congr
  intro frame _
  obtain ⟨msg, _⟩ := frame
  cases msg <;> simp [Frame.kind, Msg.kind, Msg.isTick, Msg.cacheUpdate]

/-- What the feed handler holds after any run that stays defined: the fold of
the frames that its connections let through, one connection after the other,
whatever else was on the wire; the printed gaps are those between the frames
of the latest connection. -/
theorem MainState.run_accepted
    (clock : Nat → UInt64) (recvBuf : ByteBuffer recvBufSize)
    (buf : ByteBuffer parseBufSize) (turns : List Turn)
    (defined :
      ((start recvBuf buf).run clock turns).1.loop.pc ≠ .undefined) :
    let result := (start recvBuf buf).run clock turns
    ∃ accepted,
      AcceptedOn (connections result.2) accepted ∧
        result.1.handler.cache =
          (accepted.flatten.map Frame.msg).foldl SymbolCache.apply
            SymbolCache.initial ∧
        (∀ sym : Fin maxSymbols,
          (result.1.handler.cache.states sym).toMarketData =
            symbolSummary sym.val (accepted.flatten.map Frame.msg)) ∧
        result.1.handler.totalMessages =
          UInt64.ofNat accepted.flatten.length ∧
        result.1.finalStatistics.totalMessages =
          UInt64.ofNat
            ((accepted.flatten.map Frame.msg).countP Msg.isTick) ∧
        result.1.finalStatistics.sequenceGaps =
          (ParseCounters.zero.deliverAll
            (accepted.getLastD [])).1.seqGaps := by
  intro result
  have accounted := run_accounted clock recvBuf buf turns defined
  obtain ⟨accepted, acceptedOn⟩ := acceptedOn_exists (connections result.2)
  have handled := accounted.handled
  rw [acceptedOn.calls accounted.scanned] at handled
  obtain ⟨cache, total⟩ := Handler.invokeAll_frames_of_some handled
  have recorded :
      result.1.finalStatistics.totalMessages =
        UInt64.ofNat
          ((accepted.flatten.map Frame.msg).countP Msg.isTick) := by
    have tracker :
        result.1.handler.lat = LatencyTracker.recordAll _ :=
      Handler.invokeAll_lat handled
    change result.1.handler.lat.getStats.sampleCount = _
    rw [LatencyTracker.getStats_sampleCount, tracker,
      LatencyTracker.recordAll_count, List.length_map, arrivals_length,
      tickCount_frames]
  refine ⟨accepted, acceptedOn, cache, ?_, ?_, recorded, ?_⟩
  · intro sym
    rw [cache]
    exact foldl_apply_states _ sym
  · rw [total]
    exact UInt64.zero_add _
  · change result.1.loop.parser.toParseCounters.seqGaps = _
    have last := congrArg ParseCounters.seqGaps acceptedOn.latest.state
    rw [accounted.counters]
    exact last

/-- A trade of symbol 7 and a heartbeat. -/
def tradeAndHeartbeat : Received where
  bytes :=
    (TickGenerator.tradeFrame 7 1 ⟨2000, 5, 250⟩).bytes ++
      (TickGenerator.heartbeatFrame 2 3000).bytes
  positive := by decide +kernel
  fits := by decide +kernel

/-- A stray byte and a quote of symbol 7. -/
def strayAndQuote : Received where
  bytes :=
    0 ::
      (TickGenerator.quoteFrame 7 3
        { nowNs := 4000
          bidPrice := 4
          askPrice := 6
          bidQty := 500
          askQty := 700 }).bytes
  positive := by decide +kernel
  fits := by decide +kernel

def symbolSeven : Fin maxSymbols where
  val := 7
  isLt := by decide

/-- A trade and a heartbeat on one connection, a quote behind a stray byte on
the next. -/
theorem MainState.run_accepted_twoConnections :
    let result :=
      (start ⟨fun _ => 0⟩ ⟨fun _ => 0⟩).run (fun _ => 0)
        (twoConnections tradeAndHeartbeat strayAndQuote)
    (result.1.handler.totalMessages = 3 ∧
        (result.1.handler.cache.states symbolSeven).bestAsk = 6 ∧
        (result.1.handler.cache.states symbolSeven).lastTradedPrice = 5) ∧
      ∃ accepted,
        AcceptedOn (connections result.2) accepted ∧
          (∀ sym : Fin maxSymbols,
            (result.1.handler.cache.states sym).toMarketData =
              symbolSummary sym.val (accepted.flatten.map Frame.msg)) ∧
          result.1.handler.totalMessages =
            UInt64.ofNat accepted.flatten.length ∧
          result.1.finalStatistics.totalMessages =
            UInt64.ofNat
              ((accepted.flatten.map Frame.msg).countP Msg.isTick) ∧
          result.1.finalStatistics.sequenceGaps =
            (ParseCounters.zero.deliverAll
              (accepted.getLastD [])).1.seqGaps := by
  intro result
  obtain ⟨accepted, acceptedOn, _, summary, total, ticks, gaps⟩ :=
    run_accepted (fun _ => 0) ⟨fun _ => 0⟩ ⟨fun _ => 0⟩
      (twoConnections tradeAndHeartbeat strayAndQuote)
      (by decide +kernel)
  refine ⟨by decide +kernel, ?_⟩
  exact ⟨accepted, acceptedOn, summary, total, ticks, gaps⟩

end MarketDataHandler
