import MarketDataHandler.Client.LatencySummary
import MarketDataHandler.Client.ReceiveLoop
import MarketDataHandler.Lib.Mealy

/-!
# The final statistics of the feed handler

The main loop of `feed_handler.cpp` with the objects that its callbacks write,
up to the lines it prints at exit.  The latency tracker lives as long as the
program, but the parser is reset at every connect, and its counters with it:
the gaps and the bad checksums that are printed are those of the last
connection.
-/

namespace MarketDataHandler

/-! ## The program -/

/-- The main loop and what its callbacks write. -/
structure MainState where
  loop : LoopState
  handler : Handler
  /-- Number of callbacks so far. -/
  invoked : Nat

/-- What happens on the connections of a run, in order. -/
inductive SessionEvent where
  /-- A connect, with the reset of the parser behind it. -/
  | opened
  /-- A call of the parser: its bytes, its callbacks and the counters behind
  it. -/
  | parsed (bytes : List UInt8) (calls : List (MsgKind × List UInt8))
      (counted : ParseCounters)
  deriving DecidableEq

/-- The lines that are printed at exit.  The percentiles are in microseconds,
and left out if there is no sample. -/
structure FinalStatistics where
  totalMessages : UInt64
  sequenceGaps : UInt64
  badChecksums : UInt64
  latency : Option (UInt64 × UInt64 × UInt64)
  deriving DecidableEq, Repr

/-- The events of the call of the parser in one pass of the innermost loop. -/
def LoopState.feedEvents (state : LoopState) (outcome : RecvOutcome) :
    List ParseEvent :=
  let (_, recvBuf, result) :=
    receive state.connected state.recvBuf outcome
  let n := declaredResult result
  if n < 0 then
    []
  else if n = 0 then
    []
  else
    match state.parser.feed recvBuf n.toNat with
    | some (_, events) => events
    | none => []

namespace MainState

def start (recvBuf : ByteBuffer recvBufSize)
    (buf : ByteBuffer parseBufSize) : MainState where
  loop := LoopState.start recvBuf buf
  handler := Handler.initial
  invoked := 0

/-- The callbacks of one turn. -/
def calls (state : MainState) (turn : Turn) :
    List (MsgKind × List UInt8) :=
  if state.loop.pc = .receiving then
    callbacks (state.loop.feedEvents turn.outcome)
  else
    []

/-- What an event of the loop shows of the connection. -/
def session (calls : List (MsgKind × List UInt8))
    (counted : ParseCounters) : LoopEvent → List SessionEvent
  | .reset => [.opened]
  | .iteration _ (.fed _ bytes) => [.parsed bytes calls counted]
  | _ => []

/-- One turn of the loop, with the callbacks of the call of the parser. -/
def step (clock : Nat → UInt64) (state : MainState) (turn : Turn) :
    MainState × List SessionEvent :=
  let (loop, log) := state.loop.step turn
  let calls := state.calls turn
  let events :=
    log.flatMap (session calls loop.parser.toParseCounters)
  match Handler.invokeAll clock state.invoked state.handler calls with
  | some handler =>
      ({ loop := loop
         handler := handler
         invoked := state.invoked + calls.length },
        events)
  | none =>
      ({ state with loop := { loop with pc := .undefined } }, events)

def run (clock : Nat → UInt64) (state : MainState) (turns : List Turn) :
    MainState × List SessionEvent :=
  Mealy.run (step clock) state turns

/-- What is printed behind the loop. -/
def finalStatistics (state : MainState) : FinalStatistics :=
  let st := state.handler.lat.getStats
  { totalMessages := st.sampleCount
    sequenceGaps := state.loop.parser.seqGaps
    badChecksums := state.loop.parser.badChecksums
    latency :=
      if 0 < st.sampleCount then
        some (st.p50Ns / 1000, st.p99Ns / 1000, st.p999Ns / 1000)
      else
        none }

end MainState

/-! ## The connections of a run -/

namespace SessionEvent

def bytes : SessionEvent → List UInt8
  | .opened => []
  | .parsed bytes _ _ => bytes

def calls : SessionEvent → List (MsgKind × List UInt8)
  | .opened => []
  | .parsed _ calls _ => calls

end SessionEvent

/-- The events of each connection. -/
def connections (log : List SessionEvent) : List (List SessionEvent) :=
  Mealy.parts .opened log

/-- The bytes that a connection delivered. -/
def streamOf (connection : List SessionEvent) : List UInt8 :=
  connection.flatMap SessionEvent.bytes

/-- What the parser has counted when a connection is left. -/
def countedOn (connection : List SessionEvent) : ParseCounters :=
  connection.foldl
    (fun counters event =>
      match event with
      | .opened => counters
      | .parsed _ _ counted => counted)
    ParseCounters.zero

/-- Number of trades and quotes in a list of callbacks. -/
def tickCount (calls : List (MsgKind × List UInt8)) : Nat :=
  calls.countP fun call => decide (call.1 ≠ .heartbeat)

/-- The numbers that are missing in front of the frames of a scan. -/
def gapTotal (events : List ParseEvent) : Nat :=
  (events.map fun event =>
    match event with
    | .logGap expected got => (got - expected).toNat
    | _ => 0).sum

/-- Number of frames of a scan whose checksum is wrong. -/
def badFrames (events : List ParseEvent) : Nat :=
  events.countP fun event =>
    match event with
    | .badChecksum _ => true
    | _ => false

/-- The counters of the parser are zero behind the stream: no number is missing
and no checksum is wrong, up to the width of the counters. -/
def CountsNothing (stream : List UInt8) : Prop :=
  gapTotal (referenceScan stream).output % 2 ^ 64 = 0 ∧
    badFrames (referenceScan stream).output % 2 ^ 64 = 0

/-- The printed gaps and bad checksums are the sums over all connections. -/
def CountsCover (printed : FinalStatistics)
    (log : List SessionEvent) : Prop :=
  printed.sequenceGaps.toNat =
      ((connections log).map fun connection =>
        (countedOn connection).seqGaps.toNat).sum ∧
    printed.badChecksums.toNat =
      ((connections log).map fun connection =>
        (countedOn connection).badChecksums.toNat).sum

instance (stream : List UInt8) : Decidable (CountsNothing stream) :=
  inferInstanceAs (Decidable (_ ∧ _))

instance (printed : FinalStatistics) (log : List SessionEvent) :
    Decidable (CountsCover printed log) :=
  inferInstanceAs (Decidable (_ ∧ _))

/-! ## What a scan counts -/

theorem gapTotal_append (first second : List ParseEvent) :
    gapTotal (first ++ second) = gapTotal first + gapTotal second := by
  rw [gapTotal, List.map_append, List.sum_append]
  rfl

theorem badFrames_append (first second : List ParseEvent) :
    badFrames (first ++ second) = badFrames first + badFrames second :=
  List.countP_append

/-- A callback counts nothing. -/
theorem counts_dispatch (msgType : UInt16) (frame : List UInt8) :
    gapTotal (dispatch msgType frame) = 0 ∧
      badFrames (dispatch msgType frame) = 0 := by
  rw [dispatch]
  cases MsgKind.ofCode msgType with
  | none =>
      exact ⟨rfl, rfl⟩
  | some kind =>
      exact ⟨rfl, rfl⟩

theorem counts_accept (counters : ParseCounters) (seq : UInt32) :
    (counters.accept seq).1.seqGaps =
        counters.seqGaps +
          UInt64.ofNat (gapTotal (counters.accept seq).2) ∧
      badFrames (counters.accept seq).2 = 0 := by
  have distance :
      seq - counters.lastSeq - 1 = seq - (counters.lastSeq + 1) := by
    rw [UInt32.sub_eq_add_neg seq (counters.lastSeq + 1), UInt32.neg_add,
      UInt32.sub_eq_add_neg (-counters.lastSeq), ← UInt32.add_assoc,
      ← UInt32.sub_eq_add_neg, ← UInt32.sub_eq_add_neg]
  rw [ParseCounters.accept]
  by_cases gap : counters.hasGap seq = true
  · simp only [if_pos gap]
    refine ⟨?_, rfl⟩
    rw [distance]
    simp [gapTotal]
  · simp only [if_neg gap]
    exact ⟨(UInt64.add_zero _).symm, rfl⟩

/-- The counters behind a whole frame. -/
theorem counts_receive (counters : ParseCounters) (frame : List UInt8) :
    (counters.receive frame).1.seqGaps =
        counters.seqGaps +
          UInt64.ofNat (gapTotal (counters.receive frame).2) ∧
      (counters.receive frame).1.badChecksums =
        counters.badChecksums +
          UInt64.ofNat (badFrames (counters.receive frame).2) := by
  rw [ParseCounters.receive_eq_dispatch]
  split
  · exact ⟨(UInt64.add_zero _).symm, rfl⟩
  · obtain ⟨gaps, bad⟩ := counts_accept counters (seqNoAt frame)
    obtain ⟨noGap, noBad⟩ := counts_dispatch (msgTypeAt frame) frame
    simp only [gapTotal_append, badFrames_append, noGap, noBad, bad,
      Nat.add_zero]
    exact ⟨gaps, (UInt64.add_zero _).symm⟩

/-- The counters behind a scan. -/
theorem counts_run (counters : ParseCounters) (input : List UInt8) :
    (referenceScanner.run counters input).state.seqGaps =
        counters.seqGaps +
          UInt64.ofNat
            (gapTotal (referenceScanner.run counters input).output) ∧
      (referenceScanner.run counters input).state.badChecksums =
        counters.badChecksums +
          UInt64.ofNat
            (badFrames (referenceScanner.run counters input).output) := by
  refine referenceScanner.run_induction
    (motive := fun counters _ outcome =>
      outcome.state.seqGaps =
          counters.seqGaps + UInt64.ofNat (gapTotal outcome.output) ∧
        outcome.state.badChecksums =
          counters.badChecksums +
            UInt64.ofNat (badFrames outcome.output)) ?_ ?_ counters input
  · intro counters input _
    exact ⟨(UInt64.add_zero _).symm, (UInt64.add_zero _).symm⟩
  · intro counters input next events count decision inductionHypothesis
    obtain ⟨laterGaps, laterBad⟩ := inductionHypothesis
    have first :
        next.seqGaps = counters.seqGaps + UInt64.ofNat (gapTotal events) ∧
          next.badChecksums =
            counters.badChecksums + UInt64.ofNat (badFrames events) := by
      obtain ⟨_, shape⟩ := scanStep_cases decision
      rcases shape with ⟨_, same, skipped, _⟩ | ⟨_, _, _, received⟩
      · rw [same, skipped]
        exact ⟨(UInt64.add_zero _).symm, (UInt64.add_zero _).symm⟩
      · have counted := counts_receive counters (input.take count)
        rw [← received] at counted
        exact counted
    constructor
    · rw [StreamScanner.Outcome.after_state,
        StreamScanner.Outcome.after_output, laterGaps, first.1,
        gapTotal_append, UInt64.ofNat_add, UInt64.add_assoc]
    · rw [StreamScanner.Outcome.after_state,
        StreamScanner.Outcome.after_output, laterBad, first.2,
        badFrames_append, UInt64.ofNat_add, UInt64.add_assoc]

theorem countsNothing_iff (stream : List UInt8) :
    CountsNothing stream ↔
      (referenceScan stream).state.seqGaps.toNat = 0 ∧
        (referenceScan stream).state.badChecksums.toNat = 0 := by
  obtain ⟨gaps, bad⟩ := counts_run ParseCounters.zero stream
  rw [CountsNothing, referenceScan, gaps, bad,
    show ParseCounters.zero.seqGaps = 0 from rfl,
    show ParseCounters.zero.badChecksums = 0 from rfl, UInt64.zero_add,
    UInt64.zero_add, UInt64.toNat_ofNat', UInt64.toNat_ofNat']

/-! ## One turn -/

theorem LoopState.feedEvents_data
    {state : LoopState} (connected : state.connected = true)
    {received : Received} {parser : Parser} {events : List ParseEvent}
    (fed :
      state.parser.feed (state.recvBuf.write 0 received.bytes)
          received.bytes.length =
        some (parser, events)) :
    state.feedEvents (.data received) = events := by
  have value := declaredResult_length received
  have notZero := declaredResult_ne_zero received
  have notNegative : ¬ declaredResult received.bytes.length < 0 :=
    UInt64.not_lt_zero
  rw [feedEvents, connected]
  simp only [receive, if_true, if_neg notNegative, if_neg notZero, value,
    fed]

theorem LoopState.feedEvents_wouldBlock
    {state : LoopState} (connected : state.connected = true) :
    state.feedEvents .wouldBlock = [] := by
  rw [feedEvents, connected]
  rfl

namespace MainState

/-- What a turn can do that leaves the program defined. -/
inductive Advance (clock : Nat → UInt64) (state : MainState) :
    MainState × List SessionEvent → Prop
  | opened :
      Advance clock state
        ({ state with
            loop :=
              { state.loop with
                pc := .waiting
                connected := true
                parser := state.loop.parser.reset } },
          [.opened])
  | quiet {pc : LoopPc} :
      (pc = .receiving → state.loop.connected = true) →
      Advance clock state
        ({ state with loop := { state.loop with pc := pc } }, [])
  | parsed {received : Received} {parser : Parser} {handler : Handler}
      {outcome : StreamScanner.Outcome ParseCounters ParseEvent UInt8} :
      referenceScanner.run state.loop.parser.toParseCounters
          (state.loop.parser.residue ++ received.bytes) = outcome →
      parser.toParseCounters = outcome.state →
      parser.residue = outcome.rest →
      Handler.invokeAll clock state.invoked state.handler
          (callbacks outcome.output) = some handler →
      Advance clock state
        ({ loop :=
             { state.loop with
               recvBuf := state.loop.recvBuf.write 0 received.bytes
               parser := parser }
           handler := handler
           invoked := state.invoked + (callbacks outcome.output).length },
          [.parsed received.bytes (callbacks outcome.output)
            parser.toParseCounters])

/-- A turn without a call of the parser. -/
theorem step_of_no_calls
    (clock : Nat → UInt64) {state : MainState} {turn : Turn}
    (noCalls : state.calls turn = []) :
    state.step clock turn =
      ({ state with loop := (state.loop.step turn).1 },
        (state.loop.step turn).2.flatMap
          (session []
            (state.loop.step turn).1.parser.toParseCounters)) := by
  rw [step, noCalls]
  rfl

/-- A turn that finds the end of a connection. -/
theorem step_of_ends
    (clock : Nat → UInt64) {state : MainState}
    (sound : state.loop.Sound) {turn : Turn}
    (receiving : state.loop.pc = .receiving) (ends : turn.outcome.ends) :
    (state.step clock turn).1.loop.pc = .undefined := by
  rw [step]
  simp only
  split
  · exact (LoopState.step_ends sound receiving ends).1
  · rfl

theorem step_advances
    (clock : Nat → UInt64) {state : MainState}
    (sound : state.loop.Sound) {turn : Turn}
    (defined : (state.step clock turn).1.loop.pc ≠ .undefined) :
    Advance clock state (state.step clock turn) := by
  by_cases pc : state.loop.pc = .receiving
  · have up := sound.connected pc
    cases outcome : turn.outcome with
    | data received =>
        obtain ⟨parser, fed, counters, residue⟩ :=
          Parser.feed_read sound.small
            (state.loop.recvBuf.write 0 received.bytes) received.fits
        rw [ByteBuffer.slice_write_self] at fed counters residue
        have calls :
            state.calls turn =
              callbacks
                (referenceScanner.run state.loop.parser.toParseCounters
                  (state.loop.parser.residue ++
                    received.bytes)).output := by
          rw [MainState.calls, if_pos pc, outcome,
            LoopState.feedEvents_data up fed]
        have loop :
            state.loop.step turn =
              ({ state.loop with
                  recvBuf := state.loop.recvBuf.write 0 received.bytes
                  parser := parser },
                [.iteration (some (.data received))
                  (.fed received.bytes.length received.bytes)]) := by
          rw [LoopState.step, pc]
          simp only
          rw [outcome, LoopState.iterate_data up, fed]
        rw [step, loop, calls] at defined ⊢
        simp only at defined ⊢
        -- A callback that is undefined leaves the program undefined.
        cases invoked :
            Handler.invokeAll clock state.invoked state.handler
              (callbacks
                (referenceScanner.run state.loop.parser.toParseCounters
                  (state.loop.parser.residue ++
                    received.bytes)).output) with
        | none =>
            rw [invoked] at defined
            exact absurd rfl defined
        | some handler =>
            exact Advance.parsed rfl counters residue invoked
    | wouldBlock =>
        have noCalls : state.calls turn = [] := by
          rw [calls, if_pos pc, outcome,
            LoopState.feedEvents_wouldBlock up]
          rfl
        rw [step_of_no_calls clock noCalls, LoopState.step, pc]
        simp only
        rw [outcome, LoopState.iterate_wouldBlock up]
        exact Advance.quiet (by simp)
    | closed =>
        exact absurd
          (step_of_ends clock sound pc (by rw [outcome]; rfl)) defined
    | hardError =>
        exact absurd
          (step_of_ends clock sound pc (by rw [outcome]; rfl)) defined
  · rw [step_of_no_calls clock (if_neg pc)]
    have moves := LoopState.step_moves pc turn
    generalize state.loop.step turn = result at moves ⊢
    cases moves with
    | opens =>
        exact Advance.opened
    | @idles place log stillUp same leaves =>
        have silent :
            log.flatMap
                (session [] state.loop.parser.toParseCounters) = [] := by
          rw [List.flatMap_eq_nil_iff]
          intro event member
          rw [leaves event member]
          rfl
        rw [silent]
        exact Advance.quiet stillUp

end MainState

/-! ## Runs -/

/-- The callbacks of a connection. -/
def callsOn (connection : List SessionEvent) :
    List (MsgKind × List UInt8) :=
  connection.flatMap SessionEvent.calls

/-- The connection is what the reference scanner makes of its stream. -/
structure Scanned (connection : List SessionEvent) : Prop where
  counted :
    countedOn connection = (referenceScan (streamOf connection)).state
  calls :
    callsOn connection =
      callbacks (referenceScan (streamOf connection)).output

/-- The latest connection, empty in front of the first one. -/
def currentConnection (log : List SessionEvent) : List SessionEvent :=
  (connections log).getLastD []

theorem connections_parsed
    (log : List SessionEvent) (bytes : List UInt8)
    (calls : List (MsgKind × List UInt8)) (counted : ParseCounters) :
    connections (log ++ [.parsed bytes calls counted]) =
      (connections log).dropLast ++
        [currentConnection log ++ [.parsed bytes calls counted]] :=
  Mealy.parts_concat (by simp) log

theorem connections_opened (log : List SessionEvent) :
    connections (log ++ [.opened]) = connections log ++ [[]] :=
  Mealy.parts_concat_mark _ log

theorem currentConnection_cases (log : List SessionEvent) :
    (connections log = [] ∧ currentConnection log = []) ∨
      connections log =
        (connections log).dropLast ++ [currentConnection log] := by
  rw [currentConnection]
  rcases List.eq_nil_or_concat (connections log) with
    empty | ⟨earlier, last, shape⟩
  · rw [empty]
    exact Or.inl ⟨rfl, rfl⟩
  · rw [shape, List.concat_eq_append, List.dropLast_concat,
      List.getLastD_concat]
    exact Or.inr rfl

/-- What holds of the program after the events of a log. -/
structure LogAccounted (clock : Nat → UInt64) (state : MainState)
    (log : List SessionEvent) : Prop where
  sound : state.loop.Sound
  scanned : ∀ connection ∈ connections log, Scanned connection
  counters :
    state.loop.parser.toParseCounters =
      (referenceScan (streamOf (currentConnection log))).state
  residue :
    state.loop.parser.residue =
      (referenceScan (streamOf (currentConnection log))).rest
  handled :
    Handler.invokeAll clock 0 Handler.initial
        ((connections log).flatMap callsOn) =
      some state.handler
  invoked :
    state.invoked = ((connections log).flatMap callsOn).length

theorem scanned_nil : Scanned [] where
  counted := rfl
  calls := rfl

theorem LogAccounted.scanned_current
    {clock : Nat → UInt64} {state : MainState} {log : List SessionEvent}
    (accounted : LogAccounted clock state log) :
    Scanned (currentConnection log) := by
  rcases currentConnection_cases log with ⟨_, current⟩ | shape
  · rw [current]
    exact scanned_nil
  · apply accounted.scanned
    rw [shape]
    exact List.mem_append_right _ List.mem_cons_self

theorem Handler.invokeAll_append
    {clock : Nat → UInt64} {index : Nat} {handler middle : Handler}
    {first : List (MsgKind × List UInt8)}
    (invoked : Handler.invokeAll clock index handler first = some middle)
    (second : List (MsgKind × List UInt8)) :
    Handler.invokeAll clock index handler (first ++ second) =
      Handler.invokeAll clock (index + first.length) middle second := by
  induction first generalizing index handler with
  | nil =>
      cases invoked
      rfl
  | cons call calls inductionHypothesis =>
      obtain ⟨next, now, later⟩ := Option.bind_eq_some_iff.mp invoked
      have rest := inductionHypothesis later
      rw [List.length_cons, Nat.add_comm calls.length, ← Nat.add_assoc,
        ← rest, List.cons_append, invokeAll, now]
      rfl

theorem currentConnection_parsed
    (log : List SessionEvent) (bytes : List UInt8)
    (calls : List (MsgKind × List UInt8)) (counted : ParseCounters) :
    currentConnection (log ++ [.parsed bytes calls counted]) =
      currentConnection log ++ [.parsed bytes calls counted] := by
  rw [currentConnection, connections_parsed, List.getLastD_concat]

theorem streamOf_concat
    (connection : List SessionEvent) (event : SessionEvent) :
    streamOf (connection ++ [event]) =
      streamOf connection ++ event.bytes := by
  rw [streamOf, List.flatMap_append, List.flatMap_singleton]
  rfl

theorem callsOn_concat
    (connection : List SessionEvent) (event : SessionEvent) :
    callsOn (connection ++ [event]) =
      callsOn connection ++ event.calls := by
  rw [callsOn, List.flatMap_append, List.flatMap_singleton]
  rfl

theorem flatMap_callsOn_parsed
    (log : List SessionEvent) (bytes : List UInt8)
    (calls : List (MsgKind × List UInt8)) (counted : ParseCounters) :
    (connections (log ++ [.parsed bytes calls counted])).flatMap callsOn =
      (connections log).flatMap callsOn ++ calls := by
  rw [connections_parsed, List.flatMap_append, List.flatMap_singleton,
    callsOn_concat, ← List.append_assoc]
  congr 1
  rcases currentConnection_cases log with ⟨none_, current⟩ | shape
  · rw [none_, current]
    rfl
  · conv_rhs =>
      rw [shape, List.flatMap_append, List.flatMap_singleton]

/-- A call of the parser goes on with the scan of the connection. -/
theorem LogAccounted.scan_append
    {clock : Nat → UInt64} {state : MainState} {log : List SessionEvent}
    (accounted : LogAccounted clock state log) {bytes : List UInt8}
    {outcome : StreamScanner.Outcome ParseCounters ParseEvent UInt8}
    (scanned :
      referenceScanner.run state.loop.parser.toParseCounters
        (state.loop.parser.residue ++ bytes) = outcome) :
    referenceScan (streamOf (currentConnection log) ++ bytes) =
      outcome.after
        (referenceScan (streamOf (currentConnection log))).output := by
  rw [accounted.counters, accounted.residue] at scanned
  rw [← scanned]
  exact referenceScanner.run_append _ _ _

/-- A call of the parser on the latest connection. -/
theorem LogAccounted.parsed
    {clock : Nat → UInt64} {state next : MainState}
    {log : List SessionEvent} (accounted : LogAccounted clock state log)
    (nextSound : next.loop.Sound) {bytes : List UInt8}
    {outcome : StreamScanner.Outcome ParseCounters ParseEvent UInt8}
    (scanned :
      referenceScanner.run state.loop.parser.toParseCounters
        (state.loop.parser.residue ++ bytes) = outcome)
    (counters : next.loop.parser.toParseCounters = outcome.state)
    (residue : next.loop.parser.residue = outcome.rest)
    (handled :
      Handler.invokeAll clock state.invoked state.handler
        (callbacks outcome.output) = some next.handler)
    (invoked :
      next.invoked = state.invoked + (callbacks outcome.output).length) :
    LogAccounted clock next
      (log ++
        [.parsed bytes (callbacks outcome.output)
          next.loop.parser.toParseCounters]) := by
  have whole := accounted.scan_append scanned
  refine ⟨nextSound, ?_, ?_, ?_, ?_, ?_⟩
  · intro connection member
    rw [connections_parsed] at member
    rcases List.mem_append.mp member with earlier | here
    · exact accounted.scanned connection
        (List.dropLast_subset _ earlier)
    · rw [List.mem_singleton.mp here]
      constructor
      · rw [streamOf_concat, SessionEvent.bytes, whole, countedOn,
          List.foldl_concat]
        exact counters
      · rw [streamOf_concat, SessionEvent.bytes, whole, callsOn_concat,
          StreamScanner.Outcome.after_output, callbacks_append,
          ← accounted.scanned_current.calls]
        rfl
  · rw [currentConnection_parsed, streamOf_concat, SessionEvent.bytes,
      whole]
    exact counters
  · rw [currentConnection_parsed, streamOf_concat, SessionEvent.bytes,
      whole]
    exact residue
  · rw [flatMap_callsOn_parsed,
      Handler.invokeAll_append accounted.handled, Nat.zero_add,
      ← accounted.invoked]
    exact handled
  · rw [flatMap_callsOn_parsed, List.length_append, invoked,
      accounted.invoked]

theorem LogAccounted.opened
    {clock : Nat → UInt64} {state next : MainState}
    {log : List SessionEvent} (accounted : LogAccounted clock state log)
    (nextSound : next.loop.Sound)
    (reset : next.loop.parser = state.loop.parser.reset)
    (handler : next.handler = state.handler)
    (invoked : next.invoked = state.invoked) :
    LogAccounted clock next (log ++ [.opened]) := by
  have last : currentConnection (log ++ [.opened]) = [] := by
    rw [currentConnection, connections_opened, List.getLastD_concat]
  have same :
      (connections (log ++ [.opened])).flatMap callsOn =
        (connections log).flatMap callsOn := by
    rw [connections_opened, List.flatMap_append, List.flatMap_singleton]
    exact List.append_nil _
  refine ⟨nextSound, ?_, ?_, ?_, ?_, ?_⟩
  · intro connection member
    rw [connections_opened] at member
    rcases List.mem_append.mp member with earlier | here
    · exact accounted.scanned connection earlier
    · rw [List.mem_singleton.mp here]
      exact scanned_nil
  · rw [last, reset]
    rfl
  · rw [last, reset, (Parser.Fresh.afterReset _).residue_eq]
    rfl
  · rw [same, handler]
    exact accounted.handled
  · rw [same, invoked]
    exact accounted.invoked

/-- One turn keeps the account. -/
theorem MainState.Advance.accounted
    {clock : Nat → UInt64} {state : MainState} {log : List SessionEvent}
    (accounted : LogAccounted clock state log)
    {result : MainState × List SessionEvent}
    (advance : Advance clock state result) :
    LogAccounted clock result.1 (log ++ result.2) := by
  cases advance with
  | opened =>
      exact accounted.opened
        ⟨by simp, show 0 < maxMsgSize by decide⟩ rfl rfl rfl
  | quiet up =>
      rw [List.append_nil]
      exact
        { accounted with
          sound := ⟨up, accounted.sound.small⟩ }
  | @parsed received parser handler outcome scanned counters residue
      invoked =>
      have small : parser.bufUsed < maxMsgSize := by
        rw [← Parser.residue_length, residue, ← scanned]
        exact referenceScanner_rest_lt _ _
      refine accounted.parsed ?_ scanned counters residue invoked rfl
      exact ⟨accounted.sound.connected, small⟩

theorem MainState.start_accounted
    (clock : Nat → UInt64) (recvBuf : ByteBuffer recvBufSize)
    (buf : ByteBuffer parseBufSize) :
    LogAccounted clock (MainState.start recvBuf buf) [] where
  sound := LoopState.sound_start recvBuf buf
  scanned := List.forall_mem_nil _
  counters := rfl
  residue := (Parser.Fresh.constructed buf).residue_eq
  handled := rfl
  invoked := rfl

theorem MainState.step_undefined
    (clock : Nat → UInt64) {state : MainState} (turn : Turn)
    (undefined : state.loop.pc = .undefined) :
    (state.step clock turn).1.loop.pc = .undefined := by
  rw [step_of_no_calls clock (if_neg (by simp [undefined])),
    LoopState.step, undefined]
  exact undefined

/-- A run that stays defined keeps the account. -/
theorem MainState.run_accounted
    (clock : Nat → UInt64) (recvBuf : ByteBuffer recvBufSize)
    (buf : ByteBuffer parseBufSize) (turns : List Turn)
    (defined :
      ((start recvBuf buf).run clock turns).1.loop.pc ≠ .undefined) :
    LogAccounted clock ((start recvBuf buf).run clock turns).1
      ((start recvBuf buf).run clock turns).2 := by
  have always :
      Mealy.Guarded (step clock) (fun _ _ => True) (start recvBuf buf)
        turns := by
    apply Mealy.guarded_of_forall
    intro _ _ _
    trivial
  refine Mealy.run_invariant (step clock)
    (fun state log =>
      state.loop.pc ≠ .undefined → LogAccounted clock state log)
    ?_ ?_ always defined
  · intro state log turn _ accounted nextDefined
    have before : state.loop.pc ≠ .undefined := by
      intro undefined
      exact nextDefined (step_undefined clock turn undefined)
    have now := accounted before
    exact (step_advances clock now.sound nextDefined).accounted now
  · intro _
    exact start_accounted clock recvBuf buf

/-! ## The printed lines -/

theorem arrivals_length
    (clock : Nat → UInt64) (index : Nat)
    (calls : List (MsgKind × List UInt8)) :
    (arrivals clock index calls).length = tickCount calls := by
  induction calls generalizing index with
  | nil =>
      rfl
  | cons call calls inductionHypothesis =>
      obtain ⟨kind, data⟩ := call
      rw [arrivals, tickCount, List.countP_cons]
      cases kind with
      | trade =>
          exact congrArg (· + 1) (inductionHypothesis (index + 1))
      | quote =>
          exact congrArg (· + 1) (inductionHypothesis (index + 1))
      | heartbeat =>
          exact inductionHypothesis (index + 1)

/-- The tracker covers all connections. -/
theorem LogAccounted.totalMessages
    {clock : Nat → UInt64} {state : MainState} {log : List SessionEvent}
    (accounted : LogAccounted clock state log) :
    state.finalStatistics.totalMessages =
      UInt64.ofNat
        ((connections log).map fun connection =>
          tickCount
            (callbacks (referenceScan (streamOf connection)).output)).sum := by
  have perConnection :
      (connections log).map (fun connection =>
          tickCount
            (callbacks (referenceScan (streamOf connection)).output)) =
        (connections log).map
          (fun connection => tickCount (callsOn connection)) := by
    apply List.map_congr_left
    intro connection member
    rw [(accounted.scanned connection member).calls]
  have count :
      state.handler.lat.count =
        UInt64.ofNat (tickCount ((connections log).flatMap callsOn)) := by
    have recorded :
        state.handler.lat = LatencyTracker.recordAll _ :=
      Handler.invokeAll_lat accounted.handled
    rw [recorded, LatencyTracker.recordAll_count, List.length_map,
      arrivals_length]
  rw [perConnection]
  change state.handler.lat.getStats.sampleCount = _
  rw [LatencyTracker.getStats_sampleCount, count, tickCount,
    List.countP_flatMap]
  rfl

/-- A sum over all connections is the value of the latest one exactly if the
others contribute nothing. -/
theorem current_eq_sum_iff
    (log : List SessionEvent) (value : List SessionEvent → Nat)
    (nothing : value [] = 0) :
    value (currentConnection log) = ((connections log).map value).sum ↔
      ∀ connection ∈ (connections log).dropLast,
        value connection = 0 := by
  rcases currentConnection_cases log with ⟨none_, current⟩ | shape
  · rw [none_, current, nothing]
    exact ⟨fun _ => List.forall_mem_nil _, fun _ => rfl⟩
  · have total :
        ((connections log).map value).sum =
          ((connections log).dropLast.map value).sum +
            value (currentConnection log) := by
      conv_lhs =>
        rw [shape, List.map_append, List.sum_append]
      simp
    rw [total, eq_comm, Nat.add_eq_right, List.sum_eq_zero_iff,
      List.forall_mem_map]

theorem LogAccounted.countsCover_iff
    {clock : Nat → UInt64} {state : MainState} {log : List SessionEvent}
    (accounted : LogAccounted clock state log) :
    CountsCover state.finalStatistics log ↔
      ∀ connection ∈ (connections log).dropLast,
        CountsNothing (streamOf connection) := by
  have current :
      state.loop.parser.toParseCounters =
        countedOn (currentConnection log) := by
    rw [accounted.counters, accounted.scanned_current.counted]
  have nothing (connection : List SessionEvent)
      (member : connection ∈ (connections log).dropLast) :
      CountsNothing (streamOf connection) ↔
        (countedOn connection).seqGaps.toNat = 0 ∧
          (countedOn connection).badChecksums.toNat = 0 := by
    have scanned :=
      accounted.scanned connection (List.dropLast_subset _ member)
    rw [countsNothing_iff, scanned.counted]
  have gaps :=
    current_eq_sum_iff log
      (fun connection => (countedOn connection).seqGaps.toNat) rfl
  have bad :=
    current_eq_sum_iff log
      (fun connection => (countedOn connection).badChecksums.toNat) rfl
  rw [CountsCover]
  change
    state.loop.parser.toParseCounters.seqGaps.toNat = _ ∧
      state.loop.parser.toParseCounters.badChecksums.toNat = _ ↔ _
  rw [current, gaps, bad, ← forall₂_and]
  apply forall₂_congr
  intro connection member
  exact (nothing connection member).symm

/-- At the exit of every run the printed number of messages is that of all
connections, and the printed gaps and bad checksums are the sums over all
connections exactly if nothing was counted on any but the last. -/
theorem finalStatistics_cover_iff
    (clock : Nat → UInt64) (recvBuf : ByteBuffer recvBufSize)
    (buf : ByteBuffer parseBufSize) (turns : List Turn)
    (stopped :
      ((MainState.start recvBuf buf).run clock turns).1.loop.pc =
        .stopped) :
    let result := (MainState.start recvBuf buf).run clock turns
    result.1.finalStatistics.totalMessages =
        UInt64.ofNat
          ((connections result.2).map fun connection =>
            tickCount
              (callbacks
                (referenceScan (streamOf connection)).output)).sum ∧
      (CountsCover result.1.finalStatistics result.2 ↔
        ∀ connection ∈ (connections result.2).dropLast,
          CountsNothing (streamOf connection)) := by
  intro result
  have accounted :=
    MainState.run_accounted clock recvBuf buf turns (by simp [stopped])
  exact ⟨accounted.totalMessages, accounted.countsCover_iff⟩

/-- The turns of a connection that delivers some bytes and then waits until a
call of `epoll_wait` fails. -/
def connectionTurns (received : Received) : List Turn :=
  [⟨true, true, 0, .wouldBlock⟩,
    ⟨true, true, 1, .wouldBlock⟩,
    ⟨true, true, 1, .data received⟩,
    ⟨true, true, 1, .wouldBlock⟩,
    ⟨true, true, -1, .wouldBlock⟩]

/-- Two heartbeats with the given numbers. -/
def twoHeartbeats (first second : UInt32) : Received where
  bytes :=
    (TickGenerator.heartbeatFrame first 0).bytes ++
      (TickGenerator.heartbeatFrame second 0).bytes
  positive := by
    rw [List.length_append, Frame.bytes, Frame.bytes, Msg.bytes_length]
    exact Nat.add_pos_left (show 0 < 20 by decide) _
  fits := by
    rw [List.length_append, Frame.bytes, Frame.bytes, Msg.bytes_length,
      Msg.bytes_length]
    exact show 20 + 20 ≤ recvBufSize by decide

/-- The turns of a run of two connections, up to its exit. -/
def twoConnections (first second : Received) : List Turn :=
  connectionTurns first ++ connectionTurns second ++
    [⟨false, true, 0, .wouldBlock⟩]

/-- Nothing is missing on the first connection, three numbers are on the
second. -/
theorem finalStatistics_cover_iff_last :
    let result :=
      (MainState.start ⟨fun _ => 0⟩ ⟨fun _ => 0⟩).run (fun _ => 0)
        (twoConnections (twoHeartbeats 1 2) (twoHeartbeats 1 5))
    result.1.finalStatistics.sequenceGaps = 3 ∧
      CountsCover result.1.finalStatistics result.2 := by
  intro result
  have stopped : result.1.loop.pc = .stopped := by
    decide +kernel
  refine ⟨by decide +kernel, ?_⟩
  apply (finalStatistics_cover_iff (fun _ => 0) ⟨fun _ => 0⟩
    ⟨fun _ => 0⟩ _ stopped).2.mpr
  decide +kernel

/-- Three numbers are missing on the first connection: none is printed. -/
theorem finalStatistics_forgets :
    let result :=
      (MainState.start ⟨fun _ => 0⟩ ⟨fun _ => 0⟩).run (fun _ => 0)
        (twoConnections (twoHeartbeats 1 5) (twoHeartbeats 1 2))
    result.1.loop.pc = .stopped ∧
      ((connections result.2).map fun connection =>
        (countedOn connection).seqGaps) = [3, 0] ∧
      result.1.finalStatistics.sequenceGaps = 0 ∧
      ¬ CountsCover result.1.finalStatistics result.2 := by
  decide +kernel

end MarketDataHandler
