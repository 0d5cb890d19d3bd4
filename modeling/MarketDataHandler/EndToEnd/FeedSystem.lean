import MarketDataHandler.Client.ProgramRuns
import MarketDataHandler.Server.SequenceNumbers

/-!
# The feed as one system

The exchange, one of its connections and the feed handler at the other end, in
any interleaving.  What the kernel took from the calls of `send` is in flight;
it arrives in the receive queue in pieces of any size and is read in pieces of
any size.  The event of the queue is edge-triggered: an arrival raises it, and
`epoll_wait` takes it.

Nothing is lost, doubled or reordered in between: at every moment the feed
handler has handled a beginning of the messages that the kernel took for its
connection, and if it waits with no event raised and nothing in flight, it has
handled all of them.
-/

namespace MarketDataHandler

/-! ## Streams that are cut off -/

/-- The scanner waits on every proper beginning of a frame. -/
theorem scanStep_of_beginning
    (counters : ParseCounters) (frame : Frame) {front : List UInt8}
    (inside : front <+: frame.bytes) (proper : front ≠ frame.bytes) :
    scanStep counters front = none := by
  rw [scanStep_eq_none_iff]
  by_cases short : front.length < 16
  · exact Or.inl short
  · right
    obtain ⟨behind, split⟩ := inside
    have sameType : msgTypeAt front = msgTypeAt frame.bytes := by
      rw [← split, msgTypeAt_append (by omega)]
    have shorter : front.length < frame.bytes.length := by
      have nonempty : behind ≠ [] := by
        rintro rfl
        exact proper ((List.append_nil front).symm.trans split)
      have positive := List.length_pos_of_ne_nil nonempty
      rw [← split, List.length_append]
      omega
    have known := frame.raw.known
    have sized := frame.raw.sized
    change msgTotalSize (msgTypeAt frame.bytes) ≠ 0 at known
    change frame.bytes.length = msgTotalSize (msgTypeAt frame.bytes) at sized
    rw [sameType]
    exact ⟨known, by omega⟩

theorem ParseCounters.deliverAll_eq_run
    (counters : ParseCounters) (frames : List Frame) :
    counters.deliverAll frames =
      Mealy.run (fun current frame => current.receive frame.bytes) counters
        frames := by
  induction frames generalizing counters with
  | nil =>
      rfl
  | cons frame frames inductionHypothesis =>
      rw [deliverAll_cons, Mealy.run_cons, frame.receive_eq,
        ← inductionHypothesis]

/-- The beginning of a message that the server gave up. -/
def CutOff (broken : List UInt8) : Prop :=
  broken = [] ∨
    ∃ frame : Frame, broken <+: frame.bytes ∧ broken ≠ frame.bytes

theorem CutOff.waits
    {broken : List UInt8} (cutOff : CutOff broken)
    (counters : ParseCounters) {front : List UInt8}
    (inside : front <+: broken) : scanStep counters front = none := by
  rcases cutOff with rfl | ⟨frame, beginning, proper⟩
  · rw [List.prefix_nil.mp inside]
    rfl
  · apply scanStep_of_beginning counters frame (inside.trans beginning)
    rintro rfl
    exact proper (beginning.eq_of_length
      (Nat.le_antisymm beginning.length_le inside.length_le))

/-- What has been read of a stream of frames with a broken one at its end: the
frames that are whole are delivered, and the beginning of one is left. -/
structure ReadSoFar (frames : List Frame) (broken input : List UInt8)
    (count : Nat) (rest : List UInt8) : Prop where
  split : input = (frames.take count).flatMap Frame.bytes ++ rest
  scanned :
    referenceScan input =
      ⟨(ParseCounters.zero.deliverAll (frames.take count)).1,
        (ParseCounters.zero.deliverAll (frames.take count)).2, rest⟩
  left :
    (frames.length ≤ count ∧ rest <+: broken) ∨
      ∃ frame,
        frames[count]? = some frame ∧
          rest <+: frame.bytes ∧ rest ≠ frame.bytes

theorem readSoFar_exists
    {frames : List Frame} {broken input : List UInt8}
    (cutOff : CutOff broken)
    (cut : input <+: frames.flatMap Frame.bytes ++ broken) :
    ∃ count rest, ReadSoFar frames broken input count rest := by
  have delimits (counters : ParseCounters) (frame : Frame)
      (behind : List UInt8) :
      referenceScanner.step counters (frame.bytes ++ behind) =
        some ((counters.receive frame.bytes).1,
          (counters.receive frame.bytes).2, frame.bytes.length) :=
    RawFrame.scanStep_eq counters frame.raw behind
  obtain ⟨count, rest, split, scanned, left⟩ :=
    referenceScanner.run_tokens_prefix delimits
      (fun counters frame _ => scanStep_of_beginning counters frame)
      (fun counters _ => cutOff.waits counters) ParseCounters.zero cut
  rw [← ParseCounters.deliverAll_eq_run] at scanned
  exact ⟨count, rest, split, scanned, left⟩

/-- Of a stream that has been read to its end every frame is delivered. -/
theorem ReadSoFar.all
    {frames : List Frame} {broken : List UInt8} {count : Nat}
    {rest : List UInt8}
    (read :
      ReadSoFar frames broken (frames.flatMap Frame.bytes ++ broken) count
        rest) :
    frames.take count = frames ∧ rest = broken := by
  obtain ⟨split, _, ⟨all, _⟩ | ⟨frame, next, inside, proper⟩⟩ := read
  · rw [List.take_of_length_le all, List.append_cancel_left_eq] at split
    exact ⟨List.take_of_length_le all, split.symm⟩
  · -- the next frame is longer than the rest
    obtain ⟨bounded, rfl⟩ := List.getElem?_eq_some_iff.mp next
    have tail :
        frames =
          frames.take count ++ frames[count] :: frames.drop (count + 1) := by
      rw [← List.drop_eq_getElem_cons bounded, List.take_append_drop]
    have lengths := congrArg List.length split
    have whole := congrArg (List.flatMap Frame.bytes) tail
    rw [List.flatMap_append, List.flatMap_cons] at whole
    have longer := congrArg List.length whole
    have shorter := inside.length_le
    simp only [List.length_append] at lengths longer
    have same : rest.length = frames[count].bytes.length := by omega
    exact absurd (inside.eq_of_length same) proper

/-! ## One send loop -/

/-- What a send loop puts on the wire is a beginning of the message, and all of
it only if the verdict says so. -/
theorem sendLoop_beginning
    (outcomes : List SendOutcome) (data : List UInt8) :
    (sendLoop outcomes data).1.flatten <+: data ∧
      ((sendLoop outcomes data).2 ≠ .whole →
        (sendLoop outcomes data).1.flatten ≠ data) := by
  induction outcomes generalizing data with
  | nil =>
      cases data with
      | nil =>
          exact ⟨List.prefix_refl _, fun given => absurd rfl given⟩
      | cons byte rest =>
          rw [sendLoop, List.flatten_singleton]
          exact ⟨List.prefix_refl _, fun given => absurd rfl given⟩
  | cons outcome outcomes inductionHypothesis =>
      cases data with
      | nil =>
          exact ⟨List.prefix_refl _, fun given => absurd rfl given⟩
      | cons byte rest =>
          cases outcome with
          | accept extra =>
              obtain ⟨inside, proper⟩ :=
                inductionHypothesis ((byte :: rest).drop (extra + 1))
              have whole :=
                List.take_append_drop (extra + 1) (byte :: rest)
              rw [sendLoop, List.flatten_cons]
              constructor
              · conv_rhs => rw [← whole]
                rw [List.prefix_append_right_inj]
                exact inside
              · intro partly same
                exact proper partly
                  (List.append_cancel_left (same.trans whole.symm))
          | wouldBlock =>
              exact ⟨List.nil_prefix, fun _ same => by cases same⟩
          | fail =>
              exact ⟨List.nil_prefix, fun _ same => by cases same⟩

/-! ## The wire of the connection -/

/-- The kernel does not hand out the descriptor of the connection again, and it
does not refuse the connection a message behind a part of it. -/
structure KeepsWhole (fd : Nat) (server : ExchangeSimulator)
    (action : ServerAction) : Prop where
  notReused : action ≠ .newConnection (some fd)
  whole :
    ∀ frame ∈ server.message action,
      fd ∈ server.clients →
        ¬ BlocksInside (action.sends fd) frame.bytes.length

/-- What is on the wire: some of the messages that were broadcast, in order,
and behind them the beginning of one if the connection was given up there. -/
structure Carries (fd : Nat) (server : ExchangeSimulator)
    (trace : List ServerOutput) (frames : List Frame)
    (broken : List UInt8) : Prop where
  offered : (frames.map Frame.bytes).Sublist (published trace)
  wired : sentTo fd trace = frames.flatMap Frame.bytes ++ broken
  cutOff : CutOff broken
  whole : fd ∈ server.clients → broken = []
  symbols :
    ∀ frame ∈ frames, frame.msg.header.symbolId.toNat < maxSymbols

/-- The messages of the exchange keep to its symbols. -/
theorem ExchangeSimulator.message_symbol
    {server : ExchangeSimulator} {action : ServerAction} {frame : Frame}
    (named : server.message action = some frame) :
    frame.msg.header.symbolId.toNat < server.symbolCount := by
  have positive := server.symbolCount_pos
  cases action with
  | tick draw sends =>
      rw [message] at named
      split at named
      · cases named
      · cases named
        rw [(tickFrame_header _ _ _).2, nextSym, UInt16.toNat_ofNat']
        exact Nat.lt_of_le_of_lt (Nat.mod_le _ _)
          (Nat.mod_lt _ positive)
  | heartbeat nowNs sends =>
      rw [message] at named
      split at named
      · cases named
      · cases named
        exact positive
  | _ =>
      cases named

/-- What an action puts on one client's wire. -/
theorem ExchangeSimulator.step_wire
    (server : ExchangeSimulator) (action : ServerAction) (fd : Nat) :
    (server.message action = none ∧
        published (server.step action).2 = [] ∧
        sentTo fd (server.step action).2 = [] ∧
        (fd ∈ (server.step action).1.clients ↔
          (fd ∈ server.clients ∧ action ≠ .clientDisconnect fd) ∨
            action = .newConnection (some fd))) ∨
      ∃ frame,
        server.message action = some frame ∧
          published (server.step action).2 = [frame.bytes] ∧
          sentTo fd (server.step action).2 =
            (if fd ∈ server.clients then
              (sendLoop (action.sends fd) frame.bytes).1.flatten
            else
              []) ∧
          (fd ∈ (server.step action).1.clients ↔
            fd ∈ server.clients ∧
              (sendLoop (action.sends fd) frame.bytes).2 ≠ .drop) := by
  have serves := server.step_serves action
  generalize server.step action = result at serves
  cases serves with
  | @quiet next outputs silent _ _ members only =>
      left
      refine ⟨silent, ?_, ?_, members fd⟩
      · apply List.filterMap_eq_nil_iff.mpr
        intro output member
        rcases only output member with ⟨_, rfl, _⟩ | ⟨_, rfl⟩
        · rfl
        · rfl
      · apply List.flatMap_eq_nil_iff.mpr
        intro output member
        rcases only output member with ⟨_, rfl, _⟩ | ⟨_, rfl⟩
        · rfl
        · rfl
  | @message frame named _ =>
      right
      obtain ⟨_, announced, sent⟩ :=
        server.toConnections.broadcastMessage_outputs frame.bytes
          action.sends fd
      refine ⟨frame, named, ?_, ?_,
        Connections.mem_clients_broadcastMessage⟩
      · rw [published_append]
        change _ ++ published (server.toConnections.broadcastMessage
          frame.bytes action.sends).2 = _
        rw [announced]
        split <;> rfl
      · rw [sentTo_append]
        change _ ++ sentTo fd (server.toConnections.broadcastMessage
          frame.bytes action.sends).2 = _
        rw [sent]
        split <;> rfl

/-- An action of the server extends what the wire carries. -/
theorem Carries.step
    {fd : Nat} {server : ExchangeSimulator} {trace : List ServerOutput}
    {frames : List Frame} {broken : List UInt8}
    (carries : Carries fd server trace frames broken)
    (fewSymbols : server.symbolCount ≤ maxSymbols)
    {action : ServerAction} (keeps : KeepsWhole fd server action) :
    ∃ moreFrames nextBroken,
      Carries fd (server.step action).1 (trace ++ (server.step action).2)
        (frames ++ moreFrames) nextBroken := by
  rcases server.step_wire action fd with
    ⟨_, unpublished, unsent, members⟩ |
    ⟨frame, named, announced, sent, members⟩
  · refine ⟨[], broken, ?_⟩
    rw [List.append_nil]
    refine ⟨?_, ?_, carries.cutOff, ?_, carries.symbols⟩
    · rw [published_append, unpublished, List.append_nil]
      exact carries.offered
    · rw [sentTo_append, unsent, List.append_nil]
      exact carries.wired
    · intro member
      rcases members.mp member with ⟨before, _⟩ | again
      · exact carries.whole before
      · exact absurd again keeps.notReused
  · have skipped (more : List UInt8) (cutOff : CutOff more)
        (bytes :
          sentTo fd (trace ++ (server.step action).2) =
            frames.flatMap Frame.bytes ++ more)
        (whole : fd ∈ (server.step action).1.clients → more = []) :
        Carries fd (server.step action).1
          (trace ++ (server.step action).2) (frames ++ []) more := by
      rw [List.append_nil]
      refine ⟨?_, bytes, cutOff, whole, carries.symbols⟩
      rw [published_append]
      exact carries.offered.trans (List.sublist_append_left _ _)
    by_cases member : fd ∈ server.clients
    · have whole := carries.wired
      rw [carries.whole member, List.append_nil] at whole
      rw [if_pos member] at sent
      obtain ⟨inside, proper⟩ :=
        sendLoop_beginning (action.sends fd) frame.bytes
      cases verdict : (sendLoop (action.sends fd) frame.bytes).2 with
      | whole =>
          refine ⟨[frame], [], ?_, ?_, Or.inl rfl, fun _ => rfl, ?_⟩
          · rw [List.map_append, published_append, announced]
            exact carries.offered.append (List.Sublist.refl _)
          · rw [sentTo_append, whole, sent, sendLoop_whole verdict,
              List.flatMap_append, List.flatMap_singleton,
              List.append_nil]
          · intro other mentioned
            rcases List.mem_append.mp mentioned with before | now
            · exact carries.symbols other before
            · rw [List.mem_singleton.mp now]
              exact Nat.lt_of_lt_of_le
                (ExchangeSimulator.message_symbol named) fewSymbols
      | slow =>
          have nothing :
              (sendLoop (action.sends fd) frame.bytes).1.flatten = [] := by
            rcases sendLoop_all_or_nothing
                (keeps.whole frame named member)
                (by rw [verdict]; decide) with all | nothing
            · exact absurd all (proper (by rw [verdict]; decide))
            · exact nothing
          refine ⟨[], [], skipped [] (Or.inl rfl) ?_ fun _ => rfl⟩
          rw [sentTo_append, whole, sent, nothing]
      | drop =>
          refine ⟨[], _,
            skipped (sendLoop (action.sends fd) frame.bytes).1.flatten
              (Or.inr ⟨frame, inside, proper (by rw [verdict]; decide)⟩)
              (by rw [sentTo_append, whole, sent]) ?_⟩
          intro still
          exact absurd verdict (members.mp still).2
    · refine ⟨[], broken, skipped broken carries.cutOff ?_ ?_⟩
      · rw [sentTo_append, sent, if_neg member, List.append_nil]
        exact carries.wired
      · intro still
        exact absurd (members.mp still).1 member

/-! ## The system -/

/-- The way from the server's calls of `send` to the client's calls of
`recv`. -/
structure Link where
  inFlight : List UInt8
  queue : List UInt8
  /-- An event that `epoll_wait` has not reported yet. -/
  raised : Bool

structure FeedSystem where
  server : ExchangeSimulator
  link : Link
  /-- `g_running` of the feed handler. -/
  running : Bool
  client : MainState

inductive FeedAction where
  | serve (action : ServerAction)
  /-- `extra + 1` bytes arrive, or all that are in flight if these are fewer;
  with nothing in flight, the end of the stream if there is one. -/
  | arrive (extra : Nat)
  /-- A turn of the feed handler; a call of `recv` returns `extra + 1` bytes at
  most. -/
  | turn (extra : Nat)
  /-- A signal stops the feed handler. -/
  | signal

/-- What a call of `recv` returns of a queue that is not empty. -/
def Received.beginning {queue : List UInt8} (nonempty : queue ≠ [])
    (extra : Nat) : Received where
  bytes := queue.take (min (extra + 1) recvBufSize)
  positive := by
    have size : recvBufSize = 65536 := rfl
    have some := List.length_pos_of_ne_nil nonempty
    rw [List.length_take]
    omega
  fits := (List.length_take_le _ _).trans (Nat.min_le_right _ _)

/-- Number of bytes that a call of `recv` takes out of the queue. -/
def RecvOutcome.size : RecvOutcome → Nat
  | .data received => received.bytes.length
  | _ => 0

namespace FeedSystem

variable (fd : Nat) (clock : Nat → UInt64)

/-- Behind the bytes of the queue is the end of the stream. -/
def ended (system : FeedSystem) : Bool :=
  !decide (fd ∈ system.server.clients) && system.link.inFlight.isEmpty

/-- The answer to a call of `recv`. -/
def outcome (system : FeedSystem) (extra : Nat) : RecvOutcome :=
  if empty : system.link.queue = [] then
    if system.ended fd then .closed else .wouldBlock
  else
    .data (Received.beginning empty extra)

/-- The answers to the calls of one turn of the feed handler. -/
def turnOf (system : FeedSystem) (extra : Nat) : Turn where
  running := system.running
  connects := true
  ev := if system.link.raised then 1 else 0
  outcome := system.outcome fd extra

/-- The link behind a turn: registering the descriptor raises an event if there
is something to read, `epoll_wait` takes the event, `recv` takes bytes. -/
def linkAfterTurn (system : FeedSystem) (extra : Nat) : Link :=
  match system.client.loop.pc with
  | .connecting =>
      if system.running then
        { system.link with
          raised := !system.link.queue.isEmpty || system.ended fd }
      else
        system.link
  | .waiting =>
      if system.running && system.client.loop.connected then
        { system.link with raised := false }
      else
        system.link
  | .receiving =>
      { system.link with
        queue := system.link.queue.drop (system.outcome fd extra).size }
  | .stopped => system.link
  | .undefined => system.link

/-- A turn of the feed handler, with what it does. -/
def afterTurn (system : FeedSystem) (extra : Nat) :
    FeedSystem × List SessionEvent :=
  let turned := system.client.step clock (system.turnOf fd extra)
  ({ system with
      link := system.linkAfterTurn fd extra
      client := turned.1 },
    turned.2)

def step (system : FeedSystem) :
    FeedAction → FeedSystem × List (ServerOutput ⊕ SessionEvent)
  | .serve action =>
      let served := system.server.step action
      ({ system with
          server := served.1
          link :=
            { system.link with
              inFlight :=
                system.link.inFlight ++ sentTo fd served.2 } },
        served.2.map .inl)
  | .arrive extra =>
      ({ system with
          link :=
            { inFlight := system.link.inFlight.drop (extra + 1)
              queue :=
                system.link.queue ++ system.link.inFlight.take (extra + 1)
              raised :=
                system.link.raised || !system.link.inFlight.isEmpty ||
                  system.ended fd } },
        [])
  | .turn extra =>
      let turned := system.afterTurn fd clock extra
      (turned.1, turned.2.map .inr)
  | .signal => ({ system with running := false }, [])

def run (system : FeedSystem) (actions : List FeedAction) :
    FeedSystem × List (ServerOutput ⊕ SessionEvent) :=
  Mealy.run (step fd clock) system actions

/-- The connection was just accepted, and the feed handler is about to connect
or just did. -/
structure Starts (system : FeedSystem) : Prop where
  accepted : fd ∈ system.server.clients
  idle : system.link = ⟨[], [], false⟩
  fresh : system.client.loop.parser.Fresh
  place :
    system.client.loop.pc = .connecting ∨
      (system.client.loop.pc = .waiting ∧
        system.client.loop.connected = true)

/-- The actions of the server keep to whole messages. -/
def Keeps (system : FeedSystem) : FeedAction → Prop
  | .serve action => KeepsWhole fd system.server action
  | _ => True

end FeedSystem

/-- What the server did. -/
def serverTrace (trace : List (ServerOutput ⊕ SessionEvent)) :
    List ServerOutput :=
  trace.filterMap Sum.getLeft?

/-- What the feed handler did. -/
def clientLog (trace : List (ServerOutput ⊕ SessionEvent)) :
    List SessionEvent :=
  trace.filterMap Sum.getRight?

theorem serverTrace_append
    (first second : List (ServerOutput ⊕ SessionEvent)) :
    serverTrace (first ++ second) =
      serverTrace first ++ serverTrace second :=
  List.filterMap_append

theorem clientLog_append
    (first second : List (ServerOutput ⊕ SessionEvent)) :
    clientLog (first ++ second) = clientLog first ++ clientLog second :=
  List.filterMap_append

theorem views_inl (outputs : List ServerOutput) :
    serverTrace (outputs.map .inl) = outputs ∧
      clientLog (outputs.map .inl) = [] := by
  constructor
  · rw [serverTrace, List.filterMap_map]
    exact List.filterMap_some
  · rw [clientLog, List.filterMap_map, List.filterMap_eq_nil_iff]
    intro output _
    rfl

theorem views_inr (events : List SessionEvent) :
    serverTrace (events.map .inr) = [] ∧
      clientLog (events.map .inr) = events := by
  constructor
  · rw [serverTrace, List.filterMap_map, List.filterMap_eq_nil_iff]
    intro event _
    rfl
  · rw [clientLog, List.filterMap_map]
    exact List.filterMap_some

theorem views_turned
    (trace : List (ServerOutput ⊕ SessionEvent))
    (events : List SessionEvent) :
    serverTrace (trace ++ events.map .inr) = serverTrace trace ∧
      streamOf (clientLog (trace ++ events.map .inr)) =
        streamOf (clientLog trace) ++ streamOf events := by
  obtain ⟨served, did⟩ := views_inr events
  rw [serverTrace_append, served, List.append_nil, clientLog_append, did]
  exact ⟨rfl, List.flatMap_append⟩

/-! ## One turn of the feed handler -/

theorem LoopState.feedEvents_closed
    {state : LoopState} (connected : state.connected = true)
    (small : state.parser.bufUsed < maxMsgSize) :
    state.feedEvents .closed = [] := by
  have lost :
      receive state.connected state.recvBuf .closed =
        (false, state.recvBuf, -1) := by
    rw [connected]
    rfl
  have notNegative : ¬ declaredResult (-1) < 0 := UInt64.not_lt_zero
  have notZero : declaredResult (-1) ≠ 0 := by decide
  have unfed :
      state.parser.feed state.recvBuf (declaredResult (-1)).toNat =
        none :=
    Parser.feed_allOnes small state.recvBuf
  rw [feedEvents, lost]
  simp only
  rw [if_neg notNegative, if_neg notZero, unfed]

namespace FeedSystem

variable {fd : Nat} {clock : Nat → UInt64}

/-- What a turn of the feed handler comes to. -/
inductive Turned (fd : Nat) (clock : Nat → UInt64) (system : FeedSystem) :
    FeedSystem × List SessionEvent → Prop
  | opens :
      system.client.loop.pc = .connecting →
      system.running = true →
      Turned fd clock system
        ({ system with
            link :=
              { system.link with
                raised := !system.link.queue.isEmpty || system.ended fd }
            client :=
              { system.client with
                loop :=
                  { system.client.loop with
                    pc := .waiting
                    connected := true
                    parser := system.client.loop.parser.reset } } },
          [.opened])
  /-- Nothing to do, or nothing to be done any more. -/
  | rests :
      (system.client.loop.pc = .waiting ∧ system.running = true ∧
          system.link.raised = false) ∨
        system.client.loop.pc = .stopped ∨
        system.client.loop.pc = .undefined →
      Turned fd clock system (system, [])
  /-- The loops are left. -/
  | leaves {pc : LoopPc} :
      system.running = false →
      (system.client.loop.pc = .waiting ∧ pc = .connecting) ∨
        (system.client.loop.pc = .connecting ∧ pc = .stopped) →
      Turned fd clock system
        ({ system with
            client :=
              { system.client with
                loop := { system.client.loop with pc := pc } } },
          [])
  | wakes :
      system.client.loop.pc = .waiting →
      system.running = true →
      system.link.raised = true →
      Turned fd clock system
        ({ system with
            link := { system.link with raised := false }
            client :=
              { system.client with
                loop := { system.client.loop with pc := .receiving } } },
          [])
  | drained :
      system.client.loop.pc = .receiving →
      system.link.queue = [] →
      Turned fd clock system
        ({ system with
            client :=
              { system.client with
                loop := { system.client.loop with pc := .waiting } } },
          [])
  | parses {received : Received} {parser : Parser} {handler : Handler}
      {outcome : StreamScanner.Outcome ParseCounters ParseEvent UInt8} :
      system.client.loop.pc = .receiving →
      received.bytes <+: system.link.queue →
      referenceScanner.run system.client.loop.parser.toParseCounters
          (system.client.loop.parser.residue ++ received.bytes) =
        outcome →
      parser.toParseCounters = outcome.state →
      parser.residue = outcome.rest →
      Handler.invokeAll clock system.client.invoked system.client.handler
          (callbacks outcome.output) = some handler →
      Turned fd clock system
        ({ system with
            link :=
              { system.link with
                queue := system.link.queue.drop received.bytes.length }
            client :=
              { loop :=
                  { system.client.loop with
                    recvBuf :=
                      system.client.loop.recvBuf.write 0 received.bytes
                    parser := parser }
                handler := handler
                invoked :=
                  system.client.invoked +
                    (callbacks outcome.output).length } },
          [.parsed received.bytes (callbacks outcome.output)
            parser.toParseCounters])
  /-- The end of the stream leads out of the buffers. -/
  | loses :
      system.client.loop.pc = .receiving →
      system.link.queue = [] →
      system.ended fd = true →
      Turned fd clock system
        ({ system with
            client :=
              { system.client with
                loop :=
                  { system.client.loop with
                    connected := false
                    pc := .undefined } } },
          [.parsed (system.client.loop.recvBuf.slice 0 recvBufSize) []
            system.client.loop.parser.toParseCounters])

theorem outcome_of_empty
    {system : FeedSystem} (empty : system.link.queue = []) (extra : Nat) :
    system.outcome fd extra =
      if system.ended fd then .closed else .wouldBlock := by
  rw [outcome, dif_pos empty]

/-- A call of `recv` on a queue that is not empty takes a part of it. -/
theorem outcome_of_nonempty
    {system : FeedSystem} (nonempty : system.link.queue ≠ [])
    (extra : Nat) :
    ∃ received,
      system.outcome fd extra = .data received ∧
        received.bytes <+: system.link.queue := by
  rw [outcome, dif_neg nonempty]
  exact ⟨_, rfl, List.take_prefix _ _⟩

end FeedSystem

namespace MainState

/-! The turns of the feed handler, one lemma for each place in the program. -/

variable (clock : Nat → UInt64) {client : MainState} {turn : Turn}

theorem step_elsewhere (elsewhere : client.loop.pc ≠ .receiving) :
    client.step clock turn =
      ({ client with loop := (client.loop.step turn).1 },
        (client.loop.step turn).2.flatMap
          (session [] (client.loop.step turn).1.parser.toParseCounters)) :=
  step_of_no_calls clock (if_neg elsewhere)

theorem step_opens
    (pc : client.loop.pc = .connecting) (running : turn.running = true)
    (connects : turn.connects = true) :
    client.step clock turn =
      ({ client with
          loop :=
            { client.loop with
              pc := .waiting
              connected := true
              parser := client.loop.parser.reset } },
        [.opened]) := by
  rw [step_elsewhere clock (by simp [pc]), LoopState.step, pc, running,
    connects]
  rfl

theorem step_stops
    (pc : client.loop.pc = .connecting)
    (stopped : turn.running = false) :
    client.step clock turn =
      ({ client with loop := { client.loop with pc := .stopped } },
        []) := by
  rw [step_elsewhere clock (by simp [pc]), LoopState.step, pc, stopped]
  rfl

theorem step_leaves
    (pc : client.loop.pc = .waiting) (stopped : turn.running = false) :
    client.step clock turn =
      ({ client with loop := { client.loop with pc := .connecting } },
        []) := by
  rw [step_elsewhere clock (by simp [pc]), LoopState.step, pc, stopped]
  rfl

theorem step_wakes
    (pc : client.loop.pc = .waiting)
    (connected : client.loop.connected = true)
    (running : turn.running = true) (event : turn.ev = 1) :
    client.step clock turn =
      ({ client with loop := { client.loop with pc := .receiving } },
        []) := by
  have alive : (turn.running && client.loop.connected) = true := by
    rw [running, connected]
    rfl
  rw [step_elsewhere clock (by simp [pc]), LoopState.step, pc]
  simp only
  rw [if_pos alive, event]
  rfl

/-- A wait that ends after its time. -/
theorem step_sleeps
    (pc : client.loop.pc = .waiting)
    (connected : client.loop.connected = true)
    (running : turn.running = true) (event : turn.ev = 0) :
    client.step clock turn = (client, []) := by
  have alive : (turn.running && client.loop.connected) = true := by
    rw [running, connected]
    rfl
  have slept : client.loop.step turn = (client.loop, []) := by
    rw [LoopState.step, pc]
    simp only
    rw [if_pos alive, event]
    rfl
  rw [step_elsewhere clock (by simp [pc]), slept]
  rfl

theorem step_drained
    (pc : client.loop.pc = .receiving)
    (connected : client.loop.connected = true)
    (nothing : turn.outcome = .wouldBlock) :
    client.step clock turn =
      ({ client with loop := { client.loop with pc := .waiting } },
        []) := by
  have noCalls : client.calls turn = [] := by
    rw [calls, if_pos pc, nothing,
      LoopState.feedEvents_wouldBlock connected]
    rfl
  rw [step_of_no_calls clock noCalls, LoopState.step, pc]
  simp only
  rw [nothing, LoopState.iterate_wouldBlock connected]
  rfl

theorem step_loses
    (sound : client.loop.Sound) (pc : client.loop.pc = .receiving)
    (closed : turn.outcome = .closed) :
    client.step clock turn =
      ({ client with
          loop :=
            { client.loop with
              connected := false
              pc := .undefined } },
        [.parsed (client.loop.recvBuf.slice 0 recvBufSize) []
          client.loop.parser.toParseCounters]) := by
  have connected := sound.connected pc
  have noCalls : client.calls turn = [] := by
    rw [calls, if_pos pc, closed,
      LoopState.feedEvents_closed connected sound.small]
    rfl
  rw [step_of_no_calls clock noCalls, LoopState.step, pc]
  simp only
  rw [closed, LoopState.iterate_ends connected rfl,
    Parser.feed_allOnes sound.small]
  rfl

theorem step_halted
    (pc : client.loop.pc = .stopped ∨ client.loop.pc = .undefined) :
    client.step clock turn = (client, []) := by
  rcases pc with pc | pc
  · rw [step_elsewhere clock (by simp [pc]), LoopState.step, pc]
    rfl
  · rw [step_elsewhere clock (by simp [pc]), LoopState.step, pc]
    rfl

end MainState

namespace FeedSystem

variable {fd : Nat} {clock : Nat → UInt64}

/-- The callbacks can handle what a call of `recv` takes out of the queue. -/
def CanHandle (clock : Nat → UInt64) (system : FeedSystem) : Prop :=
  ∀ received : Received,
    received.bytes <+: system.link.queue →
      (Handler.invokeAll clock system.client.invoked system.client.handler
        (callbacks
          (referenceScanner.run system.client.loop.parser.toParseCounters
            (system.client.loop.parser.residue ++
              received.bytes)).output)).isSome

theorem turned_connecting
    {system : FeedSystem} (pc : system.client.loop.pc = .connecting)
    (extra : Nat) :
    Turned fd clock system (system.afterTurn fd clock extra) := by
  rw [afterTurn, linkAfterTurn, pc]
  simp only
  by_cases running : system.running = true
  · rw [MainState.step_opens clock pc running rfl, if_pos running]
    exact Turned.opens pc running
  · have stopped : system.running = false :=
      Bool.eq_false_of_not_eq_true running
    rw [MainState.step_stops clock pc stopped, if_neg running]
    exact Turned.leaves stopped (Or.inr ⟨pc, rfl⟩)

theorem turned_waiting
    {system : FeedSystem} (pc : system.client.loop.pc = .waiting)
    (connected : system.client.loop.connected = true) (extra : Nat) :
    Turned fd clock system (system.afterTurn fd clock extra) := by
  rw [afterTurn, linkAfterTurn, pc]
  simp only
  by_cases running : system.running = true
  · have alive :
        (system.running && system.client.loop.connected) = true := by
      rw [running, connected]
      rfl
    rw [if_pos alive]
    by_cases raised : system.link.raised = true
    · have event : (system.turnOf fd extra).ev = 1 := if_pos raised
      rw [MainState.step_wakes clock pc connected running event]
      exact Turned.wakes pc running raised
    · have unraised : system.link.raised = false :=
        Bool.eq_false_of_not_eq_true raised
      have event : (system.turnOf fd extra).ev = 0 := if_neg raised
      have same : { system.link with raised := false } = system.link := by
        rw [← unraised]
      rw [MainState.step_sleeps clock pc connected running event, same]
      exact Turned.rests (Or.inl ⟨pc, running, unraised⟩)
  · have stopped : system.running = false :=
      Bool.eq_false_of_not_eq_true running
    have left :
        ¬ (system.running && system.client.loop.connected) = true := by
      rw [stopped]
      exact Bool.false_ne_true
    rw [MainState.step_leaves clock pc stopped, if_neg left]
    exact Turned.leaves stopped (Or.inl ⟨pc, rfl⟩)

/-- A call of `recv` on an empty queue. -/
theorem turned_drained
    {system : FeedSystem} (sound : system.client.loop.Sound)
    (pc : system.client.loop.pc = .receiving)
    (empty : system.link.queue = []) (extra : Nat) :
    Turned fd clock system (system.afterTurn fd clock extra) := by
  have answer := @outcome_of_empty fd system empty extra
  have same :
      system.link.queue.drop (system.outcome fd extra).size =
        system.link.queue := by
    rw [empty, List.drop_nil]
  rw [afterTurn, linkAfterTurn, pc]
  simp only
  rw [same]
  cases ended : system.ended fd with
  | true =>
      rw [ended] at answer
      have closed : (system.turnOf fd extra).outcome = .closed := answer
      rw [MainState.step_loses clock sound pc closed]
      exact Turned.loses pc empty ended
  | false =>
      rw [ended] at answer
      have nothing :
          (system.turnOf fd extra).outcome = .wouldBlock := answer
      rw [MainState.step_drained clock pc (sound.connected pc) nothing]
      exact Turned.drained pc empty

/-- A call of `recv` that gets bytes, and the call of the parser. -/
theorem turned_parses
    {system : FeedSystem} (sound : system.client.loop.Sound)
    (pc : system.client.loop.pc = .receiving)
    (nonempty : system.link.queue ≠ [])
    (handles : system.CanHandle clock)
    (extra : Nat) :
    Turned fd clock system (system.afterTurn fd clock extra) := by
  obtain ⟨received, answer, inside⟩ :=
    @outcome_of_nonempty fd system nonempty extra
  obtain ⟨parser, counters, residue, stepped⟩ :=
    MainState.step_received clock sound pc
      (show (system.turnOf fd extra).outcome = .data received
        from answer)
      rfl
  obtain ⟨handler, invoked⟩ :=
    Option.isSome_iff_exists.mp (handles received inside)
  rw [afterTurn, linkAfterTurn, pc]
  simp only
  rw [stepped, invoked, answer]
  exact Turned.parses pc inside rfl counters residue invoked

/-- A turn is one of the moves, as long as the callbacks can handle what is in
the queue. -/
theorem turned_turn
    {system : FeedSystem} (sound : system.client.loop.Sound)
    (connected :
      system.client.loop.pc = .waiting →
        system.client.loop.connected = true)
    (handles : system.CanHandle clock)
    (extra : Nat) :
    Turned fd clock system (system.afterTurn fd clock extra) := by
  cases pc : system.client.loop.pc with
  | connecting =>
      exact turned_connecting pc extra
  | waiting =>
      exact turned_waiting pc (connected pc) extra
  | receiving =>
      by_cases empty : system.link.queue = []
      · exact turned_drained sound pc empty extra
      · exact turned_parses sound pc empty handles extra
  | stopped =>
      rw [afterTurn, linkAfterTurn, pc,
        MainState.step_halted clock (Or.inl pc)]
      exact Turned.rests (Or.inr (Or.inl pc))
  | undefined =>
      rw [afterTurn, linkAfterTurn, pc,
        MainState.step_halted clock (Or.inr pc)]
      exact Turned.rests (Or.inr (Or.inr pc))

end FeedSystem

/-! ## What both ends know of each other -/

/-- The feed handler is where the scan of the bytes leads that it was fed on
this connection. -/
structure Fed (clock : Nat → UInt64) (origin client : MainState)
    (fed : List UInt8) : Prop where
  sound : client.loop.Sound
  connected :
    client.loop.pc = .waiting → client.loop.connected = true
  counters :
    client.loop.parser.toParseCounters = (referenceScan fed).state
  residue : client.loop.parser.residue = (referenceScan fed).rest
  handled :
    Handler.invokeAll clock origin.invoked origin.handler
        (callbacks (referenceScan fed).output) =
      some client.handler
  invoked :
    client.invoked =
      origin.invoked + (callbacks (referenceScan fed).output).length

theorem Fed.scan_append
    {clock : Nat → UInt64} {origin client : MainState}
    {fed : List UInt8} (isFed : Fed clock origin client fed)
    {bytes : List UInt8}
    {outcome : StreamScanner.Outcome ParseCounters ParseEvent UInt8}
    (scanned :
      referenceScanner.run client.loop.parser.toParseCounters
        (client.loop.parser.residue ++ bytes) = outcome) :
    referenceScan (fed ++ bytes) =
      outcome.after (referenceScan fed).output := by
  rw [isFed.counters, isFed.residue] at scanned
  rw [← scanned]
  exact referenceScanner.run_append _ _ _

/-- A call of the parser and its callbacks. -/
theorem Fed.parsed
    {clock : Nat → UInt64} {origin client next : MainState}
    {fed : List UInt8} (isFed : Fed clock origin client fed)
    {bytes : List UInt8}
    {outcome : StreamScanner.Outcome ParseCounters ParseEvent UInt8}
    (scanned :
      referenceScanner.run client.loop.parser.toParseCounters
        (client.loop.parser.residue ++ bytes) = outcome)
    (samePlace : next.loop.pc = client.loop.pc)
    (sameSocket : next.loop.connected = client.loop.connected)
    (counters : next.loop.parser.toParseCounters = outcome.state)
    (residue : next.loop.parser.residue = outcome.rest)
    (handled :
      Handler.invokeAll clock client.invoked client.handler
        (callbacks outcome.output) = some next.handler)
    (invoked :
      next.invoked = client.invoked + (callbacks outcome.output).length) :
    Fed clock origin next (fed ++ bytes) := by
  have whole := isFed.scan_append scanned
  refine
    { sound := ⟨?_, ?_⟩
      connected := ?_
      counters := ?_
      residue := ?_
      handled := ?_
      invoked := ?_ }
  · rw [samePlace, sameSocket]
    exact isFed.sound.connected
  · rw [← Parser.residue_length, residue, ← scanned]
    exact referenceScanner_rest_lt _ _
  · rw [samePlace, sameSocket]
    exact isFed.connected
  · rw [whole]
    exact counters
  · rw [whole]
    exact residue
  · rw [whole, StreamScanner.Outcome.after_output, callbacks_append,
      Handler.invokeAll_append isFed.handled, ← isFed.invoked]
    exact handled
  · rw [whole, StreamScanner.Outcome.after_output, callbacks_append,
      List.length_append, invoked, isFed.invoked, Nat.add_assoc]

/-- Another place in the program. -/
theorem Fed.moved
    {clock : Nat → UInt64} {origin client next : MainState}
    {fed : List UInt8} (isFed : Fed clock origin client fed)
    (sameParser : next.loop.parser = client.loop.parser)
    (sameHandler : next.handler = client.handler)
    (sameCount : next.invoked = client.invoked)
    (receiving :
      next.loop.pc = .receiving → next.loop.connected = true)
    (waiting : next.loop.pc = .waiting → next.loop.connected = true) :
    Fed clock origin next fed where
  sound := ⟨receiving, by rw [sameParser]; exact isFed.sound.small⟩
  connected := waiting
  counters := by rw [sameParser]; exact isFed.counters
  residue := by rw [sameParser]; exact isFed.residue
  handled := by rw [sameHandler]; exact isFed.handled
  invoked := by rw [sameCount]; exact isFed.invoked

/-- A parser that holds nothing and has counted nothing. -/
theorem Fed.fresh
    {clock : Nat → UInt64} {origin client : MainState}
    (fresh : client.loop.parser.Fresh)
    (sameHandler : client.handler = origin.handler)
    (sameCount : client.invoked = origin.invoked)
    (receiving : client.loop.pc ≠ .receiving)
    (waiting :
      client.loop.pc = .waiting → client.loop.connected = true) :
    Fed clock origin client [] where
  sound := by
    refine ⟨fun here => absurd here receiving, ?_⟩
    rw [← Parser.residue_length, fresh.residue_eq]
    exact show 0 < maxMsgSize by decide
  connected := waiting
  counters := fresh.counters
  residue := fresh.residue_eq
  handled := by rw [sameHandler]; rfl
  invoked := sameCount

/-- The two ends and what lies between them.  What the feed handler was fed,
what waits in its queue and what is in flight make up what the kernel took for
the connection; a wait without an event is a wait on an empty queue. -/
structure Synchronised (fd : Nat) (clock : Nat → UInt64)
    (origin : MainState) (system : FeedSystem)
    (trace : List (ServerOutput ⊕ SessionEvent)) (frames : List Frame)
    (broken fed : List UInt8) : Prop where
  fewSymbols : system.server.symbolCount ≤ maxSymbols
  carries :
    Carries fd system.server (serverTrace trace) frames broken
  isFed : Fed clock origin system.client fed
  conserved :
    fed ++ (system.link.queue ++ system.link.inFlight) =
      sentTo fd (serverTrace trace)
  logged :
    system.client.loop.pc ≠ .undefined →
      streamOf (clientLog trace) = fed
  joining :
    system.client.loop.pc = .connecting →
      system.running = true → fed = []
  awake :
    system.client.loop.pc = .waiting →
      system.link.raised = false → system.link.queue = []
  alive :
    system.client.loop.pc = .undefined → fd ∉ system.server.clients
  stopped : system.client.loop.pc = .stopped → system.running = false

namespace Synchronised

variable {fd : Nat} {clock : Nat → UInt64} {origin : MainState}
variable {system : FeedSystem}
variable {trace : List (ServerOutput ⊕ SessionEvent)}
variable {frames : List Frame} {broken fed : List UInt8}

/-- What has been fed is a beginning of what is on the wire. -/
theorem fed_prefix
    (synchronised :
      Synchronised fd clock origin system trace frames broken fed) :
    fed ++ system.link.queue <+:
      frames.flatMap Frame.bytes ++ broken := by
  rw [← synchronised.carries.wired, ← synchronised.conserved,
    ← List.append_assoc]
  exact List.prefix_append _ _

/-- Whatever comes out of the queue, its symbols are in the cache. -/
theorem canHandle
    (synchronised :
      Synchronised fd clock origin system trace frames broken fed) :
    system.CanHandle clock := by
  intro received inside
  have isFed := synchronised.isFed
  have beginning :
      fed ++ received.bytes <+: frames.flatMap Frame.bytes ++ broken :=
    ((List.prefix_append_right_inj fed).mpr inside).trans
      synchronised.fed_prefix
  obtain ⟨count, rest, read⟩ :=
    readSoFar_exists synchronised.carries.cutOff beginning
  have whole := isFed.scan_append (Eq.refl (referenceScanner.run
    system.client.loop.parser.toParseCounters
    (system.client.loop.parser.residue ++ received.bytes)))
  have ran :
      (Handler.invokeAll clock origin.invoked origin.handler
        (callbacks
          (referenceScan (fed ++ received.bytes)).output)).isSome := by
    rw [read.scanned, ParseCounters.callbacks_deliverAll,
      Handler.invokeAll_isSome_iff]
    intro sym used
    obtain ⟨call, called, indexed⟩ := List.mem_filterMap.mp used
    obtain ⟨frame, member, rfl⟩ := List.mem_map.mp called
    rw [cacheIndex_frame] at indexed
    split at indexed
    · cases indexed
      exact synchronised.carries.symbols frame
        (List.mem_of_mem_take member)
    · cases indexed
  rw [whole, StreamScanner.Outcome.after_output, callbacks_append,
    Handler.invokeAll_append isFed.handled, ← isFed.invoked] at ran
  exact ran

/-! One lemma for each kind of action. -/

theorem serve
    (synchronised :
      Synchronised fd clock origin system trace frames broken fed)
    {action : ServerAction} (keeps : KeepsWhole fd system.server action) :
    ∃ moreFrames nextBroken,
      Synchronised fd clock origin
        (system.step fd clock (.serve action)).1
        (trace ++ (system.step fd clock (.serve action)).2)
        (frames ++ moreFrames) nextBroken fed := by
  obtain ⟨moreFrames, nextBroken, carries⟩ :=
    synchronised.carries.step synchronised.fewSymbols keeps
  obtain ⟨served, quiet⟩ := views_inl (system.server.step action).2
  refine ⟨moreFrames, nextBroken, ?_⟩
  rw [FeedSystem.step]
  refine
    { fewSymbols := ?_
      carries := ?_
      isFed := synchronised.isFed
      conserved := ?_
      logged := ?_
      joining := synchronised.joining
      awake := synchronised.awake
      alive := ?_
      stopped := synchronised.stopped }
  · rw [ExchangeSimulator.step_symbolCount]
    exact synchronised.fewSymbols
  · rw [serverTrace_append, served]
    exact carries
  · rw [serverTrace_append, served, sentTo_append,
      ← synchronised.conserved]
    simp only [List.append_assoc]
  · rw [clientLog_append, quiet, List.append_nil]
    exact synchronised.logged
  · intro undefined member
    have gone := synchronised.alive undefined
    rcases system.server.step_wire action fd with
      ⟨_, _, _, members⟩ | ⟨_, _, _, _, members⟩
    · rcases members.mp member with ⟨before, _⟩ | again
      · exact gone before
      · exact keeps.notReused again
    · exact gone (members.mp member).1

theorem arrive
    (synchronised :
      Synchronised fd clock origin system trace frames broken fed)
    (extra : Nat) :
    Synchronised fd clock origin
      (system.step fd clock (.arrive extra)).1
      (trace ++ (system.step fd clock (.arrive extra)).2)
      frames broken fed := by
  rw [FeedSystem.step, List.append_nil]
  refine
    { synchronised with
      conserved := ?_
      awake := ?_ }
  · rw [← synchronised.conserved, List.append_assoc,
      List.take_append_drop]
  · intro waiting silent
    simp only [Bool.or_eq_false_iff, Bool.not_eq_false'] at silent
    obtain ⟨⟨unraised, nothing⟩, _⟩ := silent
    rw [synchronised.awake waiting unraised,
      List.isEmpty_iff.mp nothing]
    rfl

/-- The feed handler is at another place and has read nothing. -/
theorem moved
    (synchronised :
      Synchronised fd clock origin system trace frames broken fed)
    {pc : LoopPc} {raised connected : Bool}
    {nextTrace : List (ServerOutput ⊕ SessionEvent)}
    (sameTrace : serverTrace nextTrace = serverTrace trace)
    (logged :
      pc ≠ .undefined → streamOf (clientLog nextTrace) = fed)
    (receiving : pc = .receiving → connected = true)
    (waiting : pc = .waiting → connected = true)
    (joining : pc = .connecting → system.running = true → fed = [])
    (awake : pc = .waiting → raised = false → system.link.queue = [])
    (alive : pc = .undefined → fd ∉ system.server.clients)
    (stopped : pc = .stopped → system.running = false) :
    Synchronised fd clock origin
      { system with
        link := { system.link with raised := raised }
        client :=
          { system.client with
            loop :=
              { system.client.loop with
                connected := connected
                pc := pc } } }
      nextTrace frames broken fed where
  fewSymbols := synchronised.fewSymbols
  carries := by
    rw [sameTrace]
    exact synchronised.carries
  isFed := synchronised.isFed.moved rfl rfl rfl receiving waiting
  conserved := by
    rw [sameTrace]
    exact synchronised.conserved
  logged := logged
  joining := joining
  awake := awake
  alive := alive
  stopped := stopped

/-! One lemma for each move of the feed handler. -/

/-- A new connection starts with a parser that holds nothing. -/
theorem opens
    (synchronised :
      Synchronised fd clock origin system trace frames broken fed)
    (pc : system.client.loop.pc = .connecting)
    (running : system.running = true) :
    Synchronised fd clock origin
      { system with
        link :=
          { system.link with
            raised := !system.link.queue.isEmpty || system.ended fd }
        client :=
          { system.client with
            loop :=
              { system.client.loop with
                pc := .waiting
                connected := true
                parser := system.client.loop.parser.reset } } }
      (trace ++ [SessionEvent.opened].map .inr) frames broken [] := by
  have nothing := synchronised.joining pc running
  have before := synchronised.logged (by simp [pc])
  obtain ⟨sameTrace, log⟩ := views_turned trace [SessionEvent.opened]
  subst nothing
  refine
    { fewSymbols := synchronised.fewSymbols
      carries := ?_
      isFed := ?_
      conserved := ?_
      logged := ?_
      joining := fun here => by cases here
      awake := ?_
      alive := fun here => by cases here
      stopped := fun here => by cases here }
  · rw [sameTrace]
    exact synchronised.carries
  · have earlier := synchronised.isFed.handled
    exact Fed.fresh (Parser.Fresh.afterReset _)
      (Option.some_injective _ earlier.symm) synchronised.isFed.invoked
      (fun here => by cases here) (fun _ => rfl)
  · rw [sameTrace]
    exact synchronised.conserved
  · intro _
    rw [log, before]
    rfl
  · intro _ silent
    simp only [Bool.or_eq_false_iff, Bool.not_eq_false'] at silent
    exact List.isEmpty_iff.mp silent.1

theorem leaves
    (synchronised :
      Synchronised fd clock origin system trace frames broken fed)
    {pc : LoopPc} (stopped : system.running = false)
    (places :
      (system.client.loop.pc = .waiting ∧ pc = .connecting) ∨
        (system.client.loop.pc = .connecting ∧ pc = .stopped)) :
    Synchronised fd clock origin
      { system with
        client :=
          { system.client with
            loop := { system.client.loop with pc := pc } } }
      trace frames broken fed := by
  refine synchronised.moved rfl ?_ ?_ ?_ ?_ ?_ ?_ fun _ => stopped
  · intro _
    apply synchronised.logged
    rcases places with ⟨here, _⟩ | ⟨here, _⟩ <;> simp [here]
  · rcases places with ⟨_, rfl⟩ | ⟨_, rfl⟩ <;> simp
  · rcases places with ⟨_, rfl⟩ | ⟨_, rfl⟩ <;> simp
  · intro _ running
    rw [stopped] at running
    cases running
  · rcases places with ⟨_, rfl⟩ | ⟨_, rfl⟩ <;> simp
  · rcases places with ⟨_, rfl⟩ | ⟨_, rfl⟩ <;> simp

theorem wakes
    (synchronised :
      Synchronised fd clock origin system trace frames broken fed)
    (pc : system.client.loop.pc = .waiting) :
    Synchronised fd clock origin
      { system with
        link := { system.link with raised := false }
        client :=
          { system.client with
            loop := { system.client.loop with pc := .receiving } } }
      trace frames broken fed := by
  have connected := synchronised.isFed.connected pc
  refine synchronised.moved rfl ?_ (fun _ => connected) ?_ ?_ ?_ ?_ ?_
  · intro _
    exact synchronised.logged (by simp [pc])
  · simp
  · simp
  · simp
  · simp
  · simp

theorem drained
    (synchronised :
      Synchronised fd clock origin system trace frames broken fed)
    (pc : system.client.loop.pc = .receiving)
    (empty : system.link.queue = []) :
    Synchronised fd clock origin
      { system with
        client :=
          { system.client with
            loop := { system.client.loop with pc := .waiting } } }
      trace frames broken fed := by
  have connected := synchronised.isFed.sound.connected pc
  refine synchronised.moved rfl ?_ ?_ (fun _ => connected) ?_
    (fun _ _ => empty) ?_ ?_
  · intro _
    exact synchronised.logged (by simp [pc])
  · simp
  · simp
  · simp
  · simp

/-- The bytes that the parser is given leave the queue. -/
theorem parses
    (synchronised :
      Synchronised fd clock origin system trace frames broken fed)
    {received : Received} {parser : Parser} {handler : Handler}
    {outcome : StreamScanner.Outcome ParseCounters ParseEvent UInt8}
    (pc : system.client.loop.pc = .receiving)
    (inside : received.bytes <+: system.link.queue)
    (scanned :
      referenceScanner.run system.client.loop.parser.toParseCounters
          (system.client.loop.parser.residue ++ received.bytes) =
        outcome)
    (counters : parser.toParseCounters = outcome.state)
    (residue : parser.residue = outcome.rest)
    (handled :
      Handler.invokeAll clock system.client.invoked system.client.handler
          (callbacks outcome.output) = some handler) :
    Synchronised fd clock origin
      { system with
        link :=
          { system.link with
            queue := system.link.queue.drop received.bytes.length }
        client :=
          { loop :=
              { system.client.loop with
                recvBuf :=
                  system.client.loop.recvBuf.write 0 received.bytes
                parser := parser }
            handler := handler
            invoked :=
              system.client.invoked +
                (callbacks outcome.output).length } }
      (trace ++
        [SessionEvent.parsed received.bytes (callbacks outcome.output)
          parser.toParseCounters].map .inr)
      frames broken (fed ++ received.bytes) := by
  obtain ⟨more, split⟩ := inside
  obtain ⟨sameTrace, log⟩ :=
    views_turned trace
      [SessionEvent.parsed received.bytes (callbacks outcome.output)
        parser.toParseCounters]
  have elsewhere {place : LoopPc} (other : place ≠ .receiving)
      (here : system.client.loop.pc = place) : False :=
    other (here.symm.trans pc)
  refine
    { fewSymbols := synchronised.fewSymbols
      carries := ?_
      isFed :=
        synchronised.isFed.parsed scanned rfl rfl counters residue
          handled rfl
      conserved := ?_
      logged := ?_
      joining := fun here => (elsewhere (by simp) here).elim
      awake := fun here => (elsewhere (by simp) here).elim
      alive := fun here => (elsewhere (by simp) here).elim
      stopped := fun here => (elsewhere (by simp) here).elim }
  · rw [sameTrace]
    exact synchronised.carries
  · have kept := synchronised.conserved
    rw [← split] at kept
    rw [sameTrace, ← kept, ← split, List.drop_left' rfl]
    simp only [List.append_assoc]
  · intro _
    rw [log, synchronised.logged (by simp [pc])]
    exact congrArg (fed ++ ·) (List.append_nil received.bytes)

/-- The end of the stream comes when the server has let the client go. -/
theorem loses
    (synchronised :
      Synchronised fd clock origin system trace frames broken fed)
    (ended : system.ended fd = true) (events : List SessionEvent) :
    Synchronised fd clock origin
      { system with
        client :=
          { system.client with
            loop :=
              { system.client.loop with
                connected := false
                pc := .undefined } } }
      (trace ++ events.map .inr) frames broken fed := by
  have gone : fd ∉ system.server.clients := by
    rw [FeedSystem.ended] at ended
    simpa using (Bool.and_eq_true_iff.mp ended).1
  refine synchronised.moved (views_turned trace events).1 ?_ ?_ ?_ ?_ ?_
    (fun _ => gone) ?_
  · intro here
    exact absurd rfl here
  · simp
  · simp
  · simp
  · simp
  · simp

/-- A turn of the feed handler moves bytes from its queue to its state. -/
theorem turn
    (synchronised :
      Synchronised fd clock origin system trace frames broken fed)
    (extra : Nat) :
    ∃ nextFed,
      Synchronised fd clock origin
        (system.step fd clock (.turn extra)).1
        (trace ++ (system.step fd clock (.turn extra)).2)
        frames broken nextFed := by
  have turned :=
    @FeedSystem.turned_turn fd clock system synchronised.isFed.sound
      synchronised.isFed.connected
      synchronised.canHandle extra
  have stepped :
      system.step fd clock (.turn extra) =
        ((system.afterTurn fd clock extra).1,
          (system.afterTurn fd clock extra).2.map .inr) :=
    rfl
  rw [stepped]
  generalize system.afterTurn fd clock extra = result at turned ⊢
  cases turned with
  | opens pc running =>
      exact ⟨[], synchronised.opens pc running⟩
  | rests resting =>
      refine ⟨fed, ?_⟩
      rw [List.map_nil, List.append_nil]
      exact synchronised
  | leaves stopped places =>
      refine ⟨fed, ?_⟩
      rw [List.map_nil, List.append_nil]
      exact synchronised.leaves stopped places
  | wakes pc running raised =>
      refine ⟨fed, ?_⟩
      rw [List.map_nil, List.append_nil]
      exact synchronised.wakes pc
  | drained pc empty =>
      refine ⟨fed, ?_⟩
      rw [List.map_nil, List.append_nil]
      exact synchronised.drained pc empty
  | parses pc inside scanned counters residue handled =>
      exact ⟨_, synchronised.parses pc inside scanned counters residue
        handled⟩
  | loses pc empty ended =>
      exact ⟨fed, synchronised.loses ended _⟩

end Synchronised

/-! ## Runs -/

namespace FeedSystem

variable {fd : Nat} {clock : Nat → UInt64}

theorem Starts.synchronised
    {system : FeedSystem} (starts : system.Starts fd)
    (fewSymbols : system.server.symbolCount ≤ maxSymbols) :
    Synchronised fd clock system.client system [] [] [] [] where
  fewSymbols := fewSymbols
  carries :=
    { offered := List.Sublist.refl _
      wired := rfl
      cutOff := Or.inl rfl
      whole := fun _ => rfl
      symbols := List.forall_mem_nil _ }
  isFed := by
    refine Fed.fresh starts.fresh rfl rfl ?_ ?_
    · rcases starts.place with pc | ⟨pc, _⟩ <;> simp [pc]
    · rcases starts.place with pc | ⟨_, up⟩
      · simp [pc]
      · exact fun _ => up
  conserved := by
    rw [starts.idle]
    rfl
  logged := fun _ => rfl
  joining := fun _ _ => rfl
  awake := by
    rw [starts.idle]
    exact fun _ _ => rfl
  alive := by
    rcases starts.place with pc | ⟨pc, _⟩ <;> simp [pc]
  stopped := by
    rcases starts.place with pc | ⟨pc, _⟩ <;> simp [pc]

theorem step_synchronised
    {origin : MainState} {system : FeedSystem}
    {trace : List (ServerOutput ⊕ SessionEvent)} {frames : List Frame}
    {broken fed : List UInt8}
    (synchronised :
      Synchronised fd clock origin system trace frames broken fed)
    {action : FeedAction} (keeps : system.Keeps fd action) :
    ∃ moreFrames nextBroken nextFed,
      Synchronised fd clock origin (system.step fd clock action).1
        (trace ++ (system.step fd clock action).2)
        (frames ++ moreFrames) nextBroken nextFed := by
  cases action with
  | serve action =>
      obtain ⟨moreFrames, nextBroken, next⟩ := synchronised.serve keeps
      exact ⟨moreFrames, nextBroken, fed, next⟩
  | arrive extra =>
      refine ⟨[], broken, fed, ?_⟩
      rw [List.append_nil frames]
      exact synchronised.arrive extra
  | turn extra =>
      obtain ⟨nextFed, next⟩ := synchronised.turn extra
      refine ⟨[], broken, nextFed, ?_⟩
      rw [List.append_nil frames]
      exact next
  | signal =>
      refine ⟨[], broken, fed, ?_⟩
      rw [step, List.append_nil, List.append_nil]
      exact
        { synchronised with
          joining := fun _ running => by cases running
          stopped := fun _ => rfl }

theorem run_synchronised
    {system : FeedSystem} (starts : system.Starts fd)
    (fewSymbols : system.server.symbolCount ≤ maxSymbols)
    {actions : List FeedAction}
    (keeps :
      Mealy.Guarded (step fd clock) (Keeps fd) system actions) :
    ∃ frames broken fed,
      Synchronised fd clock system.client
        (system.run fd clock actions).1 (system.run fd clock actions).2
        frames broken fed := by
  refine Mealy.run_invariant (step fd clock)
    (fun reached trace =>
      ∃ frames broken fed,
        Synchronised fd clock system.client reached trace frames broken
          fed)
    ?_ ⟨[], [], [], starts.synchronised fewSymbols⟩ keeps
  rintro reached trace action guard ⟨frames, broken, fed, synchronised⟩
  obtain ⟨moreFrames, nextBroken, nextFed, next⟩ :=
    step_synchronised synchronised guard
  exact ⟨frames ++ moreFrames, nextBroken, nextFed, next⟩

end FeedSystem

/-- The feed handler has handled these messages on the connection, one after
the other, and holds a few bytes of what follows. -/
structure HasHandled (origin client : MainState) (frames : List Frame)
    (rest : List UInt8) : Prop where
  cache :
    client.handler.cache =
      (frames.map Frame.msg).foldl SymbolCache.apply origin.handler.cache
  totalMessages :
    client.handler.totalMessages =
      origin.handler.totalMessages + UInt64.ofNat frames.length
  counters :
    client.loop.parser.toParseCounters =
      (ParseCounters.zero.deliverAll frames).1
  residue : client.loop.parser.residue = rest

theorem Fed.hasHandled
    {clock : Nat → UInt64} {origin client : MainState}
    {frames : List Frame} {broken fed rest : List UInt8} {count : Nat}
    (isFed : Fed clock origin client fed)
    (read : ReadSoFar frames broken fed count rest) :
    HasHandled origin client (frames.take count) rest := by
  have handled := isFed.handled
  rw [read.scanned, ParseCounters.callbacks_deliverAll] at handled
  obtain ⟨cache, total⟩ := Handler.invokeAll_frames_of_some handled
  refine ⟨cache, total, ?_, ?_⟩
  · rw [isFed.counters, read.scanned]
  · rw [isFed.residue, read.scanned]

/-- At every moment of every run the feed handler has handled the first
messages of those that the kernel took for its connection, each once and in
order, and holds the beginning of the next one; it becomes undefined only
behind the end of the connection. -/
theorem FeedSystem.run_inOrder
    {fd : Nat} {clock : Nat → UInt64} {system : FeedSystem}
    (starts : system.Starts fd)
    (fewSymbols : system.server.symbolCount ≤ maxSymbols)
    {actions : List FeedAction}
    (keeps :
      Mealy.Guarded (step fd clock) (Keeps fd) system actions) :
    let result := system.run fd clock actions
    ∃ frames broken count rest,
      Carries fd result.1.server (serverTrace result.2) frames broken ∧
        HasHandled system.client result.1.client (frames.take count)
          rest ∧
        ((frames.length ≤ count ∧ rest <+: broken) ∨
          ∃ frame,
            frames[count]? = some frame ∧
              rest <+: frame.bytes ∧ rest ≠ frame.bytes) ∧
        (result.1.client.loop.pc = .undefined →
          fd ∉ result.1.server.clients) := by
  intro result
  obtain ⟨frames, broken, fed, synchronised⟩ :=
    run_synchronised starts fewSymbols keeps
  have beginning : fed <+: frames.flatMap Frame.bytes ++ broken :=
    (List.prefix_append _ _).trans synchronised.fed_prefix
  obtain ⟨count, rest, read⟩ :=
    readSoFar_exists synchronised.carries.cutOff beginning
  exact ⟨frames, broken, count, rest, synchronised.carries,
    synchronised.isFed.hasHandled read, read.left, synchronised.alive⟩

/-- An exchange with one client, and its feed handler before it connects. -/
def FeedSystem.oneClient : FeedSystem where
  server :=
    { clients := [7]
      nodup := List.nodup_singleton 7
      slowClients := []
      symbolCount := 2
      symbolCount_pos := Nat.two_pos
      faultInjection := false
      seqNo := 1 }
  link := ⟨[], [], false⟩
  running := true
  client := MainState.start ⟨fun _ => 0⟩ ⟨fun _ => 0⟩

theorem FeedSystem.oneClient_starts : oneClient.Starts 7 where
  accepted := by decide
  idle := rfl
  fresh := Parser.Fresh.constructed _
  place := Or.inl rfl

/-- A heartbeat in two pieces. -/
def FeedSystem.heartbeatInPieces : List FeedAction :=
  [.turn 0, .serve anyHeartbeat, .arrive 4, .turn 0, .turn 99, .arrive 99,
    .turn 99, .turn 0, .turn 0, .turn 0]

theorem FeedSystem.heartbeatInPieces_keeps (clock : Nat → UInt64) :
    Mealy.Guarded (step 7 clock) (Keeps 7) oneClient
      heartbeatInPieces := by
  apply Mealy.guarded_of_forall
  intro action member system
  simp only [heartbeatInPieces, List.mem_cons, List.not_mem_nil,
    or_false] at member
  rcases member with
    rfl | rfl | rfl | rfl | rfl | rfl | rfl | rfl | rfl | rfl
  case inr.inl =>
    refine ⟨by simp [anyHeartbeat], ?_⟩
    rintro frame _ _ ⟨extras, later, split, _, _⟩
    simp [anyHeartbeat, ServerAction.sends] at split
  all_goals trivial

theorem FeedSystem.run_inOrder_heartbeat :
    let result := oneClient.run 7 (fun _ => 0) heartbeatInPieces
    ∃ frames broken count rest,
      Carries 7 result.1.server (serverTrace result.2) frames broken ∧
        HasHandled oneClient.client result.1.client (frames.take count)
          rest ∧
        ((frames.length ≤ count ∧ rest <+: broken) ∨
          ∃ frame,
            frames[count]? = some frame ∧
              rest <+: frame.bytes ∧ rest ≠ frame.bytes) ∧
        (result.1.client.loop.pc = .undefined →
          7 ∉ result.1.server.clients) :=
  run_inOrder oneClient_starts (by decide)
    (heartbeatInPieces_keeps fun _ => 0)

/-- A feed handler that waits, with no event raised and nothing in flight, has
handled everything that the kernel took for it: no wake-up is lost. -/
theorem Synchronised.upToDate
    {fd : Nat} {clock : Nat → UInt64} {origin : MainState}
    {system : FeedSystem}
    {trace : List (ServerOutput ⊕ SessionEvent)} {frames : List Frame}
    {broken fed : List UInt8}
    (synchronised :
      Synchronised fd clock origin system trace frames broken fed)
    (waiting : system.client.loop.pc = .waiting)
    (unraised : system.link.raised = false)
    (arrived : system.link.inFlight = []) :
    HasHandled origin system.client frames broken := by
  have all : fed = frames.flatMap Frame.bytes ++ broken := by
    have kept := synchronised.conserved
    rw [synchronised.awake waiting unraised, arrived,
      synchronised.carries.wired] at kept
    simpa using kept
  obtain ⟨count, rest, read⟩ :=
    readSoFar_exists synchronised.carries.cutOff (List.prefix_refl _)
  obtain ⟨whole, left⟩ := read.all
  rw [← all] at read
  have handled := synchronised.isFed.hasHandled read
  rw [whole, left] at handled
  exact handled

theorem FeedSystem.run_noLostWakeup
    {fd : Nat} {clock : Nat → UInt64} {system : FeedSystem}
    (starts : system.Starts fd)
    (fewSymbols : system.server.symbolCount ≤ maxSymbols)
    {actions : List FeedAction}
    (keeps :
      Mealy.Guarded (step fd clock) (Keeps fd) system actions)
    (waiting :
      (system.run fd clock actions).1.client.loop.pc = .waiting)
    (unraised : (system.run fd clock actions).1.link.raised = false)
    (arrived : (system.run fd clock actions).1.link.inFlight = []) :
    let result := system.run fd clock actions
    ∃ frames broken,
      Carries fd result.1.server (serverTrace result.2) frames broken ∧
        HasHandled system.client result.1.client frames broken := by
  intro result
  obtain ⟨frames, broken, fed, synchronised⟩ :=
    run_synchronised starts fewSymbols keeps
  exact ⟨frames, broken, synchronised.carries,
    synchronised.upToDate waiting unraised arrived⟩

theorem FeedSystem.run_noLostWakeup_heartbeat :
    let result := oneClient.run 7 (fun _ => 0) heartbeatInPieces
    ∃ frames broken,
      Carries 7 result.1.server (serverTrace result.2) frames broken ∧
        HasHandled oneClient.client result.1.client frames broken :=
  run_noLostWakeup oneClient_starts (by decide)
    (heartbeatInPieces_keeps fun _ => 0) (by decide +kernel)
    (by decide +kernel) (by decide +kernel)

end MarketDataHandler
