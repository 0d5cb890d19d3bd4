import MarketDataHandler.Server.RunLoop

/-!
# Client isolation

Two runs of the loop that agree on the clock, the rate, the fault flag and on
everything that one client does look alike to that client.  `Alike` is what the
two states have in common while it is connected: the number and the random
state from which the next message is made, and the window of the tick counter.
What other clients do only changes the sets of clients, and these sets reach
the messages through one test, whether there is a client at all.
-/

namespace MarketDataHandler

/-! ## What a client sees -/

/-- The calls on a client's descriptor, and the moments that all runs share. -/
def LoopOutput.concerns (client : Nat) : LoopOutput → Bool
  | .send fd _ _ => decide (fd = client)
  | .recv fd _ => decide (fd = client)
  | .close fd => decide (fd = client)
  | .epollWait => true
  | .clock _ => true
  | .generate => true
  | .reset => true
  | .accept _ => false
  | .epollAdd _ => false
  | .epollDel _ => false

/-- Everything up to the point where the client is dropped. -/
def untilClosed (client : Nat) : List LoopOutput → List LoopOutput
  | [] => []
  | call :: calls =>
      if call = .close client then
        [call]
      else
        call :: untilClosed client calls

/-- The history of a client: the calls on its descriptor among the moments of
the loop, up to the call that drops it. -/
def clientView (client : Nat) (trace : List LoopOutput) :
    List LoopOutput :=
  untilClosed client (trace.filter (LoopOutput.concerns client))

/-- Two iterations that differ only in what other clients do, and in the order
of the clients. -/
structure SameFor (client : Nat) (first second : Iteration) : Prop where
  events :
    first.events.filter (fun event => decide (event.fd = client)) =
      second.events.filter (fun event => decide (event.fd = client))
  now : first.now = second.now
  tickRate : first.tickRate = second.tickRate
  faultInjection : first.faultInjection = second.faultInjection
  tickNs : first.tickNs = second.tickNs
  tickSends : first.tickSends client = second.tickSends client
  heartbeatNs : first.heartbeatNs = second.heartbeatNs
  heartbeatSends :
    first.heartbeatSends client = second.heartbeatSends client

/-! ## Histories -/

theorem untilClosed_append
    (client : Nat) (first second : List LoopOutput) :
    untilClosed client (first ++ second) =
      if .close client ∈ first then
        untilClosed client first
      else
        first ++ untilClosed client second := by
  induction first with
  | nil =>
      rfl
  | cons call calls inductionHypothesis =>
      by_cases closes : call = .close client
      · simp [untilClosed, closes]
      · have other : LoopOutput.close client ≠ call := Ne.symm closes
        rw [List.cons_append, untilClosed, untilClosed, if_neg closes,
          if_neg closes, inductionHypothesis]
        simp only [List.mem_cons, other, false_or]
        split <;> rfl

theorem mem_clientView_close (client : Nat) (trace : List LoopOutput) :
    .close client ∈ clientView client trace ↔ .close client ∈ trace := by
  have visible : LoopOutput.concerns client (.close client) = true :=
    decide_eq_true rfl
  rw [clientView]
  induction trace with
  | nil =>
      rfl
  | cons call calls inductionHypothesis =>
      by_cases closes : call = .close client
      · subst call
        simp [visible, untilClosed]
      · have other : LoopOutput.close client ≠ call := Ne.symm closes
        by_cases seen : call.concerns client
        · rw [List.filter_cons_of_pos seen, untilClosed, if_neg closes]
          simp only [List.mem_cons, other, false_or, inductionHypothesis]
        · rw [List.filter_cons_of_neg seen]
          simp only [List.mem_cons, other, false_or, inductionHypothesis]

theorem clientView_append
    (client : Nat) (first second : List LoopOutput) :
    clientView client (first ++ second) =
      if .close client ∈ first then
        clientView client first
      else
        first.filter (LoopOutput.concerns client) ++
          clientView client second := by
  have visible : LoopOutput.concerns client (.close client) = true :=
    decide_eq_true rfl
  simp only [clientView, List.filter_append, untilClosed_append,
    List.mem_filter, visible, and_true]

/-- Without a call that drops the client its history is complete. -/
theorem clientView_of_open
    {client : Nat} {trace : List LoopOutput}
    (kept : .close client ∉ trace) :
    clientView client trace =
      trace.filter (LoopOutput.concerns client) := by
  have whole := clientView_append client trace []
  rw [List.append_nil, if_neg kept] at whole
  simpa [clientView, untilClosed] using whole

/-! ## Two runs side by side -/

/-- What two loops have in common while a client is connected to both. -/
structure Alike {G : Type} (client : Nat) (first second : RunLoop G) :
    Prop where
  connectedFirst : client ∈ first.clients
  connectedSecond : client ∈ second.clients
  symbolCount : first.symbolCount = second.symbolCount
  faultInjection : first.faultInjection = second.faultInjection
  seqNo : first.seqNo = second.seqNo
  serverFd : first.serverFd = second.serverFd
  gen : first.gen = second.gen
  lastTick : first.lastTick = second.lastTick
  ticksThisSecond : first.ticksThisSecond = second.ticksThisSecond

namespace Alike

variable {G : Type} {client : Nat} {first second third : RunLoop G}

theorem refl (connected : client ∈ first.clients) :
    Alike client first first :=
  ⟨connected, connected, rfl, rfl, rfl, rfl, rfl, rfl, rfl⟩

theorem symm (alike : Alike client first second) :
    Alike client second first where
  connectedFirst := alike.connectedSecond
  connectedSecond := alike.connectedFirst
  symbolCount := alike.symbolCount.symm
  faultInjection := alike.faultInjection.symm
  seqNo := alike.seqNo.symm
  serverFd := alike.serverFd.symm
  gen := alike.gen.symm
  lastTick := alike.lastTick.symm
  ticksThisSecond := alike.ticksThisSecond.symm

theorem trans
    (alike : Alike client first second)
    (next : Alike client second third) :
    Alike client first third where
  connectedFirst := alike.connectedFirst
  connectedSecond := next.connectedSecond
  symbolCount := alike.symbolCount.trans next.symbolCount
  faultInjection := alike.faultInjection.trans next.faultInjection
  seqNo := alike.seqNo.trans next.seqNo
  serverFd := alike.serverFd.trans next.serverFd
  gen := alike.gen.trans next.gen
  lastTick := alike.lastTick.trans next.lastTick
  ticksThisSecond := alike.ticksThisSecond.trans next.ticksThisSecond

/-- Other connections do not matter. -/
theorem withConnections
    (alike : Alike client first second) (connections : Connections)
    (connected : client ∈ connections.clients) :
    Alike client { first with toConnections := connections } second :=
  { alike with connectedFirst := connected }

end Alike

/-- Two results between which the client sees no difference, and which are
alike as long as it is not dropped. -/
def SameView {G : Type} (client : Nat)
    (first second : RunLoop G × List LoopOutput) : Prop :=
  clientView client first.2 = clientView client second.2 ∧
    (.close client ∉ first.2 → Alike client first.1 second.1)

namespace SameView

variable {G : Type} {client : Nat}
  {first second third : RunLoop G × List LoopOutput}

theorem close_iff (same : SameView client first second) :
    .close client ∈ first.2 ↔ .close client ∈ second.2 := by
  rw [← mem_clientView_close, same.1, mem_clientView_close]

theorem symm (same : SameView client first second) :
    SameView client second first := by
  refine ⟨same.1.symm, ?_⟩
  intro kept
  exact (same.2 (mt same.close_iff.mp kept)).symm

theorem trans
    (same : SameView client first second)
    (next : SameView client second third) :
    SameView client first third := by
  refine ⟨same.1.trans next.1, ?_⟩
  intro kept
  exact (same.2 kept).trans (next.2 (mt same.close_iff.mpr kept))

/-- One part after another. -/
theorem append
    {firstNext secondNext : RunLoop G × List LoopOutput}
    (same : SameView client first second)
    (next :
      Alike client first.1 second.1 →
        SameView client firstNext secondNext) :
    SameView client (firstNext.1, first.2 ++ firstNext.2)
      (secondNext.1, second.2 ++ secondNext.2) := by
  by_cases closed : .close client ∈ first.2
  · have closedToo := same.close_iff.mp closed
    refine ⟨?_, ?_⟩
    · simp only [clientView_append, if_pos closed, if_pos closedToo]
      exact same.1
    · intro kept
      exact absurd (List.mem_append_left _ closed) kept
  · have keptToo := mt same.close_iff.mpr closed
    have later := next (same.2 closed)
    refine ⟨?_, ?_⟩
    · have visible := same.1
      rw [clientView_of_open closed, clientView_of_open keptToo] at visible
      simp only [clientView_append, if_neg closed, if_neg keptToo]
      rw [visible, later.1]
    · intro kept
      exact later.2 fun closes => kept (List.mem_append_right _ closes)

/-- Behind a moment that both share. -/
theorem behind
    (same : SameView client first second) (moment : LoopOutput)
    (keeps : moment ≠ .close client) :
    SameView client (first.1, moment :: first.2)
      (second.1, moment :: second.2) := by
  have visible :
      ∀ calls,
        clientView client (moment :: calls) =
          [moment].filter (LoopOutput.concerns client) ++
            clientView client calls := by
    intro calls
    have split := clientView_append client [moment] calls
    rwa [if_neg (by simpa using Ne.symm keeps)] at split
  refine ⟨?_, ?_⟩
  · simp only [visible]
    rw [same.1]
  · intro kept
    exact same.2 fun closes => kept (List.mem_cons_of_mem moment closes)

theorem withTicks
    (same : SameView client first second) (ticks : Nat) :
    SameView client ({ first.1 with ticksThisSecond := ticks }, first.2)
      ({ second.1 with ticksThisSecond := ticks }, second.2) :=
  ⟨same.1, fun kept => { same.2 kept with ticksThisSecond := rfl }⟩

end SameView

/-! ## One event -/

namespace RunLoop

variable {G : Type} {client : Nat} {first second : RunLoop G}

/-- An event of another client. -/
theorem sameView_handleEvent_other
    (alike : Alike client first second) {event : ReadyEvent}
    (other : event.fd ≠ client) :
    SameView client (first.handleEvent event) (second, []) := by
  have handles := first.handles_handleEvent event
  generalize first.handleEvent event = result at handles ⊢
  cases handles with
  | accepts listening =>
      rw [handleNewConnection]
      cases accepted : event.accepted with
      | none =>
          exact ⟨rfl, fun _ => alike⟩
      | some newcomer =>
          refine ⟨rfl, fun _ => ?_⟩
          exact alike.withConnections _
            (List.mem_insert_of_mem alike.connectedFirst)
  | keeps _ shape positive =>
      refine ⟨?_, fun _ => alike⟩
      rcases shape with rfl | rfl <;>
        simp [clientView, LoopOutput.concerns, other, untilClosed]
  | closes _ shape =>
      refine ⟨?_, fun _ => ?_⟩
      · rcases shape with rfl | rfl <;>
          simp [clientView, disconnectCalls, LoopOutput.concerns, other,
            untilClosed]
      · exact alike.withConnections _
          ((List.mem_erase_of_ne (Ne.symm other)).mpr alike.connectedFirst)

/-- An event of the client itself. -/
theorem sameView_handleEvent_own
    (alike : Alike client first second) {event : ReadyEvent}
    (own : event.fd = client) :
    SameView client (first.handleEvent event)
      (second.handleEvent event) := by
  have closes : .close client ∈ disconnectCalls event.fd := by
    rw [own]
    exact List.mem_cons_of_mem _ List.mem_cons_self
  rw [handleEvent, handleEvent, ← alike.serverFd]
  split
  · cases accepted : event.accepted with
    | none =>
        exact ⟨rfl, fun _ => alike⟩
    | some newcomer =>
        refine ⟨rfl, fun _ => ?_⟩
        have joined :=
          alike.withConnections
            (first.toConnections.handleNewConnection (some newcomer)).1
            (List.mem_insert_of_mem alike.connectedFirst)
        exact
          (joined.symm.withConnections _
            (List.mem_insert_of_mem alike.connectedSecond)).symm
  · split
    · exact ⟨rfl, fun kept => absurd closes kept⟩
    · split
      · split
        · refine ⟨rfl, fun kept => ?_⟩
          exact absurd (List.mem_cons_of_mem _ closes) kept
        · exact ⟨rfl, fun _ => alike⟩
      · exact ⟨rfl, fun _ => alike⟩

/-- A batch of events is to the client as if only its own were in it. -/
theorem sameView_events
    (process : PriceProcess G) (alike : Alike client first second)
    (events : List ReadyEvent) :
    SameView client
      (Mealy.run (step process) first (events.map .event))
      (Mealy.run (step process) second
        ((events.filter fun event =>
          decide (event.fd = client)).map .event)) := by
  induction events generalizing first second with
  | nil =>
      exact ⟨rfl, fun _ => alike⟩
  | cons event events inductionHypothesis =>
      rw [List.map_cons, Mealy.run_cons]
      by_cases own : event.fd = client
      · rw [List.filter_cons, if_pos (decide_eq_true own), List.map_cons,
          Mealy.run_cons]
        exact (sameView_handleEvent_own alike own).append
          fun next => inductionHypothesis next
      · have ignored : ¬ decide (event.fd = client) = true := by
          rwa [decide_eq_true_eq]
        rw [List.filter_cons, if_neg ignored]
        exact (sameView_handleEvent_other alike own).append
          fun next => inductionHypothesis next

/-! ## Broadcasts -/

theorem filter_clientCalls
    (data : List UInt8) (sends : Nat → List SendOutcome) (fd : Nat) :
    (clientCalls data sends fd).filter (LoopOutput.concerns client) =
      if fd = client then clientCalls data sends fd else [] := by
  rw [clientCalls, List.filter_map]
  by_cases own : fd = client
  · have all :
        (LoopOutput.concerns client ∘
            fun call : List UInt8 × SendAnswer =>
              LoopOutput.send fd call.1 call.2) =
          fun _ => true := by
      funext call
      exact decide_eq_true own
    rw [if_pos own, all, List.filter_true]
  · have none :
        (LoopOutput.concerns client ∘
            fun call : List UInt8 × SendAnswer =>
              LoopOutput.send fd call.1 call.2) =
          fun _ => false := by
      funext call
      exact decide_eq_false own
    rw [if_neg own, none, List.filter_false, List.map_nil]

theorem filter_disconnectCalls (fd : Nat) :
    (disconnectCalls fd).filter (LoopOutput.concerns client) =
      if fd = client then [.close fd] else [] := by
  by_cases own : fd = client <;>
    simp [disconnectCalls, LoopOutput.concerns, own]

/-- The part of a broadcast that concerns one client. -/
theorem filter_broadcastCalls
    {clients : List Nat} (nodup : clients.Nodup)
    (connected : client ∈ clients) (data : List UInt8)
    (sends : Nat → List SendOutcome) :
    (broadcastCalls clients data sends).filter
        (LoopOutput.concerns client) =
      clientCalls data sends client ++
        if (sendLoop (sends client) data).2 = .drop then
          [.close client]
        else
          [] := by
  rw [broadcastCalls, List.filter_append, List.filter_flatMap,
    List.filter_flatMap]
  simp only [filter_clientCalls, filter_disconnectCalls]
  congr 1
  · rw [flatMap_of_others_nil nodup fun _ other => if_neg other,
      if_pos connected, if_pos rfl]
  · by_cases dropped : (sendLoop (sends client) data).2 = .drop
    · rw [if_pos dropped,
        flatMap_of_others_nil (nodup.filter _) fun _ other => if_neg other,
        if_pos (List.mem_filter.mpr ⟨connected, decide_eq_true dropped⟩),
        if_pos rfl]
    · rw [if_neg dropped, List.flatMap_eq_nil_iff]
      intro fd member
      have drops := of_decide_eq_true (List.mem_filter.mp member).2
      rw [if_neg]
      rintro rfl
      exact dropped drops

/-- A broadcast of the same message to two sets of clients. -/
theorem sameView_broadcast
    (alike : Alike client first second)
    {firstSends secondSends : Nat → List SendOutcome}
    (sameSends : firstSends client = secondSends client)
    (data : List UInt8) :
    SameView client
      ({ first with
          toConnections :=
            (first.toConnections.broadcastMessage data firstSends).1 },
        broadcastCalls first.clients data firstSends)
      ({ second with
          toConnections :=
            (second.toConnections.broadcastMessage data secondSends).1 },
        broadcastCalls second.clients data secondSends) := by
  have firstCalls :=
    filter_broadcastCalls first.nodup alike.connectedFirst data firstSends
  have secondCalls :=
    filter_broadcastCalls second.nodup alike.connectedSecond data
      secondSends
  refine ⟨?_, ?_⟩
  · rw [clientView, clientView, firstCalls, secondCalls, clientCalls,
      clientCalls, sameSends]
  · intro kept
    have whole : (sendLoop (firstSends client) data).2 ≠ .drop := by
      intro dropped
      rw [if_pos dropped] at firstCalls
      apply kept
      apply List.mem_of_mem_filter
      rw [firstCalls]
      exact List.mem_append_right _ List.mem_cons_self
    have stays :=
      alike.withConnections
        (first.toConnections.broadcastMessage data firstSends).1
        (Connections.mem_clients_broadcastMessage.mpr
          ⟨alike.connectedFirst, whole⟩)
    rw [sameSends] at whole
    exact
      (stays.symm.withConnections
        (second.toConnections.broadcastMessage data secondSends).1
        (Connections.mem_clients_broadcastMessage.mpr
          ⟨alike.connectedSecond, whole⟩)).symm

/-! ## Ticks and heartbeats -/

theorem reorder_alike
    (alike : Alike client first second)
    (firstOrder secondOrder : List Nat) :
    Alike client (first.reorder firstOrder)
      (second.reorder secondOrder) := by
  have reordered :=
    alike.withConnections (first.toConnections.reorder firstOrder)
      (Connections.mem_clients_reorder.mpr alike.connectedFirst)
  exact
    (reordered.symm.withConnections
      (second.toConnections.reorder secondOrder)
      (Connections.mem_clients_reorder.mpr alike.connectedSecond)).symm

/-- Two loops that are alike make the same message next. -/
theorem next_alike
    (process : PriceProcess G) (alike : Alike client first second)
    (nowNs : UInt64) :
    first.nextSym = second.nextSym ∧
      first.nextSeq = second.nextSeq ∧
      first.nextDraw process nowNs = second.nextDraw process nowNs := by
  have sym : first.nextSym = second.nextSym := by
    rw [ExchangeSimulator.nextSym, ExchangeSimulator.nextSym, alike.seqNo,
      alike.symbolCount]
  have seq : first.nextSeq = second.nextSeq := by
    rw [ExchangeSimulator.nextSeq, ExchangeSimulator.nextSeq,
      ExchangeSimulator.skips, ExchangeSimulator.skips, alike.seqNo,
      alike.faultInjection]
  refine ⟨sym, seq, ?_⟩
  rw [nextDraw, nextDraw, sym, seq, alike.gen]

theorem connected_of_mem
    {loop : RunLoop G} (member : client ∈ loop.clients) :
    loop.clients.isEmpty = false :=
  List.isEmpty_eq_false_iff_exists_mem.mpr ⟨client, member⟩

theorem sameView_generateAndBroadcast
    (process : PriceProcess G) (alike : Alike client first second)
    (nowNs : UInt64)
    {firstSends secondSends : Nat → List SendOutcome}
    (sameSends : firstSends client = secondSends client) :
    SameView client
      (first.generateAndBroadcast process nowNs firstSends)
      (second.generateAndBroadcast process nowNs secondSends) := by
  obtain ⟨sym, seq, drawn⟩ := next_alike process alike nowNs
  have firstConnected := connected_of_mem alike.connectedFirst
  have secondConnected := connected_of_mem alike.connectedSecond
  rw [generateAndBroadcast, generateAndBroadcast, firstConnected,
    secondConnected]
  simp only [Bool.false_eq_true, if_false]
  rw [ExchangeSimulator.generateAndBroadcast_of_clients firstConnected,
    ExchangeSimulator.generateAndBroadcast_of_clients secondConnected,
    sym, seq, drawn]
  have advanced :
      Alike client
        { first with
          seqNo := second.nextSeq + 1
          gen := (second.nextDraw process nowNs).2 }
        { second with
          seqNo := second.nextSeq + 1
          gen := (second.nextDraw process nowNs).2 } :=
    { alike with
      seqNo := rfl
      gen := rfl }
  exact sameView_broadcast advanced sameSends _

theorem sameView_broadcastHeartbeat
    (alike : Alike client first second) (nowNs : UInt64)
    {firstSends secondSends : Nat → List SendOutcome}
    (sameSends : firstSends client = secondSends client) :
    SameView client (first.broadcastHeartbeat nowNs firstSends)
      (second.broadcastHeartbeat nowNs secondSends) := by
  have firstConnected := connected_of_mem alike.connectedFirst
  have secondConnected := connected_of_mem alike.connectedSecond
  rw [broadcastHeartbeat, broadcastHeartbeat, firstConnected,
    secondConnected]
  simp only [Bool.false_eq_true, if_false]
  rw [ExchangeSimulator.broadcastHeartbeat_of_clients firstConnected,
    ExchangeSimulator.broadcastHeartbeat_of_clients secondConnected,
    alike.seqNo]
  have advanced :
      Alike client
        { first with seqNo := second.seqNo + 1 }
        { second with seqNo := second.seqNo + 1 } :=
    { alike with seqNo := rfl }
  exact sameView_broadcast advanced sameSends _

end RunLoop

/-! ## Whole runs -/

namespace SameFor

variable {G : Type} {client : Nat} {first second : RunLoop G}
  {firstInputs secondInputs : Iteration}

theorem events_part
    (same : SameFor client firstInputs secondInputs)
    (process : PriceProcess G) (alike : Alike client first second) :
    SameView client
      (Mealy.run (RunLoop.step process) first
        (firstInputs.events.map .event))
      (Mealy.run (RunLoop.step process) second
        (secondInputs.events.map .event)) := by
  have firstOwn := RunLoop.sameView_events process alike firstInputs.events
  have secondOwn :=
    RunLoop.sameView_events process (Alike.refl alike.connectedSecond)
      secondInputs.events
  rw [same.events] at firstOwn
  exact firstOwn.trans secondOwn.symm

theorem tick_part
    (same : SameFor client firstInputs secondInputs)
    (process : PriceProcess G) (alike : Alike client first second) :
    SameView client (first.tick process firstInputs)
      (second.tick process secondInputs) := by
  rw [RunLoop.tick, RunLoop.tick, alike.ticksThisSecond, alike.lastTick,
    same.now, same.tickRate, same.tickNs]
  split
  · have ready :
        Alike client
          { first.reorder firstInputs.tickOrder with
            faultInjection := firstInputs.faultInjection }
          { second.reorder secondInputs.tickOrder with
            faultInjection := secondInputs.faultInjection } :=
      { RunLoop.reorder_alike alike firstInputs.tickOrder
          secondInputs.tickOrder with
        faultInjection := same.faultInjection }
    have made :=
      RunLoop.sameView_generateAndBroadcast process ready
        secondInputs.tickNs same.tickSends
    have counted := made.withTicks (second.ticksThisSecond + 1)
    have announced := counted.behind .generate (by simp)
    exact announced.behind _ (by simp)
  · exact ⟨rfl, fun _ => alike⟩

theorem second_part
    (same : SameFor client firstInputs secondInputs)
    (alike : Alike client first second) :
    SameView client (first.second firstInputs)
      (second.second secondInputs) := by
  rw [RunLoop.second, RunLoop.second, alike.lastTick, same.now,
    same.heartbeatNs]
  split
  · have ready :
        Alike client
          { first.reorder firstInputs.heartbeatOrder with
            lastTick := secondInputs.now
            ticksThisSecond := 0 }
          { second.reorder secondInputs.heartbeatOrder with
            lastTick := secondInputs.now
            ticksThisSecond := 0 } :=
      { RunLoop.reorder_alike alike firstInputs.heartbeatOrder
          secondInputs.heartbeatOrder with
        lastTick := rfl
        ticksThisSecond := rfl }
    have sent :=
      RunLoop.sameView_broadcastHeartbeat ready secondInputs.heartbeatNs
        same.heartbeatSends
    exact sent.behind _ (by simp)
  · exact ⟨rfl, fun _ => alike⟩

/-- One iteration. -/
theorem iterate
    (same : SameFor client firstInputs secondInputs)
    (process : PriceProcess G) (alike : Alike client first second) :
    SameView client (first.iterate process firstInputs)
      (second.iterate process secondInputs) := by
  rw [RunLoop.iterate_eq, RunLoop.iterate_eq]
  have whole :=
    (same.events_part process alike).append fun handled =>
      (same.tick_part process handled).append fun ticked =>
        same.second_part ticked
  exact whole.behind _ (by simp)

end SameFor

theorem RunLoop.sameView_run
    {G : Type} (process : PriceProcess G) {client : Nat}
    {first second : RunLoop G} (alike : Alike client first second)
    {firstRun secondRun : List Iteration}
    (same : List.Forall₂ (SameFor client) firstRun secondRun) :
    SameView client (first.run process firstRun)
      (second.run process secondRun) := by
  induction same generalizing first second with
  | nil =>
      exact ⟨rfl, fun _ => alike⟩
  | cons now _ inductionHypothesis =>
      exact (now.iterate process alike).append
        fun next => inductionHypothesis next

/-- Client isolation: whatever other clients do and in whatever order clients
are served, a client that behaves the same in two runs is handed the same
bytes at the same moments and is dropped at the same moment. -/
theorem clientView_isolated
    {G : Type} (process : PriceProcess G) (loop : RunLoop G)
    {client : Nat} (connected : client ∈ loop.clients)
    {firstRun secondRun : List Iteration}
    (same : List.Forall₂ (SameFor client) firstRun secondRun) :
    clientView client (loop.run process firstRun).2 =
      clientView client (loop.run process secondRun).2 :=
  (RunLoop.sameView_run process (Alike.refl connected) same).1

/-- Of two clients the second hangs up in one run and would block in the
other, which also accepts a third and serves it first. -/
theorem clientView_isolated_two_clients :
    let loop : RunLoop Unit :=
      { RunLoop.idle with
        clients := [5, 6]
        nodup := by decide }
    let hangsUp : Iteration :=
      { Iteration.quiet 1000 1000000 with
        events :=
          [⟨6, true, false, none, 0⟩, ⟨5, false, true, none, 9⟩] }
    let blocks : Iteration :=
      { hangsUp with
        events :=
          [⟨5, false, true, none, 9⟩, ⟨3, false, true, some 7, 0⟩]
        tickOrder := [7, 6, 5]
        tickSends := fun fd => if fd = 6 then [.wouldBlock] else [] }
    5 ∈ loop.clients ∧
      clientView 5 (loop.run PriceProcess.still [hangsUp]).2 =
        clientView 5 (loop.run PriceProcess.still [blocks]).2 := by
  intro loop hangsUp blocks
  have connected : 5 ∈ loop.clients := by decide
  refine ⟨connected, ?_⟩
  apply clientView_isolated PriceProcess.still loop connected
  refine List.Forall₂.cons ?_ List.Forall₂.nil
  exact ⟨by decide, rfl, rfl, rfl, rfl, rfl, rfl, rfl⟩

end MarketDataHandler
