import MarketDataHandler.Server.ExchangeSimulator

/-!
# The run loop of the server

`ExchangeSimulator::run`: one iteration waits for events, handles them in the
order of the array, makes at most one tick, and once a second starts a new
window with a heartbeat.  The kernel's answers, the clock, the values that
other threads store and the iteration order of `clients_` are inputs of an
iteration.  The prices come from a process on doubles and random numbers,
which is a parameter; its state is part of the loop's.

Here the trace has every system call with its answer.  `run_simulates` says
that without the calls that change nothing it is the trace of a run of the
simulator's actions.
-/

namespace MarketDataHandler

/-! ## Calls -/

inductive SendAnswer where
  | took (bytes : List UInt8)
  | wouldBlock
  | failed
  deriving DecidableEq, Repr

/-- The calls of `send` for one client, each with the bytes that it is handed
and its answer. -/
def sendCalls : List SendOutcome → List UInt8 →
    List (List UInt8 × SendAnswer)
  | _, [] => []
  | [], byte :: rest => [(byte :: rest, .took (byte :: rest))]
  | .accept extra :: outcomes, byte :: rest =>
      (byte :: rest, .took ((byte :: rest).take (extra + 1))) ::
        sendCalls outcomes ((byte :: rest).drop (extra + 1))
  | .wouldBlock :: _, byte :: rest => [(byte :: rest, .wouldBlock)]
  | .fail :: _, byte :: rest => [(byte :: rest, .failed)]

/-- What the loop does, in order. -/
inductive LoopOutput where
  | epollWait
  | accept (result : Option Nat)
  | epollAdd (fd : Nat)
  | epollDel (fd : Nat)
  | close (fd : Nat)
  | recv (fd : Nat) (result : Int)
  | send (fd : Nat) (data : List UInt8) (answer : SendAnswer)
  | clock (now : Nat)
  /-- A call of `generate_and_broadcast`. -/
  | generate
  /-- The assignment `last_tick = now`. -/
  | reset
  deriving DecidableEq, Repr

def disconnectCalls (fd : Nat) : List LoopOutput :=
  [.epollDel fd, .close fd]

def clientCalls (data : List UInt8) (sends : Nat → List SendOutcome)
    (fd : Nat) : List LoopOutput :=
  (sendCalls (sends fd) data).map fun call => .send fd call.1 call.2

/-- The calls of `broadcast_message`: the loop over the clients, then the loop
over `to_drop`. -/
def broadcastCalls (clients : List Nat) (data : List UInt8)
    (sends : Nat → List SendOutcome) : List LoopOutput :=
  clients.flatMap (clientCalls data sends) ++
    (clients.filter fun fd =>
      decide ((sendLoop (sends fd) data).2 = .drop)).flatMap disconnectCalls

/-! ## The loop -/

/-- The price process of `TickGenerator` with state `G`: what `make_quote` and
`make_trade` put into a payload. -/
structure PriceProcess (G : Type) where
  quote : G → UInt16 → QuotePay × G
  trade : G → UInt16 → TradePay × G

/-- The state of the simulator inside `run`.  Times are in nanoseconds. -/
structure RunLoop (G : Type) extends ExchangeSimulator where
  serverFd : Nat
  gen : G
  lastTick : Nat
  ticksThisSecond : Nat

/-- One entry of the array that `epoll_wait` fills, with what `accept4` or
`recv` answers when the entry is handled. -/
structure ReadyEvent where
  fd : Nat
  /-- `EPOLLHUP | EPOLLERR` -/
  hangup : Bool
  /-- `EPOLLIN` -/
  readable : Bool
  accepted : Option Nat
  received : Int
  deriving DecidableEq, Repr

/-- The inputs of one iteration. -/
structure Iteration where
  events : List ReadyEvent
  now : Nat
  tickRate : UInt32
  faultInjection : Bool
  tickOrder : List Nat
  tickNs : UInt64
  tickSends : Nat → List SendOutcome
  heartbeatOrder : List Nat
  heartbeatNs : UInt64
  heartbeatSends : Nat → List SendOutcome

/-- The parts of an iteration. -/
inductive LoopStep where
  | wait
  | event (event : ReadyEvent)
  | tick (inputs : Iteration)
  | second (inputs : Iteration)

def Iteration.steps (inputs : Iteration) : List LoopStep :=
  .wait :: inputs.events.map .event ++ [.tick inputs, .second inputs]

/-- The number of ticks that the exact elapsed time calls for.  The source casts
`elapsed_s * rate`, a product of doubles that may be rounded to one tick less
or more: 290 ms at rate 100 make 29 ticks, and 28 in doubles. -/
def targetTicks (elapsedNs : Nat) (rate : UInt32) : Nat :=
  elapsedNs * rate.toNat / 10 ^ 9

namespace ExchangeSimulator

/-- The symbol of the next tick, taken before a number is passed over. -/
def nextSym (server : ExchangeSimulator) : UInt16 :=
  UInt16.ofNat (server.seqNo.toNat % server.symbolCount)

/-- The number of the next tick. -/
def nextSeq (server : ExchangeSimulator) : UInt32 :=
  if server.skips then server.seqNo + 1 else server.seqNo

theorem generateAndBroadcast_of_clients
    {server : ExchangeSimulator}
    (connected : server.clients.isEmpty = false)
    (draw : TickDraw) (sends : Nat → List SendOutcome) :
    server.generateAndBroadcast draw sends =
      ((broadcast { server with seqNo := server.nextSeq + 1 }
          (tickFrame server.nextSym server.nextSeq draw) sends).1,
        (if server.skips then [.skip server.seqNo] else []) ++
          (broadcast { server with seqNo := server.nextSeq + 1 }
            (tickFrame server.nextSym server.nextSeq draw) sends).2) := by
  rw [generateAndBroadcast, connected]
  rfl

theorem broadcastHeartbeat_of_clients
    {server : ExchangeSimulator}
    (connected : server.clients.isEmpty = false)
    (nowNs : UInt64) (sends : Nat → List SendOutcome) :
    server.broadcastHeartbeat nowNs sends =
      broadcast { server with seqNo := server.seqNo + 1 }
        (TickGenerator.heartbeatFrame server.seqNo nowNs) sends := by
  rw [broadcastHeartbeat, connected]
  rfl

end ExchangeSimulator

namespace RunLoop

variable {G : Type} (process : PriceProcess G)

def handleNewConnection (loop : RunLoop G) (accepted : Option Nat) :
    RunLoop G × List LoopOutput :=
  ({ loop with
      toConnections :=
        (loop.toConnections.handleNewConnection accepted).1 },
    .accept accepted :: accepted.toList.map .epollAdd)

def handleClientDisconnect (loop : RunLoop G) (fd : Nat) :
    RunLoop G × List LoopOutput :=
  ({ loop with
      toConnections := (loop.toConnections.handleClientDisconnect fd).1 },
    disconnectCalls fd)

/-- The body of the loop over the events. -/
def handleEvent (loop : RunLoop G) (event : ReadyEvent) :
    RunLoop G × List LoopOutput :=
  if event.fd = loop.serverFd then
    loop.handleNewConnection event.accepted
  else if event.hangup then
    loop.handleClientDisconnect event.fd
  else if event.readable then
    if event.received ≤ 0 then
      let left := loop.handleClientDisconnect event.fd
      (left.1, .recv event.fd event.received :: left.2)
    else
      (loop, [.recv event.fd event.received])
  else
    (loop, [])

/-- What the next tick draws if it is made at the given time, and the state of
the price process behind it. -/
def nextDraw (loop : RunLoop G) (nowNs : UInt64) : TickDraw × G :=
  let trade := process.trade loop.gen loop.nextSym
  let quote := process.quote loop.gen loop.nextSym
  ({ trade :=
      { nowNs
        price := trade.1.price
        quantity := trade.1.quantity }
     quote :=
      { nowNs
        bidPrice := quote.1.bidPrice
        askPrice := quote.1.askPrice
        bidQty := quote.1.bidQty
        askQty := quote.1.askQty } },
    if loop.nextSeq % 10 < 3 then trade.2 else quote.2)

def generateAndBroadcast (loop : RunLoop G) (nowNs : UInt64)
    (sends : Nat → List SendOutcome) : RunLoop G × List LoopOutput :=
  if loop.clients.isEmpty then
    (loop, [])
  else
    let drawn := loop.nextDraw process nowNs
    ({ loop with
        toExchangeSimulator :=
          (loop.toExchangeSimulator.generateAndBroadcast drawn.1 sends).1
        gen := drawn.2 },
      broadcastCalls loop.clients
        (ExchangeSimulator.tickFrame loop.nextSym loop.nextSeq
          drawn.1).bytes
        sends)

def broadcastHeartbeat (loop : RunLoop G) (nowNs : UInt64)
    (sends : Nat → List SendOutcome) : RunLoop G × List LoopOutput :=
  if loop.clients.isEmpty then
    (loop, [])
  else
    ({ loop with
        toExchangeSimulator :=
          (loop.toExchangeSimulator.broadcastHeartbeat nowNs sends).1 },
      broadcastCalls loop.clients
        (TickGenerator.heartbeatFrame loop.seqNo nowNs).bytes sends)

def reorder (loop : RunLoop G) (order : List Nat) : RunLoop G :=
  { loop with toConnections := loop.toConnections.reorder order }

/-- Tick generation. -/
def tick (loop : RunLoop G) (inputs : Iteration) :
    RunLoop G × List LoopOutput :=
  if loop.ticksThisSecond <
      targetTicks (inputs.now - loop.lastTick) inputs.tickRate then
    let made :=
      generateAndBroadcast process
        { loop.reorder inputs.tickOrder with
          faultInjection := inputs.faultInjection }
        inputs.tickNs inputs.tickSends
    ({ made.1 with ticksThisSecond := loop.ticksThisSecond + 1 },
      .clock inputs.now :: .generate :: made.2)
  else
    (loop, [.clock inputs.now])

/-- The reset of the counter every second. -/
def second (loop : RunLoop G) (inputs : Iteration) :
    RunLoop G × List LoopOutput :=
  if 10 ^ 9 ≤ inputs.now - loop.lastTick then
    let sent :=
      broadcastHeartbeat
        { loop.reorder inputs.heartbeatOrder with
          lastTick := inputs.now
          ticksThisSecond := 0 }
        inputs.heartbeatNs inputs.heartbeatSends
    (sent.1, .reset :: sent.2)
  else
    (loop, [])

def step (loop : RunLoop G) : LoopStep → RunLoop G × List LoopOutput
  | .wait => (loop, [.epollWait])
  | .event event => loop.handleEvent event
  | .tick inputs => loop.tick process inputs
  | .second inputs => loop.second inputs

def iterate (loop : RunLoop G) (inputs : Iteration) :
    RunLoop G × List LoopOutput :=
  Mealy.run (step process) loop inputs.steps

def run (loop : RunLoop G) (iterations : List Iteration) :
    RunLoop G × List LoopOutput :=
  Mealy.run (iterate process) loop iterations

/-- What the handling of an event comes to.  On the listening socket a
connection is accepted; any other descriptor may be read from, and may be
closed behind that. -/
inductive Handles (loop : RunLoop G) (event : ReadyEvent) :
    RunLoop G × List LoopOutput → Prop
  | accepts :
      event.fd = loop.serverFd →
      Handles loop event (loop.handleNewConnection event.accepted)
  | keeps {reads : List LoopOutput} :
      event.fd ≠ loop.serverFd →
      reads = [] ∨ reads = [.recv event.fd event.received] →
      (event.readable → 0 < event.received) →
      Handles loop event (loop, reads)
  | closes {reads : List LoopOutput} :
      event.fd ≠ loop.serverFd →
      reads = [] ∨ reads = [.recv event.fd event.received] →
      Handles loop event
        ((loop.handleClientDisconnect event.fd).1,
          reads ++ disconnectCalls event.fd)

theorem handles_handleEvent (loop : RunLoop G) (event : ReadyEvent) :
    Handles loop event (loop.handleEvent event) := by
  rw [handleEvent]
  split
  · rename_i listening
    exact .accepts listening
  · rename_i other
    split
    · exact .closes other (Or.inl rfl)
    · split
      · split
        · exact .closes other (Or.inr rfl)
        · rename_i positive
          exact .keeps other (Or.inr rfl) fun _ => Int.lt_of_not_ge positive
      · rename_i unreadable
        exact .keeps other (Or.inl rfl) fun readable =>
          absurd readable unreadable

/-- What a tick or a heartbeat comes to: nothing without clients, and otherwise
one broadcast, with a new number and a new state of the price process. -/
inductive Publishes (loop : RunLoop G) (sends : Nat → List SendOutcome) :
    RunLoop G × List LoopOutput → Prop
  | silent : Publishes loop sends (loop, [])
  | message (seqNo : UInt32) (gen : G) (data : List UInt8) :
      Publishes loop sends
        ({ loop with
            toConnections :=
              (loop.toConnections.broadcastMessage data sends).1
            seqNo := seqNo
            gen := gen },
          broadcastCalls loop.clients data sends)

theorem publishes_generateAndBroadcast
    (loop : RunLoop G) (nowNs : UInt64)
    (sends : Nat → List SendOutcome) :
    Publishes loop sends
      (loop.generateAndBroadcast process nowNs sends) := by
  rw [generateAndBroadcast]
  cases connected : loop.clients.isEmpty with
  | true =>
      exact .silent
  | false =>
      simp only [Bool.false_eq_true, if_false]
      rw [ExchangeSimulator.generateAndBroadcast_of_clients connected]
      exact .message _ _ _

theorem publishes_broadcastHeartbeat
    (loop : RunLoop G) (nowNs : UInt64)
    (sends : Nat → List SendOutcome) :
    Publishes loop sends (loop.broadcastHeartbeat nowNs sends) := by
  rw [broadcastHeartbeat]
  cases connected : loop.clients.isEmpty with
  | true =>
      exact .silent
  | false =>
      simp only [Bool.false_eq_true, if_false]
      rw [ExchangeSimulator.broadcastHeartbeat_of_clients connected]
      exact .message _ _ _

theorem Publishes.mem_clients
    {loop : RunLoop G} {sends : Nat → List SendOutcome}
    {result : RunLoop G × List LoopOutput} {fd : Nat}
    (publishes : Publishes loop sends result)
    (stays : fd ∈ result.1.clients) :
    fd ∈ loop.clients := by
  cases publishes with
  | silent =>
      exact stays
  | message seqNo gen data =>
      exact (Connections.mem_clients_broadcastMessage.mp stays).1

/-- Ticks and heartbeats accept nobody. -/
theorem mem_clients_tick
    {loop : RunLoop G} {inputs : Iteration} {fd : Nat}
    (stays : fd ∈ (loop.tick process inputs).1.clients) :
    fd ∈ loop.clients := by
  rw [tick] at stays
  split at stays
  · have ordered :=
      (publishes_generateAndBroadcast process _ _ _).mem_clients stays
    exact Connections.mem_clients_reorder.mp ordered
  · exact stays

theorem mem_clients_second
    {loop : RunLoop G} {inputs : Iteration} {fd : Nat}
    (stays : fd ∈ (loop.second inputs).1.clients) :
    fd ∈ loop.clients := by
  rw [second] at stays
  split at stays
  · have ordered := (publishes_broadcastHeartbeat _ _ _).mem_clients stays
    exact Connections.mem_clients_reorder.mp ordered
  · exact stays

theorem step_serverFd (loop : RunLoop G) (part : LoopStep) :
    (loop.step process part).1.serverFd = loop.serverFd := by
  cases part with
  | wait =>
      rfl
  | event event =>
      rw [step, handleEvent]
      split_ifs <;> rfl
  | tick inputs =>
      rw [step, tick, generateAndBroadcast]
      split_ifs <;> rfl
  | second inputs =>
      rw [step, second, broadcastHeartbeat]
      split_ifs <;> rfl

/-- An iteration, part by part. -/
theorem iterate_eq (loop : RunLoop G) (inputs : Iteration) :
    loop.iterate process inputs =
      let handled :=
        Mealy.run (step process) loop (inputs.events.map .event)
      let ticked := handled.1.tick process inputs
      let ended := ticked.1.second inputs
      (ended.1, .epollWait :: (handled.2 ++ (ticked.2 ++ ended.2))) := by
  simp only [iterate, Iteration.steps, List.cons_append, Mealy.run_cons,
    Mealy.run_append, Mealy.run_nil, List.append_nil]
  rfl

/-- A run, part by part. -/
theorem run_eq (loop : RunLoop G) (iterations : List Iteration) :
    loop.run process iterations =
      Mealy.run (step process) loop (iterations.flatMap Iteration.steps) :=
  Mealy.run_flatMap (step process) Iteration.steps loop iterations

end RunLoop

/-! ## The loop is a run of the simulator's actions -/

def SendAnswer.bytes : SendAnswer → List UInt8
  | .took bytes => bytes
  | .wouldBlock => []
  | .failed => []

/-- What the trace of the simulator says about a call. -/
def LoopOutput.serverOutput : LoopOutput → Option ServerOutput
  | .accept (some fd) => some (.accepted fd)
  | .close fd => some (.closed fd)
  | .send fd _ answer => some (.send fd answer.bytes)
  | _ => none

/-- The outputs of the simulator that are calls. -/
def ServerOutput.isCall : ServerOutput → Bool
  | .broadcast _ => false
  | .skip _ => false
  | _ => true

theorem sendCalls_sendLoop
    (outcomes : List SendOutcome) (data : List UInt8) :
    (sendCalls outcomes data).map (fun call => call.2.bytes) =
      (sendLoop outcomes data).1 := by
  fun_induction sendCalls outcomes data with
  | case1 outcomes =>
      cases outcomes <;> rfl
  | case2 byte rest =>
      rfl
  | case3 extra outcomes byte rest inductionHypothesis =>
      rw [List.map_cons, inductionHypothesis, sendLoop]
      rfl
  | case4 outcomes byte rest =>
      rfl
  | case5 outcomes byte rest =>
      rfl

namespace Connections

/-- Serving the clients, in closed form. -/
theorem run_serveClient
    (data : List UInt8) (sends : Nat → List SendOutcome)
    (progress : List Nat × List Nat) (fds : List Nat) :
    (Mealy.run (serveClient data sends) progress fds).1.2 =
        progress.2 ++
          fds.filter (fun fd =>
            decide ((sendLoop (sends fd) data).2 = .drop)) ∧
      (Mealy.run (serveClient data sends) progress fds).2 =
        fds.flatMap fun fd =>
          (sendLoop (sends fd) data).1.map (.send fd) := by
  induction fds generalizing progress with
  | nil =>
      simp
  | cons fd fds inductionHypothesis =>
      obtain ⟨dropped, sent⟩ :=
        inductionHypothesis (serveClient data sends progress fd).1
      rw [Mealy.run_cons]
      refine ⟨?_, ?_⟩
      · simp only
        rw [dropped, serveClient]
        cases verdict : (sendLoop (sends fd) data).2 <;> simp [verdict]
      · rw [List.flatMap_cons, ← sent]
        rfl

theorem run_handleClientDisconnect
    (connections : Connections) (fds : List Nat) :
    (Mealy.run handleClientDisconnect connections fds).2 =
      fds.map .closed := by
  induction fds generalizing connections with
  | nil =>
      rfl
  | cons fd fds inductionHypothesis =>
      rw [Mealy.run_cons, inductionHypothesis]
      rfl

/-- The calls of a broadcast are those of the loop. -/
theorem broadcastMessage_calls
    (connections : Connections) (data : List UInt8)
    (sends : Nat → List SendOutcome) :
    (connections.broadcastMessage data sends).2 =
      .broadcast data ::
        (broadcastCalls connections.clients data sends).filterMap
          LoopOutput.serverOutput := by
  obtain ⟨dropped, sent⟩ :=
    run_serveClient data sends (connections.slowClients, [])
      connections.clients
  have clientOutputs :
      ∀ fd,
        (clientCalls data sends fd).filterMap LoopOutput.serverOutput =
          (sendLoop (sends fd) data).1.map (.send fd) := by
    intro fd
    rw [← sendCalls_sendLoop, clientCalls, List.map_map,
      List.filterMap_map]
    exact congrFun List.filterMap_eq_map _
  have closeOutputs :
      ∀ fds : List Nat,
        (fds.flatMap disconnectCalls).filterMap
            LoopOutput.serverOutput =
          fds.map .closed := by
    intro fds
    induction fds with
    | nil =>
        rfl
    | cons fd fds inductionHypothesis =>
        rw [List.flatMap_cons, List.filterMap_append,
          inductionHypothesis]
        rfl
  rw [broadcastMessage, broadcastCalls, List.filterMap_append,
    closeOutputs, List.filterMap_flatMap]
  simp only [clientOutputs]
  rw [run_handleClientDisconnect, dropped, sent, List.nil_append]

end Connections

namespace RunLoop

variable {G : Type} (process : PriceProcess G)

/-- The simulator part of a loop and its trace go through the given actions. -/
def Simulates (before : RunLoop G) (actions : List ServerAction)
    (result : RunLoop G × List LoopOutput) : Prop :=
  (before.toExchangeSimulator.run actions).1 =
      result.1.toExchangeSimulator ∧
    (before.toExchangeSimulator.run actions).2.filter
        ServerOutput.isCall =
      result.2.filterMap LoopOutput.serverOutput

theorem filter_isCall_serverOutput (outputs : List LoopOutput) :
    (outputs.filterMap LoopOutput.serverOutput).filter
        ServerOutput.isCall =
      outputs.filterMap LoopOutput.serverOutput := by
  rw [List.filter_eq_self]
  intro output member
  obtain ⟨call, _, shape⟩ := List.mem_filterMap.mp member
  unfold LoopOutput.serverOutput at shape
  split at shape <;> cases shape <;> rfl

theorem simulates_handleEvent (loop : RunLoop G) (event : ReadyEvent) :
    ∃ actions, Simulates loop actions (loop.handleEvent event) := by
  have handles := loop.handles_handleEvent event
  generalize loop.handleEvent event = result at handles ⊢
  cases handles with
  | accepts listening =>
      refine ⟨[.newConnection event.accepted], rfl, ?_⟩
      cases event.accepted <;> rfl
  | keeps other reads positive =>
      refine ⟨[], rfl, ?_⟩
      rcases reads with rfl | rfl <;> rfl
  | closes other reads =>
      refine ⟨[.clientDisconnect event.fd], rfl, ?_⟩
      rcases reads with rfl | rfl <;> rfl

/-- One action of the simulator with its outputs. -/
theorem simulates_of_action
    {before : RunLoop G} {action : ServerAction}
    {result : RunLoop G × List LoopOutput}
    (state :
      (before.toExchangeSimulator.step action).1 =
        result.1.toExchangeSimulator)
    (trace :
      (before.toExchangeSimulator.step action).2.filter
          ServerOutput.isCall =
        result.2.filterMap LoopOutput.serverOutput) :
    Simulates before [action] result := by
  refine ⟨state, ?_⟩
  rw [ExchangeSimulator.run, Mealy.run_cons, Mealy.run_nil,
    List.append_nil]
  exact trace

theorem simulates_generateAndBroadcast
    (loop : RunLoop G) (nowNs : UInt64)
    (sends : Nat → List SendOutcome) :
    Simulates loop [.tick (loop.nextDraw process nowNs).1 sends]
      (loop.generateAndBroadcast process nowNs sends) := by
  rw [generateAndBroadcast]
  cases connected : loop.clients.isEmpty with
  | true =>
      apply simulates_of_action <;>
        rw [ExchangeSimulator.step,
          ExchangeSimulator.generateAndBroadcast, if_pos connected] <;>
        rfl
  | false =>
      apply simulates_of_action
      · rfl
      · rw [ExchangeSimulator.step,
          ExchangeSimulator.generateAndBroadcast_of_clients connected,
          ExchangeSimulator.broadcast,
          Connections.broadcastMessage_calls]
        rw [List.filter_append]
        refine Eq.trans ?_ (filter_isCall_serverOutput _)
        cases loop.skips <;> rfl

theorem simulates_broadcastHeartbeat
    (loop : RunLoop G) (nowNs : UInt64)
    (sends : Nat → List SendOutcome) :
    Simulates loop [.heartbeat nowNs sends]
      (loop.broadcastHeartbeat nowNs sends) := by
  rw [broadcastHeartbeat]
  cases connected : loop.clients.isEmpty with
  | true =>
      apply simulates_of_action <;>
        rw [ExchangeSimulator.step,
          ExchangeSimulator.broadcastHeartbeat, if_pos connected] <;>
        rfl
  | false =>
      apply simulates_of_action
      · rfl
      · rw [ExchangeSimulator.step,
          ExchangeSimulator.broadcastHeartbeat_of_clients connected,
          ExchangeSimulator.broadcast,
          Connections.broadcastMessage_calls]
        exact filter_isCall_serverOutput _

theorem simulates_step (loop : RunLoop G) (part : LoopStep) :
    ∃ actions, Simulates loop actions (loop.step process part) := by
  cases part with
  | wait =>
      exact ⟨[], rfl, rfl⟩
  | event event =>
      exact simulates_handleEvent loop event
  | tick inputs =>
      rw [step, tick]
      split
      · let ready : RunLoop G :=
          { loop.reorder inputs.tickOrder with
            faultInjection := inputs.faultInjection }
        refine ⟨[.reorder inputs.tickOrder,
          .enableFaultInjection inputs.faultInjection,
          .tick (ready.nextDraw process inputs.tickNs).1
            inputs.tickSends], ?_⟩
        exact simulates_generateAndBroadcast process ready inputs.tickNs
          inputs.tickSends
      · exact ⟨[], rfl, rfl⟩
  | second inputs =>
      rw [step, second]
      split
      · refine ⟨[.reorder inputs.heartbeatOrder,
          .heartbeat inputs.heartbeatNs inputs.heartbeatSends], ?_⟩
        exact simulates_broadcastHeartbeat
          { loop.reorder inputs.heartbeatOrder with
            lastTick := inputs.now
            ticksThisSecond := 0 }
          inputs.heartbeatNs inputs.heartbeatSends
      · exact ⟨[], rfl, rfl⟩

/-- Every run of the loop is a run of the simulator's actions. -/
theorem run_simulates (loop : RunLoop G) (iterations : List Iteration) :
    ∃ actions, Simulates loop actions (loop.run process iterations) := by
  rw [run_eq]
  generalize iterations.flatMap Iteration.steps = parts
  induction parts generalizing loop with
  | nil =>
      exact ⟨[], rfl, rfl⟩
  | cons part parts inductionHypothesis =>
      obtain ⟨first, firstState, firstTrace⟩ :=
        simulates_step process loop part
      obtain ⟨later, laterState, laterTrace⟩ :=
        inductionHypothesis (loop.step process part).1
      refine ⟨first ++ later, ?_, ?_⟩
      · rw [ExchangeSimulator.run, Mealy.run_append]
        change (Mealy.run _ (loop.toExchangeSimulator.run first).1 _).1 = _
        rw [firstState]
        exact laterState
      · rw [ExchangeSimulator.run, Mealy.run_append, List.filter_append]
        change
          (loop.toExchangeSimulator.run first).2.filter _ ++
              (Mealy.run _ (loop.toExchangeSimulator.run first).1
                _).2.filter _ = _
        rw [firstState, firstTrace, Mealy.run_cons,
          List.filterMap_append]
        exact congrArg _ laterTrace

end RunLoop

/-! ## The smallest instance -/

/-- `num_sym` of `main_server.cpp`, unless `--symbols` is given. -/
def defaultSymbolCount : Nat :=
  100

/-- A server that has just entered `run`, at time zero. -/
def RunLoop.idle : RunLoop Unit where
  clients := []
  nodup := List.nodup_nil
  slowClients := []
  symbolCount := defaultSymbolCount
  symbolCount_pos := by decide
  faultInjection := false
  seqNo := 1
  serverFd := 3
  gen := ()
  lastTick := 0
  ticksThisSecond := 0

/-- Prices that stand still. -/
def PriceProcess.still : PriceProcess Unit where
  quote _ _ := (⟨0, 0, 0, 0⟩, ())
  trade _ _ := (⟨0, 0⟩, ())

/-- An iteration without events. -/
def Iteration.quiet (rate : UInt32) (now : Nat) : Iteration where
  events := []
  now := now
  tickRate := rate
  faultInjection := false
  tickOrder := []
  tickNs := 0
  tickSends _ := []
  heartbeatOrder := []
  heartbeatNs := 0
  heartbeatSends _ := []

end MarketDataHandler
