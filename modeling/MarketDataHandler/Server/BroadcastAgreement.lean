import MarketDataHandler.Server.ClientManager

/-!
# The two broadcasters agree

`ExchangeSimulator::broadcast_message` keeps two sets and inlines the loop over
the calls of `send`; `ClientManager::broadcast` keeps a map with an entry for
each client and calls `send_to`.  Message after message they hand the same
bytes to the kernel and keep the same clients, whatever the orders in which
they iterate.

The outcomes of a client's successive calls of `send` are one list for all
messages.  A message takes as many of them as it makes calls.
-/

namespace MarketDataHandler

/-- A message, and the order in which each of the two iterates. -/
structure Round where
  data : List UInt8
  simulatorOrder : List Nat
  managerOrder : List Nat
  deriving DecidableEq, Repr

/-- What there is to see of one message. -/
structure RoundView where
  /-- The clients that are connected afterwards. -/
  clients : List Nat
  /-- What the calls of `send` for a client were handed, and the answers. -/
  calls : Nat → List (List UInt8 × SendAnswer)
  /-- The bytes that the kernel took for a client. -/
  taken : Nat → List UInt8

/-- Equal for each client. -/
structure RoundView.Agree (first second : RoundView) : Prop where
  clients : ∀ fd, fd ∈ first.clients ↔ fd ∈ second.clients
  calls : ∀ fd, first.calls fd = second.calls fd
  taken : ∀ fd, first.taken fd = second.taken fd

/-- The outcomes that a message leaves for the calls of the next ones. -/
def RoundView.leaves (view : RoundView)
    (outcomes : Nat → List SendOutcome) : Nat → List SendOutcome :=
  fun fd => (outcomes fd).drop (view.calls fd).length

def LoopOutput.sendTo (fd : Nat) :
    LoopOutput → Option (List UInt8 × SendAnswer)
  | .send other data answer =>
      if other = fd then some (data, answer) else none
  | _ => none

namespace Connections

def round (connections : Connections) (outcomes : Nat → List SendOutcome)
    (input : Round) : Connections × RoundView :=
  let ordered := connections.reorder input.simulatorOrder
  let sent := ordered.broadcastMessage input.data outcomes
  let calls := broadcastCalls ordered.clients input.data outcomes
  (sent.1,
    { clients := sent.1.clients
      calls := fun fd => calls.filterMap (LoopOutput.sendTo fd)
      taken := fun fd => sentTo fd sent.2 })

def rounds (connections : Connections)
    (outcomes : Nat → List SendOutcome) : List Round → List RoundView
  | [] => []
  | input :: inputs =>
      let result := connections.round outcomes input
      result.2 :: result.1.rounds (result.2.leaves outcomes) inputs

end Connections

namespace ClientManager

def round (manager : ClientManager) (outcomes : Nat → List SendOutcome)
    (input : Round) : ClientManager × RoundView :=
  let sent :=
    (manager.reorder input.managerOrder).broadcast input.data outcomes
  let calls := fun fd => sent.2.filterMap (ManagerOutput.sendTo fd)
  (sent.1,
    { clients := sent.1.clients
      calls := calls
      taken := fun fd => (calls fd).flatMap fun call => call.2.bytes })

def rounds (manager : ClientManager)
    (outcomes : Nat → List SendOutcome) : List Round → List RoundView
  | [] => []
  | input :: inputs =>
      let result := manager.round outcomes input
      result.2 :: result.1.rounds (result.2.leaves outcomes) inputs

end ClientManager

/-! ## One message -/

/-- The calls of `send` for one client in a broadcast of the simulator. -/
theorem filterMap_sendTo_broadcastCalls
    {clients : List Nat} (nodup : clients.Nodup) (data : List UInt8)
    (sends : Nat → List SendOutcome) (fd : Nat) :
    (broadcastCalls clients data sends).filterMap (LoopOutput.sendTo fd) =
      if fd ∈ clients then sendCalls (sends fd) data else [] := by
  have dropped (fds : List Nat) :
      (fds.flatMap disconnectCalls).filterMap (LoopOutput.sendTo fd) =
        [] := by
    rw [List.filterMap_flatMap, List.flatMap_eq_nil_iff]
    intro other _
    rfl
  rw [broadcastCalls, List.filterMap_append, dropped, List.append_nil]
  apply filterMap_flatMap_map nodup
  · intro call
    exact if_pos rfl
  · intro other different call
    exact if_neg different

theorem round_agree
    {connections : Connections} {manager : ClientManager}
    (same : ∀ fd, fd ∈ connections.clients ↔ fd ∈ manager.clients)
    (outcomes : Nat → List SendOutcome) (input : Round) :
    (connections.round outcomes input).2.Agree
      (manager.round outcomes input).2 := by
  have ordered (fd : Nat) :
      fd ∈ (connections.reorder input.simulatorOrder).clients ↔
        fd ∈ (manager.reorder input.managerOrder).clients := by
    obtain ⟨clients, nodup, permuted, reordered⟩ :=
      manager.reorder_eq input.managerOrder
    rw [Connections.mem_clients_reorder, same, reordered]
    exact permuted.mem_iff.symm
  have calls (fd : Nat) :
      (connections.round outcomes input).2.calls fd =
        (manager.round outcomes input).2.calls fd := by
    change (broadcastCalls _ _ _).filterMap _ =
      (ClientManager.broadcast _ _ _).2.filterMap _
    rw [filterMap_sendTo_broadcastCalls (Connections.nodup _),
      ClientManager.filterMap_sendTo_broadcast]
    simp only [ordered]
  refine ⟨?_, calls, ?_⟩
  · intro fd
    change fd ∈ (Connections.broadcastMessage _ _ _).1.clients ↔
      fd ∈ (ClientManager.broadcast _ _ _).1.clients
    rw [Connections.mem_clients_broadcastMessage,
      ClientManager.mem_clients_broadcast, ordered]
  · intro fd
    obtain ⟨_, _, sent⟩ :=
      (connections.reorder input.simulatorOrder).broadcastMessage_outputs
        input.data outcomes fd
    change sentTo fd _ =
      ((manager.round outcomes input).2.calls fd).flatMap _
    rw [← calls]
    change _ = ((broadcastCalls _ _ _).filterMap _).flatMap _
    rw [sent, filterMap_sendTo_broadcastCalls (Connections.nodup _)]
    split
    · rw [← sendCalls_sendLoop]
      rfl
    · rfl

/-! ## Sequences of messages -/

theorem RoundView.Agree.leaves
    {first second : RoundView} (agree : first.Agree second)
    (outcomes : Nat → List SendOutcome) :
    first.leaves outcomes = second.leaves outcomes := by
  funext fd
  rw [RoundView.leaves, RoundView.leaves, agree.calls]

/-- From the same clients on, the two broadcasters agree on every message,
for all outcomes and all orders. -/
theorem broadcasters_agree
    (connections : Connections) (manager : ClientManager)
    (same : ∀ fd, fd ∈ connections.clients ↔ fd ∈ manager.clients)
    (outcomes : Nat → List SendOutcome) (inputs : List Round) :
    List.Forall₂ RoundView.Agree (connections.rounds outcomes inputs)
      (manager.rounds outcomes inputs) := by
  induction inputs generalizing connections manager outcomes with
  | nil =>
      exact List.Forall₂.nil
  | cons input inputs inductionHypothesis =>
      have agree := round_agree same outcomes input
      apply List.Forall₂.cons agree
      rw [agree.leaves]
      exact inductionHypothesis _ _ agree.clients _

/-- Two clients; one message is taken in part by the one and fails at the
other, the next one is taken whole. -/
theorem broadcasters_agree_two :
    let connections : Connections :=
      { clients := [4, 3]
        nodup := by decide
        slowClients := [] }
    let manager : ClientManager :=
      ((ClientManager.initial.add 3 "10.0.0.1" 0 true).1.1.add 4
        "10.0.0.2" 0 true).1.1
    let outcomes : Nat → List SendOutcome :=
      fun fd => if fd = 3 then [.accept 0, .wouldBlock] else [.fail]
    let inputs : List Round := [⟨[1, 2], [3, 4], []⟩, ⟨[7, 8], [], []⟩]
    List.Forall₂ RoundView.Agree (connections.rounds outcomes inputs)
        (manager.rounds outcomes inputs) ∧
      (manager.rounds outcomes inputs).map RoundView.clients =
        [[3], [3]] := by
  intro connections manager outcomes inputs
  constructor
  · apply broadcasters_agree
    intro fd
    simp [connections, manager, ClientManager.add, ClientManager.initial]
  · decide

end MarketDataHandler
