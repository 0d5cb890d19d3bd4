import MarketDataHandler.Lib.Mealy
import Mathlib.Algebra.Ring.Nat
import Mathlib.Data.List.Nodup
import Mathlib.Data.List.Perm.Lattice

/-!
# Clients and broadcasting

`handle_new_connection`, `handle_client_disconnect` and `broadcast_message` of
`src/server/exchange_simulator.cpp`.  The set `clients_` is a list without
repetitions in its present iteration order, which may change at any time.

The kernel's answers are inputs.  A broadcast is given, for each client, the
answers to its successive calls of `send`; calls beyond the end of that list
take everything.

A message that the kernel takes in part and then refuses with `EAGAIN` is
given up by `broadcast_message`, but its first part is on the wire.  Without
that event the wire of every remaining client is a sequence of whole messages.
-/

namespace MarketDataHandler

/-! ## Sending to one client -/

/-- The answer to one call of `send`. -/
inductive SendOutcome where
  /-- `extra + 1` bytes are taken, or all that remain if these are fewer. -/
  | accept (extra : Nat)
  | wouldBlock
  /-- An error other than would-block, or zero bytes. -/
  | fail
  deriving DecidableEq, Repr

/-- How the loop over the calls of `send` for one client ends. -/
inductive SendVerdict where
  | whole
  | slow
  | drop
  deriving DecidableEq, Repr

/-- The loop over the calls of `send` for one client: the bytes that each call
took, and how the loop ended. -/
def sendLoop : List SendOutcome → List UInt8 →
    List (List UInt8) × SendVerdict
  | _, [] => ([], .whole)
  | [], byte :: rest => ([byte :: rest], .whole)
  | .accept extra :: outcomes, byte :: rest =>
      let later := sendLoop outcomes ((byte :: rest).drop (extra + 1))
      ((byte :: rest).take (extra + 1) :: later.1, later.2)
  | .wouldBlock :: _, _ :: _ => ([[]], .slow)
  | .fail :: _, _ :: _ => ([[]], .drop)

/-- Would-block is answered after a part of a message of the given length has
been taken. -/
def BlocksInside (outcomes : List SendOutcome) (len : Nat) : Prop :=
  ∃ extras later,
    outcomes = extras.map .accept ++ .wouldBlock :: later ∧
      extras ≠ [] ∧ (extras.map (· + 1)).sum < len

/-! ## The server's clients -/

inductive ServerOutput where
  | accepted (fd : Nat)
  | closed (fd : Nat)
  /-- A call of `broadcast_message`. -/
  | broadcast (data : List UInt8)
  /-- A call of `send` and the bytes that it took. -/
  | send (fd : Nat) (bytes : List UInt8)
  /-- Fault injection passes over a sequence number. -/
  | skip (seq : UInt32)
  deriving DecidableEq, Repr

structure Connections where
  clients : List Nat
  nodup : clients.Nodup
  slowClients : List Nat

namespace Connections

/-- `handle_new_connection` with the result of `accept4`. -/
def handleNewConnection (connections : Connections)
    (accepted : Option Nat) : Connections × List ServerOutput :=
  match accepted with
  | none => (connections, [])
  | some fd =>
      ({ connections with
          clients := connections.clients.insert fd
          nodup := connections.nodup.insert },
        [.accepted fd])

def handleClientDisconnect (connections : Connections) (fd : Nat) :
    Connections × List ServerOutput :=
  ({ clients := connections.clients.erase fd
     nodup := connections.nodup.erase fd
     slowClients := connections.slowClients.erase fd },
    [.closed fd])

/-- The iteration order of the set becomes another one. -/
def reorder (connections : Connections) (order : List Nat) :
    Connections :=
  if same : order.Perm connections.clients then
    { connections with
      clients := order
      nodup := same.nodup_iff.mpr connections.nodup }
  else
    connections

/-- The body of the loop over the clients.  The state is `slow_clients_` and
`to_drop`. -/
def serveClient (data : List UInt8) (sends : Nat → List SendOutcome)
    (progress : List Nat × List Nat) (fd : Nat) :
    (List Nat × List Nat) × List ServerOutput :=
  (match (sendLoop (sends fd) data).2 with
    | .whole => progress
    | .slow => (progress.1.insert fd, progress.2)
    | .drop => (progress.1, progress.2 ++ [fd]),
    (sendLoop (sends fd) data).1.map (.send fd))

def broadcastMessage (connections : Connections) (data : List UInt8)
    (sends : Nat → List SendOutcome) :
    Connections × List ServerOutput :=
  let served :=
    Mealy.run (serveClient data sends) (connections.slowClients, [])
      connections.clients
  let dropped :=
    Mealy.run handleClientDisconnect
      { connections with slowClients := served.1.1 } served.1.2
  (dropped.1, .broadcast data :: (served.2 ++ dropped.2))

end Connections

/-! ## What a client has on its wire -/

/-- The part of the trace since the given client was accepted. -/
def connectionTrace (fd : Nat) (trace : List ServerOutput) :
    List ServerOutput :=
  trace.foldl
    (fun current output =>
      if output = .accepted fd then [] else current ++ [output]) []

/-- The bytes that the kernel took for the given client. -/
def sentTo (fd : Nat) (trace : List ServerOutput) : List UInt8 :=
  trace.flatMap fun output =>
    match output with
    | .send other bytes => if other = fd then bytes else []
    | _ => []

/-- The messages that were broadcast. -/
def published (trace : List ServerOutput) : List (List UInt8) :=
  trace.filterMap fun output =>
    match output with
    | .broadcast data => some data
    | _ => none

/-- The bytes that the kernel took for a client since it connected. -/
def wire (fd : Nat) (trace : List ServerOutput) : List UInt8 :=
  sentTo fd (connectionTrace fd trace)

/-- The wire of a client holds whole messages only: a selection, in order, of
what was broadcast since it connected. -/
def WholeMessages (fd : Nat) (trace : List ServerOutput) : Prop :=
  ∃ delivered : List (List UInt8),
    delivered.Sublist (published (connectionTrace fd trace)) ∧
      wire fd trace = delivered.flatten

/-! ## Runs -/

inductive ConnectionAction where
  | newConnection (accepted : Option Nat)
  | clientDisconnect (fd : Nat)
  | reorder (order : List Nat)
  | broadcast (data : List UInt8) (sends : Nat → List SendOutcome)

namespace Connections

def step (connections : Connections) :
    ConnectionAction → Connections × List ServerOutput
  | .newConnection accepted => connections.handleNewConnection accepted
  | .clientDisconnect fd => connections.handleClientDisconnect fd
  | .reorder order => (connections.reorder order, [])
  | .broadcast data sends => connections.broadcastMessage data sends

def run (connections : Connections) (actions : List ConnectionAction) :
    Connections × List ServerOutput :=
  Mealy.run step connections actions

/-- In a broadcast no client is refused after a part of the message was
taken. -/
def SendsWhole (connections : Connections) :
    ConnectionAction → Prop
  | .broadcast data sends =>
      ∀ fd ∈ connections.clients, ¬ BlocksInside (sends fd) data.length
  | _ => True

end Connections

/-! ## The loop over the calls of send -/

/-- A message that is not given up is taken whole. -/
theorem sendLoop_whole
    {outcomes : List SendOutcome} {data : List UInt8}
    (whole : (sendLoop outcomes data).2 = .whole) :
    (sendLoop outcomes data).1.flatten = data := by
  induction outcomes generalizing data with
  | nil =>
      cases data with
      | nil =>
          rfl
      | cons byte rest =>
          simp [sendLoop]
  | cons outcome outcomes inductionHypothesis =>
      cases data with
      | nil =>
          rfl
      | cons byte rest =>
          cases outcome with
          | accept extra =>
              have later := inductionHypothesis whole
              rw [sendLoop, List.flatten_cons, later,
                List.take_append_drop]
          | wouldBlock =>
              cases whole
          | fail =>
              cases whole

/-- A message that is given up was refused behind some acceptances that do not
add up to its length. -/
theorem sendLoop_slow
    {outcomes : List SendOutcome} {data : List UInt8}
    (slow : (sendLoop outcomes data).2 = .slow) :
    ∃ extras later,
      outcomes = extras.map .accept ++ .wouldBlock :: later ∧
        (extras.map (· + 1)).sum < data.length ∧
        (extras = [] → (sendLoop outcomes data).1.flatten = []) := by
  induction outcomes generalizing data with
  | nil =>
      cases data with
      | nil =>
          cases slow
      | cons byte rest =>
          cases slow
  | cons outcome outcomes inductionHypothesis =>
      cases data with
      | nil =>
          cases slow
      | cons byte rest =>
          cases outcome with
          | accept extra =>
              obtain ⟨extras, later, split, short, _⟩ :=
                inductionHypothesis slow
              refine ⟨extra :: extras, later, ?_, ?_, ?_⟩
              · rw [split]
                rfl
              · rw [List.length_drop] at short
                simp only [List.map_cons, List.sum_cons]
                omega
              · intro empty
                cases empty
          | wouldBlock =>
              exact ⟨[], outcomes, rfl, Nat.succ_pos _, fun _ => rfl⟩
          | fail =>
              cases slow

/-- Unless it is refused inside, a client that is not dropped gets all of a
message or nothing. -/
theorem sendLoop_all_or_nothing
    {outcomes : List SendOutcome} {data : List UInt8}
    (sendsWhole : ¬ BlocksInside outcomes data.length)
    (kept : (sendLoop outcomes data).2 ≠ .drop) :
    (sendLoop outcomes data).1.flatten = data ∨
      (sendLoop outcomes data).1.flatten = [] := by
  cases verdict : (sendLoop outcomes data).2 with
  | whole =>
      exact Or.inl (sendLoop_whole verdict)
  | slow =>
      obtain ⟨extras, later, split, short, nothing⟩ :=
        sendLoop_slow verdict
      by_cases empty : extras = []
      · exact Or.inr (nothing empty)
      · exact absurd ⟨extras, later, split, empty, short⟩ sendsWhole
  | drop =>
      exact absurd verdict kept

/-! ## Traces -/

/-- Of a list without repetitions only one member contributes. -/
theorem flatMap_of_others_nil
    {α β : Type} [DecidableEq α] {items : List α} (nodup : items.Nodup)
    {item : α} {part : α → List β}
    (others : ∀ other, other ≠ item → part other = []) :
    items.flatMap part = if item ∈ items then part item else [] := by
  induction items with
  | nil =>
      rfl
  | cons head items inductionHypothesis =>
      obtain ⟨fresh, rest⟩ := List.nodup_cons.mp nodup
      rw [List.flatMap_cons, inductionHypothesis rest]
      by_cases same : head = item
      · subst same
        rw [if_neg fresh, if_pos List.mem_cons_self, List.append_nil]
      · rw [others head same, List.nil_append]
        simp [Ne.symm same]

/-- The outputs for one client among those for all of them. -/
theorem filterMap_flatMap_map
    {β ω : Type} {fds : List Nat} (nodup : fds.Nodup) {fd : Nat}
    {output : Nat → β → ω} {view : ω → Option β}
    (own : ∀ call, view (output fd call) = some call)
    (others : ∀ other, other ≠ fd → ∀ call, view (output other call) = none)
    (calls : Nat → List β) :
    (fds.flatMap fun other => (calls other).map (output other)).filterMap
        view =
      if fd ∈ fds then calls fd else [] := by
  have here : ((calls fd).map (output fd)).filterMap view = calls fd := by
    rw [List.filterMap_map, show view ∘ output fd = some from funext own,
      List.filterMap_some]
  rw [List.filterMap_flatMap, flatMap_of_others_nil nodup, here]
  intro other different
  rw [List.filterMap_map, List.filterMap_eq_nil_iff]
  intro call _
  exact others other different call

theorem connectionTrace_append
    {fd : Nat} {outputs : List ServerOutput}
    (same : .accepted fd ∉ outputs) (past : List ServerOutput) :
    connectionTrace fd (past ++ outputs) =
      connectionTrace fd past ++ outputs :=
  Mealy.since_append same past

theorem connectionTrace_accepted
    (fd : Nat) (past : List ServerOutput) :
    connectionTrace fd (past ++ [.accepted fd]) = [] :=
  Mealy.since_concat_mark (ServerOutput.accepted fd) past

theorem sentTo_append
    (fd : Nat) (first second : List ServerOutput) :
    sentTo fd (first ++ second) = sentTo fd first ++ sentTo fd second :=
  List.flatMap_append

theorem published_append (first second : List ServerOutput) :
    published (first ++ second) = published first ++ published second :=
  List.filterMap_append

/-- Outputs that do not concern a client leave its wire as it is. -/
theorem WholeMessages.append_quiet
    {fd : Nat} {past outputs : List ServerOutput}
    (whole : WholeMessages fd past)
    (same : .accepted fd ∉ outputs)
    (unpublished : published outputs = [])
    (unsent : sentTo fd outputs = []) :
    WholeMessages fd (past ++ outputs) := by
  obtain ⟨delivered, sublist, bytes⟩ := whole
  have trace := connectionTrace_append same past
  refine ⟨delivered, ?_, ?_⟩
  · rw [trace, published_append, unpublished, List.append_nil]
    exact sublist
  · rw [wire, trace, sentTo_append, unsent, List.append_nil]
    exact bytes

namespace Connections

theorem mem_clients_reorder
    {connections : Connections} {order : List Nat} {fd : Nat} :
    fd ∈ (connections.reorder order).clients ↔
      fd ∈ connections.clients := by
  rw [reorder]
  split
  · rename_i same
    exact same.mem_iff
  · rfl

/-! ## One broadcast -/

/-- Serving the clients only sends. -/
theorem serveClient_sends
    {data : List UInt8} {sends : Nat → List SendOutcome}
    {progress : List Nat × List Nat} {fds : List Nat}
    {output : ServerOutput}
    (member :
      output ∈ (Mealy.run (serveClient data sends) progress fds).2) :
    ∃ fd bytes, output = .send fd bytes := by
  induction fds generalizing progress with
  | nil =>
      cases member
  | cons fd fds inductionHypothesis =>
      rw [Mealy.run_cons] at member
      rcases List.mem_append.mp member with now | later
      · obtain ⟨bytes, _, rfl⟩ := List.mem_map.mp now
        exact ⟨fd, bytes, rfl⟩
      · exact inductionHypothesis later

theorem sentTo_map_send (fd other : Nat) (calls : List (List UInt8)) :
    sentTo fd (calls.map (.send other)) =
      if other = fd then calls.flatten else [] := by
  induction calls with
  | nil =>
      simp [sentTo]
  | cons bytes calls inductionHypothesis =>
      have split :
          sentTo fd ((bytes :: calls).map (.send other)) =
            (if other = fd then bytes else []) ++
              sentTo fd (calls.map (.send other)) :=
        rfl
      rw [split, inductionHypothesis]
      split <;> simp

/-- What serving the clients puts on one client's wire. -/
theorem sentTo_serveClient
    {data : List UInt8} {sends : Nat → List SendOutcome}
    {progress : List Nat × List Nat} {fds : List Nat}
    (nodup : fds.Nodup) (fd : Nat) :
    sentTo fd (Mealy.run (serveClient data sends) progress fds).2 =
      if fd ∈ fds then (sendLoop (sends fd) data).1.flatten else [] := by
  induction fds generalizing progress with
  | nil =>
      rfl
  | cons other fds inductionHypothesis =>
      obtain ⟨fresh, rest⟩ := List.nodup_cons.mp nodup
      rw [Mealy.run_cons, sentTo_append, inductionHypothesis rest]
      change sentTo fd ((sendLoop (sends other) data).1.map _) ++ _ = _
      rw [sentTo_map_send]
      by_cases same : other = fd
      · subst other
        simp [fresh]
      · simp [same, Ne.symm same]

/-- Which clients are to be dropped. -/
theorem mem_toDrop_serveClient
    {data : List UInt8} {sends : Nat → List SendOutcome}
    {progress : List Nat × List Nat} {fds : List Nat} (fd : Nat) :
    fd ∈ (Mealy.run (serveClient data sends) progress fds).1.2 ↔
      fd ∈ progress.2 ∨
        (fd ∈ fds ∧ (sendLoop (sends fd) data).2 = .drop) := by
  induction fds generalizing progress with
  | nil =>
      simp
  | cons other fds inductionHypothesis =>
      rw [Mealy.run_cons]
      simp only [inductionHypothesis, List.mem_cons]
      have served :
          fd ∈ (serveClient data sends progress other).1.2 ↔
            fd ∈ progress.2 ∨
              (fd = other ∧ (sendLoop (sends fd) data).2 = .drop) := by
        rw [serveClient]
        cases verdict : (sendLoop (sends other) data).2 <;>
          by_cases same : fd = other <;>
            simp_all
      rw [served]
      tauto

/-- Dropping clients only closes. -/
theorem disconnect_closes
    {connections : Connections} {fds : List Nat}
    {output : ServerOutput}
    (member :
      output ∈ (Mealy.run handleClientDisconnect connections fds).2) :
    ∃ fd, output = .closed fd := by
  induction fds generalizing connections with
  | nil =>
      cases member
  | cons fd fds inductionHypothesis =>
      rw [Mealy.run_cons] at member
      rcases List.mem_append.mp member with now | later
      · exact ⟨fd, List.mem_singleton.mp now⟩
      · exact inductionHypothesis later

theorem mem_clients_disconnect
    {connections : Connections} {fds : List Nat} (fd : Nat) :
    fd ∈ (Mealy.run handleClientDisconnect connections fds).1.clients ↔
      fd ∈ connections.clients ∧ fd ∉ fds := by
  induction fds generalizing connections with
  | nil =>
      simp
  | cons other fds inductionHypothesis =>
      rw [Mealy.run_cons]
      simp only [inductionHypothesis, List.mem_cons, not_or]
      change fd ∈ connections.clients.erase other ∧ _ ↔ _
      rw [connections.nodup.mem_erase_iff]
      tauto

/-- Which clients remain after a broadcast. -/
theorem mem_clients_broadcastMessage
    {connections : Connections} {data : List UInt8}
    {sends : Nat → List SendOutcome} {fd : Nat} :
    fd ∈ (connections.broadcastMessage data sends).1.clients ↔
      fd ∈ connections.clients ∧
        (sendLoop (sends fd) data).2 ≠ .drop := by
  simp only [broadcastMessage, mem_clients_disconnect,
    mem_toDrop_serveClient, List.not_mem_nil, false_or]
  tauto

/-- A broadcast announces its message, then sends, then closes. -/
theorem broadcastMessage_shape
    (connections : Connections) (data : List UInt8)
    (sends : Nat → List SendOutcome) :
    ∃ sent closed,
      (connections.broadcastMessage data sends).2 =
          .broadcast data :: (sent ++ closed) ∧
        (∀ output ∈ sent, ∃ fd bytes, output = .send fd bytes) ∧
        (∀ output ∈ closed, ∃ fd, output = .closed fd) ∧
        ∀ fd,
          sentTo fd sent =
            if fd ∈ connections.clients then
              (sendLoop (sends fd) data).1.flatten
            else
              [] := by
  refine ⟨_, _, rfl, ?_, ?_, ?_⟩
  · intro output member
    exact serveClient_sends member
  · intro output member
    exact disconnect_closes member
  · intro fd
    exact sentTo_serveClient connections.nodup fd

/-- A broadcast publishes its message, accepts nobody, and puts on each
client's wire what the loop for that client sent. -/
theorem broadcastMessage_outputs
    (connections : Connections) (data : List UInt8)
    (sends : Nat → List SendOutcome) (fd : Nat) :
    .accepted fd ∉ (connections.broadcastMessage data sends).2 ∧
      published (connections.broadcastMessage data sends).2 = [data] ∧
      sentTo fd (connections.broadcastMessage data sends).2 =
        if fd ∈ connections.clients then
          (sendLoop (sends fd) data).1.flatten
        else
          [] := by
  obtain ⟨sent, closed, shape, onlySends, onlyCloses, wired⟩ :=
    connections.broadcastMessage_shape data sends
  rw [shape]
  refine ⟨?_, ?_, ?_⟩
  · intro member
    rcases List.mem_cons.mp member with first | later
    · cases first
    · rcases List.mem_append.mp later with isSend | isClose
      · obtain ⟨_, _, other⟩ := onlySends _ isSend
        cases other
      · obtain ⟨_, other⟩ := onlyCloses _ isClose
        cases other
  · have nothing : published (sent ++ closed) = [] := by
      apply List.filterMap_eq_nil_iff.mpr
      intro output member
      rcases List.mem_append.mp member with isSend | isClose
      · obtain ⟨_, _, rfl⟩ := onlySends _ isSend
        rfl
      · obtain ⟨_, rfl⟩ := onlyCloses _ isClose
        rfl
    change data :: published (sent ++ closed) = [data]
    rw [nothing]
  · have nothing : sentTo fd closed = [] := by
      apply List.flatMap_eq_nil_iff.mpr
      intro output member
      obtain ⟨_, rfl⟩ := onlyCloses _ member
      rfl
    change sentTo fd (sent ++ closed) = _
    rw [sentTo_append, wired, nothing, List.append_nil]

/-! ## Whole runs -/

theorem wholeMessages_step
    {connections : Connections} {past : List ServerOutput}
    {action : ConnectionAction}
    (sendsWhole : connections.SendsWhole action)
    (whole : ∀ fd ∈ connections.clients, WholeMessages fd past) :
    ∀ fd ∈ (connections.step action).1.clients,
      WholeMessages fd (past ++ (connections.step action).2) := by
  intro fd member
  cases action with
  | newConnection accepted =>
      cases accepted with
      | none =>
          rw [step, handleNewConnection, List.append_nil]
          exact whole fd member
      | some newcomer =>
          change WholeMessages fd (past ++ [.accepted newcomer])
          by_cases same : newcomer = fd
          · subst newcomer
            refine ⟨[], ?_, ?_⟩
            · rw [connectionTrace_accepted]
              exact List.Sublist.refl _
            · rw [wire, connectionTrace_accepted]
              rfl
          · have old : fd ∈ connections.clients := by
              rcases List.mem_insert_iff.mp member with rfl | old
              · exact absurd rfl same
              · exact old
            exact (whole fd old).append_quiet
              (by simpa using Ne.symm same) rfl rfl
  | clientDisconnect gone =>
      have old : fd ∈ connections.clients := List.mem_of_mem_erase member
      exact (whole fd old).append_quiet (by simp [step,
        handleClientDisconnect]) rfl rfl
  | reorder order =>
      have old : fd ∈ connections.clients := mem_clients_reorder.mp member
      rw [step, List.append_nil]
      exact whole fd old
  | broadcast data sends =>
      obtain ⟨old, kept⟩ := mem_clients_broadcastMessage.mp member
      obtain ⟨delivered, sublist, bytes⟩ := whole fd old
      obtain ⟨same, message, sent⟩ :=
        connections.broadcastMessage_outputs data sends fd
      rw [if_pos old] at sent
      change
        WholeMessages fd
          (past ++ (connections.broadcastMessage data sends).2)
      have trace := connectionTrace_append same past
      rcases sendLoop_all_or_nothing (sendsWhole fd old) kept with
        all | nothing
      · refine ⟨delivered ++ [data], ?_, ?_⟩
        · rw [trace, published_append, message]
          exact sublist.append (List.Sublist.refl _)
        · rw [wire, trace, sentTo_append, sent, all, List.flatten_append,
            ← bytes]
          simp [wire]
      · refine ⟨delivered, ?_, ?_⟩
        · rw [trace, published_append, message]
          exact sublist.trans (List.sublist_append_left _ _)
        · rw [wire, trace, sentTo_append, sent, nothing, ← bytes]
          simp [wire]

end Connections

/-- Frame integrity: in a run in which no client is refused inside a message,
the wire of every client that is still connected holds whole messages, in
order and each at most once. -/
theorem wholeMessages_of_sendsWhole
    (connections : Connections) (actions : List ConnectionAction)
    (sendsWhole :
      Mealy.Guarded Connections.step Connections.SendsWhole connections
        actions) :
    ∀ fd ∈ (connections.run actions).1.clients,
      WholeMessages fd (connections.run actions).2 := by
  apply Mealy.run_invariant Connections.step
    (fun connections past =>
      ∀ fd ∈ connections.clients, WholeMessages fd past)
    _ _ sendsWhole
  · intro connections past action guard whole
    exact Connections.wholeMessages_step guard whole
  · intro fd _
    exact ⟨[], List.Sublist.refl _, rfl⟩

/-- One message in two parts, then one that is refused whole. -/
theorem wholeMessages_two_parts :
    WholeMessages 3
      (Connections.run ⟨[3], by decide, []⟩
        [.broadcast [1, 2] fun _ => [.accept 0],
          .broadcast [5, 6] fun _ => [.wouldBlock]]).2 := by
  have first : ¬ BlocksInside [.accept 0] 2 := by
    rintro ⟨_ | ⟨extra, _ | ⟨next, extras⟩⟩, later, split, nonempty, _⟩
    · exact nonempty rfl
    · simp at split
    · simp at split
  have second : ¬ BlocksInside [.wouldBlock] 2 := by
    rintro ⟨_ | ⟨extra, extras⟩, later, split, nonempty, _⟩
    · exact nonempty rfl
    · simp at split
  apply wholeMessages_of_sendsWhole
  · exact ⟨fun _ _ => first, fun _ _ => second, trivial⟩
  · decide

/-- One byte of a message is taken and the next call would block. -/
theorem not_wholeMessages_interrupted :
    ¬ ∀ (connections : Connections) (actions : List ConnectionAction),
      (∀ data sends, .broadcast data sends ∈ actions → data ≠ []) →
        ∀ fd ∈ (connections.run actions).1.clients,
          WholeMessages fd (connections.run actions).2 := by
  intro integrity
  have whole :=
    integrity ⟨[3], by decide, []⟩
      [.broadcast [1, 2] fun _ => [.accept 0, .wouldBlock]]
      (by
        intro data sends member
        cases List.mem_singleton.mp member
        decide)
      3 (by decide)
  obtain ⟨delivered, sublist, bytes⟩ := whole
  rcases List.sublist_singleton.mp sublist with rfl | rfl
  · exact absurd bytes (by decide)
  · exact absurd bytes (by decide)

end MarketDataHandler
