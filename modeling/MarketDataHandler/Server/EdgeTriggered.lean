import MarketDataHandler.Server.RunLoop
import Mathlib.Data.Finset.SDiff

/-!
# Edge-triggered events

The receive queues of the clients beside the run loop.  An event is raised when
bytes or the end of the stream arrive, merged with one that is raised already,
and taken by `epoll_wait`.  The handler answers it with one call of `recv` for
at most 512 bytes, so bytes may stay behind, and an end of stream behind bytes
is not seen.  Nothing raises an event for them again.

`DrainsAtOnce` is the condition on the state in which an event is handled that
excludes this; under it every client with something to read has an event
pending.
-/

namespace MarketDataHandler

/-! ## The kernel's side of a client -/

structure ReceiveQueue where
  unread : Nat
  ended : Bool
  deriving DecidableEq, Repr

namespace ReceiveQueue

def IsReady (queue : ReceiveQueue) : Prop :=
  queue.unread ≠ 0 ∨ queue.ended = true

instance (queue : ReceiveQueue) : Decidable queue.IsReady :=
  inferInstanceAs (Decidable (_ ∨ _))

/-- The answer to `recv` with a buffer of 512 bytes. -/
def recvResult (queue : ReceiveQueue) : Int :=
  if queue.unread ≠ 0 then
    (min queue.unread 512 : Nat)
  else if queue.ended then
    0
  else
    -1

def afterRecv (queue : ReceiveQueue) : ReceiveQueue :=
  { queue with unread := queue.unread - 512 }

end ReceiveQueue

/-- The loop, the queues of its clients, the events that are raised, and those
that `epoll_wait` has reported and the loop has not handled yet. -/
structure PolledLoop (G : Type) extends RunLoop G where
  queues : Nat → ReceiveQueue
  raised : Finset Nat
  reported : List Nat

inductive PolledAction where
  /-- `extra + 1` bytes arrive. -/
  | arrive (fd extra : Nat)
  | endOfStream (fd : Nat)
  /-- A connection is accepted, on which something may have arrived. -/
  | connect (fd : Nat) (queue : ReceiveQueue)
  | wait (batch : List Nat)
  /-- The next reported event is handled. -/
  | handle
  | tick (inputs : Iteration)
  | second (inputs : Iteration)

namespace PolledLoop

variable {G : Type} (process : PriceProcess G)

/-- Another state of the loop.  Closed descriptors have no events. -/
def withLoop (polled : PolledLoop G)
    (result : RunLoop G × List LoopOutput) :
    PolledLoop G × List LoopOutput :=
  ({ polled with
      toRunLoop := result.1
      raised := polled.raised.filter fun fd => fd ∈ result.1.clients },
    result.2)

/-- The event of a client, as the loop meets it. -/
def readEvent (polled : PolledLoop G) (fd : Nat) : ReadyEvent where
  fd := fd
  hangup := false
  readable := true
  accepted := none
  received := (polled.queues fd).recvResult

def step (polled : PolledLoop G) :
    PolledAction → PolledLoop G × List LoopOutput
  | .arrive fd extra =>
      let queue := polled.queues fd
      ({ polled with
          queues :=
            Function.update polled.queues fd
              { queue with unread := queue.unread + extra + 1 }
          raised := insert fd polled.raised },
        [])
  | .endOfStream fd =>
      let queue := polled.queues fd
      ({ polled with
          queues :=
            Function.update polled.queues fd { queue with ended := true }
          raised := insert fd polled.raised },
        [])
  | .connect fd queue =>
      let accepted :=
        polled.withLoop
          (polled.handleEvent ⟨polled.serverFd, false, true, some fd, 0⟩)
      ({ accepted.1 with
          queues := Function.update polled.queues fd queue
          raised :=
            if queue.IsReady then
              insert fd accepted.1.raised
            else
              accepted.1.raised },
        accepted.2)
  | .wait batch =>
      ({ polled with
          raised := polled.raised \ batch.toFinset
          reported := batch },
        [.epollWait])
  | .handle =>
      match polled.reported with
      | [] => (polled, [])
      | fd :: later =>
          let handled :=
            polled.withLoop (polled.handleEvent (polled.readEvent fd))
          ({ handled.1 with
              queues :=
                Function.update polled.queues fd
                  (polled.queues fd).afterRecv
              reported := later },
            handled.2)
  | .tick inputs => polled.withLoop (polled.toRunLoop.tick process inputs)
  | .second inputs => polled.withLoop (polled.toRunLoop.second inputs)

def run (polled : PolledLoop G) (actions : List PolledAction) :
    PolledLoop G × List LoopOutput :=
  Mealy.run (step process) polled actions

/-- What can happen in a state.  Bytes and ends arrive on connections that have
not ended, `accept4` answers with a new descriptor, and `epoll_wait` reports
raised events, in any order and not necessarily all. -/
def Possible (polled : PolledLoop G) : PolledAction → Prop
  | .arrive fd _ =>
      fd ∈ polled.clients ∧ (polled.queues fd).ended = false
  | .endOfStream fd =>
      fd ∈ polled.clients ∧ (polled.queues fd).ended = false
  | .connect fd _ => fd ∉ polled.clients ∧ fd ≠ polled.serverFd
  | .wait batch =>
      polled.reported = [] ∧ batch.Nodup ∧
        ∀ fd ∈ batch, fd ∈ polled.raised
  | .handle => polled.reported ≠ []
  | .tick _ => polled.reported = []
  | .second _ => polled.reported = []

instance (polled : PolledLoop G) (action : PolledAction) :
    Decidable (polled.Possible action) :=
  match action with
  | .arrive _ _ => inferInstanceAs (Decidable (_ ∧ _))
  | .endOfStream _ => inferInstanceAs (Decidable (_ ∧ _))
  | .connect _ _ => inferInstanceAs (Decidable (_ ∧ _))
  | .wait _ => inferInstanceAs (Decidable (_ ∧ _))
  | .handle => inferInstanceAs (Decidable (_ ≠ _))
  | .tick _ => inferInstanceAs (Decidable (_ = _))
  | .second _ => inferInstanceAs (Decidable (_ = _))

/-- The one call of `recv` that answers an event empties the queue, or finds
the end of the stream, unless a further event is raised already. -/
def DrainsAtOnce (polled : PolledLoop G) : PolledAction → Prop
  | .handle =>
      ∀ fd ∈ polled.reported.head?,
        fd ∈ polled.raised ∨
          ((polled.queues fd).unread ≤ 512 ∧
            ((polled.queues fd).unread = 0 ∨
              (polled.queues fd).ended = false))
  | _ => True

instance (polled : PolledLoop G) (action : PolledAction) :
    Decidable (polled.DrainsAtOnce action) :=
  match action with
  | .handle => inferInstanceAs (Decidable (∀ _ ∈ _, _))
  | .arrive _ _ => isTrue trivial
  | .endOfStream _ => isTrue trivial
  | .connect _ _ => isTrue trivial
  | .wait _ => isTrue trivial
  | .tick _ => isTrue trivial
  | .second _ => isTrue trivial

/-- Once all raised events are handled, no client has anything left to
read. -/
def Drained (polled : PolledLoop G) : Prop :=
  polled.raised = ∅ →
  polled.reported = [] →
    ∀ fd ∈ polled.clients,
      (polled.queues fd).unread = 0 ∧ (polled.queues fd).ended = false

/-! ## Pending events -/

/-- Every client with something to read has an event that is raised or
reported. -/
structure EventsPending (polled : PolledLoop G) : Prop where
  listening : polled.serverFd ∉ polled.clients
  pending :
    ∀ fd ∈ polled.clients,
      (polled.queues fd).IsReady →
        fd ∈ polled.raised ∨ fd ∈ polled.reported

theorem EventsPending.drained
    {polled : PolledLoop G} (events : EventsPending polled) :
    Drained polled := by
  intro noneRaised noneReported fd client
  by_contra undrained
  have ready : (polled.queues fd).IsReady := by
    by_contra idle
    obtain ⟨empty, going⟩ := not_or.mp idle
    exact undrained ⟨not_not.mp empty, by simpa using going⟩
  rcases events.pending fd client ready with isRaised | isReported
  · rw [noneRaised] at isRaised
    exact absurd isRaised (Finset.notMem_empty fd)
  · rw [noneReported] at isReported
    exact absurd isReported List.not_mem_nil

/-- A change of one queue that raises an event. -/
theorem EventsPending.raise
    {polled : PolledLoop G} (events : EventsPending polled)
    (fd : Nat) (queue : ReceiveQueue) :
    EventsPending
      { polled with
        queues := Function.update polled.queues fd queue
        raised := insert fd polled.raised } := by
  refine ⟨events.listening, ?_⟩
  intro other client ready
  by_cases same : other = fd
  · exact Or.inl (Finset.mem_insert.mpr (Or.inl same))
  · simp only [Function.update_of_ne same] at ready
    rcases events.pending other client ready with isRaised | isReported
    · exact Or.inl (Finset.mem_insert_of_mem isRaised)
    · exact Or.inr isReported

/-- Fewer clients. -/
theorem EventsPending.withLoop
    {polled : PolledLoop G} (events : EventsPending polled)
    {result : RunLoop G × List LoopOutput}
    (fewer : ∀ fd ∈ result.1.clients, fd ∈ polled.clients)
    (sameServer : result.1.serverFd = polled.serverFd) :
    EventsPending (polled.withLoop result).1 := by
  refine ⟨?_, ?_⟩
  · intro member
    apply events.listening
    rw [← sameServer]
    exact fewer _ member
  · intro fd client ready
    rcases events.pending fd (fewer fd client) ready with
      isRaised | isReported
    · exact Or.inl (Finset.mem_filter.mpr ⟨isRaised, client⟩)
    · exact Or.inr isReported

theorem EventsPending.connect
    {polled : PolledLoop G} (events : EventsPending polled)
    {newcomer : Nat} (other : newcomer ≠ polled.serverFd) (queue : ReceiveQueue) :
    EventsPending (polled.step process (.connect newcomer queue)).1 := by
  have clients :
      (polled.step process (.connect newcomer queue)).1.clients =
        polled.clients.insert newcomer := by
    simp only [step, PolledLoop.withLoop, RunLoop.handleEvent, if_pos]
    rfl
  have server :
      (polled.step process (.connect newcomer queue)).1.serverFd =
        polled.serverFd :=
    polled.toRunLoop.step_serverFd process (.event _)
  refine ⟨?_, ?_⟩
  · rw [clients, server, List.mem_insert_iff, not_or]
    exact ⟨Ne.symm other, events.listening⟩
  · intro client member ready
    by_cases same : client = newcomer
    · subst client
      left
      simp only [step, Function.update_self] at ready ⊢
      rw [if_pos ready]
      exact Finset.mem_insert_self newcomer _
    · have old : client ∈ polled.clients := by
        rw [clients, List.mem_insert_iff] at member
        exact member.resolve_left same
      simp only [step, Function.update_of_ne same] at ready
      rcases events.pending client old ready with isRaised | isReported
      · have kept :
            client ∈
              polled.raised.filter fun fd =>
                fd ∈
                  (polled.handleEvent
                    ⟨polled.serverFd, false, true, some newcomer,
                      0⟩).1.clients :=
          Finset.mem_filter.mpr ⟨isRaised, member⟩
        left
        simp only [step]
        split
        · exact Finset.mem_insert_of_mem kept
        · exact kept
      · exact Or.inr isReported

theorem EventsPending.wait
    {polled : PolledLoop G} (events : EventsPending polled)
    (idle : polled.reported = []) (batch : List Nat) :
    EventsPending (polled.step process (.wait batch)).1 := by
  refine ⟨events.listening, ?_⟩
  intro fd client ready
  rcases events.pending fd client ready with isRaised | isReported
  · by_cases taken : fd ∈ batch
    · exact Or.inr taken
    · refine Or.inl (Finset.mem_sdiff.mpr ⟨isRaised, ?_⟩)
      rwa [List.mem_toFinset]
  · rw [idle] at isReported
    exact absurd isReported List.not_mem_nil

/-- A client that stays after its event was handled has been read from. -/
theorem mem_clients_handleEvent
    {loop : RunLoop G} {event : ReadyEvent} (readable : event.readable)
    {client : Nat}
    (stays : client ∈ (loop.handleEvent event).1.clients)
    (other : event.fd ≠ loop.serverFd) :
    client ∈ loop.clients ∧ (client = event.fd → 0 < event.received) := by
  have left :
      client ∈ loop.clients.erase event.fd →
        client ∈ loop.clients ∧
          (client = event.fd → 0 < event.received) := by
    intro member
    rw [loop.nodup.mem_erase_iff] at member
    exact ⟨member.2, fun same => absurd same member.1⟩
  have handles := loop.handles_handleEvent event
  generalize loop.handleEvent event = result at handles stays
  cases handles with
  | accepts listening =>
      exact absurd listening other
  | keeps _ _ positive =>
      exact ⟨stays, fun _ => positive readable⟩
  | closes _ _ =>
      exact left stays

/-- One call of `recv` that suffices leaves nothing to read on a client that
stays. -/
theorem not_isReady_afterRecv
    {queue : ReceiveQueue}
    (few : queue.unread ≤ 512)
    (unmixed : queue.unread = 0 ∨ queue.ended = false)
    (received : 0 < queue.recvResult) :
    ¬ queue.afterRecv.IsReady := by
  have emptied : queue.afterRecv.unread = 0 := Nat.sub_eq_zero_of_le few
  rw [ReceiveQueue.IsReady, not_or]
  refine ⟨not_not.mpr emptied, ?_⟩
  rcases unmixed with empty | going
  · rw [ReceiveQueue.recvResult, if_neg (not_not.mpr empty)] at received
    split at received <;> omega
  · unfold ReceiveQueue.afterRecv
    rw [going]
    exact Bool.false_ne_true

theorem EventsPending.handle
    {polled : PolledLoop G} (events : EventsPending polled)
    (drains : polled.DrainsAtOnce .handle) :
    EventsPending (polled.step process .handle).1 := by
  cases reported : polled.reported with
  | nil =>
      simp only [step, reported]
      exact events
  | cons fd later =>
      have server :
          (polled.handleEvent (polled.readEvent fd)).1.serverFd =
            polled.serverFd :=
        polled.toRunLoop.step_serverFd process (.event _)
      have kept :
          ∀ client ∈ (polled.handleEvent (polled.readEvent fd)).1.clients,
            client ∈ polled.clients ∧
              (client = fd → 0 < (polled.queues fd).recvResult) := by
        intro client member
        by_cases listening : fd = polled.serverFd
        · have sameClients :
              (polled.handleEvent (polled.readEvent fd)).1.clients =
                polled.clients := by
            rw [RunLoop.handleEvent,
              if_pos (show (polled.readEvent fd).fd = _ from listening)]
            rfl
          have old : client ∈ polled.clients := sameClients ▸ member
          refine ⟨old, ?_⟩
          rintro rfl
          exact absurd (listening ▸ old) events.listening
        · exact mem_clients_handleEvent rfl member listening
      simp only [step, reported]
      refine ⟨?_, ?_⟩
      · intro member
        apply events.listening
        rw [← server]
        exact (kept _ member).1
      · intro client member ready
        obtain ⟨old, received⟩ := kept client member
        by_cases same : client = fd
        · subst client
          rcases drains fd (by rw [reported]; rfl) with
            isRaised | ⟨few, unmixed⟩
          · exact Or.inl (Finset.mem_filter.mpr ⟨isRaised, member⟩)
          · simp only [Function.update_self] at ready
            exact absurd ready
              (not_isReady_afterRecv few unmixed (received rfl))
        · simp only [Function.update_of_ne same] at ready
          rcases events.pending client old ready with
            isRaised | isReported
          · exact Or.inl (Finset.mem_filter.mpr ⟨isRaised, member⟩)
          · rw [reported] at isReported
            exact Or.inr ((List.mem_cons.mp isReported).resolve_left same)

/-- One action. -/
theorem EventsPending.step
    {polled : PolledLoop G} {action : PolledAction}
    (events : EventsPending polled) (possible : polled.Possible action)
    (drains : polled.DrainsAtOnce action) :
    EventsPending (polled.step process action).1 := by
  cases action with
  | arrive fd extra =>
      exact events.raise fd _
  | endOfStream fd =>
      exact events.raise fd _
  | connect fd queue =>
      exact events.connect process possible.2 queue
  | wait batch =>
      exact events.wait process possible.1 batch
  | handle =>
      exact events.handle process drains
  | tick inputs =>
      apply events.withLoop
      · intro fd stays
        exact RunLoop.mem_clients_tick process stays
      · exact polled.toRunLoop.step_serverFd process (.tick inputs)
  | second inputs =>
      apply events.withLoop
      · intro fd stays
        exact RunLoop.mem_clients_second stays
      · exact polled.toRunLoop.step_serverFd process (.second inputs)

/-! ## Whole runs -/

/-- In a run in which every event is handled where one call of `recv` is
enough, every client is drained whenever all raised events are handled. -/
theorem drained_of_drainsAtOnce
    {polled : PolledLoop G} (started : polled.clients = [])
    {actions : List PolledAction}
    (possible :
      Mealy.Guarded (step process) Possible polled actions)
    (drains :
      Mealy.Guarded (step process) DrainsAtOnce polled actions) :
    Drained (polled.run process actions).1 := by
  have initially : EventsPending polled := by
    refine ⟨?_, ?_⟩
    · rw [started]
      exact List.not_mem_nil
    · intro fd client
      rw [started] at client
      exact absurd client List.not_mem_nil
  apply EventsPending.drained
  exact
    Mealy.run_invariant (step process)
      (fun polled _ => EventsPending polled)
      (fun _ _ _ guard events => events.step process guard.1 guard.2)
      initially (Mealy.guarded_and (step process) possible drains)

/-- A server that has just entered `run`. -/
def idle : PolledLoop Unit :=
  { RunLoop.idle with
    queues := fun _ => ⟨0, false⟩
    raised := ∅
    reported := [] }

/-- A client subscribes to a hundred symbols and leaves. -/
theorem drained_small_subscription :
    Drained
      (idle.run .still
        [.connect 5 ⟨0, false⟩, .arrive 5 202, .wait [5], .handle,
          .endOfStream 5, .wait [5], .handle]).1 := by
  apply drained_of_drainsAtOnce PriceProcess.still rfl
  · refine ⟨by decide, by decide, by decide, by decide, by decide,
      by decide, by decide, trivial⟩
  · refine ⟨trivial, trivial, trivial, ?_, trivial, trivial, ?_, trivial⟩
    · decide
    · decide

/-- The subscription of a client with three hundred symbols is 603 bytes long.
All events are handled, and 91 of them stay in the queue. -/
theorem not_drained_large_subscription :
    ¬ ∀ actions,
      Mealy.Guarded (step PriceProcess.still) Possible idle actions →
        Drained (idle.run .still actions).1 := by
  intro drained
  have client :=
    drained
      [.connect 5 ⟨0, false⟩, .arrive 5 602, .wait [5], .handle]
      ⟨by decide, by decide, by decide, by decide, trivial⟩
      (by decide) (by decide) 5 (by decide)
  exact absurd client.1 (by decide)

end PolledLoop

end MarketDataHandler
