import MarketDataHandler.Client.ReceiveLoop
import MarketDataHandler.Lib.Mealy

/-!
# The connection state of the client socket

`MarketDataSocket` and `RetrySocket` of `src/client/socket.cpp` with the
answers of the system as inputs.  The trace lists the descriptors that are
opened and closed and the events that decide whether the socket is connected.

`do_connect` closes the old descriptor first but does not clear `connected_`,
so an attempt that fails while the socket is connected leaves it marked.
-/

namespace MarketDataHandler

structure MarketDataSocket where
  fd : Int
  epollFd : Int
  connected : Bool
  deriving DecidableEq, Repr

/-- The answers of the system to one connection attempt. -/
structure ConnectAnswers where
  socket : Int
  inetPton : Int
  connect : Int
  /-- The error of `connect` is `EINPROGRESS`. -/
  inProgress : Bool
  epollCreate1 : Int
  epollWait : Int
  /-- The value of `SO_ERROR`. -/
  soError : Int
  deriving DecidableEq, Repr

inductive SocketEvent where
  /-- Result of `socket`. -/
  | socket (fd : Int)
  /-- Result of `epoll_create1`. -/
  | epollCreate1 (fd : Int)
  | close (fd : Int)
  /-- A connection attempt has ended. -/
  | attempt (succeeded : Bool)
  | disconnected
  /-- A call of `receive` has seen a close or a hard error. -/
  | lost
  | sleep (ms : UInt32)
  deriving DecidableEq, Repr

namespace MarketDataSocket

def new : MarketDataSocket where
  fd := -1
  epollFd := -1
  connected := false

/-- Close the descriptor of an earlier attempt. -/
def closeOld (sock : MarketDataSocket) : List SocketEvent :=
  if 0 ≤ sock.fd then [.close sock.fd] else []

/-- Create the epoll descriptor unless there is one. -/
def createEpoll (sock : MarketDataSocket) (answers : ConnectAnswers) :
    MarketDataSocket × List SocketEvent :=
  if sock.epollFd < 0 then
    ({ sock with epollFd := answers.epollCreate1 },
      [.epollCreate1 answers.epollCreate1])
  else
    (sock, [])

/-- Close the new descriptor and return without a connection. -/
def abandon (sock : MarketDataSocket) (fd : Int)
    (events : List SocketEvent) :
    MarketDataSocket × List SocketEvent × Bool :=
  ({ sock with fd := -1 }, events ++ [.close fd], false)

/-- The result of the function comes last. -/
def doConnect (sock : MarketDataSocket) (answers : ConnectAnswers) :
    MarketDataSocket × List SocketEvent × Bool :=
  let fd := answers.socket
  let opened : List SocketEvent := sock.closeOld ++ [.socket fd]
  if fd < 0 then
    ({ sock with fd := fd }, opened, false)
  else if answers.inetPton ≤ 0 then
    sock.abandon fd opened
  else if answers.connect < 0 ∧ answers.inProgress = false then
    sock.abandon fd opened
  else
    let polling := sock.createEpoll answers
    let created := opened ++ polling.2
    if polling.1.epollFd < 0 then
      -- The only exit that leaves the new descriptor open.
      ({ polling.1 with fd := fd }, created, false)
    else if answers.epollWait ≤ 0 then
      polling.1.abandon fd created
    else if answers.soError ≠ 0 then
      polling.1.abandon fd created
    else
      ({ polling.1 with fd := fd, connected := true }, created, true)

/-- The host and the port only matter for the answers. -/
def connect (sock : MarketDataSocket) (answers : ConnectAnswers) :
    MarketDataSocket × List SocketEvent × Bool :=
  let (next, events, result) := sock.doConnect answers
  (next, events ++ [.attempt result], result)

def receive (sock : MarketDataSocket) (buffer : ByteBuffer recvBufSize)
    (outcome : RecvOutcome) : MarketDataSocket × List SocketEvent :=
  let (connected, _, _) :=
    MarketDataHandler.receive sock.connected buffer outcome
  ({ sock with connected := connected },
    if sock.connected && outcome.ends then [.lost] else [])

def disconnect (sock : MarketDataSocket) :
    MarketDataSocket × List SocketEvent :=
  ({ fd := if 0 ≤ sock.fd then -1 else sock.fd
     epollFd := if 0 ≤ sock.epollFd then -1 else sock.epollFd
     connected := false },
    .disconnected ::
      ((if 0 ≤ sock.fd then [.close sock.fd] else []) ++
        if 0 ≤ sock.epollFd then [.close sock.epollFd] else []))

/-- The loop of `RetrySocket::connect_with_retry`, with the answers to each
attempt and the number of attempts that are left. -/
def retryLoop (answers : Nat → ConnectAnswers) :
    Nat → Nat → UInt32 → MarketDataSocket →
      MarketDataSocket × List SocketEvent × Bool
  | 0, _, _, sock => (sock, [], false)
  | left + 1, attempt, backoff, sock =>
      let (next, events, result) := sock.connect (answers attempt)
      if result then
        (next, events, true)
      else
        let (final, later, connected) :=
          retryLoop answers left (attempt + 1) (min (backoff * 2) 30000)
            next
        (final, events ++ .sleep backoff :: later, connected)

def connectWithRetry (maxRetries : Int) (baseBackoffMs : UInt32)
    (answers : Nat → ConnectAnswers) (sock : MarketDataSocket) :
    MarketDataSocket × List SocketEvent × Bool :=
  retryLoop answers maxRetries.toNat 0 baseBackoffMs sock

end MarketDataSocket

inductive SocketCall where
  | connect (answers : ConnectAnswers)
  | connectWithRetry (maxRetries : Int) (baseBackoffMs : UInt32)
      (answers : Nat → ConnectAnswers)
  | receive (buffer : ByteBuffer recvBufSize) (outcome : RecvOutcome)
  | disconnect

namespace MarketDataSocket

def step (sock : MarketDataSocket) :
    SocketCall → MarketDataSocket × List SocketEvent
  | .connect answers =>
      ((sock.connect answers).1, (sock.connect answers).2.1)
  | .connectWithRetry maxRetries baseBackoffMs answers =>
      ((connectWithRetry maxRetries baseBackoffMs answers sock).1,
        (connectWithRetry maxRetries baseBackoffMs answers sock).2.1)
  | .receive buffer outcome => sock.receive buffer outcome
  | .disconnect => sock.disconnect

def run (sock : MarketDataSocket) (calls : List SocketCall) :
    MarketDataSocket × List SocketEvent :=
  Mealy.run step sock calls

end MarketDataSocket

/-! ## What the trace says -/

namespace SocketEvent

/-- The event decides anew whether the socket is connected. -/
def decides : SocketEvent → Bool
  | .attempt _ => true
  | .disconnected => true
  | .lost => true
  | _ => false

/-- Whether a descriptor is open after one more event. -/
def opens (fd : Int) (isOpen : Bool) : SocketEvent → Bool
  | .socket result => isOpen || (decide (0 ≤ fd) && decide (result = fd))
  | .epollCreate1 result =>
      isOpen || (decide (0 ≤ fd) && decide (result = fd))
  | .close closed => isOpen && decide (closed ≠ fd)
  | _ => isOpen

end SocketEvent

/-- The most recent attempt succeeded, and nothing has ended the connection
since. -/
def ShouldBeConnected (trace : List SocketEvent) : Prop :=
  ∃ before since,
    trace = before ++ .attempt true :: since ∧
      ∀ event ∈ since, event.decides = false

/-- The descriptor was opened and not closed since. -/
def IsOpen (fd : Int) (trace : List SocketEvent) : Prop :=
  trace.foldl (SocketEvent.opens fd) false = true

/-- What is promised about a socket after the events of a trace. -/
structure SocketConsistent (sock : MarketDataSocket)
    (trace : List SocketEvent) : Prop where
  marked : sock.connected = true ↔ ShouldBeConnected trace
  descriptor :
    sock.connected = true → 0 ≤ sock.fd ∧ IsOpen sock.fd trace

theorem shouldBeConnected_concat
    (trace : List SocketEvent) (event : SocketEvent) :
    ShouldBeConnected (trace ++ [event]) ↔
      event = .attempt true ∨
        (event.decides = false ∧ ShouldBeConnected trace) := by
  constructor
  · intro connected
    obtain ⟨before, since, split, quiet⟩ := connected
    rcases List.eq_nil_or_concat since with empty | ⟨earlier, last, tail⟩
    · rw [empty] at split
      exact Or.inl (List.concat_inj.mp (by simpa using split)).2
    · rw [tail, List.concat_eq_append, ← List.cons_append,
        ← List.append_assoc] at split
      obtain ⟨front, same⟩ := List.append_inj' split rfl
      cases same
      rw [tail] at quiet
      refine Or.inr ⟨quiet event (by simp), before, earlier, front, ?_⟩
      intro other member
      exact quiet other (by simp [member])
  · intro last
    rcases last with succeeded | ⟨quiet, before, since, split, rest⟩
    · exact ⟨trace, [], by rw [succeeded], fun _ member => by cases member⟩
    · refine ⟨before, since ++ [event], by simp [split], ?_⟩
      intro other member
      rcases List.mem_append.mp member with earlier | here
      · exact rest other earlier
      · rw [List.mem_singleton.mp here]
        exact quiet

theorem quiet_concat
    {events : List SocketEvent}
    (quiet : ∀ event ∈ events, event.decides = false)
    {last : SocketEvent} (undecided : last.decides = false) :
    ∀ event ∈ events ++ [last], event.decides = false := by
  rw [List.forall_mem_append]
  exact ⟨quiet, List.forall_mem_singleton.mpr undecided⟩

/-- An event that only happens under a condition. -/
theorem forall_mem_optional
    {property : SocketEvent → Prop} (condition : Prop)
    [Decidable condition] {event : SocketEvent} (holds : property event) :
    ∀ other ∈ (if condition then [event] else []), property other := by
  split
  · exact List.forall_mem_singleton.mpr holds
  · exact List.forall_mem_nil _

/-- Events that decide nothing change nothing. -/
theorem shouldBeConnected_append_quiet
    (trace : List SocketEvent) {events : List SocketEvent}
    (quiet : ∀ event ∈ events, event.decides = false) :
    ShouldBeConnected (trace ++ events) ↔ ShouldBeConnected trace := by
  induction events generalizing trace with
  | nil =>
      rw [List.append_nil]
  | cons event events inductionHypothesis =>
      have here := quiet event List.mem_cons_self
      rw [List.append_cons, inductionHypothesis (trace ++ [event])
        (fun other member => quiet other (List.mem_cons_of_mem _ member)),
        shouldBeConnected_concat]
      constructor
      · intro either
        rcases either with attempt | ⟨_, connected⟩
        · rw [attempt] at here
          cases here
        · exact connected
      · intro connected
        exact Or.inr ⟨here, connected⟩

/-! ## One attempt -/

namespace ConnectAnswers

/-- The attempt gets past the call of `connect`. -/
def pending (answers : ConnectAnswers) : Bool :=
  decide (0 ≤ answers.socket) && decide (0 < answers.inetPton) &&
    (decide (0 ≤ answers.connect) || answers.inProgress)

/-- The epoll descriptor after an attempt. -/
def epollAfter (answers : ConnectAnswers) (epollFd : Int) : Int :=
  if answers.pending = true ∧ epollFd < 0 then
    answers.epollCreate1
  else
    epollFd

/-- The answers let an attempt succeed, given the epoll descriptor in front of
it. -/
def succeeds (answers : ConnectAnswers) (epollFd : Int) : Bool :=
  answers.pending && decide (0 ≤ answers.epollAfter epollFd) &&
    decide (0 < answers.epollWait) && decide (answers.soError = 0)

theorem not_pending
    {answers : ConnectAnswers} (stopped : answers.pending = false)
    (epollFd : Int) :
    answers.epollAfter epollFd = epollFd ∧
      answers.succeeds epollFd = false := by
  simp [epollAfter, succeeds, stopped]

end ConnectAnswers

namespace MarketDataSocket

theorem closeOld_quiet (sock : MarketDataSocket) :
    ∀ event ∈ sock.closeOld, event.decides = false :=
  forall_mem_optional _ rfl

theorem createEpoll_events
    (sock : MarketDataSocket) (answers : ConnectAnswers) :
    ∀ event ∈ (sock.createEpoll answers).2,
      event = .epollCreate1 answers.epollCreate1 := by
  rw [createEpoll, apply_ite Prod.snd]
  exact forall_mem_optional _ rfl

/-- What `do_connect` can do: a failing exit leaves `connected_` alone, and the
last one sets it. -/
inductive Attempted (sock : MarketDataSocket) (answers : ConnectAnswers) :
    MarketDataSocket × List SocketEvent × Bool → Prop
  | failed {fd : Int} {events : List SocketEvent} :
      answers.succeeds sock.epollFd = false →
      (∀ event ∈ events, event.decides = false) →
      Attempted sock answers
        (⟨fd, answers.epollAfter sock.epollFd, sock.connected⟩, events,
          false)
  | succeeded {created : List SocketEvent} :
      answers.succeeds sock.epollFd = true →
      0 ≤ answers.socket →
      (∀ event ∈ created,
        event = .epollCreate1 answers.epollCreate1) →
      Attempted sock answers
        (⟨answers.socket, answers.epollAfter sock.epollFd, true⟩,
          sock.closeOld ++ [.socket answers.socket] ++ created, true)

theorem createEpoll_eq
    (sock : MarketDataSocket) {answers : ConnectAnswers}
    (pending : answers.pending = true) :
    (sock.createEpoll answers).1 =
      ⟨sock.fd, answers.epollAfter sock.epollFd, sock.connected⟩ := by
  rw [createEpoll, ConnectAnswers.epollAfter]
  by_cases missing : sock.epollFd < 0
  · rw [if_pos missing, if_pos ⟨pending, missing⟩]
  · rw [if_neg missing, if_neg (fun both => missing both.2)]

theorem doConnect_attempted
    (sock : MarketDataSocket) (answers : ConnectAnswers) :
    Attempted sock answers (sock.doConnect answers) := by
  have opened :
      ∀ event ∈ sock.closeOld ++ [.socket answers.socket],
        event.decides = false :=
    quiet_concat sock.closeOld_quiet rfl
  have created :
      ∀ event ∈
        sock.closeOld ++ [.socket answers.socket] ++
          (sock.createEpoll answers).2,
        event.decides = false := by
    rw [List.forall_mem_append]
    refine ⟨opened, ?_⟩
    intro event member
    rw [sock.createEpoll_events answers event member]
    rfl
  -- The exits in front of the epoll descriptor.
  have early {fd : Int} {events : List SocketEvent}
      (stopped : answers.pending = false)
      (quiet : ∀ event ∈ events, event.decides = false) :
      Attempted sock answers
        (⟨fd, sock.epollFd, sock.connected⟩, events, false) := by
    obtain ⟨same, fails⟩ := answers.not_pending stopped sock.epollFd
    have exit := @Attempted.failed sock answers fd events fails quiet
    rwa [same] at exit
  rw [doConnect]
  by_cases noSocket : answers.socket < 0
  · rw [if_pos noSocket]
    exact early (by simp [ConnectAnswers.pending, noSocket]) opened
  rw [if_neg noSocket]
  by_cases badAddress : answers.inetPton ≤ 0
  · rw [if_pos badAddress]
    exact early (by simp [ConnectAnswers.pending, badAddress])
      (quiet_concat opened rfl)
  rw [if_neg badAddress]
  by_cases refused : answers.connect < 0 ∧ answers.inProgress = false
  · rw [if_pos refused]
    exact early (by simp [ConnectAnswers.pending, refused])
      (quiet_concat opened rfl)
  rw [if_neg refused]
  have pending : answers.pending = true := by
    rw [not_and_or, Bool.not_eq_false] at refused
    simp only [ConnectAnswers.pending, Bool.and_eq_true, Bool.or_eq_true,
      decide_eq_true_eq]
    exact ⟨⟨by omega, by omega⟩, refused.imp_left Int.not_lt.mp⟩
  simp only [sock.createEpoll_eq pending]
  by_cases noEpoll : answers.epollAfter sock.epollFd < 0
  · rw [if_pos noEpoll]
    exact Attempted.failed
      (by simp [ConnectAnswers.succeeds, noEpoll]) created
  rw [if_neg noEpoll]
  by_cases timeout : answers.epollWait ≤ 0
  · rw [if_pos timeout]
    exact Attempted.failed
      (by simp [ConnectAnswers.succeeds, timeout])
      (quiet_concat created rfl)
  rw [if_neg timeout]
  by_cases error : answers.soError ≠ 0
  · rw [if_pos error]
    exact Attempted.failed
      (by simp [ConnectAnswers.succeeds, error])
      (quiet_concat created rfl)
  rw [if_neg error]
  refine Attempted.succeeded ?_ (by omega)
    (sock.createEpoll_events answers)
  simp only [ConnectAnswers.succeeds, pending, Bool.true_and,
    Bool.and_eq_true, decide_eq_true_eq]
  omega

/-! ## Calls with attempts -/

/-- What a call with attempts leaves: an attempt that succeeds sets the mark and
leaves an open descriptor, and others leave the mark alone. -/
structure Settles (sock : MarketDataSocket) (trace : List SocketEvent)
    (connects : Bool)
    (result : MarketDataSocket × List SocketEvent × Bool) : Prop where
  connected : result.1.connected = (sock.connected || connects)
  should :
    ShouldBeConnected (trace ++ result.2.1) ↔ connects = true
  descriptor :
    connects = true →
      0 ≤ result.1.fd ∧ IsOpen result.1.fd (trace ++ result.2.1)

theorem isOpen_append_created
    {fd : Int} {trace created : List SocketEvent} (isOpen : IsOpen fd trace)
    {epollFd : Int}
    (onlyEpoll : ∀ event ∈ created, event = .epollCreate1 epollFd) :
    IsOpen fd (trace ++ created) := by
  induction created generalizing trace with
  | nil =>
      rw [List.append_nil]
      exact isOpen
  | cons event created inductionHypothesis =>
      rw [List.append_cons]
      apply inductionHypothesis
      · rw [onlyEpoll event List.mem_cons_self, IsOpen, List.foldl_concat,
          show trace.foldl (SocketEvent.opens fd) false = true from isOpen]
        rfl
      · intro other member
        exact onlyEpoll other (List.mem_cons_of_mem event member)

theorem connect_settles
    (sock : MarketDataSocket) (trace : List SocketEvent)
    (answers : ConnectAnswers) :
    Settles sock trace (answers.succeeds sock.epollFd)
        (sock.connect answers) ∧
      (sock.connect answers).1.epollFd =
        answers.epollAfter sock.epollFd ∧
      (sock.connect answers).2.2 = answers.succeeds sock.epollFd := by
  have attempted := sock.doConnect_attempted answers
  rw [connect]
  generalize sock.doConnect answers = result at attempted
  cases attempted with
  | @failed fd events fails quiet =>
      rw [fails]
      refine ⟨⟨(Bool.or_false _).symm, ?_, fun impossible => ?_⟩, rfl, rfl⟩
      · rw [← List.append_assoc, shouldBeConnected_concat]
        simp [SocketEvent.decides]
      · cases impossible
  | @succeeded created succeeds valid onlyEpoll =>
      rw [succeeds]
      refine ⟨⟨(Bool.or_true _).symm, ?_, fun _ => ⟨valid, ?_⟩⟩, rfl, rfl⟩
      · rw [← List.append_assoc, shouldBeConnected_concat]
        simp
      · have opened :
            IsOpen answers.socket
              (trace ++ (sock.closeOld ++ [.socket answers.socket])) := by
          rw [IsOpen, ← List.append_assoc, List.foldl_concat]
          simp [SocketEvent.opens, valid]
        have polled := isOpen_append_created opened onlyEpoll
        rw [← List.append_assoc, ← List.append_assoc, IsOpen,
          List.foldl_concat]
        exact polled

/-- One of the attempts that are left succeeds. -/
def someSucceeds (answers : Nat → ConnectAnswers) :
    Nat → Nat → Int → Bool
  | 0, _, _ => false
  | left + 1, attempt, epollFd =>
      (answers attempt).succeeds epollFd ||
        someSucceeds answers left (attempt + 1)
          ((answers attempt).epollAfter epollFd)

/-- One attempt and the rest of the loop, which only runs if the attempt
failed. -/
theorem retryLoop_settles_succ
    {answers : Nat → ConnectAnswers} {left attempt : Nat}
    {backoff : UInt32}
    (rest :
      ∀ (sock : MarketDataSocket) (trace : List SocketEvent),
        ¬ ShouldBeConnected trace →
          Settles sock trace
            (someSucceeds answers left (attempt + 1) sock.epollFd)
            (retryLoop answers left (attempt + 1)
              (min (backoff * 2) 30000) sock))
    (sock : MarketDataSocket) (trace : List SocketEvent) :
    Settles sock trace
      (someSucceeds answers (left + 1) attempt sock.epollFd)
      (retryLoop answers (left + 1) attempt backoff sock) := by
  obtain ⟨settles, epollFd, result⟩ :=
    sock.connect_settles trace (answers attempt)
  rw [retryLoop, someSucceeds]
  simp only
  by_cases succeeds : (answers attempt).succeeds sock.epollFd = true
  · rw [succeeds] at settles
    rw [result, if_pos succeeds, succeeds, Bool.true_or]
    exact ⟨settles.connected, settles.should, settles.descriptor⟩
  · rw [Bool.not_eq_true] at succeeds
    rw [succeeds] at settles
    have unset :
        ¬ ShouldBeConnected
          (trace ++ (sock.connect (answers attempt)).2.1 ++
            [.sleep backoff]) := by
      rw [shouldBeConnected_append_quiet _
        (List.forall_mem_singleton.mpr rfl), settles.should]
      decide
    have later := rest (sock.connect (answers attempt)).1 _ unset
    rw [epollFd] at later
    rw [result, succeeds, Bool.false_or, if_neg (by decide)]
    have joined (events : List SocketEvent) :
        trace ++
            ((sock.connect (answers attempt)).2.1 ++
              .sleep backoff :: events) =
          trace ++ (sock.connect (answers attempt)).2.1 ++
            [.sleep backoff] ++ events := by
      simp
    refine ⟨?_, ?_, ?_⟩
    · rw [later.connected, settles.connected, Bool.or_false]
    · rw [joined]
      exact later.should
    · rw [joined]
      exact later.descriptor

/-- The loop behind a failed attempt. -/
theorem retryLoop_settles_of_failed
    (answers : Nat → ConnectAnswers) (left attempt : Nat)
    (backoff : UInt32) (sock : MarketDataSocket)
    (trace : List SocketEvent) (unset : ¬ ShouldBeConnected trace) :
    Settles sock trace
      (someSucceeds answers left attempt sock.epollFd)
      (retryLoop answers left attempt backoff sock) := by
  induction left generalizing attempt backoff sock trace with
  | zero =>
      rw [retryLoop, someSucceeds]
      refine ⟨(Bool.or_false _).symm, ?_, ?_⟩
      · rw [List.append_nil]
        simp [unset]
      · intro impossible
        cases impossible
  | succ left inductionHypothesis =>
      exact retryLoop_settles_succ (inductionHypothesis _ _) sock trace

/-- The loop around the attempts, if there is any. -/
theorem retryLoop_settles
    (answers : Nat → ConnectAnswers) (left attempt : Nat)
    (backoff : UInt32) (sock : MarketDataSocket)
    (trace : List SocketEvent) :
    Settles sock trace
      (someSucceeds answers (left + 1) attempt sock.epollFd)
      (retryLoop answers (left + 1) attempt backoff sock) :=
  retryLoop_settles_succ
    (retryLoop_settles_of_failed answers left _ _) sock trace

/-! ## The state after every call -/

/-- A call that makes connection attempts while the socket is connected, none of
which succeeds. -/
def FailsWhileConnected (sock : MarketDataSocket) : SocketCall → Prop
  | .connect answers =>
      sock.connected = true ∧ answers.succeeds sock.epollFd = false
  | .connectWithRetry maxRetries _ answers =>
      sock.connected = true ∧ 0 < maxRetries ∧
        someSucceeds answers maxRetries.toNat 0 sock.epollFd = false
  | _ => False

theorem Settles.consistent_iff
    {sock : MarketDataSocket} {trace : List SocketEvent} {connects : Bool}
    {result : MarketDataSocket × List SocketEvent × Bool}
    (settles : Settles sock trace connects result) :
    SocketConsistent result.1 (trace ++ result.2.1) ↔
      ¬ (sock.connected = true ∧ connects = false) := by
  cases connects with
  | true =>
      have connected := settles.connected
      rw [Bool.or_true] at connected
      constructor
      · intro _ fails
        cases fails.2
      · intro _
        exact
          { marked := by
              rw [connected, settles.should]
            descriptor := fun _ => settles.descriptor rfl }
  | false =>
      have connected := settles.connected
      rw [Bool.or_false] at connected
      have should :
          ¬ ShouldBeConnected (trace ++ result.2.1) := by
        rw [settles.should]
        decide
      constructor
      · intro consistent marked
        exact should (consistent.marked.mp (connected.trans marked.1))
      · intro unmarked
        have clear : ¬ result.1.connected = true := by
          rw [connected]
          exact fun marked => unmarked ⟨marked, rfl⟩
        exact
          { marked := ⟨fun marked => absurd marked clear,
              fun connected => absurd connected should⟩
            descriptor := fun marked => absurd marked clear }

/-- A socket that is not connected, after an event that ended it. -/
theorem consistent_of_ended
    {sock : MarketDataSocket} (clear : sock.connected = false)
    (trace : List SocketEvent) {event : SocketEvent}
    (ends : event.decides = true) (notAttempt : event ≠ .attempt true)
    {events : List SocketEvent}
    (quiet : ∀ event ∈ events, event.decides = false) :
    SocketConsistent sock (trace ++ event :: events) := by
  have should : ¬ ShouldBeConnected (trace ++ event :: events) := by
    rw [List.append_cons, shouldBeConnected_append_quiet _ quiet,
      shouldBeConnected_concat, ends]
    simp [notAttempt]
  exact
    { marked := by
        rw [clear]
        constructor
        · intro impossible
          cases impossible
        · intro connected
          exact absurd connected should
      descriptor := by
        intro marked
        rw [clear] at marked
        cases marked }

theorem receive_consistent
    {sock : MarketDataSocket} {trace : List SocketEvent}
    (consistent : SocketConsistent sock trace)
    (buffer : ByteBuffer recvBufSize) (outcome : RecvOutcome) :
    SocketConsistent (sock.receive buffer outcome).1
      (trace ++ (sock.receive buffer outcome).2) := by
  obtain ⟨fd, epollFd, connected⟩ := sock
  cases connected with
  | false =>
      rw [receive]
      simpa [MarketDataHandler.receive] using consistent
  | true =>
      cases outcome with
      | data received =>
          simpa [receive, MarketDataHandler.receive, RecvOutcome.ends]
            using consistent
      | wouldBlock =>
          simpa [receive, MarketDataHandler.receive, RecvOutcome.ends]
            using consistent
      | closed =>
          exact consistent_of_ended rfl trace rfl (by decide)
            (List.forall_mem_nil _)
      | hardError =>
          exact consistent_of_ended rfl trace rfl (by decide)
            (List.forall_mem_nil _)

theorem disconnect_consistent
    (sock : MarketDataSocket) (trace : List SocketEvent) :
    SocketConsistent sock.disconnect.1 (trace ++ sock.disconnect.2) := by
  apply consistent_of_ended rfl trace rfl (by decide)
  rw [List.forall_mem_append]
  exact ⟨forall_mem_optional _ rfl, forall_mem_optional _ rfl⟩

/-- One call keeps the state consistent exactly if it does not fail to connect a
connected socket. -/
theorem consistent_step_iff
    {sock : MarketDataSocket} {trace : List SocketEvent}
    (consistent : SocketConsistent sock trace) (call : SocketCall) :
    SocketConsistent (sock.step call).1 (trace ++ (sock.step call).2) ↔
      ¬ sock.FailsWhileConnected call := by
  cases call with
  | connect answers =>
      exact (sock.connect_settles trace answers).1.consistent_iff
  | connectWithRetry maxRetries baseBackoffMs answers =>
      cases attempts : maxRetries.toNat with
      | zero =>
          have none_ : ¬ 0 < maxRetries := by
            omega
          simp only [step, connectWithRetry, FailsWhileConnected, attempts,
            none_, false_and, and_false, not_false_iff, iff_true]
          rw [retryLoop, List.append_nil]
          exact consistent
      | succ left =>
          have some_ : 0 < maxRetries := by
            omega
          simp only [step, connectWithRetry, FailsWhileConnected, attempts,
            some_, true_and]
          exact (retryLoop_settles answers left 0 baseBackoffMs sock
            trace).consistent_iff
  | receive buffer outcome =>
      exact ⟨fun _ => id, fun _ =>
        receive_consistent consistent buffer outcome⟩
  | disconnect =>
      exact ⟨fun _ => id, fun _ => sock.disconnect_consistent trace⟩

/-- From a consistent state on. -/
theorem consistent_run_iff
    {sock : MarketDataSocket} {trace : List SocketEvent}
    (consistent : SocketConsistent sock trace) (calls : List SocketCall) :
    (∀ taken rest, calls = taken ++ rest →
        SocketConsistent (sock.run taken).1
          (trace ++ (sock.run taken).2)) ↔
      Mealy.Guarded step
        (fun sock call => ¬ sock.FailsWhileConnected call) sock calls := by
  induction calls generalizing sock trace with
  | nil =>
      refine ⟨fun _ => trivial, ?_⟩
      intro _ taken rest split
      rw [(List.nil_eq_append_iff.mp split).1, run, Mealy.run_nil,
        List.append_nil]
      exact consistent
  | cons call calls inductionHypothesis =>
      have first := consistent_step_iff consistent call
      have shift (taken : List SocketCall) :
          sock.run (call :: taken) =
            (((sock.step call).1.run taken).1,
              (sock.step call).2 ++ ((sock.step call).1.run taken).2) :=
        Mealy.run_cons _ _ _ _
      constructor
      · intro always
        have next := always [call] calls rfl
        rw [shift, run, Mealy.run_nil, List.append_nil] at next
        refine ⟨first.mp next, (inductionHypothesis next).mp ?_⟩
        intro taken rest split
        have later := always (call :: taken) rest (by rw [split]; rfl)
        rw [shift, ← List.append_assoc] at later
        exact later
      · intro guarded taken rest split
        have next := first.mpr guarded.1
        cases taken with
        | nil =>
            rw [run, Mealy.run_nil, List.append_nil]
            exact consistent
        | cons other taken =>
            obtain ⟨rfl, same⟩ := List.cons.inj split
            have later :=
              (inductionHypothesis next).mpr guarded.2 taken rest same
            rw [shift, ← List.append_assoc]
            exact later

end MarketDataSocket

/-- After every call of a sequence the socket is marked as connected exactly if
it should be, and then has an open descriptor, if and only if no call of the
sequence fails to connect a socket that is connected. -/
theorem socket_consistent_iff (calls : List SocketCall) :
    (∀ taken rest, calls = taken ++ rest →
        SocketConsistent (MarketDataSocket.new.run taken).1
          (MarketDataSocket.new.run taken).2) ↔
      Mealy.Guarded MarketDataSocket.step
        (fun sock call => ¬ sock.FailsWhileConnected call)
        MarketDataSocket.new calls := by
  have start : SocketConsistent MarketDataSocket.new [] :=
    { marked := by
        constructor
        · intro impossible
          cases impossible
        · intro connected
          obtain ⟨before, since, split, _⟩ := connected
          simp at split
      descriptor := by
        intro impossible
        cases impossible }
  exact MarketDataSocket.consistent_run_iff start calls

/-- The answers to an attempt that succeeds with the given descriptor. -/
def answersOk (fd : Int) : ConnectAnswers where
  socket := fd
  inetPton := 1
  connect := -1
  inProgress := true
  epollCreate1 := 4
  epollWait := 1
  soError := 0

/-- The answers to an attempt that is refused at once. -/
def answersRefused (fd : Int) : ConnectAnswers where
  socket := fd
  inetPton := 1
  connect := -1
  inProgress := false
  epollCreate1 := 4
  epollWait := 1
  soError := 0

/-- A socket that is connected and then fails to connect again is still marked
as connected, without a descriptor. -/
theorem socket_marked_without_descriptor :
    let result :=
      MarketDataSocket.new.run
        [.connect (answersOk 3), .connect (answersRefused 5)]
    result.1.connected = true ∧ result.1.fd = -1 ∧
      ¬ SocketConsistent result.1 result.2 := by
  intro result
  have marked : result.1.connected = true := by
    decide
  have closed : result.1.fd = -1 := by
    decide
  refine ⟨marked, closed, ?_⟩
  intro consistent
  have valid := (consistent.descriptor marked).1
  rw [closed] at valid
  exact absurd valid (by decide)

end MarketDataHandler
