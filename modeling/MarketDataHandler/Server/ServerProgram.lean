import MarketDataHandler.Lib.HandleLedger
import MarketDataHandler.Server.Bookkeeping

/-!
# The server program and its descriptors

`main` of the server: `start` opens the listening socket and the epoll
instance or throws on the way, `run` serves clients until it is stopped, and
the destructor closes what `start` opened.  Whatever the system answers, only
open descriptors are closed, and what is left open at the end are the
connections of the clients that are still there; after a failed start nothing
is.
-/

namespace MarketDataHandler

open HandleLedger (Fresh ReleasesOpen replay)

/-! ## Start and destruction -/

/-- The answers to the calls of `start`; negative ones are errors. -/
structure StartAnswers where
  socket : Int
  bind : Int
  /-- The text of the error of `bind`. -/
  strerror : String
  listen : Int
  getFlags : Int
  setFlags : Int
  epollCreate1 : Int

inductive ServerCall where
  | socket (result : Int)
  | bind (result : Int)
  | listen (result : Int)
  | getFlags (result : Int)
  | setFlags (result : Int)
  | epollCreate1 (result : Int)
  | epollAdd (fd : Int)
  | loop (output : LoopOutput)
  | close (fd : Int)
  deriving DecidableEq, Repr

/-- The simulator behind a call of `start`, with the text of the exception. -/
structure Startup where
  serverFd : Int
  epollFd : Int
  calls : List ServerCall
  error : Option String

namespace StartAnswers

/-- `set_nonblocking` -/
def setNonblocking (answers : StartAnswers) :
    List ServerCall × Option String :=
  if answers.getFlags < 0 then
    ([.getFlags answers.getFlags], some "fcntl F_GETFL")
  else
    ([.getFlags answers.getFlags, .setFlags answers.setFlags],
      if answers.setFlags < 0 then some "fcntl F_SETFL" else none)

/-- The part of `start` behind `listen`. -/
def startEpoll (answers : StartAnswers) (calls : List ServerCall) :
    Startup :=
  let nonblocking := answers.setNonblocking
  if nonblocking.2.isSome then
    { serverFd := answers.socket
      epollFd := -1
      calls := calls ++ nonblocking.1
      error := nonblocking.2 }
  else if answers.epollCreate1 < 0 then
    { serverFd := answers.socket
      epollFd := answers.epollCreate1
      calls :=
        calls ++ nonblocking.1 ++ [.epollCreate1 answers.epollCreate1]
      error := some "epoll_create1()" }
  else
    { serverFd := answers.socket
      epollFd := answers.epollCreate1
      calls :=
        calls ++ nonblocking.1 ++
          [.epollCreate1 answers.epollCreate1, .epollAdd answers.socket]
      error := none }

def start (answers : StartAnswers) : Startup :=
  if answers.socket < 0 then
    { serverFd := answers.socket
      epollFd := -1
      calls := [.socket answers.socket]
      error := some "socket()" }
  else if answers.bind < 0 then
    { serverFd := answers.socket
      epollFd := -1
      calls := [.socket answers.socket, .bind answers.bind]
      error := some ("bind(): " ++ answers.strerror) }
  else if answers.listen < 0 then
    { serverFd := answers.socket
      epollFd := -1
      calls :=
        [.socket answers.socket, .bind answers.bind,
          .listen answers.listen]
      error := some "listen()" }
  else
    answers.startEpoll
      [.socket answers.socket, .bind answers.bind, .listen answers.listen]

end StartAnswers

/-- The calls of the destructor. -/
def Startup.destroy (startup : Startup) : List ServerCall :=
  (if 0 ≤ startup.serverFd then [.close startup.serverFd] else []) ++
    if 0 ≤ startup.epollFd then [.close startup.epollFd] else []

/-! ## Descriptors -/

/-- The descriptor that the loop opens or closes with a call. -/
def LoopOutput.handles : LoopOutput → List (HandleLedger.Event Nat)
  | .accept (some fd) => [.acquire fd]
  | .close fd => [.release fd]
  | _ => []

/-- The descriptor that a call opens or closes. -/
def ServerCall.handles : ServerCall → List (HandleLedger.Event Nat)
  | .socket result => if 0 ≤ result then [.acquire result.toNat] else []
  | .epollCreate1 result =>
      if 0 ≤ result then [.acquire result.toNat] else []
  | .loop output => output.handles
  | .close fd => [.release fd.toNat]
  | _ => []

def loopHandles (trace : List LoopOutput) :
    List (HandleLedger.Event Nat) :=
  trace.flatMap LoopOutput.handles

def serverHandles (calls : List ServerCall) :
    List (HandleLedger.Event Nat) :=
  calls.flatMap ServerCall.handles

/-! ## The program -/

/-- What a run of the server starts from. -/
structure ServerProgram (G : Type) where
  process : PriceProcess G
  gen : G
  symbolCount : Nat
  symbolCount_pos : 0 < symbolCount
  /-- The descriptors that are open before `main`. -/
  inherited : Finset Nat
  answers : StartAnswers
  /-- The reading of the clock when `run` is entered. -/
  entered : Nat

structure ServerExit where
  calls : List ServerCall
  /-- What is printed behind `[Server] Fatal: `. -/
  fatal : Option String
  code : Nat

namespace ServerProgram

variable {G : Type} (program : ServerProgram G)

/-- The simulator when `run` is entered, on its kernel. -/
def entry : HostedLoop G where
  clients := []
  nodup := List.nodup_nil
  slowClients := []
  symbolCount := program.symbolCount
  symbolCount_pos := program.symbolCount_pos
  faultInjection := false
  seqNo := 1
  serverFd := program.answers.socket.toNat
  gen := program.gen
  lastTick := program.entered
  ticksThisSecond := 0
  kernel :=
    { opened :=
        replay program.inherited
          (serverHandles program.answers.start.calls)
      registered := {program.answers.socket.toNat} }

def run (iterations : List Iteration) :
    HostedLoop G × List LoopOutput :=
  Mealy.run (HostedLoop.iterate program.process) program.entry iterations

def main (iterations : List Iteration) : ServerExit :=
  let startup := program.answers.start
  if startup.error.isSome then
    { calls := startup.calls ++ startup.destroy
      fatal := startup.error
      code := 1 }
  else
    { calls :=
        startup.calls ++ (program.run iterations).2.map .loop ++
          startup.destroy
      fatal := none
      code := 0 }

/-- The clients that are connected when the program ends. -/
def clientsLeft (iterations : List Iteration) : List Nat :=
  if program.answers.start.error.isSome then
    []
  else
    (program.run iterations).1.clients

end ServerProgram

/-! ## The loop -/

theorem loopHandles_append (first second : List LoopOutput) :
    loopHandles (first ++ second) =
      loopHandles first ++ loopHandles second :=
  List.flatMap_append

theorem replay_loopHandles
    (opened : Finset Nat) (trace : List LoopOutput) :
    replay opened (loopHandles trace) =
      trace.foldl connectionsAfter opened := by
  induction trace generalizing opened with
  | nil =>
      rfl
  | cons call trace inductionHypothesis =>
      rw [loopHandles, List.flatMap_cons, HandleLedger.replay_append,
        List.foldl_cons, ← inductionHypothesis]
      congr 1
      cases call with
      | accept result =>
          cases result <;> rfl
      | _ =>
          rfl

theorem releasesOpen_loopHandles
    {opened : Finset Nat} {trace : List LoopOutput}
    (uses : UsesOpen opened trace) :
    ReleasesOpen opened (loopHandles trace) := by
  induction trace generalizing opened with
  | nil =>
      trivial
  | cons call trace inductionHypothesis =>
      obtain ⟨now, later⟩ := uses
      have rest := inductionHypothesis later
      cases call with
      | accept result =>
          cases result <;> exact rest
      | close fd =>
          exact ⟨now fd rfl, rest⟩
      | _ =>
          exact rest

theorem opened_foldl_after (kernel : Kernel) (calls : List LoopOutput) :
    (calls.foldl Kernel.after kernel).opened =
      calls.foldl connectionsAfter kernel.opened := by
  induction calls generalizing kernel with
  | nil =>
      rfl
  | cons call calls inductionHypothesis =>
      exact inductionHypothesis (kernel.after call)

/-- Calls that accept nobody open nothing. -/
theorem fresh_of_accepts_nobody
    {outputs : List LoopOutput}
    (nobody : ∀ fd, .accept (some fd) ∉ outputs) (opened : Finset Nat) :
    Fresh opened (loopHandles outputs) := by
  apply HandleLedger.fresh_of_releases
  intro fd acquired
  obtain ⟨output, member, opens⟩ := List.mem_flatMap.mp acquired
  cases output with
  | accept result =>
      cases result with
      | none =>
          cases opens
      | some newcomer =>
          exact nobody newcomer member
  | close other =>
      cases List.mem_singleton.mp opens
  | _ =>
      cases opens

theorem accept_notMem_broadcastCalls
    (clients : List Nat) (data : List UInt8)
    (sends : Nat → List SendOutcome) (result : Option Nat) :
    .accept result ∉ broadcastCalls clients data sends := by
  intro member
  rcases List.mem_append.mp member with sent | closed
  · obtain ⟨fd, _, called⟩ := List.mem_flatMap.mp sent
    obtain ⟨call, _, impossible⟩ := List.mem_map.mp called
    cases impossible
  · obtain ⟨fd, _, called⟩ := List.mem_flatMap.mp closed
    simp [disconnectCalls] at called

theorem RunLoop.Publishes.accept_notMem
    {G : Type} {loop : RunLoop G} {sends : Nat → List SendOutcome}
    {result : RunLoop G × List LoopOutput}
    (publishes : Publishes loop sends result) (accepted : Option Nat) :
    .accept accepted ∉ result.2 := by
  cases publishes with
  | silent =>
      exact List.not_mem_nil
  | message seqNo gen data =>
      exact accept_notMem_broadcastCalls _ _ _ accepted

namespace HostedLoop

variable {G : Type} (process : PriceProcess G)

/-- A part of an iteration opens no open descriptor. -/
theorem step_fresh
    {hosted : HostedLoop G} {part : LoopStep}
    (lawful : PartLawful hosted part) :
    Fresh hosted.kernel.opened
      (loopHandles (hosted.step process part).2) := by
  cases part with
  | wait =>
      trivial
  | event event =>
      have accepts := lawful.2
      have handled := hosted.toRunLoop.handles_handleEvent event
      change
        Fresh hosted.kernel.opened
          (loopHandles (hosted.toRunLoop.handleEvent event).2)
      generalize hosted.toRunLoop.handleEvent event = result at handled ⊢
      cases handled with
      | accepts listening =>
          cases accepted : event.accepted with
          | none =>
              trivial
          | some fd =>
              exact ⟨accepts listening fd accepted, trivial⟩
      | keeps _ shape _ =>
          rcases shape with rfl | rfl <;> trivial
      | closes _ shape =>
          rcases shape with rfl | rfl <;> trivial
  | tick inputs =>
      apply fresh_of_accepts_nobody
      intro fd
      change _ ∉ (hosted.toRunLoop.tick process inputs).2
      rw [RunLoop.tick]
      split
      · have unaccepted :=
          (RunLoop.publishes_generateAndBroadcast process
            { hosted.toRunLoop.reorder inputs.tickOrder with
              faultInjection := inputs.faultInjection }
            inputs.tickNs inputs.tickSends).accept_notMem (some fd)
        simpa using unaccepted
      · simp
  | second inputs =>
      apply fresh_of_accepts_nobody
      intro fd
      change _ ∉ (hosted.toRunLoop.second inputs).2
      rw [RunLoop.second]
      split
      · have unaccepted :=
          (RunLoop.publishes_broadcastHeartbeat
            { hosted.toRunLoop.reorder inputs.heartbeatOrder with
              lastTick := inputs.now
              ticksThisSecond := 0 }
            inputs.heartbeatNs inputs.heartbeatSends).accept_notMem
            (some fd)
        simpa using unaccepted
      · simp

theorem run_fresh
    {hosted : HostedLoop G} {parts : List LoopStep}
    (lawful : Mealy.Guarded (step process) PartLawful hosted parts) :
    Fresh hosted.kernel.opened
      (loopHandles (Mealy.run (step process) hosted parts).2) := by
  have invariant :=
    Mealy.run_invariant (step process)
      (fun reached trace =>
        reached.kernel.opened =
            replay hosted.kernel.opened (loopHandles trace) ∧
          Fresh hosted.kernel.opened (loopHandles trace))
      ?_ ⟨rfl, trivial⟩ lawful
  · exact invariant.2
  · rintro reached trace part guard ⟨opened, fresh⟩
    rw [loopHandles_append, HandleLedger.replay_append,
      HandleLedger.fresh_append, ← opened]
    refine ⟨?_, fresh, step_fresh process guard⟩
    rw [replay_loopHandles]
    exact opened_foldl_after _ _

/-- A run of the loop closes open descriptors only, and behind it the
descriptors of the clients are open beside those from before. -/
theorem run_handles
    {hosted : HostedLoop G} (started : Started hosted)
    {iterations : List Iteration}
    (lawful :
      Mealy.Guarded (iterate process) (KernelLawful process) hosted
        iterations) :
    let reached := Mealy.run (iterate process) hosted iterations
    Fresh hosted.kernel.opened (loopHandles reached.2) ∧
      ReleasesOpen hosted.kernel.opened (loopHandles reached.2) ∧
      replay hosted.kernel.opened (loopHandles reached.2) =
        hosted.kernel.opened ∪ reached.1.clients.toFinset ∧
      Disjoint hosted.kernel.opened reached.1.clients.toFinset := by
  intro reached
  have parts :
      reached =
        Mealy.run (step process) hosted
          (iterations.flatMap Iteration.steps) :=
    Mealy.run_flatMap (step process) Iteration.steps hosted iterations
  have guarded :=
    Mealy.guarded_flatMap (step process) Iteration.steps
      (fun _ _ => KernelLawful.guarded process) lawful
  have fresh := run_fresh process guarded
  have sound : Sound reached.1 reached.2 := by
    rw [parts]
    exact
      Mealy.run_invariant (step process) Sound
        (fun _ _ _ => sound_step process) started.sound guarded
  rw [← parts] at fresh
  have releases := releasesOpen_loopHandles sound.1
  have clients :
      replay ∅ (loopHandles reached.2) = reached.1.clients.toFinset := by
    ext fd
    rw [replay_loopHandles, List.mem_toFinset]
    exact ((sound.bookkeeping ∅).clients fd).symm
  obtain ⟨opened, apart⟩ :=
    HandleLedger.replay_union (Finset.disjoint_empty_right _)
      (by rwa [Finset.union_empty]) releases
  rw [Finset.union_empty, clients] at opened
  rw [clients] at apart
  exact ⟨fresh, releases.mono (Finset.empty_subset _), opened, apart⟩

end HostedLoop

/-! ## The whole program -/

theorem serverHandles_append (first second : List ServerCall) :
    serverHandles (first ++ second) =
      serverHandles first ++ serverHandles second :=
  List.flatMap_append

theorem serverHandles_loop (trace : List LoopOutput) :
    serverHandles (trace.map .loop) = loopHandles trace := by
  rw [serverHandles, List.flatMap_map]
  rfl

/-- `start` opens the listening socket and the epoll instance, as far as they
are valid, and throws if one of them is not. -/
theorem StartAnswers.start_handles (answers : StartAnswers) :
    let startup := answers.start
    startup.serverFd = answers.socket ∧
      serverHandles startup.calls =
        (ServerCall.socket startup.serverFd).handles ++
          (ServerCall.epollCreate1 startup.epollFd).handles ∧
      (startup.error.isSome = false → 0 ≤ startup.serverFd) := by
  have silent (calls : List ServerCall) :
      serverHandles (calls ++ answers.setNonblocking.1) =
        serverHandles calls := by
    rw [serverHandles_append, setNonblocking]
    split <;> exact List.append_nil _
  have unopened : (ServerCall.epollCreate1 (-1)).handles = [] := rfl
  rw [start]
  split
  · rename_i noSocket
    refine ⟨rfl, ?_, fun impossible => by cases impossible⟩
    rw [unopened]
    exact (List.append_nil _).trans (List.append_nil _).symm
  rename_i socket
  have valid := Int.not_lt.mp socket
  split
  · exact ⟨rfl, by rw [unopened]; rfl, fun _ => valid⟩
  split
  · exact ⟨rfl, by rw [unopened]; rfl, fun _ => valid⟩
  rw [startEpoll]
  dsimp only
  split
  · refine ⟨rfl, ?_, fun _ => valid⟩
    dsimp only
    rw [silent, unopened]
    rfl
  split
  · refine ⟨rfl, ?_, fun _ => valid⟩
    dsimp only
    rw [serverHandles_append, silent]
    simp [serverHandles, ServerCall.handles]
  · refine ⟨rfl, ?_, fun _ => valid⟩
    dsimp only
    rw [serverHandles_append, silent]
    simp [serverHandles, ServerCall.handles]

/-- The destructor closes what `start` opened, and nothing else. -/
theorem Startup.destroy_handles
    (startup : Startup)
    (fresh :
      Fresh ∅
        ((ServerCall.socket startup.serverFd).handles ++
          (ServerCall.epollCreate1 startup.epollFd).handles)) :
    let own :=
      replay ∅
        ((ServerCall.socket startup.serverFd).handles ++
          (ServerCall.epollCreate1 startup.epollFd).handles)
    ReleasesOpen own (serverHandles startup.destroy) ∧
      replay own (serverHandles startup.destroy) = ∅ := by
  obtain ⟨serverFd, epollFd, calls, error⟩ := startup
  dsimp only at fresh ⊢
  rw [destroy]
  by_cases listens : 0 ≤ serverFd
  · by_cases polls : 0 ≤ epollFd
    · have apart : epollFd.toNat ≠ serverFd.toNat := by
        simpa [ServerCall.handles, listens, polls, Fresh] using fresh
      have order :
          (insert epollFd.toNat {serverFd.toNat} : Finset Nat).erase
              serverFd.toNat =
            {epollFd.toNat} := by
        rw [Finset.erase_insert_of_ne apart, Finset.erase_singleton]
        rfl
      simp [ServerCall.handles, serverHandles, listens, polls, replay,
        HandleLedger.after, ReleasesOpen, order]
    · simp [ServerCall.handles, serverHandles, listens, polls, replay,
        HandleLedger.after, ReleasesOpen]
  · by_cases polls : 0 ≤ epollFd <;>
      simp [ServerCall.handles, serverHandles, listens, polls, replay,
        HandleLedger.after, ReleasesOpen]

theorem Startup.fresh_destroy (startup : Startup) (opened : Finset Nat) :
    Fresh opened (serverHandles startup.destroy) := by
  apply HandleLedger.fresh_of_releases
  intro fd acquired
  obtain ⟨call, member, opens⟩ := List.mem_flatMap.mp acquired
  have closing : ∃ own, call = .close own := by
    rw [destroy] at member
    grind
  obtain ⟨own, rfl⟩ := closing
  cases List.mem_singleton.mp opens

namespace ServerProgram

variable {G : Type} (program : ServerProgram G)

/-- What is assumed of the system: it opens no open descriptor, and it keeps to
the rules of epoll while the loop runs. -/
structure SystemLawful (iterations : List Iteration) : Prop where
  startFresh :
    Fresh program.inherited (serverHandles program.answers.start.calls)
  kernel :
    program.answers.start.error.isSome = false →
      Mealy.Guarded (HostedLoop.iterate program.process)
        (HostedLoop.KernelLawful program.process) program.entry
        iterations

theorem started
    (noError : program.answers.start.error.isSome = false) :
    HostedLoop.Started program.entry := by
  obtain ⟨same, opens, valid⟩ := program.answers.start_handles
  refine ⟨rfl, rfl, ?_, rfl⟩
  change
    program.answers.socket.toNat ∈
      replay program.inherited
        (serverHandles program.answers.start.calls)
  rw [opens, same, HandleLedger.replay_append]
  have socket : 0 ≤ program.answers.socket := same ▸ valid noError
  simp only [ServerCall.handles, socket, if_true]
  split <;> simp [replay, HandleLedger.after]

/-- Up to the destructor: the descriptors from before `main` are open, those
that `start` opened, and those of the clients. -/
theorem beforeDestroy
    {iterations : List Iteration}
    (lawful : program.SystemLawful iterations) :
    let startup := program.answers.start
    let calls :=
      if startup.error.isSome then
        startup.calls
      else
        startup.calls ++ (program.run iterations).2.map .loop
    let own := replay ∅ (serverHandles startup.calls)
    ReleasesOpen program.inherited (serverHandles calls) ∧
      replay program.inherited (serverHandles calls) =
        (program.inherited ∪
            (program.clientsLeft iterations).toFinset) ∪ own ∧
      Disjoint
        (program.inherited ∪ (program.clientsLeft iterations).toFinset)
        own := by
  intro startup calls own
  obtain ⟨_, opens, _⟩ := program.answers.start_handles
  have startReleases (opened : Finset Nat) :
      ReleasesOpen opened (serverHandles startup.calls) := by
    rw [opens]
    simp only [ServerCall.handles]
    split_ifs <;> trivial
  obtain ⟨opened, apart⟩ :=
    HandleLedger.replay_union (Finset.disjoint_empty_right _)
      (by
        rw [Finset.union_empty]
        exact lawful.startFresh)
      (startReleases ∅)
  rw [Finset.union_empty] at opened
  cases failed : startup.error.isSome with
  | true =>
      have left : program.clientsLeft iterations = [] := by
        rw [clientsLeft]
        exact if_pos failed
      simp only [calls, failed, if_true, left, List.toFinset_nil,
        Finset.union_empty]
      exact ⟨startReleases _, opened, apart⟩
  | false =>
      have left :
          program.clientsLeft iterations =
            (program.run iterations).1.clients := by
        rw [clientsLeft]
        exact if_neg (by rw [failed]; decide)
      obtain ⟨_, releases, ran, clientsApart⟩ :=
        HostedLoop.run_handles program.process (program.started failed)
          (lawful.kernel failed)
      change
        ReleasesOpen
          (replay program.inherited (serverHandles startup.calls))
          (loopHandles (program.run iterations).2) at releases
      change
        replay (replay program.inherited (serverHandles startup.calls))
            (loopHandles (program.run iterations).2) =
          replay program.inherited (serverHandles startup.calls) ∪
            (program.run iterations).1.clients.toFinset at ran
      change
        Disjoint (replay program.inherited (serverHandles startup.calls))
          (program.run iterations).1.clients.toFinset at clientsApart
      simp only [calls, failed, Bool.false_eq_true, if_false, left]
      rw [serverHandles_append, serverHandles_loop,
        HandleLedger.releasesOpen_append, HandleLedger.replay_append, ran,
        opened]
      rw [opened, Finset.disjoint_union_left] at clientsApart
      refine ⟨⟨startReleases _, opened ▸ releases⟩, ?_, ?_⟩
      · exact Finset.union_right_comm _ _ _
      · exact Finset.disjoint_union_left.mpr
          ⟨apart, clientsApart.2.symm⟩

/-- A server whose start succeeds, with prices that stand still. -/
def startedServer : ServerProgram Unit where
  process := PriceProcess.still
  gen := ()
  symbolCount := defaultSymbolCount
  symbolCount_pos := RunLoop.idle.symbolCount_pos
  inherited := {0, 1, 2}
  answers :=
    { socket := 3
      bind := 0
      strerror := ""
      listen := 0
      getFlags := 2
      setFlags := 0
      epollCreate1 := 4 }
  entered := 0

end ServerProgram

end MarketDataHandler
