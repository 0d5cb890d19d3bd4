import MarketDataHandler.EndToEnd.Delivery

/-!
# Agreement of the feed handlers

A client that the kernel refuses nothing is sent every message of the exchange.
At every moment its cache shows, symbol by symbol, what is to be known after a
beginning of these messages, and once it has caught up, after all of them.  So
two clients that have caught up show the same, however differently their bytes
were cut and their turns were interleaved with the exchange.
-/

namespace MarketDataHandler

/-! ## The messages of a run -/

/-- The bytes of a message determine it. -/
theorem Frame.bytes_injective : Function.Injective Frame.bytes := by
  intro first second same
  have codes : first.kind.code = second.kind.code := by
    rw [← first.msgTypeAt_bytes [], same, second.msgTypeAt_bytes]
  have kinds : first.msg.kind = second.msg.kind := by
    have decoded := congrArg MsgKind.ofCode codes
    rw [MsgKind.ofCode_code, MsgKind.ofCode_code] at decoded
    exact Option.some_injective _ decoded
  have messages : first.msg = second.msg := by
    rw [← first.msg.ofBytes_bytes, ← second.msg.ofBytes_bytes, kinds]
    exact congrArg (Msg.ofBytes second.msg.kind) same
  obtain ⟨firstMsg, _⟩ := first
  subst messages
  rfl

/-- A stream of whole messages determines them. -/
theorem frames_eq_of_stream
    {first second : List Frame}
    (same : first.flatMap Frame.bytes = second.flatMap Frame.bytes) :
    first = second := by
  obtain ⟨count, rest, read⟩ :=
    readSoFar_exists (Or.inl rfl)
      (List.prefix_refl (first.flatMap Frame.bytes ++ []))
  obtain ⟨secondCount, secondRest, secondRead⟩ :=
    readSoFar_exists (Or.inl rfl)
      (List.prefix_refl (second.flatMap Frame.bytes ++ []))
  have scanned := read.scanned
  rw [same, secondRead.scanned, read.all.1, secondRead.all.1] at scanned
  have events := congrArg (fun outcome => callbacks outcome.output) scanned
  dsimp only at events
  rw [ParseCounters.callbacks_deliverAll,
    ParseCounters.callbacks_deliverAll] at events
  have bytes := congrArg (List.map Prod.snd) events
  rw [List.map_map, List.map_map] at bytes
  exact (List.map_injective_iff.mpr Frame.bytes_injective bytes).symm

namespace ExchangeSimulator

/-- The messages that are broadcast, one after the other. -/
def messages : ExchangeSimulator → List ServerAction → List Frame
  | _, [] => []
  | server, action :: actions =>
      (server.message action).toList ++
        (server.step action).1.messages actions

theorem published_run
    (server : ExchangeSimulator) (actions : List ServerAction) :
    published (server.run actions).2 =
      (server.messages actions).map Frame.bytes := by
  induction actions generalizing server with
  | nil =>
      rfl
  | cons action actions inductionHypothesis =>
      rw [run, Mealy.run_cons, published_append, messages,
        List.map_append, ← inductionHypothesis]
      congr 1
      rcases server.step_wire action 0 with
        ⟨silent, unpublished, _, _⟩ | ⟨frame, named, announced, _, _⟩
      · rw [unpublished, silent]
        rfl
      · rw [announced, named]
        rfl

end ExchangeSimulator

/-! ## A client that is refused nothing -/

theorem TakesAll.not_blocksInside
    {outcomes : List SendOutcome} (takesAll : TakesAll outcomes)
    (len : Nat) : ¬ BlocksInside outcomes len := by
  rintro ⟨extras, later, split, _, _⟩
  have blocked : SendOutcome.wouldBlock ∈ outcomes := by
    rw [split]
    exact List.mem_append_right _ List.mem_cons_self
  obtain ⟨extra, impossible⟩ := takesAll _ blocked
  cases impossible

theorem Lossless.keepsWhole
    {fd : Nat} {action : ServerAction} (lossless : Lossless fd action)
    (server : ExchangeSimulator) : KeepsWhole fd server action where
  notReused := by
    rintro rfl
    exact lossless rfl
  whole := by
    intro frame named _
    cases action with
    | tick draw sends =>
        exact TakesAll.not_blocksInside lossless _
    | heartbeat nowNs sends =>
        exact TakesAll.not_blocksInside lossless _
    | _ =>
        cases named

namespace FeedSystem

variable {fd : Nat} {clock : Nat → UInt64} {system : FeedSystem}

/-- The feed handler waits with no event raised and nothing in flight. -/
structure CaughtUp (system : FeedSystem) : Prop where
  waiting : system.client.loop.pc = .waiting
  unraised : system.link.raised = false
  arrived : system.link.inFlight = []

/-- The wire of a lossless client carries every message of the exchange. -/
theorem lossless_synchronised
    (starts : system.Starts fd)
    (fewSymbols : system.server.symbolCount ≤ maxSymbols)
    {actions : List FeedAction}
    (lossless : ∀ action ∈ served actions, Lossless fd action) :
    ∃ fed,
      Synchronised fd clock system.client
        (system.run fd clock actions).1 (system.run fd clock actions).2
        (system.server.messages (served actions)) [] fed := by
  have keeps :
      Mealy.Guarded (step fd clock) (Keeps fd) system actions := by
    apply Mealy.guarded_of_forall
    intro action member state
    cases action with
    | serve action =>
        refine Lossless.keepsWhole (lossless action ?_) state.server
        exact List.mem_filterMap.mpr ⟨.serve action, member, rfl⟩
    | _ =>
        trivial
  obtain ⟨frames, broken, fed, synchronised⟩ :=
    @run_synchronised fd clock system starts fewSymbols actions keeps
  have joined : Reported fd system.server [] [] :=
    { member := starts.accepted
      sameConnection := List.not_mem_nil
      messages := rfl
      received := rfl
      next := fun started => absurd rfl started
      settled := rfl
      gaps := rfl }
  obtain ⟨sent, reported⟩ := joined.run lossless
  obtain ⟨server, trace⟩ :=
    @run_server fd clock system actions
  have everything :
      sent = system.server.messages (served actions) := by
    apply List.map_injective_iff.mpr Frame.bytes_injective
    rw [← reported.messages, ExchangeSimulator.published_run]
  have whole : broken = [] := by
    apply synchronised.carries.whole
    rw [server]
    exact reported.member
  subst whole
  have carried : frames = sent := by
    apply frames_eq_of_stream
    have wired := synchronised.carries.wired
    rw [trace, reported.received, List.append_nil] at wired
    exact wired.symm
  rw [carried, everything] at synchronised
  exact ⟨fed, synchronised⟩

/-- A lossless client that has caught up has handled every message. -/
theorem lossless_handled
    (starts : system.Starts fd)
    (fewSymbols : system.server.symbolCount ≤ maxSymbols)
    {actions : List FeedAction}
    (lossless : ∀ action ∈ served actions, Lossless fd action)
    (caughtUp : (system.run fd clock actions).1.CaughtUp) :
    HasHandled system.client (system.run fd clock actions).1.client
      (system.server.messages (served actions)) [] := by
  obtain ⟨fed, synchronised⟩ :=
    @lossless_synchronised fd clock system starts fewSymbols actions
      lossless
  exact synchronised.upToDate caughtUp.waiting caughtUp.unraised
    caughtUp.arrived

/-- At every moment of every run the cache of a lossless client shows what is
to be known after a beginning of the messages of the exchange, and after all of
them once the client has caught up. -/
theorem run_cacheHistory
    (starts : system.Starts fd)
    (cold : system.client.handler = Handler.initial)
    (fewSymbols : system.server.symbolCount ≤ maxSymbols)
    {actions : List FeedAction}
    (lossless : ∀ action ∈ served actions, Lossless fd action) :
    let reached := (system.run fd clock actions).1
    let messages :=
      (system.server.messages (served actions)).map Frame.msg
    ∃ count ≤ messages.length,
      reached.client.handler.totalMessages = UInt64.ofNat count ∧
        (∀ sym : Fin maxSymbols,
          (reached.client.handler.cache.states sym).toMarketData =
            symbolSummary sym.val (messages.take count)) ∧
        (reached.CaughtUp → count = messages.length) := by
  intro reached messages
  obtain ⟨fed, synchronised⟩ :=
    @lossless_synchronised fd clock system starts fewSymbols actions
      lossless
  have shows {count : Nat} {rest : List UInt8}
      (handled :
        HasHandled system.client reached.client
          ((system.server.messages (served actions)).take count) rest) :
      reached.client.handler.totalMessages =
          UInt64.ofNat (min count messages.length) ∧
        ∀ sym : Fin maxSymbols,
          (reached.client.handler.cache.states sym).toMarketData =
            symbolSummary sym.val
              (messages.take (min count messages.length)) := by
    have total := handled.totalMessages
    have cache := handled.cache
    rw [cold, List.length_take, ← List.length_map Frame.msg] at total
    rw [cold, List.map_take, List.take_eq_take_min] at cache
    constructor
    · rw [total]
      exact UInt64.zero_add _
    · intro sym
      rw [cache]
      exact foldl_apply_states _ sym
  by_cases caughtUp : reached.CaughtUp
  · have handled := lossless_handled starts fewSymbols lossless caughtUp
    have whole :
        (system.server.messages (served actions)).take
            messages.length =
          system.server.messages (served actions) := by
      rw [List.length_map, List.take_length]
    rw [← whole] at handled
    obtain ⟨total, cache⟩ := shows handled
    rw [Nat.min_self] at total cache
    exact ⟨_, Nat.le_refl _, total, cache, fun _ => rfl⟩
  · obtain ⟨count, rest, read⟩ :=
      readSoFar_exists synchronised.carries.cutOff
        ((List.prefix_append _ _).trans synchronised.fed_prefix)
    obtain ⟨total, cache⟩ := shows (synchronised.isFed.hasHandled read)
    exact ⟨_, Nat.min_le_right _ _, total, cache,
      fun now => absurd now caughtUp⟩

/-- Two feed handlers that connect to one exchange, are refused nothing and
have caught up agree on the whole cache and on all counts. -/
theorem run_agree
    {first second : FeedSystem} {fd other : Nat}
    {clock otherClock : Nat → UInt64}
    (starts : first.Starts fd) (otherStarts : second.Starts other)
    (alike : first.client.handler = second.client.handler)
    (oneServer : first.server = second.server)
    (fewSymbols : first.server.symbolCount ≤ maxSymbols)
    {actions otherActions : List FeedAction}
    (oneHistory : served actions = served otherActions)
    (lossless :
      ∀ action ∈ served actions,
        Lossless fd action ∧ Lossless other action)
    (caughtUp : (first.run fd clock actions).1.CaughtUp)
    (otherCaughtUp :
      (second.run other otherClock otherActions).1.CaughtUp) :
    let client := (first.run fd clock actions).1.client
    let otherClient :=
      (second.run other otherClock otherActions).1.client
    client.handler.cache = otherClient.handler.cache ∧
      client.handler.totalMessages = otherClient.handler.totalMessages ∧
      client.loop.parser.toParseCounters =
        otherClient.loop.parser.toParseCounters := by
  intro client otherClient
  have handled : HasHandled first.client client _ [] :=
    lossless_handled starts fewSymbols
      (fun action member => (lossless action member).1) caughtUp
  have otherHandled :
      HasHandled second.client otherClient
        (second.server.messages (served otherActions)) [] := by
    refine lossless_handled otherStarts ?_ ?_ otherCaughtUp
    · rw [← oneServer]
      exact fewSymbols
    · rw [← oneHistory]
      exact fun action member => (lossless action member).2
  rw [← oneServer, ← oneHistory] at otherHandled
  refine ⟨?_, ?_, ?_⟩
  · rw [handled.cache, otherHandled.cache, alike]
  · rw [handled.totalMessages, otherHandled.totalMessages, alike]
  · rw [handled.counters, otherHandled.counters]

/-- An exchange with two clients and a feed handler that connects to it. -/
def oneOfTwoClients : FeedSystem where
  server :=
    { clients := [7, 9]
      nodup := by decide
      slowClients := []
      symbolCount := 2
      symbolCount_pos := Nat.two_pos
      faultInjection := false
      seqNo := 1 }
  link := ⟨[], [], false⟩
  running := true
  client := MainState.start ⟨fun _ => 0⟩ ⟨fun _ => 0⟩

theorem oneOfTwoClients_starts {fd : Nat} (one : fd = 7 ∨ fd = 9) :
    oneOfTwoClients.Starts fd where
  accepted := by
    rcases one with rfl | rfl <;> decide
  idle := rfl
  fresh := Parser.Fresh.constructed _
  place := Or.inl rfl

/-- A tick that arrives whole. -/
def tickAtOnce : List FeedAction :=
  [.turn 0, .serve anyTick, .arrive 99, .turn 0, .turn 99, .turn 0]

/-- The same tick in two pieces, of which the first is there when the feed
handler connects. -/
def tickInPieces : List FeedAction :=
  [.serve anyTick, .arrive 4, .turn 0, .turn 0, .turn 1, .turn 99,
    .turn 0, .arrive 99, .turn 0, .turn 99, .turn 0]

theorem anyTick_lossless (fd : Nat) :
    ∀ action ∈ served tickAtOnce, Lossless fd action := by
  intro action member
  cases List.mem_singleton.mp member
  exact List.forall_mem_nil _

theorem run_cacheHistory_tick :
    let reached := (oneOfTwoClients.run 7 (fun _ => 0) tickInPieces).1
    let messages :=
      (oneOfTwoClients.server.messages (served tickInPieces)).map
        Frame.msg
    ∃ count ≤ messages.length,
      reached.client.handler.totalMessages = UInt64.ofNat count ∧
        (∀ sym : Fin maxSymbols,
          (reached.client.handler.cache.states sym).toMarketData =
            symbolSummary sym.val (messages.take count)) ∧
        (reached.CaughtUp → count = messages.length) :=
  run_cacheHistory (oneOfTwoClients_starts (Or.inl rfl)) rfl (by decide)
    (anyTick_lossless 7)

theorem run_agree_tick :
    let client :=
      (oneOfTwoClients.run 7 (fun _ => 0) tickAtOnce).1.client
    let otherClient :=
      (oneOfTwoClients.run 9 (fun _ => 5) tickInPieces).1.client
    client.handler.cache = otherClient.handler.cache ∧
      client.handler.totalMessages = otherClient.handler.totalMessages ∧
      client.loop.parser.toParseCounters =
        otherClient.loop.parser.toParseCounters :=
  run_agree (oneOfTwoClients_starts (Or.inl rfl))
    (oneOfTwoClients_starts (Or.inr rfl)) rfl rfl (by decide) rfl
    (fun action member =>
      ⟨anyTick_lossless 7 action member, anyTick_lossless 9 action member⟩)
    ⟨by decide +kernel, by decide +kernel, by decide +kernel⟩
    ⟨by decide +kernel, by decide +kernel, by decide +kernel⟩

end FeedSystem

end MarketDataHandler
