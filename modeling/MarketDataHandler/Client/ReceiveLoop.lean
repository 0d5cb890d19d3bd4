import MarketDataHandler.Client.ReferenceScanner

/-!
# The receive loop of the feed handler

The main loop of `feed_handler.cpp` around `MarketDataSocket::receive`: connect,
reset the parser, wait for data, and drain the socket into the parser until it
would block.

`receive` reports the end of a connection as `-1`, but `socket.h` declares its
result as `size_t`, and the loop stores it in a `size_t`.  The test `n < 0`
therefore never holds: the end of a connection is not noticed, and the parser
is called with 2⁶⁴ - 1 bytes of a buffer of 65536.  As long as no connection
ends the loop keeps its contract.
-/

namespace MarketDataHandler

/-! ## One call of recv -/

def recvBufSize : Nat := 65536

/-- The bytes that one call of `recv` stored. -/
structure Received where
  bytes : List UInt8
  positive : 0 < bytes.length
  fits : bytes.length ≤ recvBufSize
  deriving DecidableEq, Repr

inductive RecvOutcome where
  | data (received : Received)
  | wouldBlock
  | closed
  | hardError
  deriving DecidableEq, Repr

/-- An orderly close or a hard error. -/
def RecvOutcome.ends : RecvOutcome → Bool
  | .data _ => false
  | .wouldBlock => false
  | .closed => true
  | .hardError => true

/-- `MarketDataSocket::receive` as `socket.cpp` computes it: the new value of
`connected_`, the buffer and the signed result. -/
def receive (connected : Bool) (buffer : ByteBuffer recvBufSize)
    (outcome : RecvOutcome) : Bool × ByteBuffer recvBufSize × Int :=
  if connected then
    match outcome with
    | .data received =>
        (true, buffer.write 0 received.bytes, received.bytes.length)
    | .wouldBlock => (true, buffer, 0)
    | .closed => (false, buffer, -1)
    | .hardError => (false, buffer, -1)
  else
    (false, buffer, -1)

/-- The result at the type that `socket.h` declares. -/
def declaredResult (result : Int) : UInt64 :=
  UInt64.ofInt result

/-! ## The loop -/

inductive LoopPc where
  /-- In front of the test of the outer loop. -/
  | connecting
  /-- In front of the test of the receive loop. -/
  | waiting
  /-- In front of the call of `receive`. -/
  | receiving
  /-- The outer loop was left. -/
  | stopped
  /-- A call of the parser left its buffers. -/
  | undefined
  deriving DecidableEq, Repr

/-- What the loop does with the result of one call of `receive`. -/
inductive Reaction where
  /-- Call of the parser with `n` and the bytes of the buffer up to `n`. -/
  | fed (n : Nat) (bytes : List UInt8)
  /-- Back to waiting. -/
  | polled
  /-- To the reconnect path. -/
  | left
  deriving DecidableEq, Repr

inductive LoopEvent where
  /-- The parser is reset, right after a connect. -/
  | reset
  /-- One pass of the innermost loop, with the outcome of `recv` if it was
  called. -/
  | iteration (outcome : Option RecvOutcome) (reaction : Reaction)
  /-- The receive loop is left by its own test or by a failed wait. -/
  | leave
  deriving DecidableEq, Repr

/-- What the environment answers in one turn of the machine.  A turn uses the
answers that its place in the program asks for. -/
structure Turn where
  running : Bool
  connects : Bool
  ev : Int
  outcome : RecvOutcome

structure LoopState where
  pc : LoopPc
  connected : Bool
  recvBuf : ByteBuffer recvBufSize
  parser : Parser

namespace LoopState

def start (recvBuf : ByteBuffer recvBufSize)
    (buf : ByteBuffer parseBufSize) : LoopState where
  pc := .connecting
  connected := false
  recvBuf := recvBuf
  parser := Parser.new buf

/-- One pass of the innermost loop. -/
def iterate (state : LoopState) (outcome : RecvOutcome) :
    LoopState × List LoopEvent :=
  let (connected, recvBuf, result) :=
    receive state.connected state.recvBuf outcome
  let received : LoopState :=
    { state with connected := connected, recvBuf := recvBuf }
  let consumed := if state.connected then some outcome else none
  let n := declaredResult result
  if n < 0 then
    ({ received with pc := .connecting }, [.iteration consumed .left])
  else if n = 0 then
    ({ received with pc := .waiting }, [.iteration consumed .polled])
  else
    (match received.parser.feed recvBuf n.toNat with
      | some (parser, _) => { received with parser := parser }
      | none => { received with pc := .undefined },
      [.iteration consumed
        (.fed n.toNat (recvBuf.slice 0 (min n.toNat recvBufSize)))])

def step (state : LoopState) (turn : Turn) :
    LoopState × List LoopEvent :=
  match state.pc with
  | .connecting =>
      if turn.running && turn.connects then
        ({ state with
            pc := .waiting
            connected := true
            parser := state.parser.reset },
          [.reset])
      else
        ({ state with pc := .stopped }, [])
  | .waiting =>
      if turn.running && state.connected then
        if turn.ev < 0 then
          ({ state with pc := .connecting }, [.leave])
        else if turn.ev = 0 then
          (state, [])
        else
          ({ state with pc := .receiving }, [])
      else
        ({ state with pc := .connecting }, [.leave])
  | .receiving => state.iterate turn.outcome
  | .stopped => (state, [])
  | .undefined => (state, [])

def run (state : LoopState) (turns : List Turn) :
    LoopState × List LoopEvent :=
  Mealy.run step state turns

/-- No call of `recv` that the loop makes finds the end of a connection. -/
def NeverEnds (state : LoopState) (turns : List Turn) : Prop :=
  Mealy.Guarded step
    (fun state turn => state.pc = .receiving → ¬ turn.outcome.ends)
    state turns

end LoopState

/-! ## The contract -/

namespace LoopEvent

def fedBytes : LoopEvent → List UInt8
  | .iteration _ (.fed _ bytes) => bytes
  | _ => []

def receivedBytes : LoopEvent → List UInt8
  | .iteration (some (.data received)) _ => received.bytes
  | _ => []

def feeds : LoopEvent → Bool
  | .iteration _ (.fed _ _) => true
  | _ => false

end LoopEvent

/-- Every call of the parser gets what `recv` just stored; the end of a
connection leads to the reconnect path with no further call before the next
reset; on each connection the parser is fed what was received. -/
structure ReceiveContract (log : List LoopEvent) : Prop where
  fed :
    ∀ outcome n bytes,
      .iteration outcome (.fed n bytes) ∈ log →
        1 ≤ n ∧ n ≤ recvBufSize ∧
          ∃ received,
            outcome = some (.data received) ∧
              n = received.bytes.length ∧ bytes = received.bytes
  ended :
    ∀ before outcome reaction segment later,
      log =
          before ++
            .iteration (some outcome) reaction :: (segment ++ later) →
        outcome.ends →
        .reset ∉ segment →
          reaction = .left ∧ ∀ event ∈ segment, ¬ event.feeds
  connection :
    ∀ before segment later,
      log = before ++ .reset :: (segment ++ later) →
        .reset ∉ segment →
          segment.flatMap LoopEvent.fedBytes =
            segment.flatMap LoopEvent.receivedBytes

/-! ## One pass of the innermost loop -/

theorem declaredResult_length (received : Received) :
    (declaredResult received.bytes.length).toNat =
      received.bytes.length := by
  have fits : received.bytes.length ≤ 65536 := received.fits
  rw [declaredResult, UInt64.ofInt]
  have small :
      ((received.bytes.length : Int) % 2 ^ 64).toNat =
        received.bytes.length := by
    omega
  rw [small, UInt64.toNat_ofNat']
  omega

theorem declaredResult_ne_zero (received : Received) :
    declaredResult received.bytes.length ≠ 0 := by
  intro zero
  have value := declaredResult_length received
  have positive := received.positive
  rw [zero] at value
  rw [← value] at positive
  exact absurd positive (by decide)

namespace LoopState

theorem iterate_data
    {state : LoopState} (connected : state.connected = true)
    (received : Received) :
    state.iterate (.data received) =
      ((match
          state.parser.feed (state.recvBuf.write 0 received.bytes)
            received.bytes.length with
        | some (parser, _) =>
            { state with
              recvBuf := state.recvBuf.write 0 received.bytes
              parser := parser }
        | none =>
            { state with
              recvBuf := state.recvBuf.write 0 received.bytes
              pc := .undefined }),
        [.iteration (some (.data received))
          (.fed received.bytes.length received.bytes)]) := by
  have value := declaredResult_length received
  have notZero := declaredResult_ne_zero received
  have notNegative : ¬ declaredResult received.bytes.length < 0 :=
    UInt64.not_lt_zero
  have stored :
      (state.recvBuf.write 0 received.bytes).slice 0
          (min received.bytes.length recvBufSize) =
        received.bytes := by
    rw [Nat.min_eq_left received.fits, ByteBuffer.slice_write_self]
  rw [iterate, connected]
  simp only [receive, if_true, if_neg notNegative, if_neg notZero,
    value, stored]

theorem iterate_wouldBlock
    {state : LoopState} (connected : state.connected = true) :
    state.iterate .wouldBlock =
      ({ state with pc := .waiting },
        [.iteration (some .wouldBlock) .polled]) := by
  rw [iterate, connected]
  rfl

/-- The parser is called with all ones. -/
theorem iterate_ends
    {state : LoopState} (connected : state.connected = true)
    {outcome : RecvOutcome} (ends : outcome.ends = true) :
    state.iterate outcome =
      ((match state.parser.feed state.recvBuf (2 ^ 64 - 1) with
        | some (parser, _) =>
            { state with connected := false, parser := parser }
        | none =>
            { state with connected := false, pc := .undefined }),
        [.iteration (some outcome)
          (.fed (2 ^ 64 - 1) (state.recvBuf.slice 0 recvBufSize))]) := by
  have lost :
      receive true state.recvBuf outcome =
        (false, state.recvBuf, -1) := by
    cases outcome with
    | data received =>
        exact absurd ends (by simp [RecvOutcome.ends])
    | wouldBlock =>
        exact absurd ends (by simp [RecvOutcome.ends])
    | closed =>
        rfl
    | hardError =>
        rfl
  have allOnes : (declaredResult (-1)).toNat = 2 ^ 64 - 1 := by decide
  have notNegative : ¬ declaredResult (-1) < 0 := UInt64.not_lt_zero
  have notZero : declaredResult (-1) ≠ 0 := by decide
  have whole : min (2 ^ 64 - 1) recvBufSize = recvBufSize := by decide
  rw [iterate, connected]
  simp only [lost, if_true, if_neg notNegative, if_neg notZero, allOnes,
    whole]

end LoopState

/-! ## The two kinds of parser calls -/

namespace Parser

/-- A call with as many bytes as `recv` may store goes on with the scan. -/
theorem feed_read
    {parser : Parser} (small : parser.bufUsed < maxMsgSize)
    (buffer : ByteBuffer recvBufSize) {len : Nat}
    (fits : len ≤ recvBufSize) :
    ∃ next,
      parser.feed buffer len =
          some (next,
            (referenceScanner.run parser.toParseCounters
              (parser.residue ++ buffer.slice 0 len)).output) ∧
        next.toParseCounters =
          (referenceScanner.run parser.toParseCounters
            (parser.residue ++ buffer.slice 0 len)).state ∧
        next.residue =
          (referenceScanner.run parser.toParseCounters
            (parser.residue ++ buffer.slice 0 len)).rest := by
  have sizes :
      maxMsgSize = 44 ∧ parseBufSize = 131072 ∧ recvBufSize = 65536 :=
    ⟨rfl, rfl, rfl⟩
  have inBounds : parser.InBounds := by
    rw [InBounds]
    omega
  have roomy : parser.room len = len :=
    Nat.min_eq_left (by omega)
  have quiet : parser.overflowLog len = [] :=
    if_neg (by omega)
  obtain ⟨next, fed, counters, residue, _⟩ :=
    feed_eq inBounds buffer (show parser.bufUsed + len < 2 ^ 64 by omega)
      (by omega) rfl
  rw [roomy] at fed counters residue
  rw [quiet] at fed
  exact ⟨next, fed, counters, residue⟩

/-- A call with what `recv` stored has a result. -/
theorem feed_received
    {parser : Parser} (small : parser.bufUsed < maxMsgSize)
    (buffer : ByteBuffer recvBufSize) (received : Received) :
    ∃ next events,
      parser.feed buffer received.bytes.length = some (next, events) ∧
        next.bufUsed < maxMsgSize := by
  obtain ⟨next, fed, _, residue⟩ :=
    feed_read small buffer received.fits
  refine ⟨next, _, fed, ?_⟩
  rw [← residue_length, residue]
  exact referenceScanner_rest_lt _ _

/-- A call with all ones copies out of the receive buffer: the sum in the
overflow test is all ones if the parser holds nothing, and wraps below the
limit otherwise. -/
theorem feed_allOnes
    {parser : Parser} (small : parser.bufUsed < maxMsgSize)
    (buffer : ByteBuffer recvBufSize) :
    parser.feed buffer (2 ^ 64 - 1) = none := by
  have sizes :
      maxMsgSize = 44 ∧ parseBufSize = 131072 ∧ recvBufSize = 65536 :=
    ⟨rfl, rfl, rfl⟩
  have unfilled : parser.fill buffer (2 ^ 64 - 1) = none := by
    rw [fill]
    by_cases empty : parser.bufUsed = 0
    · have total : sizeAdd parser.bufUsed (2 ^ 64 - 1) = 2 ^ 64 - 1 := by
        rw [empty]
        rfl
      have space : sizeSub parseBufSize parser.bufUsed = 131072 := by
        rw [empty]
        rfl
      rw [total, if_pos (by omega), space]
      simp only [if_pos (show 0 < 131072 by decide)]
      rw [ByteBuffer.copy_eq_none _ _ _ (by omega)]
      rfl
    · have total :
          sizeAdd parser.bufUsed (2 ^ 64 - 1) = parser.bufUsed - 1 := by
        rw [sizeAdd]
        omega
      rw [total, if_neg (by omega),
        ByteBuffer.copy_eq_none _ _ _ (by omega)]
      rfl
  rw [feed, unfilled]
  rfl

end Parser

/-! ## Runs -/

/-- A pass of the innermost loop that keeps the contract. -/
def LoopEvent.Lawful : LoopEvent → Prop
  | .iteration outcome reaction =>
      (∃ received,
          outcome = some (.data received) ∧
            reaction = .fed received.bytes.length received.bytes) ∨
        (outcome = some .wouldBlock ∧ reaction = .polled)
  | _ => True

namespace LoopState

/-- The innermost loop is entered on a connected socket only, and the parser
holds less than a frame between two calls. -/
structure Sound (state : LoopState) : Prop where
  connected : state.pc = .receiving → state.connected = true
  small : state.parser.bufUsed < maxMsgSize

theorem sound_start
    (recvBuf : ByteBuffer recvBufSize) (buf : ByteBuffer parseBufSize) :
    (start recvBuf buf).Sound where
  connected := by
    intro receiving
    cases receiving
  small := show 0 < maxMsgSize by decide

/-- What a turn can do outside the innermost loop. -/
inductive Moves (state : LoopState) : LoopState × List LoopEvent → Prop
  | opens :
      Moves state
        ({ state with
            pc := .waiting
            connected := true
            parser := state.parser.reset },
          [.reset])
  | idles {pc : LoopPc} {log : List LoopEvent} :
      (pc = .receiving → state.connected = true) →
      (pc = .undefined → state.pc = .undefined) →
      (∀ event ∈ log, event = .leave) →
      Moves state ({ state with pc := pc }, log)

theorem step_moves
    {state : LoopState} (elsewhere : state.pc ≠ .receiving)
    (turn : Turn) :
    state.Moves (state.step turn) := by
  rw [step]
  cases pc : state.pc with
  | connecting =>
      by_cases accepted : turn.running && turn.connects
      · simp only [if_pos accepted]
        exact Moves.opens
      · simp only [if_neg accepted]
        exact Moves.idles (by simp) (by simp) (List.forall_mem_nil _)
  | waiting =>
      have leaves : ∀ event ∈ [LoopEvent.leave], event = .leave :=
        List.forall_mem_singleton.mpr rfl
      by_cases alive : turn.running && state.connected
      · have up : state.connected = true :=
          (Bool.and_eq_true_iff.mp alive).2
        simp only [if_pos alive]
        by_cases failed : turn.ev < 0
        · simp only [if_pos failed]
          exact Moves.idles (by simp) (by simp) leaves
        · simp only [if_neg failed]
          by_cases idle : turn.ev = 0
          · simp only [if_pos idle]
            exact Moves.idles (fun _ => up) id (List.forall_mem_nil _)
          · simp only [if_neg idle]
            exact Moves.idles (fun _ => up) (by simp)
              (List.forall_mem_nil _)
      · simp only [if_neg alive]
        exact Moves.idles (by simp) (by simp) leaves
  | receiving =>
      exact absurd pc elsewhere
  | stopped =>
      exact Moves.idles (by simp [pc]) id (List.forall_mem_nil _)
  | undefined =>
      exact Moves.idles (by simp [pc]) id (List.forall_mem_nil _)

/-- A turn that does not find the end of a connection. -/
theorem step_lawful
    {state : LoopState} (sound : state.Sound) {turn : Turn}
    (goesOn : state.pc = .receiving → ¬ turn.outcome.ends) :
    (state.step turn).1.Sound ∧
      (∀ event ∈ (state.step turn).2, event.Lawful) ∧
      (state.pc ≠ .undefined →
        (state.step turn).1.pc ≠ .undefined) := by
  obtain ⟨connected, small⟩ := sound
  by_cases pc : state.pc = .receiving
  · have up := connected pc
    have open_ := goesOn pc
    rw [step, pc]
    simp only
    cases outcome : turn.outcome with
    | data received =>
        obtain ⟨next, events, fed, nextSmall⟩ :=
          Parser.feed_received small
            (state.recvBuf.write 0 received.bytes) received
        rw [iterate_data up, fed]
        refine ⟨⟨fun _ => up, nextSmall⟩, ?_, ?_⟩
        · intro event member
          rw [List.mem_singleton.mp member]
          exact Or.inl ⟨received, rfl, rfl⟩
        · simp [pc]
    | wouldBlock =>
        rw [iterate_wouldBlock up]
        refine ⟨⟨fun _ => up, small⟩, ?_, by simp⟩
        intro event member
        rw [List.mem_singleton.mp member]
        exact Or.inr ⟨rfl, rfl⟩
    | closed =>
        rw [outcome] at open_
        exact absurd rfl open_
    | hardError =>
        rw [outcome] at open_
        exact absurd rfl open_
  · have moves := step_moves pc turn
    generalize state.step turn = result at moves ⊢
    cases moves with
    | opens =>
        refine ⟨⟨fun _ => rfl, show 0 < maxMsgSize by decide⟩, ?_, ?_⟩
        · simp [LoopEvent.Lawful]
        · simp
    | idles stillUp same leaves =>
        refine ⟨⟨stillUp, small⟩, ?_, fun defined undefined => ?_⟩
        · intro event member
          rw [leaves event member]
          trivial
        · exact defined (same undefined)

/-- A turn that finds the end of a connection. -/
theorem step_ends
    {state : LoopState} (sound : state.Sound) {turn : Turn}
    (receiving : state.pc = .receiving) (ends : turn.outcome.ends) :
    (state.step turn).1.pc = .undefined ∧
      ∃ bytes,
        .iteration (some turn.outcome) (.fed (2 ^ 64 - 1) bytes) ∈
          (state.step turn).2 := by
  rw [step, receiving]
  simp only
  rw [iterate_ends (sound.connected receiving) ends,
    Parser.feed_allOnes sound.small]
  exact ⟨rfl, _, List.mem_singleton.mpr rfl⟩

theorem run_undefined
    {state : LoopState} (undefined : state.pc = .undefined)
    (turns : List Turn) :
    (state.run turns).1.pc = .undefined := by
  induction turns with
  | nil =>
      exact undefined
  | cons turn turns inductionHypothesis =>
      have stays : state.step turn = (state, []) := by
        rw [step, undefined]
      rw [run, Mealy.run_cons, stays]
      exact inductionHypothesis

theorem run_lawful
    {state : LoopState} (sound : state.Sound)
    (defined : state.pc ≠ .undefined) {turns : List Turn}
    (neverEnds : state.NeverEnds turns) :
    (∀ event ∈ (state.run turns).2, event.Lawful) ∧
      (state.run turns).1.pc ≠ .undefined := by
  have kept :=
    Mealy.run_invariant step
      (fun state past =>
        state.Sound ∧ (∀ event ∈ past, event.Lawful) ∧
          state.pc ≠ .undefined)
      (by
        rintro state past turn goesOn ⟨sound, lawful, defined⟩
        obtain ⟨nextSound, nextLawful, nextDefined⟩ :=
          step_lawful sound goesOn
        refine ⟨nextSound, ?_, nextDefined defined⟩
        intro event member
        rcases List.mem_append.mp member with earlier | now
        · exact lawful event earlier
        · exact nextLawful event now)
      ⟨sound, by simp, defined⟩ neverEnds
  exact kept.2

theorem run_ends
    {state : LoopState} (sound : state.Sound) {turns : List Turn}
    (ends : ¬ state.NeverEnds turns) :
    (state.run turns).1.pc = .undefined ∧
      ∃ outcome bytes,
        .iteration outcome (.fed (2 ^ 64 - 1) bytes) ∈
          (state.run turns).2 := by
  induction turns generalizing state with
  | nil =>
      exact absurd trivial ends
  | cons turn turns inductionHypothesis =>
      rw [run, Mealy.run_cons]
      by_cases now : state.pc = .receiving ∧ turn.outcome.ends
      · obtain ⟨undefined, bytes, member⟩ := step_ends sound now.1 now.2
        exact ⟨run_undefined undefined turns, _, bytes,
          List.mem_append_left _ member⟩
      · have goesOn : state.pc = .receiving → ¬ turn.outcome.ends := by
          intro receiving ended
          exact now ⟨receiving, ended⟩
        have later : ¬ (state.step turn).1.NeverEnds turns := by
          intro never
          exact ends ⟨goesOn, never⟩
        obtain ⟨nextSound, _, _⟩ := step_lawful sound goesOn
        obtain ⟨undefined, outcome, bytes, member⟩ :=
          inductionHypothesis nextSound later
        exact ⟨undefined, outcome, bytes,
          List.mem_append_right _ member⟩

end LoopState

/-- Lawful passes add up to the contract. -/
theorem receiveContract_of_lawful
    {log : List LoopEvent} (lawful : ∀ event ∈ log, event.Lawful) :
    ReceiveContract log where
  fed := by
    intro outcome n bytes member
    rcases lawful _ member with
      ⟨received, rfl, reaction⟩ | ⟨_, reaction⟩
    · cases reaction
      exact ⟨received.positive, received.fits, received, rfl, rfl, rfl⟩
    · cases reaction
  ended := by
    rintro before outcome reaction segment later rfl ends _
    have member :
        LoopEvent.iteration (some outcome) reaction ∈
          before ++
            .iteration (some outcome) reaction :: (segment ++ later) :=
      List.mem_append_right _ List.mem_cons_self
    rcases lawful _ member with ⟨received, isData, _⟩ | ⟨isBlock, _⟩
    · cases isData
      cases ends
    · cases isBlock
      cases ends
  connection := by
    rintro before segment later rfl _
    apply List.flatMap_congr
    intro event member
    have inLog :
        event ∈ before ++ .reset :: (segment ++ later) :=
      List.mem_append_right _
        (List.mem_cons_of_mem _ (List.mem_append_left _ member))
    cases event with
    | reset =>
        rfl
    | leave =>
        rfl
    | iteration outcome reaction =>
        rcases lawful _ inLog with ⟨received, rfl, rfl⟩ | ⟨rfl, rfl⟩
        · rfl
        · rfl

/-- The loop keeps its contract in a run exactly when no call of `recv` finds
the end of a connection. -/
theorem receiveContract_iff_neverEnds
    (recvBuf : ByteBuffer recvBufSize) (buf : ByteBuffer parseBufSize)
    (turns : List Turn) :
    ReceiveContract ((LoopState.start recvBuf buf).run turns).2 ↔
      (LoopState.start recvBuf buf).NeverEnds turns := by
  have sound := LoopState.sound_start recvBuf buf
  constructor
  · intro contract
    by_contra ends
    obtain ⟨_, outcome, bytes, member⟩ := LoopState.run_ends sound ends
    have fits := (contract.fed _ _ _ member).2.1
    exact absurd fits (by decide)
  · intro neverEnds
    exact receiveContract_of_lawful
      (LoopState.run_lawful sound (by simp [LoopState.start])
        neverEnds).1

/-- The program leaves defined behaviour exactly when a connection ends. -/
theorem undefined_iff_not_neverEnds
    (recvBuf : ByteBuffer recvBufSize) (buf : ByteBuffer parseBufSize)
    (turns : List Turn) :
    ((LoopState.start recvBuf buf).run turns).1.pc = .undefined ↔
      ¬ (LoopState.start recvBuf buf).NeverEnds turns := by
  have sound := LoopState.sound_start recvBuf buf
  constructor
  · intro undefined neverEnds
    exact (LoopState.run_lawful sound (by simp [LoopState.start])
      neverEnds).2 undefined
  · intro ends
    exact (LoopState.run_ends sound ends).1

/-- A server that closes the connection right after it was accepted. -/
theorem not_receiveContract_closed :
    ¬ ∀ (recvBuf : ByteBuffer recvBufSize)
        (buf : ByteBuffer parseBufSize) (turns : List Turn),
      ReceiveContract
        ((LoopState.start recvBuf buf).run turns).2 := by
  intro contract
  let answer : RecvOutcome → Turn := fun outcome =>
    { running := true
      connects := true
      ev := 1
      outcome := outcome }
  have ends :
      ¬ (LoopState.start ⟨fun _ => 0⟩ ⟨fun _ => 0⟩).NeverEnds
        [answer .wouldBlock, answer .wouldBlock, answer .closed] := by
    rintro ⟨_, _, last, _⟩
    exact last rfl rfl
  obtain ⟨_, outcome, bytes, member⟩ :=
    LoopState.run_ends (LoopState.sound_start _ _) ends
  have fits := ((contract _ _ _).fed _ _ _ member).2.1
  exact absurd fits (by decide)

end MarketDataHandler
