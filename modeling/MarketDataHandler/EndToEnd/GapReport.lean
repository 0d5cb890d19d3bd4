import MarketDataHandler.Client.SequenceGaps
import MarketDataHandler.Server.ExchangeSimulator
import Mathlib.Data.List.DropRight

/-!
# The gap report of a lossless client

A client for which the kernel takes every message whole has on its wire the
frames that were broadcast since it joined.  Their numbers are consecutive
except where fault injection passed over one, and such a number is a multiple
of a hundred: it is never the largest number and never follows number zero, so
the parser's gap test sees it, also at the wrap of the counter.
-/

namespace MarketDataHandler

/-! ## Statements about a trace -/

namespace ServerOutput

def isBroadcast : ServerOutput → Bool
  | .broadcast _ => true
  | _ => false

def isSkip : ServerOutput → Bool
  | .skip _ => true
  | _ => false

end ServerOutput

/-- The numbers passed over strictly between the first and the latest
broadcast. -/
def skippedBetween (trace : List ServerOutput) : Nat :=
  ((trace.dropWhile fun output => !output.isBroadcast).rdropWhile
    fun output => !output.isBroadcast).countP ServerOutput.isSkip

/-- The kernel takes whatever it is given. -/
def TakesAll (outcomes : List SendOutcome) : Prop :=
  ∀ outcome ∈ outcomes, ∃ extra, outcome = .accept extra

/-- An action that does not end the client's connection or withhold a message
from it. -/
def Lossless (client : Nat) : ServerAction → Prop
  | .newConnection accepted => accepted ≠ some client
  | .clientDisconnect fd => fd ≠ client
  | .reorder _ => True
  | .enableFaultInjection _ => True
  | .tick _ sends => TakesAll (sends client)
  | .heartbeat _ sends => TakesAll (sends client)

theorem sendLoop_takesAll
    {outcomes : List SendOutcome} (takesAll : TakesAll outcomes)
    (data : List UInt8) :
    (sendLoop outcomes data).2 = .whole := by
  induction outcomes generalizing data with
  | nil =>
      cases data <;> rfl
  | cons outcome outcomes inductionHypothesis =>
      obtain ⟨extra, rfl⟩ := takesAll outcome List.mem_cons_self
      cases data with
      | nil =>
          rfl
      | cons byte rest =>
          exact inductionHypothesis
            (fun later member =>
              takesAll later (List.mem_cons_of_mem _ member))
            _

/-! ## Counting skips -/

/-- The skips behind the first broadcast. -/
private def skipsBehindFirst (trace : List ServerOutput) : Nat :=
  (trace.dropWhile fun output => !output.isBroadcast).countP
    ServerOutput.isSkip

private theorem rdropWhile_tail
    {front tail : List ServerOutput} {data : List UInt8}
    (quiet : ∀ output ∈ tail, output.isBroadcast = false) :
    (front ++ .broadcast data :: tail).rdropWhile
        (fun output => !output.isBroadcast) =
      front ++ [.broadcast data] := by
  have passed :
      ∀ output ∈ tail.reverse, (!output.isBroadcast) = true := by
    intro output member
    rw [quiet output (List.mem_reverse.mp member)]
    rfl
  rw [List.rdropWhile, List.reverse_append, List.reverse_cons,
    List.append_assoc, List.dropWhile_append_of_pos passed]
  simp [ServerOutput.isBroadcast]

private theorem published_eq_nil_iff (trace : List ServerOutput) :
    published trace = [] ↔
      trace.dropWhile (fun output => !output.isBroadcast) = [] := by
  rw [published, List.filterMap_eq_nil_iff, List.dropWhile_eq_nil_iff]
  constructor
  · intro nothing output member
    have unpublished := nothing output member
    cases output with
    | broadcast data =>
        cases unpublished
    | _ =>
        rfl
  · intro nothing output member
    have unpublished := nothing output member
    cases output with
    | broadcast data =>
        cases unpublished
    | _ =>
        rfl

private theorem countP_isSkip_of_quiet
    {outputs : List ServerOutput}
    (quiet :
      ∀ output ∈ outputs,
        output.isBroadcast = false ∧ output.isSkip = false) :
    outputs.countP ServerOutput.isSkip = 0 := by
  rw [List.countP_eq_zero]
  intro output member
  rw [(quiet output member).2]
  exact Bool.false_ne_true

/-- One more message, possibly behind a skip. -/
private theorem skips_publish
    {trace front tail : List ServerOutput} {data : List UInt8}
    (frontQuiet : ∀ output ∈ front, output.isBroadcast = false)
    (tailQuiet :
      ∀ output ∈ tail,
        output.isBroadcast = false ∧ output.isSkip = false) :
    skippedBetween (trace ++ (front ++ .broadcast data :: tail)) =
        skipsBehindFirst (trace ++ (front ++ .broadcast data :: tail)) ∧
      skipsBehindFirst (trace ++ (front ++ .broadcast data :: tail)) =
        if published trace = [] then
          0
        else
          skipsBehindFirst trace + front.countP ServerOutput.isSkip := by
  have tailBroadcasts :
      ∀ output ∈ tail, output.isBroadcast = false := by
    intro output member
    exact (tailQuiet output member).1
  have tailSkips := countP_isSkip_of_quiet tailQuiet
  have passed : ∀ output ∈ front, (!output.isBroadcast) = true := by
    intro output member
    rw [frontQuiet output member]
    rfl
  rw [skippedBetween, skipsBehindFirst, List.dropWhile_append]
  by_cases first : published trace = []
  · have nothing := (published_eq_nil_iff trace).mp first
    have behind :
        (front ++ .broadcast data :: tail).dropWhile
            (fun output => !output.isBroadcast) =
          [] ++ .broadcast data :: tail := by
      rw [List.dropWhile_append_of_pos passed]
      rfl
    rw [nothing, if_pos List.isEmpty_nil, behind,
      rdropWhile_tail tailBroadcasts, if_pos first]
    simp [ServerOutput.isSkip, tailSkips]
  · have something :
        ¬ (trace.dropWhile
          (fun output => !output.isBroadcast)).isEmpty = true := by
      rw [List.isEmpty_iff]
      exact (published_eq_nil_iff trace).not.mp first
    rw [if_neg something, if_neg first, ← List.append_assoc,
      rdropWhile_tail tailBroadcasts]
    simp [ServerOutput.isSkip, tailSkips, skipsBehindFirst,
      List.countP_append]

/-- Outputs that are neither messages nor skips count for nothing. -/
private theorem skips_quiet
    {trace outputs : List ServerOutput}
    (quiet :
      ∀ output ∈ outputs,
        output.isBroadcast = false ∧ output.isSkip = false) :
    skippedBetween (trace ++ outputs) = skippedBetween trace ∧
      skipsBehindFirst (trace ++ outputs) = skipsBehindFirst trace := by
  have passed : ∀ output ∈ outputs, (!output.isBroadcast) = true := by
    intro output member
    rw [(quiet output member).1]
    rfl
  have unskipped := countP_isSkip_of_quiet quiet
  rw [skippedBetween, skippedBetween, skipsBehindFirst,
    skipsBehindFirst, List.dropWhile_append]
  generalize
    trace.dropWhile (fun output => !output.isBroadcast) = behind
  by_cases empty : behind.isEmpty = true
  · rw [if_pos empty, List.dropWhile_eq_nil_iff.mpr passed,
      List.isEmpty_iff.mp empty]
    exact ⟨rfl, rfl⟩
  · have reversed :
        ∀ output ∈ outputs.reverse, (!output.isBroadcast) = true := by
      intro output member
      exact passed output (List.mem_reverse.mp member)
    rw [if_neg empty, List.countP_append, unskipped, Nat.add_zero,
      List.rdropWhile, List.reverse_append,
      List.dropWhile_append_of_pos reversed]
    exact ⟨rfl, rfl⟩

/-! ## The numbers of consecutive messages -/

theorem ParseCounters.deliverAll_concat
    (counters : ParseCounters) (frames : List Frame) (frame : Frame) :
    (counters.deliverAll (frames ++ [frame])).1 =
      ((counters.deliverAll frames).1.accept frame.seqNo).1 := by
  induction frames generalizing counters with
  | nil =>
      rw [List.nil_append, deliverAll_cons]
      rfl
  | cons first frames inductionHypothesis =>
      rw [List.cons_append, deliverAll_cons, inductionHypothesis,
        deliverAll_cons]

/-- A multiple of a hundred that is passed over is seen by the gap test. -/
theorem countableLoss_of_skip
    {last : UInt32} (multiple : (last + 1) % 100 = 0) :
    CountableLoss last 1 := by
  have bound := last.toNat_lt
  have remainder := congrArg UInt32.toNat multiple
  rw [UInt32.toNat_mod, UInt32.toNat_add] at remainder
  change (last.toNat + 1) % 2 ^ 32 % 100 = 0 at remainder
  right
  constructor
  · intro zero
    subst last
    exact absurd remainder (by decide)
  · by_cases top : last.toNat + 1 = 2 ^ 32
    · exact Or.inr top
    · -- below the wrap the number before it is no multiple of a hundred
      have small : last.toNat + 1 < 2 ^ 32 :=
        Nat.lt_of_le_of_ne bound top
      rw [Nat.mod_eq_of_lt small] at remainder
      omega

/-- What is known about a client that has been lossless since it joined. -/
structure Reported (client : Nat) (server : ExchangeSimulator)
    (trace : List ServerOutput) (frames : List Frame) : Prop where
  member : client ∈ server.clients
  sameConnection : .accepted client ∉ trace
  messages : published trace = frames.map Frame.bytes
  received : sentTo client trace = frames.flatMap Frame.bytes
  next :
    frames ≠ [] →
      (ParseCounters.zero.deliverAll frames).1.lastSeq + 1 =
        server.seqNo
  settled : skippedBetween trace = skipsBehindFirst trace
  gaps :
    (ParseCounters.zero.deliverAll frames).1.seqGaps =
      UInt64.ofNat (skipsBehindFirst trace)

/-- An action that only concerns other clients or the fault flag. -/
theorem Reported.quiet
    {client : Nat} {server next : ExchangeSimulator}
    {trace outputs : List ServerOutput} {frames : List Frame}
    (reported : Reported client server trace frames)
    (member : client ∈ next.clients)
    (sameNumber : next.seqNo = server.seqNo)
    (sameConnection : .accepted client ∉ outputs)
    (unpublished : published outputs = [])
    (unsent : sentTo client outputs = [])
    (quiet :
      ∀ output ∈ outputs,
        output.isBroadcast = false ∧ output.isSkip = false) :
    Reported client next (trace ++ outputs) frames := by
  obtain ⟨between, behind⟩ := @skips_quiet trace outputs quiet
  refine
    { member := member
      sameConnection := ?_
      messages := ?_
      received := ?_
      next := ?_
      settled := ?_
      gaps := ?_ }
  · intro accepted
    rcases List.mem_append.mp accepted with earlier | now
    · exact reported.sameConnection earlier
    · exact sameConnection now
  · rw [published_append, unpublished, List.append_nil]
    exact reported.messages
  · rw [sentTo_append, unsent, List.append_nil]
    exact reported.received
  · rw [sameNumber]
    exact reported.next
  · rw [between, behind]
    exact reported.settled
  · rw [behind]
    exact reported.gaps

/-- What accepting the next frame adds to the gap counter. -/
theorem Reported.accept_gaps
    {client : Nat} {server : ExchangeSimulator}
    {trace : List ServerOutput} {frames : List Frame}
    (reported : Reported client server trace frames)
    (started : frames ≠ [])
    {skipping : Bool} {seq : UInt32}
    (multiple : skipping = true → server.seqNo % 100 = 0)
    (number :
      seq = if skipping then server.seqNo + 1 else server.seqNo) :
    ((ParseCounters.zero.deliverAll frames).1.accept seq).1.seqGaps =
      UInt64.ofNat (skipsBehindFirst trace + skipping.toNat) := by
  have next := reported.next started
  have gaps := reported.gaps
  generalize (ParseCounters.zero.deliverAll frames).1 = counters at *
  have distance :
      seq = counters.lastSeq + 1 + UInt32.ofNat skipping.toNat := by
    rw [number, ← next]
    cases skipping with
    | false =>
        exact (UInt32.add_zero _).symm
    | true =>
        rfl
  have countable : CountableLoss counters.lastSeq skipping.toNat := by
    cases skipping with
    | false =>
        exact Or.inl rfl
    | true =>
        apply countableLoss_of_skip
        rw [next]
        exact multiple rfl
  have small : skipping.toNat < 2 ^ 32 := by
    cases skipping <;> decide
  rw [distance, seqGaps_accept_after_loss counters small,
    (countedLoss_eq_iff _ _).mpr countable, gaps, UInt64.ofNat_add]

/-- What a tick outputs in front of its message. -/
private theorem skipOutputs
    (skipping : Bool) (seq : UInt32) (client : Nat) :
    let front := if skipping then [ServerOutput.skip seq] else []
    .accepted client ∉ front ∧
      published front = [] ∧
      sentTo client front = [] ∧
      (∀ output ∈ front, output.isBroadcast = false) ∧
      front.countP ServerOutput.isSkip = skipping.toNat := by
  cases skipping with
  | false =>
      simp [published, sentTo]
  | true =>
      simp [published, sentTo, ServerOutput.isBroadcast,
        ServerOutput.isSkip]

/-- Behind its message a broadcast outputs neither messages nor skips. -/
theorem Connections.broadcastMessage_tail
    (connections : Connections) (data : List UInt8)
    (sends : Nat → List SendOutcome) :
    ∃ tail,
      (connections.broadcastMessage data sends).2 =
          .broadcast data :: tail ∧
        ∀ output ∈ tail,
          output.isBroadcast = false ∧ output.isSkip = false := by
  obtain ⟨sent, closed, shape, onlySends, onlyCloses, _⟩ :=
    connections.broadcastMessage_shape data sends
  refine ⟨sent ++ closed, shape, ?_⟩
  intro output member
  rcases List.mem_append.mp member with isSend | isClose
  · obtain ⟨_, _, rfl⟩ := onlySends output isSend
    exact ⟨rfl, rfl⟩
  · obtain ⟨_, rfl⟩ := onlyCloses output isClose
    exact ⟨rfl, rfl⟩

/-- The client gets one more message. -/
theorem Reported.publish
    {client : Nat} {server : ExchangeSimulator}
    {trace : List ServerOutput} {frames : List Frame}
    (reported : Reported client server trace frames)
    {sends : Nat → List SendOutcome}
    (takesAll : TakesAll (sends client))
    {skipping : Bool}
    (multiple : skipping = true → server.seqNo % 100 = 0)
    {frame : Frame}
    (number :
      frame.seqNo =
        if skipping then server.seqNo + 1 else server.seqNo) :
    Reported client
      (ExchangeSimulator.broadcast
        { server with seqNo := frame.seqNo + 1 } frame sends).1
      (trace ++
        ((if skipping then [.skip server.seqNo] else []) ++
          (ExchangeSimulator.broadcast
            { server with seqNo := frame.seqNo + 1 } frame sends).2))
      (frames ++ [frame]) := by
  have whole := sendLoop_takesAll takesAll frame.bytes
  obtain ⟨sameConnection, message, sent⟩ :=
    server.toConnections.broadcastMessage_outputs frame.bytes sends
      client
  obtain ⟨tail, shape, tailQuiet⟩ :=
    server.toConnections.broadcastMessage_tail frame.bytes sends
  rw [if_pos reported.member, sendLoop_whole whole] at sent
  obtain ⟨frontConnection, frontMessages, frontSent, frontQuiet,
    frontCount⟩ := skipOutputs skipping server.seqNo client
  generalize
    (if skipping then [ServerOutput.skip server.seqNo] else []) =
      front at *
  change
    Reported client _
      (trace ++
        (front ++
          (server.toConnections.broadcastMessage frame.bytes sends).2)) _
  have counted :=
    @skips_publish trace front tail frame.bytes frontQuiet tailQuiet
  rw [← shape] at counted
  refine
    { member := ?_
      sameConnection := ?_
      messages := ?_
      received := ?_
      next := ?_
      settled := counted.1
      gaps := ?_ }
  · apply Connections.mem_clients_broadcastMessage.mpr
    refine ⟨reported.member, ?_⟩
    rw [whole]
    decide
  · intro accepted
    rcases List.mem_append.mp accepted with earlier | now
    · exact reported.sameConnection earlier
    · rcases List.mem_append.mp now with isSkip | later
      · exact frontConnection isSkip
      · exact sameConnection later
  · rw [published_append, published_append, frontMessages, message,
      reported.messages, List.map_append]
    rfl
  · rw [sentTo_append, sentTo_append, frontSent, sent,
      reported.received, List.flatMap_append]
    simp
  · intro _
    rw [ParseCounters.deliverAll_concat]
    rfl
  · rw [ParseCounters.deliverAll_concat, counted.2]
    by_cases started : frames = []
    · have first : published trace = [] := by
        rw [reported.messages, started]
        rfl
      rw [if_pos first, started]
      rfl
    · have later : published trace ≠ [] := by
        rw [reported.messages]
        simpa using started
      rw [if_neg later, frontCount]
      exact reported.accept_gaps started multiple number

theorem Reported.step
    {client : Nat} {server : ExchangeSimulator}
    {trace : List ServerOutput} {frames : List Frame}
    (reported : Reported client server trace frames)
    {action : ServerAction} (lossless : Lossless client action) :
    ∃ later,
      Reported client (server.step action).1
        (trace ++ (server.step action).2) later := by
  have member := reported.member
  have occupied : ¬ server.clients.isEmpty = true := by
    intro empty
    rw [List.isEmpty_iff.mp empty] at member
    cases member
  cases action with
  | newConnection accepted =>
      cases accepted with
      | none =>
          exact ⟨frames,
            reported.quiet member rfl (by simp [ExchangeSimulator.step,
              ExchangeSimulator.onConnections,
              Connections.handleNewConnection]) rfl rfl
              (fun output absent => by cases absent)⟩
      | some fd =>
          refine ⟨frames,
            reported.quiet (List.mem_insert_of_mem member) rfl ?_ rfl
              rfl ?_⟩
          · intro accepted
            cases List.mem_singleton.mp accepted
            exact lossless rfl
          · intro output only
            cases List.mem_singleton.mp only
            exact ⟨rfl, rfl⟩
  | clientDisconnect fd =>
      refine ⟨frames,
        reported.quiet
          ((List.mem_erase_of_ne (Ne.symm lossless)).mpr member) rfl ?_
          rfl rfl ?_⟩
      · intro accepted
        cases List.mem_singleton.mp accepted
      · intro output only
        cases List.mem_singleton.mp only
        exact ⟨rfl, rfl⟩
  | reorder order =>
      have kept :
          client ∈ (server.toConnections.reorder order).clients :=
        Connections.mem_clients_reorder.mpr member
      exact ⟨frames,
        reported.quiet kept rfl (fun absent => by cases absent) rfl rfl
          (fun output absent => by cases absent)⟩
  | enableFaultInjection enable =>
      exact ⟨frames,
        reported.quiet member rfl (fun absent => by cases absent) rfl
          rfl (fun output absent => by cases absent)⟩
  | tick draw sends =>
      rw [ExchangeSimulator.step,
        ExchangeSimulator.generateAndBroadcast, if_neg occupied]
      have published :=
        @Reported.publish client server trace frames reported sends
          lossless server.skips
          (by
            intro skipping
            rw [ExchangeSimulator.skips, Bool.and_eq_true] at skipping
            exact of_decide_eq_true skipping.2)
          (ExchangeSimulator.tickFrame
            (UInt16.ofNat (server.seqNo.toNat % server.symbolCount))
            (if server.skips then server.seqNo + 1 else server.seqNo)
            draw)
          (ExchangeSimulator.tickFrame_seqNo _ _ _)
      rw [ExchangeSimulator.tickFrame_seqNo] at published
      exact ⟨_, published⟩
  | heartbeat nowNs sends =>
      rw [ExchangeSimulator.step, ExchangeSimulator.broadcastHeartbeat,
        if_neg occupied]
      have published :=
        @Reported.publish client server trace frames reported sends
          lossless false (fun absent => by cases absent)
          (TickGenerator.heartbeatFrame server.seqNo nowNs) rfl
      exact ⟨_, published⟩

theorem Reported.run
    {client : Nat} {server : ExchangeSimulator}
    (joined : Reported client server [] [])
    {actions : List ServerAction}
    (lossless : ∀ action ∈ actions, Lossless client action) :
    ∃ frames,
      Reported client (server.run actions).1 (server.run actions).2
        frames := by
  apply Mealy.run_invariant ExchangeSimulator.step
    (fun server trace => ∃ frames, Reported client server trace frames)
  · rintro state past action guard ⟨frames, reported⟩
    exact reported.step guard
  · exact ⟨[], joined⟩
  · exact Mealy.guarded_of_forall _
      (fun action member _ => lossless action member) server

/-- The trace of a client's connection is what the server did since it
joined. -/
theorem connectionTrace_joined
    (server : ExchangeSimulator) (history during : List ServerAction)
    {client : Nat}
    (lossless : ∀ action ∈ during, Lossless client action) :
    ∃ final frames,
      Reported client final
        (connectionTrace client
          (server.run
            (history ++ .newConnection (some client) :: during)).2)
        frames := by
  let before := server.run history
  let joined := before.1.step (.newConnection (some client))
  have start : Reported client joined.1 [] [] :=
    { member := List.mem_insert_self
      sameConnection := by simp
      messages := rfl
      received := rfl
      next := fun started => absurd rfl started
      settled := rfl
      gaps := rfl }
  obtain ⟨frames, reported⟩ := start.run lossless
  have trace :
      (server.run
          (history ++ .newConnection (some client) :: during)).2 =
        (before.2 ++ [.accepted client]) ++ (joined.1.run during).2 := by
    rw [ExchangeSimulator.run, Mealy.run_append, Mealy.run_cons,
      List.append_assoc]
    rfl
  refine ⟨(joined.1.run during).1, frames, ?_⟩
  rw [trace, connectionTrace_append reported.sameConnection,
    connectionTrace_accepted, List.nil_append]
  exact reported

/-- A fresh parser that is fed the wire of a client which has been lossless
since it joined has parsed every message sent to it, refused none, and counted
exactly the numbers that were passed over between the first and the latest of
them. -/
theorem losslessClient_gapReport
    (server : ExchangeSimulator) (history during : List ServerAction)
    {client : Nat}
    (lossless : ∀ action ∈ during, Lossless client action)
    {parser : Parser} (fresh : parser.Fresh)
    {chunks : List (List UInt8)}
    (cuts :
      chunks.flatten =
        wire client
          (server.run
            (history ++ .newConnection (some client) :: during)).2)
    (bounded : ∀ chunk ∈ chunks, chunk.length ≤ 65536) :
    let trace :=
      connectionTrace client
        (server.run
          (history ++ .newConnection (some client) :: during)).2
    ∃ final events,
      parser.feedAll chunks = some (final, events) ∧
        (callbacks events).map Prod.snd = published trace ∧
        final.totalParsed = UInt64.ofNat (published trace).length ∧
        final.badChecksums = 0 ∧
        final.seqGaps = UInt64.ofNat (skippedBetween trace) := by
  intro trace
  obtain ⟨_, frames, reported⟩ :=
    connectionTrace_joined server history during lossless
  rw [wire, reported.received] at cuts
  obtain ⟨final, fed, counters, _⟩ := fresh.feedAll_frames cuts bounded
  refine ⟨final, _, fed, ?_, ?_, ?_, ?_⟩
  · rw [ParseCounters.callbacks_deliverAll, List.map_map]
    exact reported.messages.symm
  · rw [counters, ParseCounters.totalParsed_deliverAll,
      reported.messages, List.length_map]
    exact UInt64.zero_add _
  · rw [counters, ParseCounters.badChecksums_deliverAll]
    rfl
  · rw [counters, reported.gaps, reported.settled]

/-- A server in front of the largest number with fault injection on. -/
def wrappingServer : ExchangeSimulator where
  clients := []
  nodup := List.nodup_nil
  slowClients := []
  symbolCount := 100
  symbolCount_pos := by decide
  faultInjection := true
  seqNo := 4294967295

/-- A heartbeat with the largest number, a tick that passes over number zero,
and a heartbeat. -/
def wrappingActions : List ServerAction :=
  [.heartbeat 1 fun _ => [.accept 3],
    .tick ⟨⟨10, 20, 30⟩, ⟨40, 50, 60, 70, 80⟩⟩ fun _ => [],
    .heartbeat 2 fun _ => []]

theorem losslessClient_gapReport_wrap :
    let trace :=
      (wrappingServer.run
        (.newConnection (some 7) :: wrappingActions)).2
    ∃ final events,
      (Parser.new ⟨fun _ => 0⟩).feedAll [wire 7 trace] =
          some (final, events) ∧
        final.totalParsed = 3 ∧ final.badChecksums = 0 ∧
          final.seqGaps = 1 := by
  intro trace
  have lossless : ∀ action ∈ wrappingActions, Lossless 7 action := by
    intro action member
    simp only [wrappingActions, List.mem_cons, List.not_mem_nil,
      or_false] at member
    rcases member with rfl | rfl | rfl
    · simp [Lossless, TakesAll]
    · simp [Lossless, TakesAll]
    · simp [Lossless, TakesAll]
  have messages :
      (published
        (connectionTrace 7
          (wrappingServer.run
            (.newConnection (some 7) :: wrappingActions)).2)).length =
        3 := by
    decide +kernel
  have skipped :
      skippedBetween
          (connectionTrace 7
            (wrappingServer.run
              (.newConnection (some 7) :: wrappingActions)).2) =
        1 := by
    decide +kernel
  have short : (wire 7 trace).length ≤ 65536 := by
    decide +kernel
  obtain ⟨final, events, fed, _, total, bad, gaps⟩ :=
    @losslessClient_gapReport wrappingServer [] wrappingActions 7
      lossless _ (Parser.Fresh.constructed ⟨fun _ => 0⟩)
      [wire 7 trace] (List.append_nil _)
      (by
        intro chunk member
        rw [List.mem_singleton.mp member]
        exact short)
  rw [List.nil_append] at total gaps
  rw [messages] at total
  rw [skipped] at gaps
  exact ⟨final, events, fed, total, bad, gaps⟩

end MarketDataHandler
