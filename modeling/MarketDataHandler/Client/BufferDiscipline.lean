import MarketDataHandler.Client.ReferenceScanner

/-!
# The buffer discipline of the parser

What holds of a parser after any calls of `feed` and `reset`, with data of any
length.  The scan loop leaves less than a frame in the buffer, so the next call
finds room for almost a whole buffer; what does not fit is cut off, and the
same loop runs over the rest.

A call of the model has no result if it reads a byte of the buffer at or behind
`buf_used_`, writes outside the buffer or does not leave its loop.
-/

namespace MarketDataHandler

/-! ## Calls -/

inductive ParserCall where
  | feed (data : List UInt8)
  | reset

/-- No object is longer than the largest `ptrdiff_t`. -/
def ParserCall.Allowed : ParserCall → Prop
  | .feed data => data.length ≤ 2 ^ 63 - 1
  | .reset => True

instance (call : ParserCall) : Decidable call.Allowed :=
  match call with
  | .feed data => inferInstanceAs (Decidable (data.length ≤ 2 ^ 63 - 1))
  | .reset => inferInstanceAs (Decidable True)

namespace Parser

def perform (parser : Parser) :
    ParserCall → Option (Parser × List ParseEvent)
  | .feed data => parser.feed (ByteBuffer.ofList data) data.length
  | .reset => some (parser.reset, [])

def performAll : Parser → List ParserCall →
    Option (Parser × List ParseEvent)
  | parser, [] => some (parser, [])
  | parser, call :: calls => do
      let (next, events) ← parser.perform call
      let (final, later) ← next.performAll calls
      some (final, events ++ later)

/-- A parser after any calls. -/
def Reachable (parser : Parser) : Prop :=
  ∃ buf calls events,
    (∀ call ∈ calls, call.Allowed) ∧
      (new buf).performAll calls = some (parser, events)

/-- The states at the head of the loop of `feed`. -/
inductive LoopReaches (filled : Parser) : Parser → Nat → Prop
  | enter : LoopReaches filled filled 0
  | pass {current : Parser} {offset next : Nat}
      {counters : ParseCounters} {events : List ParseEvent} :
      LoopReaches filled current offset →
      current.iterate offset = some (some (counters, events, next)) →
      LoopReaches filled { current with toParseCounters := counters } next

/-- The bytes in the buffer do not decide anything yet. -/
def Settled (parser : Parser) : Prop :=
  scanStep parser.toParseCounters parser.residue = none

/-! ## One call -/

/-- What is left is shorter than a header, or than the frame it starts. -/
theorem Settled.residue_short
    {parser : Parser} (settled : parser.Settled) :
    parser.bufUsed < 16 ∨
      (msgTotalSize (msgTypeAt parser.residue) ≠ 0 ∧
        parser.bufUsed < msgTotalSize (msgTypeAt parser.residue)) := by
  rw [← residue_length]
  exact scanStep_eq_none_iff.mp settled

theorem Settled.bufUsed_le
    {parser : Parser} (settled : parser.Settled) :
    parser.bufUsed ≤ maxMsgSize - 1 := by
  have largest : maxMsgSize = 44 := rfl
  rcases settled.residue_short with short | ⟨known, short⟩
  · omega
  · have bound := (msgTotalSize_bounds known).2.1
    omega

theorem Settled.inBounds
    {parser : Parser} (settled : parser.Settled) : parser.InBounds :=
  Nat.le_trans settled.bufUsed_le (by decide)

theorem settled_reset (parser : Parser) : parser.reset.Settled := by
  rw [Settled, (Fresh.afterReset parser).residue_eq]
  rfl

/-- The bytes that a call scans: the residue and what fits of the data. -/
def joined (parser : Parser) (data : List UInt8) : List UInt8 :=
  parser.residue ++ data.take (parser.room data.length)

/-- The meaning of a call with data of any length. -/
theorem feed_data
    {parser : Parser} (settled : parser.Settled) {data : List UInt8}
    (short : data.length ≤ 2 ^ 63 - 1) :
    ∃ next,
      parser.feed (ByteBuffer.ofList data) data.length =
          some (next,
            parser.overflowLog data.length ++
              (referenceScanner.run parser.toParseCounters
                (parser.joined data)).output) ∧
        next.toParseCounters =
          (referenceScanner.run parser.toParseCounters
            (parser.joined data)).state ∧
        next.residue =
          (referenceScanner.run parser.toParseCounters
            (parser.joined data)).rest ∧
        next.Settled := by
  have used := settled.bufUsed_le
  have largest : maxMsgSize = 44 := rfl
  have room : parser.room data.length ≤ data.length :=
    Nat.min_le_left _ _
  have slice :
      (ByteBuffer.ofList data).slice 0 (parser.room data.length) =
        data.take (parser.room data.length) := by
    rw [← ByteBuffer.slice_take _ room, ByteBuffer.slice_ofList]
  have scanned :
      referenceScanner.run parser.toParseCounters
          (parser.residue ++
            (ByteBuffer.ofList data).slice 0
              (parser.room data.length)) =
        referenceScanner.run parser.toParseCounters
          (parser.joined data) := by
    rw [slice, joined]
  obtain ⟨next, fed, counters, residue, _⟩ :=
    feed_eq settled.inBounds (ByteBuffer.ofList data) (by omega) room
      scanned
  refine ⟨next, fed, counters, residue, ?_⟩
  rw [Settled, counters, residue]
  exact referenceScanner.run_stops _ _

/-- Every call returns, and leaves nothing decided behind. -/
theorem Settled.perform
    {parser : Parser} (settled : parser.Settled) {call : ParserCall}
    (allowed : call.Allowed) :
    ∃ next events,
      parser.perform call = some (next, events) ∧ next.Settled := by
  cases call with
  | feed data =>
      obtain ⟨next, fed, _, _, nextSettled⟩ := feed_data settled allowed
      exact ⟨next, _, fed, nextSettled⟩
  | reset =>
      exact ⟨parser.reset, [], rfl, parser.settled_reset⟩

theorem performAll_cons
    {parser next final : Parser} {call : ParserCall}
    {calls : List ParserCall} {events later : List ParseEvent}
    (performed : parser.perform call = some (next, events))
    (rest : next.performAll calls = some (final, later)) :
    parser.performAll (call :: calls) = some (final, events ++ later) := by
  rw [performAll]
  refine Option.bind_eq_some_iff.mpr ⟨_, performed, ?_⟩
  exact Option.bind_eq_some_iff.mpr ⟨_, rest, rfl⟩

theorem Settled.performAll
    {parser : Parser} (settled : parser.Settled)
    {calls : List ParserCall} (allowed : ∀ call ∈ calls, call.Allowed) :
    ∃ final events,
      parser.performAll calls = some (final, events) ∧ final.Settled := by
  induction calls generalizing parser with
  | nil =>
      exact ⟨parser, [], rfl, settled⟩
  | cons call calls inductionHypothesis =>
      obtain ⟨next, events, performed, nextSettled⟩ :=
        settled.perform (allowed call List.mem_cons_self)
      obtain ⟨final, later, rest, finalSettled⟩ :=
        inductionHypothesis nextSettled
          (fun other member =>
            allowed other (List.mem_cons_of_mem call member))
      exact ⟨final, events ++ later, performAll_cons performed rest,
        finalSettled⟩

theorem Reachable.settled
    {parser : Parser} (reachable : parser.Reachable) : parser.Settled := by
  obtain ⟨buf, calls, events, allowed, performed⟩ := reachable
  have start : (new buf).Settled := by
    rw [Settled, (Fresh.constructed buf).residue_eq]
    rfl
  obtain ⟨final, _, again, settled⟩ := start.performAll allowed
  rw [performed] at again
  cases again
  exact settled

/-! ## The loop -/

/-- At the head of the loop the buffer is the one that was filled, and the
offset is inside. -/
theorem LoopReaches.inside
    {filled current : Parser} {offset : Nat}
    (reaches : LoopReaches filled current offset) :
    filled.InBounds →
      current.InBounds ∧ offset ≤ current.bufUsed := by
  intro inBounds
  induction reaches with
  | enter =>
      exact ⟨inBounds, Nat.zero_le _⟩
  | @pass current offset next counters events _ passed
      inductionHypothesis =>
      obtain ⟨currentInBounds, inside⟩ := inductionHypothesis
      refine ⟨currentInBounds, ?_⟩
      rw [iterate_eq currentInBounds inside] at passed
      simp only [Option.some.injEq, Option.map_eq_some_iff] at passed
      obtain ⟨⟨_, _, count⟩, decided, same⟩ := passed
      have bounded := referenceScanner.step_le decided
      rw [List.length_drop, residue_length] at bounded
      have moved : offset + count = next :=
        congrArg (fun result => result.2.2) same
      change next ≤ current.bufUsed
      omega

/-- Every pass of the loop has a result. -/
theorem LoopReaches.defined
    {filled current : Parser} {offset : Nat}
    (reaches : LoopReaches filled current offset)
    (inBounds : filled.InBounds) :
    (current.iterate offset).isSome = true := by
  obtain ⟨currentInBounds, inside⟩ := reaches.inside inBounds
  rw [iterate_eq currentInBounds inside]
  rfl

/-! ## Stale bytes -/

/-- Two parsers that differ in bytes behind `buf_used_` at most. -/
structure Agree (first second : Parser) : Prop where
  counters : first.toParseCounters = second.toParseCounters
  residue : first.residue = second.residue

theorem Agree.bufUsed {first second : Parser} (agree : Agree first second) :
    first.bufUsed = second.bufUsed := by
  rw [← residue_length, ← residue_length, agree.residue]

theorem Agree.perform
    {first second : Parser} (agree : Agree first second)
    (firstSettled : first.Settled) (secondSettled : second.Settled)
    {call : ParserCall} (allowed : call.Allowed) :
    ∃ firstNext secondNext events,
      first.perform call = some (firstNext, events) ∧
        second.perform call = some (secondNext, events) ∧
        Agree firstNext secondNext ∧
        firstNext.Settled ∧ secondNext.Settled := by
  cases call with
  | feed data =>
      obtain ⟨firstNext, firstFed, firstCounters, firstResidue,
        firstNextSettled⟩ := feed_data firstSettled allowed
      obtain ⟨secondNext, secondFed, secondCounters, secondResidue,
        secondNextSettled⟩ := feed_data secondSettled allowed
      have sameJoined : first.joined data = second.joined data := by
        rw [joined, joined, agree.residue, room, room, agree.bufUsed]
      have sameLog :
          first.overflowLog data.length =
            second.overflowLog data.length := by
        rw [overflowLog, overflowLog, room, room, agree.bufUsed]
      rw [agree.counters, sameJoined] at firstCounters firstResidue
      rw [agree.counters, sameJoined, sameLog] at firstFed
      exact ⟨firstNext, secondNext, _, firstFed, secondFed,
        ⟨firstCounters.trans secondCounters.symm,
          firstResidue.trans secondResidue.symm⟩,
        firstNextSettled, secondNextSettled⟩
  | reset =>
      exact ⟨first.reset, second.reset, [], rfl, rfl, ⟨rfl, rfl⟩,
        first.settled_reset, second.settled_reset⟩

/-- Parsers that agree do the same from then on. -/
theorem Agree.performAll
    {first second : Parser} (agree : Agree first second)
    (firstSettled : first.Settled) (secondSettled : second.Settled)
    {calls : List ParserCall} (allowed : ∀ call ∈ calls, call.Allowed) :
    ∃ firstFinal secondFinal events,
      first.performAll calls = some (firstFinal, events) ∧
        second.performAll calls = some (secondFinal, events) := by
  induction calls generalizing first second with
  | nil =>
      exact ⟨first, second, [], rfl, rfl⟩
  | cons call calls inductionHypothesis =>
      obtain ⟨firstNext, secondNext, events, firstPerformed,
        secondPerformed, nextAgree, firstNextSettled,
        secondNextSettled⟩ :=
          agree.perform firstSettled secondSettled
            (allowed call List.mem_cons_self)
      obtain ⟨firstFinal, secondFinal, later, firstRest, secondRest⟩ :=
        inductionHypothesis nextAgree firstNextSettled secondNextSettled
          (fun other member =>
            allowed other (List.mem_cons_of_mem call member))
      exact ⟨firstFinal, secondFinal, events ++ later,
        performAll_cons firstPerformed firstRest,
        performAll_cons secondPerformed secondRest⟩

theorem agree_reset (first second : Parser) :
    Agree first.reset second.reset :=
  ⟨rfl, rfl⟩

/-! ## The discipline of a call -/

/-- What is promised about a call of `feed`. -/
structure FeedDiscipline (parser : Parser) (data : List UInt8) :
    Prop where
  /-- The copy in front of the loop stays inside the buffer, and so does the
  offset, with everything that is read there, in each pass. -/
  loop :
    ∃ filled log,
      parser.fill (ByteBuffer.ofList data) data.length =
          some (filled, log) ∧
        ∀ current offset, LoopReaches filled current offset →
          offset ≤ current.bufUsed ∧ current.bufUsed ≤ parseBufSize ∧
            sizeSub current.bufUsed offset =
              current.bufUsed - offset ∧
            (current.iterate offset).isSome = true
  /-- The call returns with less than a frame in the buffer. -/
  returns :
    ∃ next events,
      parser.feed (ByteBuffer.ofList data) data.length =
          some (next, events) ∧
        next.bufUsed ≤ maxMsgSize - 1 ∧
        (next.bufUsed < MsgHeader.codec.size ∨
          (msgTotalSize (msgTypeAt next.residue) ≠ 0 ∧
            next.bufUsed < msgTotalSize (msgTypeAt next.residue)))
  /-- Only data of almost the size of the buffer overflows it. -/
  overflow :
    parseBufSize < sizeAdd parser.bufUsed data.length →
      parseBufSize - (maxMsgSize - 1) < data.length

theorem Settled.feedDiscipline
    {parser : Parser} (settled : parser.Settled) {data : List UInt8}
    (short : data.length ≤ 2 ^ 63 - 1) :
    FeedDiscipline parser data where
  loop := by
    have used := settled.bufUsed_le
    have largest : maxMsgSize = 44 := rfl
    obtain ⟨filled, fillEq, _, _, inBounds⟩ :=
      fill_eq settled.inBounds (ByteBuffer.ofList data)
        (show parser.bufUsed + data.length < 2 ^ 64 by omega)
        (Nat.min_le_left _ _)
    refine ⟨filled, _, fillEq, ?_⟩
    intro current offset reaches
    obtain ⟨currentInBounds, inside⟩ := reaches.inside inBounds
    have small : current.bufUsed < 2 ^ 64 :=
      Nat.lt_of_le_of_lt currentInBounds (by decide)
    exact ⟨inside, currentInBounds, sizeSub_of_le inside small,
      reaches.defined inBounds⟩
  returns := by
    obtain ⟨next, fed, _, _, nextSettled⟩ := feed_data settled short
    exact ⟨next, _, fed, nextSettled.bufUsed_le,
      nextSettled.residue_short⟩
  overflow := by
    intro overflows
    have used := settled.bufUsed_le
    have sizes : maxMsgSize = 44 ∧ parseBufSize = 131072 := ⟨rfl, rfl⟩
    rw [sizeAdd_of_lt (by omega)] at overflows
    omega

end Parser

/-- The next call of any reachable parser keeps the discipline; reads of the
feed handler never overflow, and after a reset the stale bytes have no effect
on what any further calls do. -/
theorem parser_bufferDiscipline
    {parser : Parser} (reachable : parser.Reachable) :
    (∀ data : List UInt8, data.length ≤ 2 ^ 63 - 1 →
        parser.FeedDiscipline data) ∧
      (∀ data : List UInt8, data.length ≤ 65536 →
        ¬ parseBufSize < sizeAdd parser.bufUsed data.length) ∧
      ∀ (stale : Parser) (calls : List ParserCall),
        (∀ call ∈ calls, call.Allowed) →
          ∃ final staleFinal events,
            parser.reset.performAll calls = some (final, events) ∧
              stale.reset.performAll calls =
                some (staleFinal, events) := by
  have settled := reachable.settled
  refine ⟨?_, ?_, ?_⟩
  · intro data short
    exact settled.feedDiscipline short
  · intro data read overflows
    have sizes : maxMsgSize = 44 ∧ parseBufSize = 131072 := ⟨rfl, rfl⟩
    have long :=
      (settled.feedDiscipline (show data.length ≤ 2 ^ 63 - 1 by
        omega)).overflow overflows
    omega
  · intro stale calls allowed
    exact (parser.agree_reset stale).performAll parser.settled_reset
      stale.settled_reset allowed

/-- A parser that holds the front of a heartbeat. -/
theorem parser_bufferDiscipline_partial :
    ∃ parser : Parser,
      parser.residue = [3, 0, 1] ∧
        parser.FeedDiscipline (List.replicate 200000 0) := by
  have start : (Parser.new ⟨fun _ => 0⟩).Settled := by
    rw [Parser.Settled,
      (Parser.Fresh.constructed ⟨fun _ => 0⟩).residue_eq]
    rfl
  obtain ⟨parser, fed, _, residue, _⟩ :=
    Parser.feed_data start (show ([3, 0, 1] : List UInt8).length ≤ _ by
      decide)
  have reachable : parser.Reachable :=
    ⟨⟨fun _ => 0⟩, [.feed [3, 0, 1]], _, by decide,
      Parser.performAll_cons fed rfl⟩
  refine ⟨parser, ?_, ?_⟩
  · rw [residue]
    exact congrArg _ (referenceScanner.run_of_step_none rfl)
  · apply (parser_bufferDiscipline reachable).1
    rw [List.length_replicate]
    decide

end MarketDataHandler
