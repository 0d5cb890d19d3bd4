import MarketDataHandler.Client.Parser
import MarketDataHandler.Lib.StreamScanner

/-!
# The reference scanner and the parser that refines it

The reference scanner is the meaning of the parser: it runs once over a byte
stream and knows no buffer.  At each position with a whole header left it
skips one byte if the type is unknown, stops if the frame is incomplete, skips
the frame if its checksum is wrong, and otherwise delivers it.

`Parser.feed_eq` says that a call of `feed` is a run of the scanner over the
residue followed by the data that fits; fragmentation independence is then a
property of the scanner.
-/

namespace MarketDataHandler

open PackedCodec (u16 u32)
open PackedCodec.Words

/-! ## The scanner -/

/-- A frame goes to the callback of its type. -/
def deliveredTo (frame : List UInt8) : List ParseEvent :=
  if msgTypeAt frame = msgTrade then
    [.invoke .trade frame]
  else if msgTypeAt frame = msgQuote then
    [.invoke .quote frame]
  else if msgTypeAt frame = msgHeartbeat then
    [.invoke .heartbeat frame]
  else
    []

/-- Check and account for one whole frame. -/
def ParseCounters.receive (counters : ParseCounters)
    (frame : List UInt8) : ParseCounters × List ParseEvent :=
  if bodyChecksum frame ≠ wireChecksum frame then
    (counters.reject, [.badChecksum frame])
  else
    ((counters.accept (seqNoAt frame)).1,
      (counters.accept (seqNoAt frame)).2 ++ deliveredTo frame)

/-- The `switch` of the parser selects the callback of the type. -/
theorem dispatch_eq_deliveredTo (frame : List UInt8) :
    dispatch (msgTypeAt frame) frame = deliveredTo frame := by
  rw [dispatch, MsgKind.ofCode, deliveredTo]
  by_cases isTrade : msgTypeAt frame = msgTrade
  · simp only [if_pos isTrade]
  · by_cases isQuote : msgTypeAt frame = msgQuote
    · simp only [if_neg isTrade, if_pos isQuote]
    · by_cases isHeartbeat : msgTypeAt frame = msgHeartbeat
      · simp only [if_neg isTrade, if_neg isQuote, if_pos isHeartbeat]
      · simp only [if_neg isTrade, if_neg isQuote, if_neg isHeartbeat]

theorem ParseCounters.receive_eq_dispatch
    (counters : ParseCounters) (frame : List UInt8) :
    counters.receive frame =
      if bodyChecksum frame ≠ wireChecksum frame then
        (counters.reject, [.badChecksum frame])
      else
        ((counters.accept (seqNoAt frame)).1,
          (counters.accept (seqNoAt frame)).2 ++
            dispatch (msgTypeAt frame) frame) := by
  rw [dispatch_eq_deliveredTo]
  rfl

/-- The decision at the front of the unread bytes. -/
def scanStep (counters : ParseCounters) (input : List UInt8) :
    Option (ParseCounters × List ParseEvent × Nat) :=
  if input.length < MsgHeader.codec.size then
    none
  else
    let expected := msgTotalSize (msgTypeAt input)
    if expected = 0 then
      some (counters, [.skipByte (input.headD 0)], 1)
    else if input.length < expected then
      none
    else
      some ((counters.receive (input.take expected)).1,
        (counters.receive (input.take expected)).2, expected)

theorem msgTypeAt_append
    {bytes : List UInt8} (long : 2 ≤ bytes.length)
    (more : List UInt8) :
    msgTypeAt (bytes ++ more) = msgTypeAt bytes := by
  change
    UInt16.ofNat (leValue ((bytes ++ more).take 2)) =
      UInt16.ofNat (leValue (bytes.take 2))
  rw [List.take_append_of_le_length long]

theorem msgTypeAt_take (bytes : List UInt8) {count : Nat} (two : 2 ≤ count) :
    msgTypeAt (bytes.take count) = msgTypeAt bytes := by
  change
    UInt16.ofNat (leValue ((bytes.take count).take 2)) =
      UInt16.ofNat (leValue (bytes.take 2))
  rw [List.take_take, Nat.min_eq_left two]

/-! One equation for each branch. -/

theorem scanStep_skip
    {counters : ParseCounters} {input : List UInt8}
    (long : 16 ≤ input.length)
    (unknown : msgTotalSize (msgTypeAt input) = 0) :
    scanStep counters input =
      some (counters, [.skipByte (input.headD 0)], 1) := by
  have header : ¬ input.length < MsgHeader.codec.size :=
    Nat.not_lt_of_le long
  unfold scanStep
  simp only [if_neg header, if_pos unknown]

theorem scanStep_frame
    {counters : ParseCounters} {input : List UInt8}
    (known : msgTotalSize (msgTypeAt input) ≠ 0)
    (complete : msgTotalSize (msgTypeAt input) ≤ input.length) :
    scanStep counters input =
      some
        ((counters.receive
            (input.take (msgTotalSize (msgTypeAt input)))).1,
          (counters.receive
            (input.take (msgTotalSize (msgTypeAt input)))).2,
          msgTotalSize (msgTypeAt input)) := by
  have size := (msgTotalSize_bounds known).1
  have header : ¬ input.length < MsgHeader.codec.size := by
    rw [MsgHeader.codec_size]
    omega
  unfold scanStep
  simp only [if_neg header, if_neg known,
    if_neg (Nat.not_lt_of_le complete)]

/-- While nothing can be decided the input is shorter than a header, or
starts with a known type and is shorter than that frame. -/
theorem scanStep_eq_none_iff
    {counters : ParseCounters} {input : List UInt8} :
    scanStep counters input = none ↔
      input.length < 16 ∨
        (msgTotalSize (msgTypeAt input) ≠ 0 ∧
          input.length < msgTotalSize (msgTypeAt input)) := by
  by_cases short : input.length < 16
  · simp [scanStep, short]
  · have long : 16 ≤ input.length := Nat.le_of_not_lt short
    by_cases unknown : msgTotalSize (msgTypeAt input) = 0
    · rw [scanStep_skip long unknown]
      simp [short, unknown]
    · by_cases incomplete :
          input.length < msgTotalSize (msgTypeAt input)
      · simp [scanStep, short, unknown, incomplete]
      · rw [scanStep_frame unknown (Nat.le_of_not_lt incomplete)]
        simp [short, incomplete]

/-- The two ways a decision is made. -/
theorem scanStep_cases
    {counters next : ParseCounters} {input : List UInt8}
    {events : List ParseEvent} {count : Nat}
    (decision : scanStep counters input = some (next, events, count)) :
    16 ≤ input.length ∧
      ((msgTotalSize (msgTypeAt input) = 0 ∧ next = counters ∧
          events = [.skipByte (input.headD 0)] ∧ count = 1) ∨
        (msgTotalSize (msgTypeAt input) ≠ 0 ∧
          count = msgTotalSize (msgTypeAt input) ∧
          count ≤ input.length ∧
          (next, events) = counters.receive (input.take count))) := by
  have decided : scanStep counters input ≠ none := by
    rw [decision]
    exact Option.some_ne_none _
  rw [Ne, scanStep_eq_none_iff] at decided
  have long : 16 ≤ input.length := by omega
  refine ⟨long, ?_⟩
  by_cases unknown : msgTotalSize (msgTypeAt input) = 0
  · rw [scanStep_skip long unknown] at decision
    simp only [Option.some.injEq, Prod.mk.injEq] at decision
    obtain ⟨rfl, rfl, rfl⟩ := decision
    exact Or.inl ⟨unknown, rfl, rfl, rfl⟩
  · have complete : msgTotalSize (msgTypeAt input) ≤ input.length := by
      by_contra incomplete
      exact decided (Or.inr ⟨unknown, Nat.lt_of_not_le incomplete⟩)
    rw [scanStep_frame unknown complete] at decision
    simp only [Option.some.injEq, Prod.mk.injEq] at decision
    obtain ⟨rfl, rfl, rfl⟩ := decision
    exact Or.inr ⟨unknown, rfl, complete, Prod.mk.eta⟩

private theorem scanStep_append
    {counters : ParseCounters} {input : List UInt8}
    {decision : ParseCounters × List ParseEvent × Nat}
    (more : List UInt8)
    (decided : scanStep counters input = some decision) :
    scanStep counters (input ++ more) = some decision := by
  obtain ⟨next, events, count⟩ := decision
  obtain ⟨long, shape⟩ := scanStep_cases decided
  have sameType : msgTypeAt (input ++ more) = msgTypeAt input :=
    msgTypeAt_append (by omega) more
  have longer : input.length ≤ (input ++ more).length := by
    rw [List.length_append]
    omega
  rcases shape with
    ⟨unknown, rfl, rfl, rfl⟩ | ⟨known, rfl, complete, received⟩
  · have sameHead : (input ++ more).headD 0 = input.headD 0 := by
      cases input with
      | nil =>
          simp at long
      | cons first rest =>
          rfl
    rw [scanStep_skip (Nat.le_trans long longer) (by rw [sameType, unknown]),
      sameHead]
  · rw [← sameType] at known complete
    rw [scanStep_frame known (Nat.le_trans complete longer), sameType]
    rw [sameType] at complete
    rw [List.take_append_of_le_length complete, ← received]

/-- The reference scanner. -/
def referenceScanner :
    StreamScanner ParseCounters ParseEvent UInt8 where
  step := scanStep
  step_pos := by
    intro counters input next events count decision
    obtain ⟨_, shape⟩ := scanStep_cases decision
    rcases shape with ⟨_, _, _, rfl⟩ | ⟨known, rfl, _, _⟩
    · decide
    · exact Nat.pos_of_ne_zero known
  step_le := by
    intro counters input next events count decision
    obtain ⟨long, shape⟩ := scanStep_cases decision
    rcases shape with ⟨_, _, _, rfl⟩ | ⟨_, _, complete, _⟩
    · omega
    · exact complete
  step_append := scanStep_append

/-- What a scan of a whole stream from zeroed counters does. -/
def referenceScan (stream : List UInt8) :
    StreamScanner.Outcome ParseCounters ParseEvent UInt8 :=
  referenceScanner.run ParseCounters.zero stream

/-- A residue never reaches the size of the largest frame. -/
theorem referenceScanner_rest_lt
    (counters : ParseCounters) (input : List UInt8) :
    (referenceScanner.run counters input).rest.length < maxMsgSize := by
  have stopped := referenceScanner.run_stops counters input
  rcases scanStep_eq_none_iff.mp stopped with short | ⟨known, incomplete⟩
  · exact Nat.lt_trans short (by decide)
  · exact Nat.lt_of_lt_of_le incomplete (msgTotalSize_bounds known).2.1

/-! ## The loop of the parser -/

namespace Parser

/-- The frame check of the loop, once its bytes have been read. -/
private theorem receive_split
    (counters : ParseCounters) (input : List UInt8)
    {size : Nat} (wide : 20 ≤ size) (complete : size ≤ input.length) :
    counters.receive (input.take size) =
      if computeChecksum (input.take (size - 4)) ≠
          u32.decode ((input.drop (size - 4)).take 4) then
        (counters.reject, [.badChecksum (input.take size)])
      else
        ((counters.accept (u32.decode ((input.drop 2).take 4))).1,
          (counters.accept (u32.decode ((input.drop 2).take 4))).2 ++
            dispatch (msgTypeAt input) (input.take size)) := by
  have length : (input.take size).length = size := by
    rw [List.length_take, Nat.min_eq_left complete]
  have front : (input.take size).take (size - 4) =
      input.take (size - 4) := by
    rw [List.take_take, Nat.min_eq_left (Nat.sub_le size 4)]
  have back : (input.take size).drop (size - 4) =
      (input.drop (size - 4)).take 4 := by
    rw [List.drop_take]
    congr 1
    omega
  have seq : seqNoAt (input.take size) =
      u32.decode ((input.drop 2).take 4) := by
    change
      UInt32.ofNat (leValue (((input.take size).drop 2).take 4)) =
        UInt32.ofNat (leValue (((input.drop 2).take 4).take 4))
    rw [List.drop_take, List.take_take, List.take_take]
    congr 3
    omega
  rw [ParseCounters.receive_eq_dispatch]
  unfold bodyChecksum wireChecksum
  rw [length, front, back, seq, msgTypeAt_take input (by omega)]

/-- One pass of the loop is one decision of the scanner on the bytes behind
the offset. -/
theorem iterate_eq
    {parser : Parser} (inBounds : parser.InBounds)
    {offset : Nat} (inside : offset ≤ parser.bufUsed) :
    parser.iterate offset =
      some ((scanStep parser.toParseCounters
          (parser.residue.drop offset)).map
        fun decision =>
          (decision.1, decision.2.1, offset + decision.2.2)) := by
  have small : parser.bufUsed < 2 ^ 64 :=
    Nat.lt_of_le_of_lt inBounds (by decide)
  have length :
      (parser.residue.drop offset).length = parser.bufUsed - offset := by
    rw [List.length_drop, residue_length]
  unfold iterate
  rw [sizeSub_of_le inside small, MsgHeader.codec_size]
  by_cases short : parser.bufUsed - offset < 16
  · rw [if_pos short, scanStep_eq_none_iff.mpr (Or.inl (by omega))]
    rfl
  · rw [if_neg short,
      load_eq inBounds (show offset + 2 ≤ parser.bufUsed by omega)]
    simp only [Option.bind_eq_bind, Option.bind_some,
      msgTypeAt_take _ (Nat.le_refl 2)]
    by_cases unknown :
        msgTotalSize (msgTypeAt (parser.residue.drop offset)) = 0
    · have sameHead :
          ((parser.residue.drop offset).take 2).headD 0 =
            (parser.residue.drop offset).headD 0 := by
        cases parser.residue.drop offset <;> rfl
      rw [if_pos unknown, sameHead,
        scanStep_skip (by omega) unknown]
      rfl
    · rw [if_neg unknown]
      by_cases incomplete :
          parser.bufUsed - offset <
            msgTotalSize (msgTypeAt (parser.residue.drop offset))
      · rw [if_pos incomplete,
          scanStep_eq_none_iff.mpr (Or.inr ⟨unknown, by omega⟩)]
        rfl
      · have size := (msgTotalSize_bounds unknown).1
        rw [if_neg incomplete, scanStep_frame unknown (by omega),
          receive_split _ _ size (by omega)]
        generalize expectedEq :
          msgTotalSize (msgTypeAt (parser.residue.drop offset)) =
            expected at *
        have joined :
            (parser.residue.drop offset).take (expected - 4) ++
                ((parser.residue.drop offset).drop (expected - 4)).take 4 =
              (parser.residue.drop offset).take expected := by
          rw [← List.take_add]
          congr 1
          omega
        rw [load_eq inBounds
            (show offset + (expected - 4) ≤ parser.bufUsed by omega),
          load_eq inBounds
            (show offset + expected - 4 + 4 ≤ parser.bufUsed by omega),
          load_eq inBounds
            (show offset + 2 + 4 ≤ parser.bufUsed by omega)]
        have wirePosition :
            offset + expected - 4 = offset + (expected - 4) := by
          omega
        simp only [Option.bind_some]
        rw [wirePosition, ← List.drop_drop, ← List.drop_drop, joined]
        split <;> rfl

/-- The loop is a scan of the bytes behind the offset, and it ends within one
pass for each of them. -/
theorem scanLoop_eq
    {fuel : Nat} {parser : Parser} (inBounds : parser.InBounds)
    {offset : Nat} (inside : offset ≤ parser.bufUsed)
    (enough : parser.bufUsed - offset < fuel) :
    scanLoop fuel parser offset =
      some
        ({ parser with
            toParseCounters :=
              (referenceScanner.run parser.toParseCounters
                (parser.residue.drop offset)).state },
          (referenceScanner.run parser.toParseCounters
            (parser.residue.drop offset)).output,
          parser.bufUsed -
            (referenceScanner.run parser.toParseCounters
              (parser.residue.drop offset)).rest.length) := by
  induction fuel generalizing parser offset with
  | zero =>
      omega
  | succ fuel inductionHypothesis =>
      rw [scanLoop, iterate_eq inBounds inside]
      cases decision :
          scanStep parser.toParseCounters (parser.residue.drop offset) with
      | none =>
          rw [referenceScanner.run_of_step_none decision]
          simp only [Option.map_none, Option.bind_eq_bind,
            Option.bind_some, List.length_drop, residue_length]
          rw [Nat.sub_sub_self inside]
      | some value =>
          obtain ⟨counters, events, count⟩ := value
          have positive := referenceScanner.step_pos decision
          have bounded := referenceScanner.step_le decision
          rw [List.length_drop, residue_length] at bounded
          have continued :=
            @inductionHypothesis
              { parser with toParseCounters := counters }
              inBounds (offset + count)
              (show offset + count ≤ parser.bufUsed by omega)
              (show parser.bufUsed - (offset + count) < fuel by omega)
          have sameResidue :
              residue { parser with toParseCounters := counters } =
                parser.residue :=
            rfl
          rw [sameResidue] at continued
          rw [referenceScanner.run_of_step_some decision, List.drop_drop]
          simp only [Option.map_some, Option.bind_eq_bind,
            Option.bind_some, continued]
          rfl

/-! ## The two copies around the loop -/

/-- How much of the data still fits into the buffer. -/
def room (parser : Parser) (len : Nat) : Nat :=
  min len (parseBufSize - parser.bufUsed)

/-- The warning about data that does not fit. -/
def overflowLog (parser : Parser) (len : Nat) : List ParseEvent :=
  if parseBufSize < parser.bufUsed + len then
    [.logOverflow (len - parser.room len)]
  else
    []

private theorem residue_copy
    {capacity : Nat} {parser : Parser} {data : ByteBuffer capacity}
    {count : Nat} :
    residue
        { parser with
          buf := parser.buf.write parser.bufUsed (data.slice 0 count)
          bufUsed := parser.bufUsed + count } =
      parser.residue ++ data.slice 0 count := by
  have back :=
    ByteBuffer.slice_write_self parser.buf parser.bufUsed
      (data.slice 0 count)
  rw [ByteBuffer.slice_length] at back
  unfold residue
  rw [← ByteBuffer.slice_append, Nat.zero_add, back,
    ByteBuffer.slice_write_before _ (by omega)]

theorem fill_eq
    {capacity : Nat} {parser : Parser} (inBounds : parser.InBounds)
    (data : ByteBuffer capacity) {len : Nat}
    (representable : parser.bufUsed + len < 2 ^ 64)
    (available : parser.room len ≤ capacity) :
    ∃ filled,
      parser.fill data len = some (filled, parser.overflowLog len) ∧
        filled.toParseCounters = parser.toParseCounters ∧
        filled.residue =
          parser.residue ++ data.slice 0 (parser.room len) ∧
        filled.InBounds := by
  have used : parser.bufUsed ≤ parseBufSize := inBounds
  have bound : parseBufSize < 2 ^ 64 := by decide
  unfold fill overflowLog
  rw [sizeAdd_of_lt representable]
  by_cases overflow : parseBufSize < parser.bufUsed + len
  · have roomEq : parser.room len = parseBufSize - parser.bufUsed :=
      Nat.min_eq_right (by omega)
    rw [roomEq] at available ⊢
    rw [if_pos overflow, if_pos overflow, sizeSub_of_le used bound]
    have discarded :
        sizeSub len (parseBufSize - parser.bufUsed) =
          len - (parseBufSize - parser.bufUsed) :=
      sizeSub_of_le (by omega) (by omega)
    by_cases free : 0 < parseBufSize - parser.bufUsed
    · have total :
          sizeAdd parser.bufUsed (parseBufSize - parser.bufUsed) =
            parser.bufUsed + (parseBufSize - parser.bufUsed) :=
        sizeAdd_of_lt (by omega)
      simp only [if_pos free, discarded, total]
      rw [ByteBuffer.copy_eq_some _ _ (by omega) (by omega)]
      exact ⟨_, rfl, rfl, residue_copy, by
        change parser.bufUsed + (parseBufSize - parser.bufUsed) ≤
          parseBufSize
        omega⟩
    · have full : parseBufSize - parser.bufUsed = 0 := by omega
      simp only [if_neg free, discarded]
      exact ⟨parser, rfl, rfl, by rw [full]; simp, inBounds⟩
  · have roomEq : parser.room len = len := Nat.min_eq_left (by omega)
    rw [roomEq] at available ⊢
    rw [if_neg overflow, if_neg overflow,
      ByteBuffer.copy_eq_some _ _ (by omega) (by omega)]
    exact ⟨_, rfl, rfl, residue_copy, by
      change parser.bufUsed + len ≤ parseBufSize
      omega⟩

theorem compact_eq
    {parser : Parser} (inBounds : parser.InBounds)
    {offset : Nat} (inside : offset ≤ parser.bufUsed) :
    ∃ compacted,
      parser.compact offset = some compacted ∧
        compacted.toParseCounters = parser.toParseCounters ∧
        compacted.residue = parser.residue.drop offset ∧
        compacted.InBounds := by
  have used : parser.bufUsed ≤ parseBufSize := inBounds
  have small : parser.bufUsed < 2 ^ 64 :=
    Nat.lt_of_le_of_lt inBounds (by decide)
  unfold compact
  rw [sizeSub_of_le inside small]
  by_cases moved : 0 < offset
  · rw [if_pos moved]
    by_cases left : 0 < parser.bufUsed - offset
    · have whole :
          (parser.residue.drop offset).take (parser.bufUsed - offset) =
            parser.residue.drop offset := by
        apply List.take_of_length_le
        rw [List.length_drop, residue_length]
      have length :
          (parser.residue.drop offset).length =
            parser.bufUsed - offset := by
        rw [List.length_drop, residue_length]
      have fits : 0 + (parser.residue.drop offset).length ≤
          parseBufSize := by
        omega
      have loaded :
          parser.load offset (parser.bufUsed - offset) =
            some (parser.residue.drop offset) := by
        rw [load_eq inBounds (by omega), whole]
      simp only [if_pos left, loaded, Option.bind_eq_bind,
        Option.bind_some, ByteBuffer.store, if_pos fits]
      refine ⟨_, rfl, rfl, ?_, ?_⟩
      · unfold residue
        rw [← length]
        exact ByteBuffer.slice_write_self _ _ _
      · change parser.bufUsed - offset ≤ parseBufSize
        omega
    · have nothing : parser.bufUsed - offset = 0 := by omega
      have empty : parser.residue.drop offset = [] := by
        apply List.eq_nil_of_length_eq_zero
        rw [List.length_drop, residue_length]
        omega
      simp only [if_neg left]
      refine ⟨_, rfl, rfl, ?_, ?_⟩
      · rw [empty]
        unfold residue
        rw [nothing]
        rfl
      · change parser.bufUsed - offset ≤ parseBufSize
        omega
  · have zero : offset = 0 := by omega
    rw [if_neg moved, zero]
    exact ⟨parser, rfl, rfl, rfl, inBounds⟩

/-- The meaning of one call: a scan of the residue followed by the data that
fits, whatever the stale bytes of the buffer are. -/
theorem feed_eq
    {capacity : Nat} {parser : Parser} (inBounds : parser.InBounds)
    (data : ByteBuffer capacity) {len : Nat}
    (representable : parser.bufUsed + len < 2 ^ 64)
    (available : parser.room len ≤ capacity)
    {outcome : StreamScanner.Outcome ParseCounters ParseEvent UInt8}
    (scanned :
      referenceScanner.run parser.toParseCounters
        (parser.residue ++ data.slice 0 (parser.room len)) = outcome) :
    ∃ final,
      parser.feed data len =
          some (final, parser.overflowLog len ++ outcome.output) ∧
        final.toParseCounters = outcome.state ∧
        final.residue = outcome.rest ∧
        final.InBounds := by
  obtain ⟨filled, fillEq, filledCounters, filledResidue, filledInBounds⟩ :=
    fill_eq inBounds data representable available
  have looped :=
    @scanLoop_eq (filled.bufUsed + 1) filled filledInBounds 0
      (Nat.zero_le _) (by omega)
  rw [List.drop_zero, filledCounters, filledResidue, scanned] at looped
  obtain ⟨count, bounded, rest⟩ :=
    referenceScanner.run_rest parser.toParseCounters
      (parser.residue ++ data.slice 0 (parser.room len))
  rw [scanned, ← filledResidue] at rest
  rw [← filledResidue, residue_length] at bounded
  have stop : filled.bufUsed - outcome.rest.length = count := by
    rw [rest, List.length_drop, residue_length]
    omega
  rw [stop] at looped
  obtain ⟨final, compactEq, finalCounters, finalResidue, finalInBounds⟩ :=
    @compact_eq { filled with toParseCounters := outcome.state }
      filledInBounds count bounded
  refine ⟨final, ?_, finalCounters, ?_, finalInBounds⟩
  · unfold feed
    refine Option.bind_eq_some_iff.mpr ⟨_, fillEq, ?_⟩
    refine Option.bind_eq_some_iff.mpr ⟨_, looped, ?_⟩
    exact Option.bind_eq_some_iff.mpr ⟨_, compactEq, rfl⟩
  · rw [finalResidue, rest]
    rfl

/-- A chunk that is not longer than the room behind the largest residue is
taken whole. -/
theorem feed_chunk
    {parser : Parser} (small : parser.bufUsed < maxMsgSize)
    {chunk : List UInt8}
    (bounded : chunk.length ≤ parseBufSize - (maxMsgSize - 1))
    {outcome : StreamScanner.Outcome ParseCounters ParseEvent UInt8}
    (scanned :
      referenceScanner.run parser.toParseCounters
        (parser.residue ++ chunk) = outcome) :
    ∃ final,
      parser.feed (ByteBuffer.ofList chunk) chunk.length =
          some (final, outcome.output) ∧
        final.toParseCounters = outcome.state ∧
        final.residue = outcome.rest := by
  have sizes : maxMsgSize = 44 ∧ parseBufSize = 131072 := ⟨rfl, rfl⟩
  have inBounds : parser.InBounds := by
    unfold InBounds
    omega
  have roomEq : parser.room chunk.length = chunk.length :=
    Nat.min_eq_left (by omega)
  have quiet : parser.overflowLog chunk.length = [] :=
    if_neg (by omega)
  have data :
      (ByteBuffer.ofList chunk).slice 0 (parser.room chunk.length) =
        chunk := by
    rw [roomEq, ByteBuffer.slice_ofList]
  rw [← data] at scanned
  obtain ⟨final, feedEq, counters, residue, _⟩ :=
    feed_eq inBounds (ByteBuffer.ofList chunk) (by omega) (by omega)
      scanned
  rw [quiet] at feedEq
  exact ⟨final, feedEq, counters, residue⟩

theorem feedAll_cons
    {parser next final : Parser} {chunk : List UInt8}
    {chunks : List (List UInt8)} {events later : List ParseEvent}
    (fed :
      parser.feed (ByteBuffer.ofList chunk) chunk.length =
        some (next, events))
    (rest : next.feedAll chunks = some (final, later)) :
    parser.feedAll (chunk :: chunks) = some (final, events ++ later) := by
  rw [feedAll]
  refine Option.bind_eq_some_iff.mpr ⟨_, fed, ?_⟩
  exact Option.bind_eq_some_iff.mpr ⟨_, rest, rfl⟩

/-- Successive calls are one scan of everything that was fed. -/
theorem feedAll_eq
    {parser : Parser} (small : parser.bufUsed < maxMsgSize)
    (settled : scanStep parser.toParseCounters parser.residue = none)
    {chunks : List (List UInt8)}
    (bounded :
      ∀ chunk ∈ chunks,
        chunk.length ≤ parseBufSize - (maxMsgSize - 1))
    {outcome : StreamScanner.Outcome ParseCounters ParseEvent UInt8}
    (scanned :
      referenceScanner.run parser.toParseCounters
        (parser.residue ++ chunks.flatten) = outcome) :
    ∃ final,
      parser.feedAll chunks = some (final, outcome.output) ∧
        final.toParseCounters = outcome.state ∧
        final.residue = outcome.rest := by
  induction chunks generalizing parser outcome with
  | nil =>
      rw [List.flatten_nil, List.append_nil,
        referenceScanner.run_of_step_none settled] at scanned
      subst outcome
      exact ⟨parser, rfl, rfl, rfl⟩
  | cons chunk chunks inductionHypothesis =>
      obtain ⟨next, feedEq, nextCounters, nextResidue⟩ :=
        feed_chunk small (bounded chunk List.mem_cons_self) rfl
      have nextSmall : next.bufUsed < maxMsgSize := by
        rw [← residue_length, nextResidue]
        exact referenceScanner_rest_lt _ _
      have nextSettled :
          scanStep next.toParseCounters next.residue = none := by
        rw [nextCounters, nextResidue]
        exact referenceScanner.run_stops _ _
      obtain ⟨final, feedAllEq, finalCounters, finalResidue⟩ :=
        inductionHypothesis nextSmall nextSettled
          (fun later member =>
            bounded later (List.mem_cons_of_mem chunk member))
          rfl
      rw [nextCounters, nextResidue] at feedAllEq finalCounters finalResidue
      rw [List.flatten_cons, ← List.append_assoc,
        referenceScanner.run_append] at scanned
      subst outcome
      exact ⟨final, feedAll_cons feedEq feedAllEq, finalCounters,
        finalResidue⟩

theorem Fresh.counters {parser : Parser} (fresh : parser.Fresh) :
    parser.toParseCounters = ParseCounters.zero := by
  cases fresh <;> rfl

theorem Fresh.residue_eq {parser : Parser} (fresh : parser.Fresh) :
    parser.residue = [] := by
  cases fresh <;> rfl

/-- A fresh parser fed any bounded fragmentation of a stream does what the
reference scanner does on the stream. -/
theorem Fresh.feedAll_eq_referenceScan
    {parser : Parser} (fresh : parser.Fresh)
    {chunks : List (List UInt8)}
    (bounded :
      ∀ chunk ∈ chunks,
        chunk.length ≤ parseBufSize - (maxMsgSize - 1)) :
    ∃ final,
      parser.feedAll chunks =
          some (final, (referenceScan chunks.flatten).output) ∧
        final.toParseCounters = (referenceScan chunks.flatten).state ∧
        final.residue = (referenceScan chunks.flatten).rest := by
  have small : parser.bufUsed < maxMsgSize := by
    rw [← residue_length, fresh.residue_eq]
    decide
  have settled :
      scanStep parser.toParseCounters parser.residue = none := by
    rw [fresh.residue_eq]
    rfl
  apply feedAll_eq small settled bounded
  rw [fresh.residue_eq, fresh.counters]
  rfl

/-- The reads of the feed handler are short enough. -/
theorem Fresh.feedAll_reads
    {parser : Parser} (fresh : parser.Fresh)
    {chunks : List (List UInt8)}
    (bounded : ∀ chunk ∈ chunks, chunk.length ≤ 65536) :
    ∃ final,
      parser.feedAll chunks =
          some (final, (referenceScan chunks.flatten).output) ∧
        final.toParseCounters = (referenceScan chunks.flatten).state ∧
        final.residue = (referenceScan chunks.flatten).rest := by
  apply fresh.feedAll_eq_referenceScan
  intro chunk member
  exact Nat.le_trans (bounded chunk member) (by decide)

end Parser

/-! ## Fragmentation independence -/

/-- What an observer of the parser can tell: everything it did, its counters
and the bytes it still holds. -/
structure Observation where
  events : List ParseEvent
  counters : ParseCounters
  residue : List UInt8
  deriving DecidableEq, Repr

/-- Feed the chunks and look at the result. -/
def Parser.observe (parser : Parser) (chunks : List (List UInt8)) :
    Option Observation :=
  (parser.feedAll chunks).map fun result =>
    { events := result.2
      counters := result.1.toParseCounters
      residue := result.1.residue }

/-- The observation that the reference scanner predicts for a stream. -/
def referenceObservation (stream : List UInt8) : Observation where
  events := (referenceScan stream).output
  counters := (referenceScan stream).state
  residue := (referenceScan stream).rest

theorem Parser.Fresh.observe_eq
    {parser : Parser} (fresh : parser.Fresh)
    {chunks : List (List UInt8)}
    (bounded :
      ∀ chunk ∈ chunks,
        chunk.length ≤ parseBufSize - (maxMsgSize - 1)) :
    parser.observe chunks =
      some (referenceObservation chunks.flatten) := by
  obtain ⟨final, feedAllEq, counters, residue⟩ :=
    fresh.feedAll_eq_referenceScan bounded
  unfold Parser.observe referenceObservation
  rw [feedAllEq, ← counters, ← residue]
  rfl

/-- Two fragmentations of one stream, fed to fresh parsers, cannot be told
apart, and both agree with one run of the reference scanner. -/
theorem observe_fragmentation_independent
    {first second : Parser}
    (firstFresh : first.Fresh) (secondFresh : second.Fresh)
    {stream : List UInt8} {firstChunks secondChunks : List (List UInt8)}
    (firstCuts : firstChunks.flatten = stream)
    (secondCuts : secondChunks.flatten = stream)
    (firstBounded :
      ∀ chunk ∈ firstChunks,
        chunk.length ≤ parseBufSize - (maxMsgSize - 1))
    (secondBounded :
      ∀ chunk ∈ secondChunks,
        chunk.length ≤ parseBufSize - (maxMsgSize - 1)) :
    first.observe firstChunks = some (referenceObservation stream) ∧
      second.observe secondChunks =
        some (referenceObservation stream) ∧
      first.observe firstChunks = second.observe secondChunks := by
  have firstEq := firstFresh.observe_eq firstBounded
  have secondEq := secondFresh.observe_eq secondBounded
  rw [firstCuts] at firstEq
  rw [secondCuts] at secondEq
  exact ⟨firstEq, secondEq, firstEq.trans secondEq.symm⟩

/-- A byte of unknown type, a heartbeat and the front of the next one: cut
inside the type field, against the same bytes in one piece after a reset. -/
theorem observe_fragmentation_independent_heartbeat :
    let heartbeat : List UInt8 :=
      [3, 0, 1, 0, 0, 0, 0, 0, 0, 0, 0, 0, 0, 0, 0, 0, 3, 0, 1, 0]
    let seen : Observation :=
      { events := [.skipByte 9, .invoke .heartbeat heartbeat]
        counters :=
          { lastSeq := 1
            totalParsed := 1
            seqGaps := 0
            badChecksums := 0 }
        residue := [3, 0] }
    (Parser.new ⟨fun _ => 0⟩).observe
          [[9, 3], [], heartbeat.tail, [3, 0]] =
        some seen ∧
      (Parser.new ⟨fun _ => 7⟩).reset.observe
          [9 :: heartbeat ++ [3, 0]] =
        some seen := by
  intro heartbeat seen
  have agree :=
    observe_fragmentation_independent
      (Parser.Fresh.constructed ⟨fun _ => 0⟩)
      (Parser.Fresh.afterReset (Parser.new ⟨fun _ => 7⟩))
      (show
        List.flatten [[9, 3], [], heartbeat.tail, [3, 0]] =
          9 :: heartbeat ++ [3, 0]
        from rfl)
      (show
        List.flatten [9 :: heartbeat ++ [3, 0]] =
          9 :: heartbeat ++ [3, 0]
        from rfl)
      (by decide) (by decide)
  have onePiece :
      (Parser.new ⟨fun _ => 7⟩).reset.observe
          [9 :: heartbeat ++ [3, 0]] =
        some seen := by
    decide +kernel
  exact ⟨agree.2.2.trans onePiece, onePiece⟩

end MarketDataHandler
