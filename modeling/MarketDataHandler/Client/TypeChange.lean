import MarketDataHandler.Checksum
import MarketDataHandler.Client.BufferDiscipline
import MarketDataHandler.Client.CacheBounds

/-!
# A changed message type

The type of a frame decides over how many bytes its checksum is taken and
where it is read.  A frame whose type field was changed passes as a frame of
the new type exactly if the bytes by which the two lengths differ make up for
the change, lane by lane.
-/

namespace MarketDataHandler

open PackedCodec (u16)
open ByteLanes

/-! ## Callbacks at the front of a stream -/

/-- Behind events that use up bytes no callback is at the front. -/
theorem callsFront_append
    {first later : List ParseEvent} (positive : 0 < consumedBytes first) :
    (∃ call ∈ positionedCallbacks 0 (first ++ later), call.1 = 0) ↔
      ∃ call ∈ positionedCallbacks 0 first, call.1 = 0 := by
  rw [positionedCallbacks_append]
  constructor
  · intro found
    obtain ⟨call, member, front⟩ := found
    rcases List.mem_append.mp member with now | behind
    · exact ⟨call, now, front⟩
    · have further := le_of_mem_positionedCallbacks behind
      omega
  · intro found
    obtain ⟨call, member, front⟩ := found
    exact ⟨call, List.mem_append_left _ member, front⟩

/-- The callback of a whole frame at the front. -/
theorem positionedCallbacks_receive_iff
    (counters : ParseCounters) {input : List UInt8}
    (known : msgTotalSize (msgTypeAt input) ≠ 0)
    (complete : msgTotalSize (msgTypeAt input) ≤ input.length) :
    (∃ call ∈
        positionedCallbacks 0
          (counters.receive
            (input.take (msgTotalSize (msgTypeAt input)))).2,
        call.1 = 0) ↔
      ∃ kind, AcceptedAt input kind := by
  have calls := callbacks_receive counters known complete
  constructor
  · intro found
    obtain ⟨call, member, _⟩ := found
    have called := (calls call.2).mp (by
      rw [← positionedCallbacks_map_snd 0]
      exact List.mem_map_of_mem member)
    exact ⟨call.2.1, called.1⟩
  · intro found
    obtain ⟨kind, accepted⟩ := found
    have called :=
      (calls (kind, input.take (msgTotalSize kind.code))).mpr
        ⟨accepted, rfl⟩
    rw [← positionedCallbacks_map_snd 0] at called
    obtain ⟨call, member, _⟩ := List.mem_map.mp called
    exact ⟨call, member, position_of_mem_receive member⟩

/-- A callback is invoked on the first bytes of a stream exactly if they are a
whole frame that passes its check. -/
theorem positionedCallbacks_front_iff
    (counters : ParseCounters) (input : List UInt8) :
    (∃ call ∈
        positionedCallbacks 0
          (referenceScanner.run counters input).output,
        call.1 = 0) ↔
      ∃ kind, AcceptedAt input kind := by
  cases decision : scanStep counters input with
  | none =>
      rw [referenceScanner.run_of_step_none decision]
      constructor
      · intro found
        obtain ⟨call, member, _⟩ := found
        cases member
      · intro found
        obtain ⟨kind, accepted⟩ := found
        have decided := accepted.decided
        have wide := (msgTotalSize_bounds decided.1).1
        rcases scanStep_eq_none_iff.mp decision with short | ⟨_, short⟩
          <;> omega
  | some value =>
      obtain ⟨next, events, count⟩ := value
      obtain ⟨_, shape⟩ := scanStep_cases decision
      have positive : 0 < consumedBytes events := by
        rw [consumedBytes_of_decision decision]
        exact referenceScanner.step_pos decision
      rw [referenceScanner.run_of_step_some decision,
        StreamScanner.Outcome.after_output, callsFront_append positive]
      rcases shape with
        ⟨unknown, _, skipped, _⟩ | ⟨known, size, complete, received⟩
      · rw [skipped]
        constructor
        · intro found
          obtain ⟨call, member, _⟩ := found
          cases member
        · intro found
          obtain ⟨kind, accepted⟩ := found
          exact absurd unknown accepted.decided.1
      · subst count
        have output : events = (counters.receive _).2 :=
          congrArg Prod.snd received
        rw [output]
        exact positionedCallbacks_receive_iff counters known complete

/-- What is decided at the front of the bytes does not depend on what comes
behind them. -/
theorem acceptedAt_append_iff
    {counters : ParseCounters} {input : List UInt8}
    (decided : scanStep counters input ≠ none) (more : List UInt8)
    (kind : MsgKind) :
    AcceptedAt (input ++ more) kind ↔ AcceptedAt input kind := by
  rw [Ne, scanStep_eq_none_iff] at decided
  have sameType : msgTypeAt (input ++ more) = msgTypeAt input :=
    msgTypeAt_append (by omega) more
  rw [AcceptedAt, AcceptedAt, sameType]
  apply and_congr_right
  intro typed
  rw [typed] at decided
  have size := (msgTotalSize_code kind).1
  have complete : msgTotalSize kind.code ≤ input.length := by
    omega
  have longer : msgTotalSize kind.code ≤ (input ++ more).length := by
    rw [List.length_append]
    omega
  rw [List.take_append_of_le_length complete, and_iff_right complete,
    and_iff_right longer]

/-- The parser invokes some callback on a frame at the front of the stream. -/
def InvokesAtFront (parser : Parser) (chunks : List (List UInt8)) : Prop :=
  ∃ final events,
    parser.feedAll chunks = some (final, events) ∧
      ∃ call ∈ positionedCallbacks 0 events, call.1 = 0

theorem invokesAtFront_iff_of_fed
    {parser final : Parser} {chunks : List (List UInt8)}
    {events : List ParseEvent}
    (fed : parser.feedAll chunks = some (final, events)) :
    InvokesAtFront parser chunks ↔
      ∃ call ∈ positionedCallbacks 0 events, call.1 = 0 := by
  constructor
  · intro invokes
    obtain ⟨_, _, alsoFed, found⟩ := invokes
    rw [fed] at alsoFed
    cases alsoFed
    exact found
  · intro found
    exact ⟨final, events, fed, found⟩

namespace Parser

/-- Successive calls return, whatever the length of their data. -/
theorem Settled.feedAll
    {parser : Parser} (settled : parser.Settled)
    {chunks : List (List UInt8)}
    (bounded : ∀ chunk ∈ chunks, chunk.length ≤ 2 ^ 63 - 1) :
    ∃ final events, parser.feedAll chunks = some (final, events) := by
  induction chunks generalizing parser with
  | nil =>
      exact ⟨parser, [], rfl⟩
  | cons chunk chunks inductionHypothesis =>
      obtain ⟨next, fed, _, _, nextSettled⟩ :=
        feed_data settled (bounded chunk List.mem_cons_self)
      obtain ⟨final, later, rest⟩ :=
        inductionHypothesis nextSettled
          (fun other member =>
            bounded other (List.mem_cons_of_mem chunk member))
      exact ⟨final, _, feedAll_cons fed rest⟩

/-- As long as nothing is decided everything fits into the buffer. -/
theorem joined_of_undecided
    {parser : Parser} {chunk : List UInt8}
    (waits :
      scanStep parser.toParseCounters (parser.joined chunk) = none) :
    parser.joined chunk = parser.residue ++ chunk ∧
      parser.overflowLog chunk.length = [] := by
  have size : parseBufSize = 131072 := rfl
  have short : (parser.joined chunk).length < 44 := by
    rcases scanStep_eq_none_iff.mp waits with short | ⟨known, short⟩
    · omega
    · have widest := (msgTotalSize_bounds known).2.1
      exact Nat.lt_of_lt_of_le short widest
  have room : parser.room chunk.length = min chunk.length _ := rfl
  rw [joined, List.length_append, residue_length, List.length_take]
    at short
  have whole : parser.room chunk.length = chunk.length := by
    omega
  refine ⟨by rw [joined, whole, List.take_length], ?_⟩
  rw [overflowLog, if_neg (by omega)]

/-- The first decision of a call uses up bytes. -/
theorem consumedBytes_pos_of_decided
    {counters : ParseCounters} {input : List UInt8}
    (decided : scanStep counters input ≠ none) :
    0 < consumedBytes (referenceScanner.run counters input).output := by
  obtain ⟨⟨next, events, count⟩, decision⟩ :=
    Option.ne_none_iff_exists'.mp decided
  have used := consumedBytes_of_decision decision
  have positive := referenceScanner.step_pos decision
  rw [referenceScanner.run_of_step_some decision,
    StreamScanner.Outcome.after_output, consumedBytes_append]
  omega

/-- The first decision settles whether a callback is invoked at the front: up
to then the parser joins its reads, and later callbacks are further on. -/
theorem Settled.invokesAtFront_iff
    {parser : Parser} (settled : parser.Settled)
    {chunks : List (List UInt8)}
    (bounded : ∀ chunk ∈ chunks, chunk.length ≤ 2 ^ 63 - 1) :
    InvokesAtFront parser chunks ↔
      ∃ kind, AcceptedAt (parser.residue ++ chunks.flatten) kind := by
  induction chunks generalizing parser with
  | nil =>
      rw [invokesAtFront_iff_of_fed (show parser.feedAll [] = _ from rfl),
        List.flatten_nil, List.append_nil,
        ← positionedCallbacks_front_iff parser.toParseCounters,
        referenceScanner.run_of_step_none settled]
  | cons chunk chunks inductionHypothesis =>
      obtain ⟨next, fed, _, nextResidue, nextSettled⟩ :=
        feed_data settled (bounded chunk List.mem_cons_self)
      have laterBounded (other : List UInt8) (member : other ∈ chunks) :=
        bounded other (List.mem_cons_of_mem chunk member)
      obtain ⟨final, later, rest⟩ := nextSettled.feedAll laterBounded
      rw [invokesAtFront_iff_of_fed (feedAll_cons fed rest),
        List.flatten_cons, ← List.append_assoc]
      by_cases waits :
          scanStep parser.toParseCounters (parser.joined chunk) = none
      · obtain ⟨whole, quiet⟩ := joined_of_undecided waits
        rw [referenceScanner.run_of_step_none waits] at nextResidue
        rw [referenceScanner.run_of_step_none waits, quiet, ← whole,
          ← show next.residue = parser.joined chunk from nextResidue,
          ← inductionHypothesis nextSettled laterBounded]
        exact (invokesAtFront_iff_of_fed rest).symm
      · have silent := parser.overflowLog_silent chunk.length
        have positive := consumedBytes_pos_of_decided waits
        have front :
            parser.residue ++ chunk ++ chunks.flatten =
              parser.joined chunk ++
                (chunk.drop (parser.room chunk.length) ++
                  chunks.flatten) := by
          rw [joined, List.append_assoc, List.append_assoc,
            ← List.append_assoc (chunk.take _), List.take_append_drop]
        rw [callsFront_append (by
            rw [consumedBytes_append, silent.1]
            omega),
          positionedCallbacks_append, silent.1, silent.2,
          List.nil_append, positionedCallbacks_front_iff, front]
        exact exists_congr fun kind =>
          (acceptedAt_append_iff waits _ kind).symm

theorem Fresh.invokesAtFront_iff
    {parser : Parser} (fresh : parser.Fresh)
    {chunks : List (List UInt8)}
    (bounded : ∀ chunk ∈ chunks, chunk.length ≤ 2 ^ 63 - 1) :
    InvokesAtFront parser chunks ↔
      ∃ kind, AcceptedAt chunks.flatten kind := by
  have settled : parser.Settled := by
    rw [Settled, fresh.residue_eq]
    rfl
  rw [settled.invokesAtFront_iff bounded, fresh.residue_eq,
    List.nil_append]

end Parser

/-! ## The lanes of the altered frame -/

/-- The bytes of a frame with another value in the type field. -/
def Frame.retype (frame : Frame) (newType : UInt16) : List UInt8 :=
  u16.encode newType ++ frame.bytes.drop 2

/-- The bytes by which the frames of the two types differ: the end of the
frame, or the front of what follows it. -/
def Frame.lengthDifference (frame : Frame) (newType : UInt16)
    (following : List UInt8) : List UInt8 :=
  if msgTotalSize newType ≤ frame.bytes.length then
    frame.bytes.drop (msgTotalSize newType)
  else
    following.take (msgTotalSize newType - frame.bytes.length)

/-- The new type is known, the stream is long enough for it, and the bytes in
question make up for the change. -/
def Frame.TypeChangeUnnoticed (frame : Frame) (newType : UInt16)
    (following : List UInt8) : Prop :=
  msgTotalSize newType ≠ 0 ∧
    msgTotalSize newType ≤ frame.bytes.length + following.length ∧
    ∀ lane < 4,
      laneXor 4 lane 0 (frame.lengthDifference newType following) =
        laneXor 4 lane 0 (u16.encode frame.kind.code) ^^^
          laneXor 4 lane 0 (u16.encode newType)

namespace Frame

theorem length_bytes (frame : Frame) :
    20 ≤ frame.bytes.length ∧ frame.bytes.length % 4 = 0 := by
  have bounds := msgTotalSize_code frame.kind
  have sized : frame.bytes.length = msgTotalSize frame.kind.code :=
    frame.msg.bytes_length
  rw [sized]
  exact ⟨bounds.1, bounds.2.2⟩

theorem bytes_eq_retype (frame : Frame) :
    frame.bytes = frame.retype frame.kind.code := by
  obtain ⟨behind, shape⟩ := frame.msg.bytes_front
  have two : (u16.encode frame.msg.header.msgType).length = 2 :=
    u16.encode_length frame.msg.header.msgType
  rw [retype, bytes, shape, List.drop_left' two,
    frame.wellFormed.typed]
  rfl

theorem retype_length (frame : Frame) (newType : UInt16) :
    (frame.retype newType).length = frame.bytes.length := by
  have long := frame.length_bytes.1
  have two : (u16.encode newType).length = 2 := u16.encode_length newType
  rw [retype, List.length_append, two, List.length_drop]
  omega

theorem retype_drop
    (frame : Frame) (newType : UInt16) {count : Nat} (two : 2 ≤ count) :
    (frame.retype newType).drop count = frame.bytes.drop count := by
  have width : (u16.encode newType).length = 2 :=
    u16.encode_length newType
  have behind : 2 + (count - 2) = count := by
    omega
  rw [retype, List.drop_append, width,
    List.drop_eq_nil_of_le (by omega), List.nil_append, List.drop_drop,
    behind]

/-- A change of the type shows in the lanes of the frame as it is. -/
theorem laneXor_retype (frame : Frame) (newType : UInt16) {lane : Nat}
    (small : lane < 4) :
    laneXor 4 lane 0 (frame.retype newType) =
      laneXor 4 lane 0 (u16.encode frame.kind.code) ^^^
        laneXor 4 lane 0 (u16.encode newType) := by
  have two (anyType : UInt16) : (u16.encode anyType).length = 2 :=
    u16.encode_length anyType
  have passes :=
    (checksum_passes_iff frame.length_bytes.2
      (by have := frame.length_bytes.1; omega)).mp
        frame.bodyChecksum_bytes lane small
  rw [bytes_eq_retype, retype, laneXor_append, two,
    UInt8.xor_eq_zero_iff] at passes
  rw [retype, laneXor_append, two, passes, UInt8.xor_comm]

/-- The front of the stream has zero lanes exactly if the bytes by which the
lengths differ have the lanes of the change. -/
theorem laneXor_front_iff
    (frame : Frame) {newType : UInt16} (following : List UInt8)
    (known : msgTotalSize newType ≠ 0) {lane : Nat} (small : lane < 4) :
    laneXor 4 lane 0
        ((frame.retype newType ++ following).take
          (msgTotalSize newType)) = 0 ↔
      laneXor 4 lane 0 (frame.lengthDifference newType following) =
        laneXor 4 lane 0 (u16.encode frame.kind.code) ^^^
          laneXor 4 lane 0 (u16.encode newType) := by
  have changed := frame.laneXor_retype newType small
  have length := frame.retype_length newType
  obtain ⟨wide, _, words⟩ := msgTotalSize_bounds known
  have frameWords := frame.length_bytes.2
  have aligned {index : Nat} (whole : index % 4 = 0)
      (bytes : List UInt8) :
      laneXor 4 lane index bytes = laneXor 4 lane 0 bytes :=
    laneXor_of_mod whole bytes
  rw [← changed, lengthDifference]
  by_cases shorter : msgTotalSize newType ≤ frame.bytes.length
  · have parts :=
      @laneXor_append 4 lane 0
        ((frame.retype newType).take (msgTotalSize newType))
        ((frame.retype newType).drop (msgTotalSize newType))
    rw [List.take_append_drop, List.length_take, length,
      Nat.min_eq_left shorter, Nat.zero_add, aligned words,
      frame.retype_drop newType (by omega)] at parts
    rw [if_pos shorter, List.take_append_of_le_length (by omega), parts]
    constructor
    · intro zero
      rw [zero, UInt8.zero_xor]
    · intro same
      rw [← UInt8.xor_left_inj
        (laneXor 4 lane 0 (frame.bytes.drop (msgTotalSize newType))),
        UInt8.zero_xor]
      exact same.symm
  · have whole :
        (frame.retype newType ++ following).take (msgTotalSize newType) =
          frame.retype newType ++
            following.take
              (msgTotalSize newType - frame.bytes.length) := by
      rw [List.take_append, length,
        List.take_of_length_le (by omega)]
    rw [if_neg shorter, whole, laneXor_append, length, Nat.zero_add,
      aligned frameWords, UInt8.xor_eq_zero_iff]
    exact eq_comm

theorem msgTypeAt_retype
    (frame : Frame) (newType : UInt16) (following : List UInt8) :
    msgTypeAt (frame.retype newType ++ following) = newType := by
  rw [retype, List.append_assoc]
  exact u16.decode_encode_append newType _

/-- The altered frame is taken for a frame of the new type exactly if the
change goes unnoticed. -/
theorem acceptedAt_retype_iff
    (frame : Frame) (newType : UInt16) (following : List UInt8) :
    (∃ kind, AcceptedAt (frame.retype newType ++ following) kind) ↔
      frame.TypeChangeUnnoticed newType following := by
  have length :
      (frame.retype newType ++ following).length =
        frame.bytes.length + following.length := by
    rw [List.length_append, frame.retype_length]
  have checked (known : msgTotalSize newType ≠ 0)
      (complete :
        msgTotalSize newType ≤
          frame.bytes.length + following.length) :
      bodyChecksum
            ((frame.retype newType ++ following).take
              (msgTotalSize newType)) =
          wireChecksum
            ((frame.retype newType ++ following).take
              (msgTotalSize newType)) ↔
        ∀ lane < 4,
          laneXor 4 lane 0 (frame.lengthDifference newType following) =
            laneXor 4 lane 0 (u16.encode frame.kind.code) ^^^
              laneXor 4 lane 0 (u16.encode newType) := by
    obtain ⟨wide, _, words⟩ := msgTotalSize_bounds known
    have cut :
        ((frame.retype newType ++ following).take
          (msgTotalSize newType)).length = msgTotalSize newType := by
      rw [List.length_take, length, Nat.min_eq_left complete]
    rw [checksum_passes_iff (by omega) (by omega)]
    apply forall₂_congr
    intro lane small
    exact frame.laneXor_front_iff following known small
  simp only [AcceptedAt, frame.msgTypeAt_retype, length]
  constructor
  · intro accepted
    obtain ⟨kind, rfl, complete, passes⟩ := accepted
    have known : msgTotalSize kind.code ≠ 0 := by
      have bounds := msgTotalSize_code kind
      omega
    exact ⟨known, complete, (checked known complete).mp passes⟩
  · intro unnoticed
    obtain ⟨known, complete, lanes⟩ := unnoticed
    rcases msgTotalSize_cases newType with ⟨unknown, _⟩ | ⟨kind, rfl, _⟩
    · exact absurd unknown known
    · exact ⟨kind, rfl, complete, (checked known complete).mpr lanes⟩

end Frame

/-- A frame with another type, followed by any frames: a callback is invoked
on its first byte exactly if the change goes unnoticed. -/
theorem invokesAtFront_retype_iff
    {parser : Parser} (fresh : parser.Fresh) (frame : Frame)
    (newType : UInt16) {frames : List Frame} {chunks : List (List UInt8)}
    (cuts :
      chunks.flatten =
        frame.retype newType ++ frames.flatMap Frame.bytes)
    (bounded : ∀ chunk ∈ chunks, chunk.length ≤ 2 ^ 63 - 1) :
    InvokesAtFront parser chunks ↔
      frame.TypeChangeUnnoticed newType (frames.flatMap Frame.bytes) := by
  rw [fresh.invokesAtFront_iff bounded, cuts, frame.acceptedAt_retype_iff]

/-- A quote whose bid price ends in the checksum of the header with the type of
a heartbeat. -/
def heartbeatLikeQuote : Frame :=
  TickGenerator.quoteFrame 2 1
    { nowNs := 1000
      bidPrice := 4657857020004335619
      askPrice := 4657857021149446145
      bidQty := 500
      askQty := 700 }

/-- That quote passes as a heartbeat, with a trade behind it and cut inside
both. -/
theorem invokesAtFront_retype_iff_quote :
    let following := [TickGenerator.tradeFrame 7 2 ⟨2000, 5, 250⟩]
    let stream :=
      heartbeatLikeQuote.retype msgHeartbeat ++
        following.flatMap Frame.bytes
    InvokesAtFront (Parser.new ⟨fun _ => 0⟩)
      [stream.take 50, stream.drop 50] := by
  intro following stream
  apply (invokesAtFront_retype_iff
    (Parser.Fresh.constructed ⟨fun _ => 0⟩) heartbeatLikeQuote msgHeartbeat
    (show
      [stream.take 50, stream.drop 50].flatten =
        heartbeatLikeQuote.retype msgHeartbeat ++
          following.flatMap Frame.bytes
      from rfl)
    (by decide)).mpr
  refine ⟨by decide, by decide, ?_⟩
  decide +kernel

/-- A changed type is accepted. -/
theorem retype_accepted :
    msgHeartbeat ≠ heartbeatLikeQuote.kind.code ∧
      InvokesAtFront (Parser.new ⟨fun _ => 0⟩)
        [heartbeatLikeQuote.retype msgHeartbeat] := by
  refine ⟨by decide, ?_⟩
  apply ((Parser.Fresh.constructed ⟨fun _ => 0⟩).invokesAtFront_iff
    (by decide)).mpr
  refine ⟨.heartbeat, ?_⟩
  rw [AcceptedAt]
  decide +kernel

end MarketDataHandler
