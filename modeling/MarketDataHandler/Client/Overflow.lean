import MarketDataHandler.Client.BufferDiscipline
import MarketDataHandler.Client.CacheBounds
import Mathlib.Data.List.GetD

/-!
# Where the bytes of a delivered frame come from

Each byte in the buffer of the parser is given the position that it had in the
data fed since the last reset.  An overflow drops the end of the data but keeps
what is left of the front in the buffer, so the next call joins bytes that were
not neighbours.
-/

namespace MarketDataHandler

/-! ## What a scan consumes -/

/-- The unread bytes are those behind the consumed ones. -/
theorem referenceScanner_consumed
    (counters : ParseCounters) (input : List UInt8) :
    consumedBytes (referenceScanner.run counters input).output ≤
        input.length ∧
      (referenceScanner.run counters input).rest =
        input.drop
          (consumedBytes
            (referenceScanner.run counters input).output) := by
  refine referenceScanner.run_induction
    (motive := fun _ input outcome =>
      consumedBytes outcome.output ≤ input.length ∧
        outcome.rest = input.drop (consumedBytes outcome.output))
    ?_ ?_ counters input
  · intro counters input _
    exact ⟨Nat.zero_le _, rfl⟩
  · intro counters input next output count decision inductionHypothesis
    obtain ⟨bounded, rest⟩ := inductionHypothesis
    have inside := referenceScanner.step_le decision
    have used := consumedBytes_of_decision decision
    rw [StreamScanner.Outcome.after_output,
      StreamScanner.Outcome.after_rest, consumedBytes_append, used, rest,
      List.drop_drop]
    rw [List.length_drop] at bounded
    exact ⟨by omega, rfl⟩

/-- A frame is given to its callback as it lies in the input. -/
theorem positionedCallbacks_lies
    (counters : ParseCounters) (input : List UInt8) (start : Nat)
    {call : Nat × MsgKind × List UInt8}
    (member :
      call ∈
        positionedCallbacks start
          (referenceScanner.run counters input).output) :
    ∃ position,
      call.1 = start + position ∧
        position + call.2.2.length ≤ input.length ∧
        call.2.2 = (input.drop position).take call.2.2.length := by
  revert start
  refine referenceScanner.run_induction
    (motive := fun _ input outcome =>
      ∀ start, call ∈ positionedCallbacks start outcome.output →
        ∃ position,
          call.1 = start + position ∧
            position + call.2.2.length ≤ input.length ∧
            call.2.2 = (input.drop position).take call.2.2.length)
    ?_ ?_ counters input
  · intro counters input _ start member
    cases member
  · intro counters input next output count decision inductionHypothesis
      start member
    have inside := referenceScanner.step_le decision
    rw [StreamScanner.Outcome.after_output, positionedCallbacks_append,
      List.mem_append] at member
    obtain ⟨_, shape⟩ := scanStep_cases decision
    rcases shape with
      ⟨_, _, skipped, one⟩ | ⟨known, size, complete, received⟩
    · rw [skipped] at member
      rcases member with now | later
      · cases now
      · obtain ⟨position, placed, fits, lies⟩ :=
          inductionHypothesis _ later
        rw [List.length_drop] at fits
        rw [one, List.drop_drop] at lies
        exact ⟨1 + position, by rw [placed, ← Nat.add_assoc]; rfl,
          by omega, lies⟩
    · subst count
      rw [show output = _ from congrArg Prod.snd received,
        consumedBytes_receive counters known complete] at member
      rcases member with now | later
      · have called :=
          (callbacks_receive counters known complete call.2).mp (by
            rw [← positionedCallbacks_map_snd start]
            exact List.mem_map_of_mem now)
        have fits := called.1.2.1
        refine ⟨0, position_of_mem_receive now, ?_, ?_⟩
        · rw [called.2, List.length_take, Nat.min_eq_left fits]
          omega
        · rw [List.drop_zero, called.2, List.length_take,
            Nat.min_eq_left fits]
      · obtain ⟨position, placed, fits, lies⟩ :=
          inductionHypothesis _ later
        rw [List.length_drop] at fits
        rw [List.drop_drop] at lies
        exact ⟨_, by rw [placed, Nat.add_assoc], by omega, lies⟩

/-- A walk that reaches the end leaves nothing unread. -/
theorem referenceScanner_rest_eq_nil
    (counters : ParseCounters) (input : List UInt8)
    (chain : HeaderChain input input.length) :
    (referenceScanner.run counters input).rest = [] := by
  revert chain
  refine referenceScanner.run_induction
    (motive := fun _ input outcome =>
      HeaderChain input input.length → outcome.rest = [])
    ?_ ?_ counters input
  · intro counters input waits chain
    exact List.eq_nil_of_length_eq_zero
      (headerChain_of_undecided waits chain)
  · intro counters input next output count decision inductionHypothesis
      chain
    have long := (scanStep_cases decision).1
    rcases (headerChain_iff_of_decision decision input.length).mp chain with
      empty | ⟨later, length, rest⟩
    · omega
    · apply inductionHypothesis
      have remaining : (input.drop count).length = later := by
        rw [List.length_drop]
        omega
      rw [remaining]
      exact rest

/-! ## Positions of the buffered bytes -/

/-- A parser, the data fed to it since the last reset, and the position in that
data of each byte in its buffer. -/
structure Tracked where
  parser : Parser
  fed : List UInt8
  places : List Nat

/-- A frame that was passed to a callback, with the data fed since the last
reset and the positions of its bytes in it. -/
structure Delivery where
  fed : List UInt8
  frame : List UInt8
  places : List Nat

/-- The bytes at some positions. -/
def bytesAt (fed : List UInt8) (places : List Nat) : List UInt8 :=
  places.map fun place => fed.getD place 0

/-- The frame occupies a range of positions of the data. -/
def Delivery.Contiguous (delivery : Delivery) : Prop :=
  ∃ start,
    start + delivery.frame.length ≤ delivery.fed.length ∧
      delivery.places = List.range' start delivery.frame.length

namespace Tracked

def start (buf : ByteBuffer parseBufSize) : Tracked where
  parser := Parser.new buf
  fed := []
  places := []

/-- The positions of the bytes that a call scans. -/
def joinedPlaces (state : Tracked) (data : List UInt8) : List Nat :=
  state.places ++
    List.range' state.fed.length (state.parser.room data.length)

/-- The state after a call with data. -/
def afterFeed (state : Tracked) (data : List UInt8) (next : Parser)
    (events : List ParseEvent) : Tracked where
  parser := next
  fed := state.fed ++ data
  places := (state.joinedPlaces data).drop (consumedBytes events)

/-- The frames that a call with data passes on. -/
def deliveries (state : Tracked) (data : List UInt8)
    (events : List ParseEvent) : List Delivery :=
  (positionedCallbacks 0 events).map fun call =>
    { fed := state.fed ++ data
      frame := call.2.2
      places :=
        ((state.joinedPlaces data).drop call.1).take call.2.2.length }

def perform (state : Tracked) :
    ParserCall → Option (Tracked × List Delivery)
  | .feed data => do
      let (next, events) ← state.parser.perform (.feed data)
      some (state.afterFeed data next events,
        state.deliveries data events)
  | .reset => do
      let (next, _) ← state.parser.perform .reset
      some ({ parser := next, fed := [], places := [] }, [])

def performAll : Tracked → List ParserCall →
    Option (Tracked × List Delivery)
  | state, [] => some (state, [])
  | state, call :: calls => do
      let (next, deliveries) ← state.perform call
      let (final, later) ← next.performAll calls
      some (final, deliveries ++ later)

theorem performAll_cons
    {state next final : Tracked} {call : ParserCall}
    {calls : List ParserCall} {now later : List Delivery}
    (first : state.perform call = some (next, now))
    (rest : next.performAll calls = some (final, later)) :
    state.performAll (call :: calls) = some (final, now ++ later) := by
  refine Option.bind_eq_some_iff.mpr ⟨_, first, ?_⟩
  exact Option.bind_eq_some_iff.mpr ⟨_, rest, rfl⟩

/-- The positions are those of the bytes in the buffer. -/
structure Sound (state : Tracked) : Prop where
  settled : state.parser.Settled
  bytes : state.parser.residue = bytesAt state.fed state.places
  inside : ∀ place ∈ state.places, place < state.fed.length

theorem Sound.length
    {state : Tracked} (sound : state.Sound) :
    state.places.length = state.parser.bufUsed := by
  rw [← Parser.residue_length, sound.bytes, bytesAt, List.length_map]

end Tracked

theorem bytesAt_append_left
    {fed : List UInt8} {places : List Nat}
    (inside : ∀ place ∈ places, place < fed.length)
    (more : List UInt8) :
    bytesAt (fed ++ more) places = bytesAt fed places := by
  apply List.map_congr_left
  intro place member
  have bound := inside place member
  rw [List.getD_append _ _ _ _ bound]

theorem bytesAt_append_right
    (fed data : List UInt8) {count : Nat} (enough : count ≤ data.length) :
    bytesAt (fed ++ data) (List.range' fed.length count) =
      data.take count := by
  apply List.ext_getElem
  · rw [bytesAt, List.length_map, List.length_range', List.length_take,
      Nat.min_eq_left enough]
  · intro index first second
    rw [List.length_take] at second
    simp only [bytesAt, List.getElem_map, List.getElem_range',
      Nat.one_mul, List.getElem_take]
    have inside : index < data.length := by
      omega
    rw [List.getD_append_right _ _ _ _ (by omega)]
    simp [inside]

theorem bytesAt_cut (fed : List UInt8) (places : List Nat) (start count : Nat) :
    ((bytesAt fed places).drop start).take count =
      bytesAt fed ((places.drop start).take count) := by
  rw [bytesAt, bytesAt, List.map_take, List.map_drop]

namespace Tracked

/-- The positions of the bytes that a call scans are those of the bytes. -/
theorem Sound.joined
    {state : Tracked} (sound : state.Sound) (data : List UInt8) :
    state.parser.joined data =
        bytesAt (state.fed ++ data) (state.joinedPlaces data) ∧
      ∀ place ∈ state.joinedPlaces data,
        place < (state.fed ++ data).length := by
  have room : state.parser.room data.length ≤ data.length :=
    Nat.min_le_left _ _
  constructor
  · rw [Parser.joined, sound.bytes, joinedPlaces,
      ← bytesAt_append_left sound.inside data,
      ← bytesAt_append_right state.fed data room]
    exact List.map_append.symm
  · intro place member
    rw [List.length_append]
    rcases List.mem_append.mp member with old | new
    · have bound := sound.inside place old
      omega
    · have bound := List.mem_range'_1.mp new
      omega

/-- What a call with data does, given what the scanner makes of the bytes. -/
structure Feeds (state : Tracked) (data : List UInt8)
    (outcome : StreamScanner.Outcome ParseCounters ParseEvent UInt8)
    (next : Parser) (events : List ParseEvent) : Prop where
  performed : state.parser.perform (.feed data) = some (next, events)
  tracked :
    state.perform (.feed data) =
      some (state.afterFeed data next outcome.output,
        state.deliveries data outcome.output)
  residue : next.residue = outcome.rest
  sound : (state.afterFeed data next outcome.output).Sound

/-- The meaning of a call with data: positions go with the bytes. -/
theorem Sound.feed
    {state : Tracked} (sound : state.Sound) {data : List UInt8}
    (short : data.length ≤ 2 ^ 63 - 1)
    {outcome : StreamScanner.Outcome ParseCounters ParseEvent UInt8}
    (scanned :
      referenceScanner.run state.parser.toParseCounters
        (state.parser.joined data) = outcome) :
    ∃ next events, state.Feeds data outcome next events := by
  obtain ⟨next, fed, _, residue, settled⟩ :=
    Parser.feed_data sound.settled short
  rw [scanned] at fed residue
  -- The warning in front of the events uses up nothing.
  have quiet := state.parser.overflowLog_silent data.length
  have used :
      consumedBytes
          (state.parser.overflowLog data.length ++ outcome.output) =
        consumedBytes outcome.output := by
    rw [consumedBytes_append, quiet.1, Nat.zero_add]
  have calls :
      positionedCallbacks 0
          (state.parser.overflowLog data.length ++ outcome.output) =
        positionedCallbacks 0 outcome.output := by
    rw [positionedCallbacks_append, quiet.1, quiet.2, List.nil_append]
  obtain ⟨bytes, inside⟩ := sound.joined data
  have unread :=
    (referenceScanner_consumed state.parser.toParseCounters
      (state.parser.joined data)).2
  rw [scanned, bytes] at unread
  refine ⟨next, _, fed, ?_, residue, settled, ?_, ?_⟩
  · refine Option.bind_eq_some_iff.mpr ⟨_, fed, ?_⟩
    simp only [afterFeed, deliveries, used, calls]
  · rw [afterFeed, residue, unread, bytesAt, bytesAt, List.map_drop]
  · intro place member
    exact inside place (List.mem_of_mem_drop member)

/-- A call delivers bytes from where it says. -/
theorem Sound.deliveries
    {state : Tracked} (sound : state.Sound) (data : List UInt8)
    {delivery : Delivery}
    (member :
      delivery ∈
        state.deliveries data
          (referenceScanner.run state.parser.toParseCounters
            (state.parser.joined data)).output) :
    delivery.frame = bytesAt delivery.fed delivery.places := by
  obtain ⟨called, found, rfl⟩ := List.mem_map.mp member
  obtain ⟨position, placed, _, lies⟩ :=
    positionedCallbacks_lies _ _ 0 found
  rw [Nat.zero_add] at placed
  rw [(sound.joined data).1, bytesAt_cut, ← placed] at lies
  exact lies

end Tracked

/-! ## Runs that do not tear a frame -/

/-- What the data leaves in the buffer is joined to what follows it: all of the
data fits, or what fits ends where the parser has nothing left to read. -/
def EndsWhole (parser : Parser) : ParserCall → Prop
  | .feed data =>
      parser.bufUsed + data.length ≤ parseBufSize ∨
        HeaderChain (parser.joined data) (parser.joined data).length
  | .reset => True

/-- Every call of a run is made in a state where that holds. -/
def RunEndsWhole : Parser → List ParserCall → Prop
  | _, [] => True
  | parser, call :: calls =>
      EndsWhole parser call ∧
        ∀ next events, parser.perform call = some (next, events) →
          RunEndsWhole next calls

namespace Tracked

/-- The buffer holds the last bytes that were fed. -/
def Aligned (state : Tracked) : Prop :=
  ∃ start count,
    state.places = List.range' start count ∧
      start + count = state.fed.length

theorem Aligned.joinedPlaces
    {state : Tracked} {start count : Nat}
    (places : state.places = List.range' start count)
    (ends : start + count = state.fed.length) (data : List UInt8) :
    state.joinedPlaces data =
      List.range' start (count + state.parser.room data.length) := by
  rw [Tracked.joinedPlaces, places, ← ends, List.range'_append_1]

/-- What is left of neighbouring bytes ends with the data, if all of it fitted
or nothing is left. -/
theorem Aligned.afterFeed
    {state : Tracked} (aligned : state.Aligned) (sound : state.Sound)
    {data : List UInt8} (whole : EndsWhole state.parser (.feed data))
    {next : Parser} {events : List ParseEvent}
    (feeds :
      state.Feeds data
        (referenceScanner.run state.parser.toParseCounters
          (state.parser.joined data)) next events) :
    (state.afterFeed data next
      (referenceScanner.run state.parser.toParseCounters
        (state.parser.joined data)).output).Aligned := by
  obtain ⟨start, count, places, ends⟩ := aligned
  have joined := Aligned.joinedPlaces places ends data
  rcases whole with fits | chain
  · have room : state.parser.room data.length = data.length :=
      Nat.min_eq_left (by omega)
    have used :=
      (referenceScanner_consumed state.parser.toParseCounters
        (state.parser.joined data)).1
    have length :
        (state.parser.joined data).length = count + data.length := by
      rw [(sound.joined data).1, bytesAt, List.length_map, joined,
        List.length_range', room]
    refine ⟨_, _, by rw [Tracked.afterFeed, joined, List.drop_range'],
      ?_⟩
    rw [room, Tracked.afterFeed, List.length_append]
    omega
  · have nothing :=
      referenceScanner_rest_eq_nil state.parser.toParseCounters _ chain
    have empty := feeds.sound.length
    rw [← Parser.residue_length] at empty
    change _ = next.residue.length at empty
    rw [feeds.residue, nothing] at empty
    exact ⟨(state.fed ++ data).length, 0,
      List.eq_nil_of_length_eq_zero empty, rfl⟩

/-- Frames that are found among neighbouring bytes are made of neighbouring
bytes. -/
theorem Aligned.deliveries
    {state : Tracked} (aligned : state.Aligned) (sound : state.Sound)
    (data : List UInt8) {delivery : Delivery}
    (member :
      delivery ∈
        state.deliveries data
          (referenceScanner.run state.parser.toParseCounters
            (state.parser.joined data)).output) :
    delivery.Contiguous := by
  obtain ⟨start, count, places, ends⟩ := aligned
  have joined := Aligned.joinedPlaces places ends data
  obtain ⟨called, found, rfl⟩ := List.mem_map.mp member
  obtain ⟨position, placed, fits, _⟩ :=
    positionedCallbacks_lies _ _ 0 found
  rw [Nat.zero_add] at placed
  have room : state.parser.room data.length ≤ data.length :=
    Nat.min_le_left _ _
  rw [(sound.joined data).1, bytesAt, List.length_map, joined,
    List.length_range', ← placed] at fits
  refine ⟨start + called.1, ?_, ?_⟩
  · simp only [List.length_append]
    omega
  · simp only [joined, List.drop_range', Nat.mul_one]
    exact List.take_range'_of_length_ge (by omega)

/-- One call of a run that does not tear a frame. -/
theorem Aligned.perform
    {state : Tracked} (aligned : state.Aligned) (sound : state.Sound)
    {call : ParserCall} (allowed : call.Allowed)
    (whole : EndsWhole state.parser call) :
    ∃ next deliveries events,
      state.perform call = some (next, deliveries) ∧
        state.parser.perform call = some (next.parser, events) ∧
        next.Sound ∧ next.Aligned ∧
        ∀ delivery ∈ deliveries,
          delivery.frame = bytesAt delivery.fed delivery.places ∧
            delivery.Contiguous := by
  cases call with
  | reset =>
      refine ⟨⟨state.parser.reset, [], []⟩, [], [], rfl, rfl, ?_,
        ⟨0, 0, rfl, rfl⟩, ?_⟩
      · exact
          { settled := state.parser.settled_reset
            bytes := (Parser.Fresh.afterReset state.parser).residue_eq
            inside := fun _ member => by cases member }
      · intro delivery member
        cases member
  | feed data =>
      obtain ⟨next, events, feeds⟩ := sound.feed allowed rfl
      refine ⟨_, _, events, feeds.tracked, feeds.performed, feeds.sound,
        aligned.afterFeed sound whole feeds, ?_⟩
      intro delivery member
      exact ⟨sound.deliveries data member,
        aligned.deliveries sound data member⟩

theorem Aligned.performAll
    {state : Tracked} (aligned : state.Aligned) (sound : state.Sound)
    {calls : List ParserCall} (allowed : ∀ call ∈ calls, call.Allowed)
    (whole : RunEndsWhole state.parser calls) :
    ∃ final deliveries,
      state.performAll calls = some (final, deliveries) ∧
        ∀ delivery ∈ deliveries,
          delivery.frame = bytesAt delivery.fed delivery.places ∧
            delivery.Contiguous := by
  induction calls generalizing state with
  | nil =>
      exact ⟨state, [], rfl, fun _ member => by cases member⟩
  | cons call calls inductionHypothesis =>
      obtain ⟨here, later⟩ := whole
      obtain ⟨next, deliveries, events, tracked, performed, nextSound,
        nextAligned, holds⟩ :=
          aligned.perform sound (allowed call List.mem_cons_self) here
      obtain ⟨final, rest, restTracked, restHolds⟩ :=
        inductionHypothesis nextAligned nextSound
          (fun other member =>
            allowed other (List.mem_cons_of_mem call member))
          (later _ _ performed)
      refine ⟨final, deliveries ++ rest,
        performAll_cons tracked restTracked, ?_⟩
      intro delivery member
      rcases List.mem_append.mp member with first | second
      · exact holds delivery first
      · exact restHolds delivery second

theorem sound_start (buf : ByteBuffer parseBufSize) :
    (start buf).Sound where
  settled := by
    rw [Parser.Settled]
    change scanStep _ (Parser.new buf).residue = none
    rw [(Parser.Fresh.constructed buf).residue_eq]
    rfl
  bytes := (Parser.Fresh.constructed buf).residue_eq
  inside := fun _ member => by cases member

end Tracked

/-- In a run that never discards a tail behind unread bytes every delivered
frame is a contiguous part of the data fed since the last reset. -/
theorem delivered_contiguous
    (buf : ByteBuffer parseBufSize) {calls : List ParserCall}
    (allowed : ∀ call ∈ calls, call.Allowed)
    (whole : RunEndsWhole (Parser.new buf) calls) :
    ∃ final deliveries,
      (Tracked.start buf).performAll calls = some (final, deliveries) ∧
        ∀ delivery ∈ deliveries,
          delivery.frame = bytesAt delivery.fed delivery.places ∧
            delivery.Contiguous := by
  have aligned : (Tracked.start buf).Aligned := ⟨0, 0, rfl, rfl⟩
  exact aligned.performAll (Tracked.sound_start buf) allowed whole

theorem length_flatMap_replicate (frame : Frame) (count : Nat) :
    ((List.replicate count frame).flatMap Frame.bytes).length =
      count * frame.bytes.length := by
  induction count with
  | zero =>
      rw [List.replicate_zero, List.flatMap_nil, Nat.zero_mul]
      rfl
  | succ count inductionHypothesis =>
      rw [List.replicate_succ, List.flatMap_cons, List.length_append,
        inductionHypothesis, Nat.succ_mul, Nat.add_comm]

/-- The walk over whole frames reaches their end. -/
theorem headerChain_frames (frames : List Frame) :
    HeaderChain (frames.flatMap Frame.bytes)
      (frames.flatMap Frame.bytes).length := by
  induction frames with
  | nil =>
      exact HeaderChain.here []
  | cons frame frames inductionHypothesis =>
      have known := frame.raw.known
      have sized := frame.raw.sized
      change frame.bytes.length = msgTotalSize (msgTypeAt frame.bytes)
        at sized
      change msgTotalSize (msgTypeAt frame.bytes) ≠ 0 at known
      have long := (msgTotalSize_bounds known).1
      have sameType :
          msgTypeAt (frame.bytes ++ frames.flatMap Frame.bytes) =
            msgTypeAt frame.bytes :=
        msgTypeAt_append (by omega) _
      rw [List.flatMap_cons, List.length_append, sized, ← sameType]
      apply HeaderChain.hop
      · rw [sameType]
        exact known
      · rw [sameType, List.length_append, sized]
        exact Nat.le_add_right _ _
      · rw [sameType, List.drop_left' sized]
        exact inductionHypothesis

theorem ParserCall.allowed_of_reads
    {calls : List ParserCall}
    (reads : ∀ data, .feed data ∈ calls → data.length ≤ 65536)
    {call : ParserCall} (member : call ∈ calls) : call.Allowed := by
  cases call with
  | feed data =>
      have short := reads data member
      rw [ParserCall.Allowed]
      omega
  | reset =>
      exact trivial

/-- Reads of the feed handler always fit. -/
theorem runEndsWhole_of_reads
    {parser : Parser} (settled : parser.Settled)
    {calls : List ParserCall}
    (reads : ∀ data, .feed data ∈ calls → data.length ≤ 65536) :
    RunEndsWhole parser calls := by
  induction calls generalizing parser with
  | nil =>
      exact trivial
  | cons call calls inductionHypothesis =>
      have allowed := ParserCall.allowed_of_reads reads List.mem_cons_self
      constructor
      · cases call with
        | feed data =>
            have short := reads data List.mem_cons_self
            have used := settled.bufUsed_le
            have sizes : maxMsgSize = 44 ∧ parseBufSize = 131072 :=
              ⟨rfl, rfl⟩
            left
            omega
        | reset =>
            exact trivial
      · intro next events performed
        obtain ⟨_, _, again, nextSettled⟩ := settled.perform allowed
        rw [performed] at again
        cases again
        exact inductionHypothesis nextSettled fun data member =>
          reads data (List.mem_cons_of_mem call member)

/-- A first call whose frames fill the buffer to its end loses nothing but
what follows them, and any reads may follow. -/
theorem runEndsWhole_of_full
    (buf : ByteBuffer parseBufSize) {frames : List Frame}
    {dropped : List UInt8} {calls : List ParserCall}
    (full : (frames.flatMap Frame.bytes).length = parseBufSize)
    (allowed :
      (ParserCall.feed
        (frames.flatMap Frame.bytes ++ dropped)).Allowed)
    (reads : ∀ data, .feed data ∈ calls → data.length ≤ 65536) :
    RunEndsWhole (Parser.new buf)
      (.feed (frames.flatMap Frame.bytes ++ dropped) :: calls) := by
  have sound := Tracked.sound_start buf
  have room :
      (Parser.new buf).room
          (frames.flatMap Frame.bytes ++ dropped).length =
        parseBufSize := by
    rw [List.length_append, full]
    exact Nat.min_eq_right (Nat.le_add_right _ _)
  have joined :
      (Parser.new buf).joined (frames.flatMap Frame.bytes ++ dropped) =
        frames.flatMap Frame.bytes := by
    rw [Parser.joined, room, List.take_left' full,
      (Parser.Fresh.constructed buf).residue_eq, List.nil_append]
  constructor
  · right
    rw [joined]
    exact headerChain_frames frames
  · intro next events performed
    obtain ⟨_, _, again, nextSettled⟩ := sound.settled.perform allowed
    change (Parser.new buf).perform _ = _ at again
    rw [performed] at again
    cases again
    exact runEndsWhole_of_reads nextSettled reads

/-- Trades that fill the buffer to its end and a byte that is discarded, then
a heartbeat in two pieces. -/
theorem delivered_contiguous_overflow :
    let trade := TickGenerator.tradeFrame 3 5 ⟨2000, 31, 32⟩
    let heartbeat := TickGenerator.heartbeatFrame 6 3000
    let data :=
      (List.replicate 4096 trade).flatMap Frame.bytes ++ [255]
    parseBufSize < data.length ∧
      ∃ final deliveries,
        (Tracked.start ⟨fun _ => 0⟩).performAll
            [.feed data, .feed (heartbeat.bytes.take 12),
              .feed (heartbeat.bytes.drop 12)] =
            some (final, deliveries) ∧
          ∀ delivery ∈ deliveries,
            delivery.frame = bytesAt delivery.fed delivery.places ∧
              delivery.Contiguous := by
  intro trade heartbeat data
  have thirtyTwo : trade.bytes.length = 32 := by
    decide
  have full :
      ((List.replicate 4096 trade).flatMap Frame.bytes).length =
        parseBufSize := by
    rw [length_flatMap_replicate, thirtyTwo]
    rfl
  have length : data.length = parseBufSize + 1 := by
    rw [List.length_append, full, List.length_singleton]
  have first : (ParserCall.feed data).Allowed := by
    rw [ParserCall.Allowed, length]
    decide
  have reads :
      ∀ piece,
        .feed piece ∈
            [ParserCall.feed (heartbeat.bytes.take 12),
              .feed (heartbeat.bytes.drop 12)] →
          piece.length ≤ 65536 := by
    intro piece member
    rcases List.mem_cons.mp member with same | later
    · cases same
      decide
    · cases List.mem_singleton.mp later
      decide
  refine ⟨by omega, delivered_contiguous ⟨fun _ => 0⟩ ?_
    (runEndsWhole_of_full _ full first reads)⟩
  intro call member
  rcases List.mem_cons.mp member with same | later
  · rw [same]
    exact first
  · exact ParserCall.allowed_of_reads reads later

/-! ## A torn frame -/

/-- A first call whose data fills the buffer up to the front of a frame, and
goes on. -/
theorem feed_overflowing
    (buf : ByteBuffer parseBufSize) {frames : List Frame}
    {front dropped : List UInt8} (short : front.length < 16)
    (full :
      (frames.flatMap Frame.bytes ++ front).length = parseBufSize)
    (allowed :
      (ParserCall.feed
        (frames.flatMap Frame.bytes ++ front ++ dropped)).Allowed) :
    ∃ next deliveries,
      (Tracked.start buf).perform
          (.feed (frames.flatMap Frame.bytes ++ front ++ dropped)) =
            some (next, deliveries) ∧
        next.Sound ∧
        next.fed = frames.flatMap Frame.bytes ++ front ++ dropped ∧
        next.parser.residue = front ∧
        next.places =
          List.range' (parseBufSize - front.length) front.length := by
  have sound := Tracked.sound_start buf
  have room :
      (Tracked.start buf).parser.room
          (frames.flatMap Frame.bytes ++ front ++ dropped).length =
        parseBufSize := by
    rw [List.length_append, full]
    exact Nat.min_eq_right (Nat.le_add_right _ _)
  have joined :
      (Tracked.start buf).parser.joined
          (frames.flatMap Frame.bytes ++ front ++ dropped) =
        frames.flatMap Frame.bytes ++ front := by
    rw [Parser.joined, room, List.take_left' full, sound.bytes]
    rfl
  have rest :
      (referenceScanner.run
        (Tracked.start buf).parser.toParseCounters
        ((Tracked.start buf).parser.joined
          (frames.flatMap Frame.bytes ++ front ++ dropped))).rest =
        front := by
    have rawBytes :
        frames.flatMap Frame.bytes =
          (frames.map Frame.raw).flatMap RawFrame.bytes := by
      rw [List.flatMap_map]
      rfl
    rw [joined, rawBytes, referenceScanner_rawFrames,
      referenceScanner.run_of_step_none
        (scanStep_eq_none_iff.mpr (Or.inl short)),
      StreamScanner.Outcome.after_rest]
  have places :=
    Tracked.Aligned.joinedPlaces
      (show (Tracked.start buf).places = List.range' 0 0 from rfl)
      (show 0 + 0 = (Tracked.start buf).fed.length from rfl)
      (frames.flatMap Frame.bytes ++ front ++ dropped)
  obtain ⟨used, left⟩ :=
    referenceScanner_consumed
      (Tracked.start buf).parser.toParseCounters
      ((Tracked.start buf).parser.joined
        (frames.flatMap Frame.bytes ++ front ++ dropped))
  have length := congrArg List.length left
  rw [rest, List.length_drop, joined, full] at length
  rw [joined, full] at used
  obtain ⟨next, _, feeds⟩ := sound.feed allowed rfl
  refine ⟨_, _, feeds.tracked, feeds.sound, rfl,
    feeds.residue.trans rest, ?_⟩
  rw [Tracked.afterFeed, places, room, joined, List.drop_range',
    Nat.mul_one, Nat.zero_add, Nat.zero_add, ← length,
    ← Nat.sub_sub_self used, ← length]

theorem range'_inj_start {first second count : Nat}
    (some_ : 0 < count)
    (same : List.range' first count = List.range' second count) :
    first = second := by
  obtain ⟨count, rfl⟩ := Nat.exists_eq_succ_of_ne_zero
    (Nat.ne_of_gt some_)
  rw [List.range'_succ, List.range'_succ] at same
  exact (List.cons.inj same).1

/-- Two ranges with a gap between them are no range. -/
theorem not_contiguous_of_gap
    {delivery : Delivery} {first second front back : Nat}
    (places :
      delivery.places = List.range' first front ++ List.range' second back)
    (length : delivery.frame.length = front + back)
    (frontSome : 0 < front) (backSome : 0 < back)
    (gap : second ≠ first + front) :
    ¬ delivery.Contiguous := by
  intro contiguous
  obtain ⟨start, _, same⟩ := contiguous
  rw [places, length, ← List.range'_append_1] at same
  obtain ⟨fronts, backs⟩ := List.append_inj same (by simp)
  rw [range'_inj_start frontSome fronts,
    range'_inj_start backSome backs] at gap
  exact gap rfl

/-- The rest of a frame whose front is in the buffer. -/
theorem Tracked.Sound.feed_rest
    {state : Tracked} (sound : state.Sound) {frame : Frame}
    {back : List UInt8}
    (whole : state.parser.residue ++ back = frame.bytes) :
    ∃ next deliveries,
      state.perform (.feed back) = some (next, deliveries) ∧
        ({ fed := state.fed ++ back
           frame := frame.bytes
           places :=
            state.places ++
              List.range' state.fed.length back.length } : Delivery) ∈
          deliveries := by
  have sized := congrArg List.length whole
  rw [List.length_append, Parser.residue_length] at sized
  have largest : frame.bytes.length ≤ maxMsgSize := by
    rw [Frame.bytes, frame.msg.bytes_length]
    exact (msgTotalSize_code frame.msg.kind).2.1
  have sizes : maxMsgSize = 44 ∧ parseBufSize = 131072 := ⟨rfl, rfl⟩
  have room : state.parser.room back.length = back.length :=
    Nat.min_eq_left (by omega)
  have joined : state.parser.joined back = frame.bytes := by
    rw [Parser.joined, room, List.take_length, whole]
  have places :
      state.joinedPlaces back =
        state.places ++ List.range' state.fed.length back.length := by
    rw [Tracked.joinedPlaces, room]
  have count :
      (state.joinedPlaces back).length = frame.bytes.length := by
    rw [places, List.length_append, sound.length, List.length_range',
      sized]
  obtain ⟨next, _, feeds⟩ :=
    sound.feed (show back.length ≤ 2 ^ 63 - 1 by omega) rfl
  refine ⟨_, _, feeds.tracked, ?_⟩
  have called :=
    positionedCallbacks_of_headerChain (HeaderChain.here frame.bytes)
      state.parser.toParseCounters 0
      (show frame.bytes.drop 0 = frame.bytes ++ [] by simp)
  rw [← joined] at called
  refine List.mem_map.mpr ⟨_, called, ?_⟩
  simp only [joined, Nat.add_zero, List.drop_zero, ← places, ← count,
    List.take_length]

/-- A run that joins the two ends of a gap: heartbeats that fill the buffer up
to the front of another one, a byte that is discarded, and the rest of that
heartbeat.  It is delivered. -/
theorem delivered_torn :
    let frame := TickGenerator.heartbeatFrame 5 2000
    let data :=
      (List.replicate 6553 frame).flatMap Frame.bytes ++
        frame.bytes.take 12 ++ [255]
    let calls : List ParserCall :=
      [.feed data, .feed (frame.bytes.drop 12)]
    (∀ call ∈ calls, call.Allowed) ∧
      ∃ final deliveries,
        (Tracked.start ⟨fun _ => 0⟩).performAll calls =
            some (final, deliveries) ∧
          ∃ delivery ∈ deliveries,
            delivery.frame = frame.bytes ∧ ¬ delivery.Contiguous := by
  intro frame data calls
  have twelve : (frame.bytes.take 12).length = 12 := by
    decide
  have eight : (frame.bytes.drop 12).length = 8 := by
    decide
  have full :
      ((List.replicate 6553 frame).flatMap Frame.bytes ++
        frame.bytes.take 12).length = parseBufSize := by
    rw [List.length_append, length_flatMap_replicate, twelve]
    rfl
  have length : data.length = parseBufSize + 1 := by
    rw [List.length_append, full, List.length_singleton]
  have allowed : (ParserCall.feed data).Allowed := by
    rw [ParserCall.Allowed, length]
    decide
  have allowedRest :
      (ParserCall.feed (frame.bytes.drop 12)).Allowed := by
    rw [ParserCall.Allowed, eight]
    decide
  obtain ⟨next, first, fed, sound, stream, residue, places⟩ :=
    feed_overflowing ⟨fun _ => 0⟩ (by rw [twelve]; decide) full allowed
  obtain ⟨final, second, fedRest, member⟩ :=
    sound.feed_rest (show next.parser.residue ++ frame.bytes.drop 12 =
      frame.bytes by rw [residue, List.take_append_drop])
  refine ⟨?_, final, first ++ (second ++ []), ?_, _,
    List.mem_append_right _ (List.mem_append_left _ member), rfl, ?_⟩
  · intro call member
    simp only [calls, List.mem_cons, List.not_mem_nil, or_false] at member
    rcases member with same | same
    · rw [same]
      exact allowed
    · rw [same]
      exact allowedRest
  · exact Tracked.performAll_cons fed
      (Tracked.performAll_cons fedRest rfl)
  · have gap : parseBufSize + 1 ≠ parseBufSize - 12 + 12 := by
      decide
    have fedLength : next.fed.length = parseBufSize + 1 := by
      rw [stream]
      exact length
    have gapped :
        next.places ++
            List.range' next.fed.length (frame.bytes.drop 12).length =
          List.range' (parseBufSize - 12) 12 ++
            List.range' (parseBufSize + 1) 8 := by
      rw [places, twelve, fedLength, eight]
    exact not_contiguous_of_gap gapped (show frame.bytes.length = 12 + 8
      by decide) (by decide) (by decide) gap

end MarketDataHandler
