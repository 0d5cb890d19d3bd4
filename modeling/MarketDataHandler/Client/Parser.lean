import MarketDataHandler.Lib.ByteBuffer
import MarketDataHandler.Protocol

/-!
# The stream parser

`Parser` of `src/client/parser.h`, statement by statement: the reassembly
buffer with its stale bytes, the unsigned arithmetic of its sizes, the scan
loop and the final move.  A call has no result when it reads a byte of the
buffer that holds no stream data, copies outside a buffer, or does not leave
its loop.

The events list what a call does in order.  Besides the callbacks and the two
log lines it records the bytes that the scan loop drops.
-/

namespace MarketDataHandler

open PackedCodec (u32)

def parseBufSize : Nat := 128 * 1024

/-- Addition of `size_t` values. -/
def sizeAdd (left right : Nat) : Nat :=
  (left + right) % 2 ^ 64

/-- Subtraction of `size_t` values. -/
def sizeSub (left right : Nat) : Nat :=
  (left + 2 ^ 64 - right) % 2 ^ 64

/-- The counters of the parser. -/
structure ParseCounters where
  lastSeq : UInt32
  totalParsed : UInt64
  seqGaps : UInt64
  badChecksums : UInt64
  deriving DecidableEq, Repr

/-- What a call of `feed` does, in order. -/
inductive ParseEvent where
  /-- Warning that the tail of the data did not fit. -/
  | logOverflow (discarded : Nat)
  /-- One byte passed over because the type found there is unknown. -/
  | skipByte (byte : UInt8)
  /-- A whole frame passed over because of its checksum. -/
  | badChecksum (frame : List UInt8)
  /-- Warning about a sequence gap. -/
  | logGap (expected got : UInt32)
  /-- Callback of the given kind on the bytes of a frame. -/
  | invoke (kind : MsgKind) (frame : List UInt8)
  deriving DecidableEq, Repr

namespace ParseCounters

def zero : ParseCounters where
  lastSeq := 0
  totalParsed := 0
  seqGaps := 0
  badChecksums := 0

/-- The three-part test in front of the gap counter. -/
def hasGap (counters : ParseCounters) (seq : UInt32) : Bool :=
  decide (0 < counters.lastSeq) &&
    (decide (seq ≠ counters.lastSeq + 1) &&
      decide (counters.lastSeq + 1 < seq))

/-- Bookkeeping of a frame that passed its checksum. -/
def accept (counters : ParseCounters) (seq : UInt32) :
    ParseCounters × List ParseEvent :=
  ({ counters with
      seqGaps :=
        if counters.hasGap seq then
          counters.seqGaps + (seq - counters.lastSeq - 1).toUInt64
        else
          counters.seqGaps
      lastSeq := seq
      totalParsed := counters.totalParsed + 1 },
    if counters.hasGap seq then
      [.logGap (counters.lastSeq + 1) seq]
    else
      [])

/-- Bookkeeping of a frame that failed its checksum. -/
def reject (counters : ParseCounters) : ParseCounters :=
  { counters with badChecksums := counters.badChecksums + 1 }

end ParseCounters

/-- The callback that the `switch` over the message type selects. -/
def dispatch (msgType : UInt16) (frame : List UInt8) : List ParseEvent :=
  match MsgKind.ofCode msgType with
  | some kind => [.invoke kind frame]
  | none => []

structure Parser extends ParseCounters where
  buf : ByteBuffer parseBufSize
  bufUsed : Nat

namespace Parser

/-- The constructor.  It leaves the buffer as it finds it. -/
def new (buf : ByteBuffer parseBufSize) : Parser where
  toParseCounters := ParseCounters.zero
  buf := buf
  bufUsed := 0

def reset (parser : Parser) : Parser :=
  { parser with
    bufUsed := 0
    lastSeq := 0
    totalParsed := 0
    seqGaps := 0
    badChecksums := 0 }

/-- Read bytes of the buffer that hold stream data. -/
def load (parser : Parser) (start count : Nat) : Option (List UInt8) :=
  if start + count ≤ parser.bufUsed then
    parser.buf.load start count
  else
    none

/-- The part of `feed` in front of its loop. -/
def fill {capacity : Nat} (parser : Parser)
    (data : ByteBuffer capacity) (len : Nat) :
    Option (Parser × List ParseEvent) :=
  if parseBufSize < sizeAdd parser.bufUsed len then
    let space := sizeSub parseBufSize parser.bufUsed
    if 0 < space then do
      let buf ← parser.buf.copy parser.bufUsed data 0 space
      some
        ({ parser with
            buf := buf
            bufUsed := sizeAdd parser.bufUsed space },
          [.logOverflow (sizeSub len space)])
    else
      some (parser, [.logOverflow (sizeSub len space)])
  else do
    let buf ← parser.buf.copy parser.bufUsed data 0 len
    some
      ({ parser with
          buf := buf
          bufUsed := sizeAdd parser.bufUsed len },
        [])

/-- One pass through the loop of `feed` at `offset`: nothing when the loop is
left, else the counters, the events and the next offset. -/
def iterate (parser : Parser) (offset : Nat) :
    Option (Option (ParseCounters × List ParseEvent × Nat)) :=
  if sizeSub parser.bufUsed offset < MsgHeader.codec.size then
    some none
  else do
    let typeField ← parser.load offset 2
    let msgType := msgTypeAt typeField
    let expected := msgTotalSize msgType
    if expected = 0 then
      some (some (parser.toParseCounters,
        [.skipByte (typeField.headD 0)], offset + 1))
    else if sizeSub parser.bufUsed offset < expected then
      some none
    else do
      let body ← parser.load offset (expected - 4)
      let wireCs ← parser.load (offset + expected - 4) 4
      if computeChecksum body ≠ u32.decode wireCs then
        some (some (parser.toParseCounters.reject,
          [.badChecksum (body ++ wireCs)], offset + expected))
      else do
        let seqField ← parser.load (offset + 2) 4
        let accepted :=
          parser.toParseCounters.accept (u32.decode seqField)
        some (some (accepted.1,
          accepted.2 ++ dispatch msgType (body ++ wireCs),
          offset + expected))

/-- The loop of `feed`.  The fuel bounds the number of passes. -/
def scanLoop : Nat → Parser → Nat →
    Option (Parser × List ParseEvent × Nat)
  | 0, _, _ => none
  | fuel + 1, parser, offset => do
      match ← parser.iterate offset with
      | none => some (parser, [], offset)
      | some (counters, events, next) =>
          let (final, later, stop) ←
            scanLoop fuel { parser with toParseCounters := counters } next
          some (final, events ++ later, stop)

/-- The part of `feed` behind its loop: lower `buf_used_`, then move the
residue to the front.  What is moved was stream data in the loop, below the
`buf_used_` from before. -/
def compact (parser : Parser) (offset : Nat) : Option Parser :=
  if 0 < offset then
    let lowered : Parser :=
      { parser with bufUsed := sizeSub parser.bufUsed offset }
    if 0 < lowered.bufUsed then do
      let residue ← parser.load offset lowered.bufUsed
      let buf ← lowered.buf.store 0 residue
      some { lowered with buf := buf }
    else
      some lowered
  else
    some parser

def feed {capacity : Nat} (parser : Parser)
    (data : ByteBuffer capacity) (len : Nat) :
    Option (Parser × List ParseEvent) := do
  let (filled, overflow) ← parser.fill data len
  let (scanned, events, offset) ← scanLoop (filled.bufUsed + 1) filled 0
  let compacted ← scanned.compact offset
  some (compacted, overflow ++ events)

/-- Successive calls of `feed`, one for each chunk. -/
def feedAll : Parser → List (List UInt8) →
    Option (Parser × List ParseEvent)
  | parser, [] => some (parser, [])
  | parser, chunk :: chunks => do
      let (next, events) ←
        parser.feed (ByteBuffer.ofList chunk) chunk.length
      let (final, later) ← next.feedAll chunks
      some (final, events ++ later)

/-- The unconsumed stream bytes. -/
def residue (parser : Parser) : List UInt8 :=
  parser.buf.slice 0 parser.bufUsed

/-- A parser whose `buf_used_` lies inside its buffer. -/
def InBounds (parser : Parser) : Prop :=
  parser.bufUsed ≤ parseBufSize

/-- A parser that was just constructed, or just reset. -/
inductive Fresh : Parser → Prop
  | constructed (buf : ByteBuffer parseBufSize) : Fresh (new buf)
  | afterReset (parser : Parser) : Fresh parser.reset

@[simp]
theorem residue_length (parser : Parser) :
    parser.residue.length = parser.bufUsed := by
  simp [residue]

end Parser

theorem sizeAdd_of_lt {left right : Nat} (small : left + right < 2 ^ 64) :
    sizeAdd left right = left + right :=
  Nat.mod_eq_of_lt small

theorem sizeSub_of_le
    {left right : Nat} (ordered : right ≤ left) (small : left < 2 ^ 64) :
    sizeSub left right = left - right := by
  unfold sizeSub
  omega

namespace Parser

/-- Reading stream data is cutting it out of the residue. -/
theorem load_eq
    {parser : Parser} (inBounds : parser.InBounds)
    {start count : Nat} (inside : start + count ≤ parser.bufUsed) :
    parser.load start count =
      some ((parser.residue.drop start).take count) := by
  have capacity : start + count ≤ parseBufSize :=
    Nat.le_trans inside inBounds
  have wide : count ≤ parser.bufUsed - start := by omega
  unfold load residue
  rw [if_pos inside, ByteBuffer.load_eq_some _ capacity,
    ByteBuffer.slice_drop, ByteBuffer.slice_take _ wide, Nat.zero_add]

end Parser

end MarketDataHandler
