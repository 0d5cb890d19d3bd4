import Mathlib.Data.List.DropRight
import MarketDataHandler.Checksum
import MarketDataHandler.Client.SequenceGaps

/-!
# Corrupted frames

Frames numbered without a gap reach the parser, some of them altered in up to
four consecutive bytes behind the type field.  An altered frame keeps its type
and length, so the scanner stays aligned; its checksum is wrong, so it is
dropped and counted, and the frames around it show the gap that it leaves.
-/

namespace MarketDataHandler

/-- A change of a frame that leaves its type field alone and touches at most
four consecutive bytes. -/
structure Alteration (frame : Frame) where
  bytes : List UInt8
  start : Nat
  behindType : 2 ≤ start
  sameLength : bytes.length = frame.bytes.length
  confined :
    ∀ position, position < start ∨ start + 4 ≤ position →
      bytes[position]? = frame.bytes[position]?
  changed : bytes ≠ frame.bytes

/-- A frame on its way to the parser, altered or not. -/
structure Transmission where
  frame : Frame
  alteration : Option (Alteration frame)

namespace Transmission

def altered (sent : Transmission) : Bool :=
  sent.alteration.isSome

/-- The bytes that arrive. -/
def bytes (sent : Transmission) : List UInt8 :=
  match sent.alteration with
  | none => sent.frame.bytes
  | some alteration => alteration.bytes

end Transmission

/-- The frames are numbered `first`, `first + 1`, and so on. -/
def Consecutive : Nat → List Transmission → Prop
  | _, [] => True
  | first, sent :: later =>
      sent.frame.seqNo.toNat = first ∧ Consecutive (first + 1) later

/-- The altered frames between the first and the last intact one. -/
def alteredBetween (sent : List Transmission) : Nat :=
  ((sent.dropWhile Transmission.altered).rdropWhile
    Transmission.altered).countP Transmission.altered

/-! ## A single transmission -/

namespace Alteration

variable {frame : Frame}

theorem msgTypeAt_bytes (alteration : Alteration frame) :
    msgTypeAt alteration.bytes = msgTypeAt frame.bytes := by
  have front : alteration.bytes.take 2 = frame.bytes.take 2 := by
    apply List.ext_getElem?
    intro position
    rw [List.getElem?_take, List.getElem?_take]
    by_cases inside : position < 2
    · have start := alteration.behindType
      rw [if_pos inside, if_pos inside]
      exact alteration.confined position (by omega)
    · rw [if_neg inside, if_neg inside]
  rw [← msgTypeAt_take alteration.bytes (Nat.le_refl 2), front,
    msgTypeAt_take frame.bytes (Nat.le_refl 2)]

/-- An altered frame is still a self-delimiting byte string. -/
def raw (alteration : Alteration frame) : RawFrame where
  bytes := alteration.bytes
  known := by
    rw [alteration.msgTypeAt_bytes]
    exact frame.raw.known
  sized := by
    rw [alteration.msgTypeAt_bytes, alteration.sameLength]
    exact frame.raw.sized

/-- An altered frame fails its check. -/
theorem receive_eq
    (alteration : Alteration frame) (counters : ParseCounters) :
    counters.receive alteration.bytes =
      (counters.reject, [.badChecksum alteration.bytes]) := by
  have sized : frame.bytes.length = msgTotalSize frame.kind.code :=
    frame.msg.bytes_length
  have bounds := msgTotalSize_code frame.kind
  have noticed :
      bodyChecksum alteration.bytes ≠ wireChecksum alteration.bytes :=
    checksum_detects_burst (by omega) (by omega)
      frame.bodyChecksum_bytes alteration.sameLength
      alteration.confined alteration.changed
  simp only [ParseCounters.receive, if_pos noticed]

end Alteration

namespace Transmission

def raw (sent : Transmission) : RawFrame :=
  match sent.alteration with
  | none => sent.frame.raw
  | some alteration => alteration.raw

theorem raw_bytes (sent : Transmission) : sent.raw.bytes = sent.bytes := by
  obtain ⟨frame, alteration⟩ := sent
  cases alteration <;> rfl

theorem receive_intact
    {sent : Transmission} (intact : sent.altered = false)
    (counters : ParseCounters) :
    counters.receive sent.raw.bytes =
      ((counters.accept sent.frame.seqNo).1,
        (counters.accept sent.frame.seqNo).2 ++
          [.invoke sent.frame.kind sent.frame.bytes]) := by
  obtain ⟨frame, alteration⟩ := sent
  cases alteration with
  | none =>
      exact frame.receive_eq counters
  | some alteration =>
      cases intact

theorem receive_altered
    {sent : Transmission} (damaged : sent.altered = true)
    (counters : ParseCounters) :
    counters.receive sent.raw.bytes =
      (counters.reject, [.badChecksum sent.bytes]) := by
  obtain ⟨frame, alteration⟩ := sent
  cases alteration with
  | none =>
      cases damaged
  | some alteration =>
      exact alteration.receive_eq counters

end Transmission

/-! ## A list of transmissions -/

/-- Receive one transmission after the other. -/
def ParseCounters.transmitAll
    (counters : ParseCounters) (sent : List Transmission) :
    ParseCounters × List ParseEvent :=
  counters.receiveAll (sent.map Transmission.raw)

namespace ParseCounters

theorem transmitAll_cons
    (counters : ParseCounters) (sent : Transmission)
    (later : List Transmission) :
    counters.transmitAll (sent :: later) =
      (((counters.receive sent.raw.bytes).1.transmitAll later).1,
        (counters.receive sent.raw.bytes).2 ++
          ((counters.receive sent.raw.bytes).1.transmitAll later).2) := by
  simp only [transmitAll, receiveAll, List.map_cons, Mealy.run_cons]

/-- Exactly the intact frames are delivered, in order. -/
theorem callbacks_transmitAll
    (counters : ParseCounters) (sent : List Transmission) :
    callbacks (counters.transmitAll sent).2 =
      (sent.filter fun one => !one.altered).map fun one =>
        (one.frame.kind, one.frame.bytes) := by
  induction sent generalizing counters with
  | nil =>
      rfl
  | cons one later inductionHypothesis =>
      rw [transmitAll_cons, callbacks_append, inductionHypothesis]
      cases status : one.altered with
      | false =>
          rw [Transmission.receive_intact status, callbacks_append,
            callbacks_accept,
            List.filter_cons_of_pos (by simp [status]), List.map_cons]
          rfl
      | true =>
          rw [Transmission.receive_altered status,
            List.filter_cons_of_neg (by simp [status])]
          rfl

/-- Altered frames are counted as bad, intact ones as parsed. -/
theorem counts_transmitAll
    (counters : ParseCounters) (sent : List Transmission) :
    (counters.transmitAll sent).1.badChecksums =
        counters.badChecksums +
          UInt64.ofNat (sent.countP Transmission.altered) ∧
      (counters.transmitAll sent).1.totalParsed =
        counters.totalParsed +
          UInt64.ofNat (sent.countP fun one => !one.altered) := by
  induction sent generalizing counters with
  | nil =>
      exact ⟨(UInt64.add_zero _).symm, (UInt64.add_zero _).symm⟩
  | cons one later inductionHypothesis =>
      have next :=
        inductionHypothesis (counters.receive one.raw.bytes).1
      rw [transmitAll_cons, next.1, next.2]
      cases status : one.altered with
      | false =>
          rw [Transmission.receive_intact status,
            List.countP_cons_of_neg (by simp [status]),
            List.countP_cons_of_pos (by simp [status]),
            UInt64.ofNat_add]
          refine ⟨rfl, ?_⟩
          change counters.totalParsed + 1 + _ = _
          rw [UInt64.add_assoc, UInt64.add_comm 1]
          rfl
      | true =>
          rw [Transmission.receive_altered status,
            List.countP_cons_of_pos status,
            List.countP_cons_of_neg (by simp [status]),
            UInt64.ofNat_add]
          refine ⟨?_, rfl⟩
          change counters.badChecksums + 1 + _ = _
          rw [UInt64.add_assoc, UInt64.add_comm 1]
          rfl

end ParseCounters

/-! ## The gap counter -/

/-- The altered frames that the parser learns about once a frame has been
delivered: `pending` of them so far, and those up to the last intact one. -/
def noticedGap : Nat → List Transmission → Nat
  | _, [] => 0
  | pending, sent :: later =>
      if sent.altered then
        noticedGap (pending + 1) later
      else
        pending + noticedGap 0 later

private theorem rdropWhile_cons
    (one : Transmission) (later : List Transmission) :
    (one :: later).rdropWhile Transmission.altered =
      if later.all Transmission.altered then
        if one.altered then [] else [one]
      else
        one :: later.rdropWhile Transmission.altered := by
  simp only [List.rdropWhile, List.reverse_cons, List.dropWhile_append]
  by_cases lost : later.all Transmission.altered = true
  · have nothing :
        later.reverse.dropWhile Transmission.altered = [] := by
      rw [List.dropWhile_eq_nil_iff]
      intro one member
      exact List.all_eq_true.mp lost one (List.mem_reverse.mp member)
    rw [nothing, if_pos lost]
    cases status : one.altered <;> simp [status]
  · have something :
        (later.reverse.dropWhile Transmission.altered).isEmpty = false := by
      rw [List.isEmpty_eq_false_iff, ne_eq, List.dropWhile_eq_nil_iff]
      intro allAltered
      apply lost
      rw [List.all_eq_true]
      intro one member
      exact allAltered one (List.mem_reverse.mpr member)
    rw [something, if_neg lost]
    simp

theorem noticedGap_eq (pending : Nat) (sent : List Transmission) :
    noticedGap pending sent =
      if sent.all Transmission.altered then
        0
      else
        pending +
          (sent.rdropWhile Transmission.altered).countP
            Transmission.altered := by
  induction sent generalizing pending with
  | nil =>
      rfl
  | cons one later inductionHypothesis =>
      rw [noticedGap, rdropWhile_cons, inductionHypothesis,
        inductionHypothesis, List.all_cons]
      cases status : one.altered with
      | false =>
          by_cases lost : later.all Transmission.altered = true
          · simp [lost, status]
          · simp [lost, status]
      | true =>
          by_cases lost : later.all Transmission.altered = true
          · simp [lost]
          · simp [lost, status]
            omega

/-- With a frame delivered and `pending` altered ones behind it, the gap
counter grows by what is noticed. -/
theorem seqGaps_transmitAll_started
    {counters : ParseCounters} {pending : Nat}
    {sent : List Transmission}
    (started : 0 < counters.lastSeq.toNat)
    (numbered :
      Consecutive (counters.lastSeq.toNat + 1 + pending) sent) :
    (counters.transmitAll sent).1.seqGaps =
      counters.seqGaps + UInt64.ofNat (noticedGap pending sent) := by
  induction sent generalizing counters pending with
  | nil =>
      exact (UInt64.add_zero _).symm
  | cons one later inductionHypothesis =>
      obtain ⟨number, rest⟩ := numbered
      rw [ParseCounters.transmitAll_cons, noticedGap]
      cases status : one.altered with
      | true =>
          rw [Transmission.receive_altered status]
          have unchanged :
              (counters.reject.transmitAll later).1.seqGaps =
                counters.reject.seqGaps +
                  UInt64.ofNat (noticedGap (pending + 1) later) :=
            inductionHypothesis started rest
          exact unchanged
      | false =>
          rw [Transmission.receive_intact status]
          have bound := one.frame.seqNo.toNat_lt
          have successor :
              one.frame.seqNo =
                counters.lastSeq + 1 + UInt32.ofNat pending := by
            apply UInt32.toNat_inj.mp
            rw [number, UInt32.toNat_add, UInt32.toNat_add,
              UInt32.toNat_ofNat', UInt32.toNat_one]
            omega
          have counted :
              countedLoss counters.lastSeq pending = pending := by
            rw [countedLoss_eq_iff]
            right
            refine ⟨?_, by omega⟩
            intro zero
            rw [zero] at started
            exact absurd started (by decide)
          have first :=
            seqGaps_accept_after_loss counters
              (show pending < 2 ^ 32 by omega)
          rw [← successor, counted] at first
          have later :=
            @inductionHypothesis
              (counters.accept one.frame.seqNo).1 0
              (show 0 < one.frame.seqNo.toNat by omega)
              (by rw [← number] at rest; exact rest)
          rw [later, first, if_neg (by decide), UInt64.ofNat_add,
            UInt64.add_assoc]

/-- Before anything is delivered the gap counter ignores altered frames. -/
theorem seqGaps_transmitAll
    {counters : ParseCounters} {first : Nat} {sent : List Transmission}
    (unstarted : counters.lastSeq = 0)
    (positive : 1 ≤ first) (numbered : Consecutive first sent) :
    (counters.transmitAll sent).1.seqGaps =
      counters.seqGaps + UInt64.ofNat (alteredBetween sent) := by
  induction sent generalizing counters first with
  | nil =>
      exact (UInt64.add_zero _).symm
  | cons one later inductionHypothesis =>
      obtain ⟨number, rest⟩ := numbered
      rw [ParseCounters.transmitAll_cons]
      cases status : one.altered with
      | true =>
          rw [Transmission.receive_altered status, alteredBetween,
            List.dropWhile_cons_of_pos status]
          have unchanged :
              (counters.reject.transmitAll later).1.seqGaps =
                counters.reject.seqGaps +
                  UInt64.ofNat (alteredBetween later) :=
            inductionHypothesis unstarted
              (show 1 ≤ first + 1 by omega) rest
          exact unchanged
      | false =>
          rw [Transmission.receive_intact status, alteredBetween,
            List.dropWhile_cons_of_neg (by simp [status])]
          have quiet :
              (counters.accept one.frame.seqNo).1.seqGaps =
                counters.seqGaps := by
            simp [ParseCounters.accept, ParseCounters.hasGap, unstarted]
          have started :=
            @seqGaps_transmitAll_started
              (counters.accept one.frame.seqNo).1 0 later
              (show 0 < one.frame.seqNo.toNat by omega)
              (by rw [← number] at rest; exact rest)
          rw [started, quiet, noticedGap_eq, rdropWhile_cons]
          by_cases lost : later.all Transmission.altered = true
          · simp [lost, status]
          · simp [lost, status]

private theorem alteredBetween_le (sent : List Transmission) :
    alteredBetween sent ≤ sent.length := by
  calc
    alteredBetween sent ≤
        ((sent.dropWhile Transmission.altered).rdropWhile
          Transmission.altered).length :=
      List.countP_le_length
    _ ≤ (sent.dropWhile Transmission.altered).length := by
      simpa [List.rdropWhile] using
        List.length_dropWhile_le Transmission.altered
          (sent.dropWhile Transmission.altered).reverse
    _ ≤ sent.length := List.length_dropWhile_le _ sent

private theorem length_of_consecutive
    {first : Nat} {sent : List Transmission}
    (numbered : Consecutive first sent) :
    sent.length ≤ 2 ^ 32 - first ∨ sent = [] := by
  induction sent generalizing first with
  | nil =>
      exact Or.inr rfl
  | cons one later inductionHypothesis =>
      obtain ⟨number, rest⟩ := numbered
      have bound := one.frame.seqNo.toNat_lt
      left
      rcases inductionHypothesis rest with shorter | rfl
      · rw [List.length_cons]
        omega
      · rw [List.length_singleton]
        omega

/-- Corruption is contained and accounted for: however the stream is cut, the
parser delivers exactly the intact frames, counts the altered ones as bad and
the intact ones as parsed, and its gap counter is the number of altered frames
between the first and the last delivered one. -/
theorem feedAll_transmissions
    {parser : Parser} (fresh : parser.Fresh)
    {first : Nat} {sent : List Transmission}
    (positive : 1 ≤ first) (numbered : Consecutive first sent)
    {chunks : List (List UInt8)}
    (cuts : chunks.flatten = sent.flatMap Transmission.bytes)
    (bounded : ∀ chunk ∈ chunks, chunk.length ≤ 65536) :
    ∃ final events,
      parser.feedAll chunks = some (final, events) ∧
        callbacks events =
          (sent.filter fun one => !one.altered).map (fun one =>
            (one.frame.kind, one.frame.bytes)) ∧
        final.badChecksums.toNat = sent.countP Transmission.altered ∧
        final.totalParsed.toNat =
          sent.countP (fun one => !one.altered) ∧
        final.seqGaps.toNat = alteredBetween sent := by
  have rawBytes :
      sent.flatMap Transmission.bytes =
        (sent.map Transmission.raw).flatMap RawFrame.bytes := by
    rw [List.flatMap_map]
    exact List.flatMap_congr fun one _ => one.raw_bytes.symm
  obtain ⟨final, fed, counters, _⟩ :=
    fresh.feedAll_reads bounded
  rw [cuts, rawBytes, referenceScan_rawFrames] at fed counters
  have counts := ParseCounters.counts_transmitAll ParseCounters.zero sent
  have gaps :=
    @seqGaps_transmitAll ParseCounters.zero first sent rfl positive
      numbered
  have short : sent.length < 2 ^ 64 := by
    rcases length_of_consecutive numbered with bound | rfl
    · omega
    · decide
  have counted (count : Nat) (small : count ≤ sent.length) :
      ((0 : UInt64) + UInt64.ofNat count).toNat = count := by
    rw [UInt64.zero_add, UInt64.toNat_ofNat']
    exact Nat.mod_eq_of_lt (by omega)
  refine ⟨final, _, fed, ParseCounters.callbacks_transmitAll _ sent,
    ?_, ?_, ?_⟩
  · rw [counters]
    exact (congrArg UInt64.toNat counts.1).trans
      (counted _ List.countP_le_length)
  · rw [counters]
    exact (congrArg UInt64.toNat counts.2).trans
      (counted _ List.countP_le_length)
  · rw [counters]
    exact (congrArg UInt64.toNat gaps).trans
      (counted _ (alteredBetween_le sent))

/-- Three heartbeats numbered from one, the middle one with a flipped bit in
its timestamp. -/
theorem feedAll_transmissions_flipped :
    let flipped :=
      [3, 0, 2, 0, 0, 0, 1, 0, 0, 0, 0, 0, 0, 0, 0, 0, 3, 0, 2, 0]
    let before := TickGenerator.heartbeatFrame 1 0
    let behind := TickGenerator.heartbeatFrame 3 0
    ∃ final events,
      (Parser.new ⟨fun _ => 0⟩).feedAll
          [before.bytes, flipped, behind.bytes] =
          some (final, events) ∧
        callbacks events =
          [(.heartbeat, before.bytes), (.heartbeat, behind.bytes)] ∧
        final.badChecksums.toNat = 1 ∧
        final.totalParsed.toNat = 2 ∧
        final.seqGaps.toNat = 1 := by
  intro flipped before behind
  let middle := TickGenerator.heartbeatFrame 2 0
  have sameOutside :
      ∀ position, position < 6 ∨ 6 + 4 ≤ position →
        flipped[position]? = middle.bytes[position]? := by
    intro position outside
    by_cases inside : position < 20
    · interval_cases position <;> first | rfl | omega
    · have flippedLength : flipped.length = 20 := rfl
      have middleLength : middle.bytes.length = 20 := rfl
      rw [List.getElem?_eq_none (by omega),
        List.getElem?_eq_none (by omega)]
  let alteration : Alteration middle :=
    { bytes := flipped
      start := 6
      behindType := by decide
      sameLength := rfl
      confined := sameOutside
      changed := by decide }
  exact
    feedAll_transmissions (Parser.Fresh.constructed ⟨fun _ => 0⟩)
      (show 1 ≤ 1 from Nat.le_refl 1)
      (show
        Consecutive 1
          [⟨before, none⟩, ⟨middle, some alteration⟩, ⟨behind, none⟩]
        from ⟨rfl, rfl, rfl, trivial⟩)
      (show
        [before.bytes, flipped, behind.bytes].flatten = _
        from rfl)
      (by decide)

end MarketDataHandler
