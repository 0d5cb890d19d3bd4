import MarketDataHandler.Lib.ByteLanes
import MarketDataHandler.Protocol

/-!
# The checksum by lanes

Byte `j` of `compute_checksum` is lane `j` of the data with period four.  All
frames are made of whole words, so a frame passes its check exactly when its
four lanes, checksum included, are zero; this is what a burst of up to four
bytes cannot leave intact.
-/

namespace MarketDataHandler

open PackedCodec (u32)
open PackedCodec.Words
open ByteLanes

private theorem byteAt_checksumTerm
    (byte : UInt8) (index lane : Nat) :
    byteAt (byte.toUInt32 <<< UInt32.ofNat (index % 4 * 8)).toNat lane =
      if index % 4 = lane then byte else 0 := by
  have place : index % 4 < 4 := Nat.mod_lt index (by decide)
  have bound : byte.toNat < 256 := byte.toNat_lt
  have shift : (UInt32.ofNat (index % 4 * 8)).toNat % 32 =
      8 * (index % 4) := by
    rw [UInt32.toNat_ofNat']
    omega
  have power : (2 : Nat) ^ (8 * (index % 4)) = 256 ^ (index % 4) :=
    pow_mul 2 8 (index % 4)
  have fits : byte.toNat * 256 ^ (index % 4) < 2 ^ 32 := by
    have top : (256 : Nat) ^ (index % 4) ≤ 256 ^ 3 :=
      Nat.pow_le_pow_right (by decide) (by omega)
    calc
      byte.toNat * 256 ^ (index % 4) ≤ byte.toNat * 256 ^ 3 :=
        Nat.mul_le_mul_left _ top
      _ < 2 ^ 32 := by omega
  rw [UInt32.toNat_shiftLeft, UInt8.toNat_toUInt32, shift,
    Nat.shiftLeft_eq, power, Nat.mod_eq_of_lt fits, byteAt_mul_pow]

private theorem byteAt_checksumLoop
    (index : Nat) (cs : UInt32) (data : List UInt8) (lane : Nat) :
    byteAt (checksumLoop index cs data).toNat lane =
      byteAt cs.toNat lane ^^^ laneXor 4 lane index data := by
  induction data generalizing index cs with
  | nil =>
      simp [checksumLoop, laneXor]
  | cons byte rest inductionHypothesis =>
      rw [checksumLoop, inductionHypothesis, UInt32.toNat_xor,
        byteAt_xor, byteAt_checksumTerm, laneXor,
        UInt8.xor_assoc]

/-- Byte `lane` of the checksum is lane `lane` of the data. -/
theorem byteAt_computeChecksum (data : List UInt8) (lane : Nat) :
    byteAt (computeChecksum data).toNat lane = laneXor 4 lane 0 data := by
  have zero : byteAt (0 : UInt32).toNat lane = 0 := by
    rw [UInt32.toNat_zero, byteAt, Nat.zero_div]
    rfl
  rw [computeChecksum, byteAt_checksumLoop, zero,
    UInt8.zero_xor]

theorem laneXor_word
    {index : Nat} (aligned : index % 4 = 0)
    {word : List UInt8} (four : word.length = 4)
    {lane : Nat} (small : lane < 4) :
    some (laneXor 4 lane index word) = word[lane]? := by
  obtain ⟨b0, b1, b2, b3, rfl⟩ :
      ∃ b0 b1 b2 b3, word = [b0, b1, b2, b3] :=
    List.length_eq_four.mp four
  have first : (index + 1) % 4 = 1 := by omega
  have second : (index + 1 + 1) % 4 = 2 := by omega
  have third : (index + 1 + 1 + 1) % 4 = 3 := by omega
  simp only [laneXor, aligned, first, second, third]
  interval_cases lane <;> simp

/-- A frame made of whole words passes its check exactly when all its lanes
are zero. -/
theorem checksum_passes_iff
    {frame : List UInt8}
    (words : frame.length % 4 = 0) (long : 4 ≤ frame.length) :
    bodyChecksum frame = wireChecksum frame ↔
      ∀ lane < 4, laneXor 4 lane 0 frame = 0 := by
  have tailLength : (frame.drop (frame.length - 4)).length = 4 := by
    rw [List.length_drop]
    omega
  have bodyLength :
      (frame.take (frame.length - 4)).length = frame.length - 4 := by
    rw [List.length_take]
    omega
  have lanes :
      ∀ lane < 4,
        (laneXor 4 lane 0 frame = 0 ↔
          (frame.drop (frame.length - 4))[lane]? =
            some (laneXor 4 lane 0 (frame.take (frame.length - 4)))) := by
    intro lane small
    have joined :=
      @laneXor_append 4 lane 0 (frame.take (frame.length - 4))
        (frame.drop (frame.length - 4))
    rw [List.take_append_drop, bodyLength, Nat.zero_add] at joined
    have aligned : (frame.length - 4) % 4 = 0 := by omega
    rw [joined, ← laneXor_word aligned tailLength small,
      Option.some.injEq, UInt8.xor_eq_zero_iff]
    exact eq_comm
  rw [eq_comm]
  unfold bodyChecksum wireChecksum
  rw [PackedCodec.u32_decode_eq_iff tailLength]
  change _ = leBytes 4 _ ↔ _
  rw [leBytes_eq_map]
  constructor
  · intro encoded lane small
    rw [lanes lane small, encoded, List.getElem?_map,
      List.getElem?_range small, Option.map_some,
      byteAt_computeChecksum]
  · intro zero
    apply List.ext_getElem?
    intro lane
    by_cases small : lane < 4
    · rw [(lanes lane small).mp (zero lane small), List.getElem?_map,
        List.getElem?_range small, Option.map_some,
        byteAt_computeChecksum]
    · rw [List.getElem?_eq_none (by omega),
        List.getElem?_eq_none (by simp; omega)]

/-- A change confined to four consecutive bytes of a frame that passes its
check is noticed. -/
theorem checksum_detects_burst
    {frame altered : List UInt8} {start : Nat}
    (words : frame.length % 4 = 0) (long : 4 ≤ frame.length)
    (passes : bodyChecksum frame = wireChecksum frame)
    (sameLength : altered.length = frame.length)
    (confined :
      ∀ position, position < start ∨ start + 4 ≤ position →
        altered[position]? = frame[position]?)
    (changed : altered ≠ frame) :
    bodyChecksum altered ≠ wireChecksum altered := by
  intro unnoticed
  have alteredZero :=
    (checksum_passes_iff (by omega) (by omega)).mp unnoticed
  have frameZero := (checksum_passes_iff words long).mp passes
  obtain ⟨lane, small, differs⟩ :=
    exists_laneXor_ne_of_burst sameLength confined changed
  rw [alteredZero lane small, frameZero lane small] at differs
  exact differs rfl

end MarketDataHandler
