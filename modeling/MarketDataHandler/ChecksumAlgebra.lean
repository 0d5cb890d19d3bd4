import MarketDataHandler.Checksum

/-!
# The algebra of the checksum

The checksum of a string that is put together from two parts: the lanes of the
second part are moved on by the length of the first, which rotates its checksum
by whole bytes.  What the check of the parser cannot notice follows from it.
-/

namespace MarketDataHandler

open PackedCodec (u32)
open PackedCodec.Words
open ByteLanes

/-- Rotation of a word to the left. -/
def rotl32 (word : UInt32) (count : Nat) : UInt32 :=
  UInt32.ofBitVec (word.toBitVec.rotateLeft count)

/-! ## Bytes of words -/

/-- Two words with the same bytes are the same. -/
theorem word_ext
    {left right : UInt32}
    (bytes : ∀ lane < 4, byteAt left.toNat lane = byteAt right.toNat lane) :
    left = right := by
  have encoded : u32.encode left = u32.encode right := by
    change leBytes 4 left.toNat = leBytes 4 right.toNat
    rw [leBytes_eq_map, leBytes_eq_map]
    apply List.map_congr_left
    intro lane member
    exact bytes lane (List.mem_range.mp member)
  have decoded := congrArg u32.decode encoded
  rwa [u32.decode_encode, u32.decode_encode] at decoded

theorem testBit_byteAt (value lane bit : Nat) :
    (byteAt value lane).toNat.testBit bit =
      (decide (bit < 8) && value.testBit (8 * lane + bit)) := by
  have power : (256 : Nat) ^ lane = 2 ^ (8 * lane) := (pow_mul 2 8 lane).symm
  rw [byteAt, UInt8.toNat_ofNat', power]
  change ((value / 2 ^ (8 * lane)) % 2 ^ 8).testBit bit = _
  rw [Nat.testBit_mod_two_pow, Nat.testBit_div_two_pow, Nat.add_comm]

theorem testBit_rotl32 (word : UInt32) (count : Nat) {bit : Nat}
    (inside : bit < 32) :
    (rotl32 word count).toNat.testBit bit =
      word.toNat.testBit ((bit + 32 - count % 32) % 32) := by
  have bound : count % 32 < 32 := Nat.mod_lt count (by decide)
  change (word.toBitVec.rotateLeft count).getLsbD bit =
    word.toBitVec.getLsbD ((bit + 32 - count % 32) % 32)
  rw [BitVec.getLsbD_rotateLeft]
  by_cases front : bit < count % 32
  · rw [Bool.cond_eq_ite, if_pos (by simpa using front)]
    congr 1
    omega
  · rw [Bool.cond_eq_ite, if_neg (by simpa using front),
      decide_eq_true inside, Bool.true_and]
    congr 1
    omega

/-- A rotation by whole bytes moves the bytes. -/
theorem byteAt_rotl32
    (word : UInt32) (places : Nat) {lane : Nat} (small : lane < 4) :
    byteAt (rotl32 word (8 * (places % 4))).toNat lane =
      byteAt word.toNat ((lane + 4 - places % 4) % 4) := by
  apply UInt8.toNat_inj.mp
  apply Nat.eq_of_testBit_eq
  intro bit
  rw [testBit_byteAt, testBit_byteAt]
  by_cases inside : bit < 8
  · rw [testBit_rotl32 word _ (by omega)]
    congr 2
    omega
  · rw [decide_eq_false inside, Bool.false_and, Bool.false_and]

/-! ## The laws -/

/-- The checksum of two parts. -/
theorem computeChecksum_append (first second : List UInt8) :
    computeChecksum (first ++ second) =
      computeChecksum first ^^^
        rotl32 (computeChecksum second) (8 * (first.length % 4)) := by
  apply word_ext
  intro lane small
  rw [UInt32.toNat_xor, byteAt_xor, byteAt_rotl32 _ _ small,
    byteAt_computeChecksum, byteAt_computeChecksum,
    byteAt_computeChecksum, laneXor_append, Nat.zero_add]
  congr 1
  apply laneXor_shift
  intro offset
  omega

theorem computeChecksum_eq_iff (left right : List UInt8) :
    computeChecksum left = computeChecksum right ↔
      ∀ lane < 4, laneXor 4 lane 0 left = laneXor 4 lane 0 right := by
  constructor
  · intro same lane _
    rw [← byteAt_computeChecksum, same, byteAt_computeChecksum]
  · intro same
    apply word_ext
    intro lane small
    rw [byteAt_computeChecksum, byteAt_computeChecksum, same lane small]

/-- A word is the checksum of its encoding. -/
theorem computeChecksum_encode (value : UInt32) :
    computeChecksum (u32.encode value) = value := by
  apply word_ext
  intro lane small
  have byte : (u32.encode value)[lane]? = some (byteAt value.toNat lane) := by
    change (leBytes 4 value.toNat)[lane]? = _
    rw [leBytes_eq_map, List.getElem?_map, List.getElem?_range small,
      Option.map_some]
  rw [byteAt_computeChecksum, ← Option.some_inj,
    laneXor_word (Nat.zero_mod 4) (u32.encode_length value) small, byte]

/-- The test of the parser as a checksum of the whole frame. -/
theorem computeChecksum_eq_iff_encode
    {data : List UInt8} (words : data.length % 4 = 0) (value : UInt32) :
    computeChecksum data = value ↔
      computeChecksum (data ++ u32.encode value) = 0 := by
  have unmoved (word : UInt32) : rotl32 word 0 = word := by
    apply word_ext
    intro lane small
    have moved := byteAt_rotl32 word 0 small
    rwa [Nat.zero_mod, Nat.mul_zero, Nat.sub_zero, Nat.add_mod_right,
      Nat.mod_eq_of_lt small] at moved
  rw [computeChecksum_append, computeChecksum_encode, words, unmoved,
    UInt32.xor_eq_zero_iff]

theorem computeChecksum_eq_iff_differences
    {left right : List UInt8} (sameLength : left.length = right.length) :
    computeChecksum left = computeChecksum right ↔
      ∀ lane < 4,
        laneXor 4 lane 0 (List.zipWith (· ^^^ ·) left right) = 0 := by
  rw [computeChecksum_eq_iff]
  apply forall₂_congr
  intro lane _
  rw [laneXor_zipWith 0 sameLength, UInt8.xor_eq_zero_iff]

/-- The laws of the checksum: for two parts, for a frame of whole words with
its own checksum behind it, and for two strings of one length. -/
theorem computeChecksum_algebra :
    (∀ first second : List UInt8,
        computeChecksum (first ++ second) =
          computeChecksum first ^^^
            rotl32 (computeChecksum second) (8 * (first.length % 4))) ∧
      (∀ (data : List UInt8) (value : UInt32), data.length % 4 = 0 →
        (computeChecksum data = value ↔
          computeChecksum (data ++ u32.encode value) = 0)) ∧
      ∀ left right : List UInt8, left.length = right.length →
        (computeChecksum left = computeChecksum right ↔
          ∀ lane < 4,
            laneXor 4 lane 0 (List.zipWith (· ^^^ ·) left right) = 0) := by
  refine ⟨computeChecksum_append, ?_, ?_⟩
  · intro data value words
    exact computeChecksum_eq_iff_encode words value
  · intro left right sameLength
    exact computeChecksum_eq_iff_differences sameLength

/-- Two bytes at a distance of four that change places, and a word behind which
its own checksum stands. -/
theorem computeChecksum_algebra_swapped :
    computeChecksum [1, 2, 3, 4, 5] = computeChecksum [5, 2, 3, 4, 1] ∧
      computeChecksum ([1, 2, 3, 4] ++ u32.encode 0x04030201) = 0 := by
  obtain ⟨_, frame, differences⟩ := computeChecksum_algebra
  constructor
  · exact (differences [1, 2, 3, 4, 5] [5, 2, 3, 4, 1] rfl).mpr (by decide)
  · exact (frame [1, 2, 3, 4] 0x04030201 rfl).mp (by decide)

end MarketDataHandler
