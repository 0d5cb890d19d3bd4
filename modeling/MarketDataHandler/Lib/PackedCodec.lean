import Mathlib.Data.Nat.Digits.Defs
import Mathlib.Data.Nat.Digits.Lemmas
import Mathlib.Logic.Equiv.Defs

/-!
# Packed little-endian codecs

A packed record is the concatenation of fixed-width words, least significant
byte first.  A `PackedCodec` carries the width, the two translations and the
proof that reading undoes writing whatever bytes follow; codecs are combined
field by field with `pair` and renamed to a record type with `along`.
-/

namespace PackedCodec.Words

/-- The `width` little-endian bytes of a natural number. -/
def leBytes : Nat → Nat → List UInt8
  | 0, _ => []
  | width + 1, value => UInt8.ofNat value :: leBytes width (value / 256)

/-- The natural number with the given little-endian bytes. -/
def leValue (bytes : List UInt8) : Nat :=
  Nat.ofDigits 256 (bytes.map UInt8.toNat)

@[simp]
theorem leBytes_length (width value : Nat) :
    (leBytes width value).length = width := by
  induction width generalizing value with
  | zero =>
      rfl
  | succ width inductionHypothesis =>
      simp [leBytes, inductionHypothesis]

@[simp]
theorem leValue_nil : leValue [] = 0 :=
  rfl

@[simp]
theorem leValue_cons (byte : UInt8) (rest : List UInt8) :
    leValue (byte :: rest) = byte.toNat + 256 * leValue rest := by
  simp [leValue, Nat.ofDigits_cons]

/-- Reading back the bytes of a number keeps exactly the bits that fit. -/
theorem leValue_leBytes (width value : Nat) :
    leValue (leBytes width value) = value % 256 ^ width := by
  induction width generalizing value with
  | zero =>
      simp [leBytes, Nat.mod_one]
  | succ width inductionHypothesis =>
      rw [leBytes, leValue_cons, inductionHypothesis, pow_succ',
        Nat.mod_mul, UInt8.toNat_ofNat']

/-- Every byte list is the encoding of its own value. -/
theorem leBytes_leValue (bytes : List UInt8) :
    leBytes bytes.length (leValue bytes) = bytes := by
  induction bytes with
  | nil =>
      rfl
  | cons byte rest inductionHypothesis =>
      have small : byte.toNat < 256 := byte.toNat_lt
      rw [List.length_cons, leBytes, leValue_cons]
      have quotient :
          (byte.toNat + 256 * leValue rest) / 256 = leValue rest := by
        omega
      have head :
          UInt8.ofNat (byte.toNat + 256 * leValue rest) = byte := by
        apply UInt8.toNat_inj.mp
        rw [UInt8.toNat_ofNat']
        omega
      rw [quotient, head, inductionHypothesis]

theorem leValue_lt (bytes : List UInt8) :
    leValue bytes < 256 ^ bytes.length := by
  have bound :
      Nat.ofDigits 256 (bytes.map UInt8.toNat) <
        256 ^ (bytes.map UInt8.toNat).length := by
    apply Nat.ofDigits_lt_base_pow_length (by decide)
    intro digit member
    obtain ⟨byte, _, rfl⟩ := List.mem_map.mp member
    exact byte.toNat_lt
  simpa [leValue] using bound

/-- Byte number `index` of a natural number. -/
def byteAt (value index : Nat) : UInt8 :=
  UInt8.ofNat (value / 256 ^ index)

theorem leBytes_eq_map (width value : Nat) :
    leBytes width value = (List.range width).map (byteAt value) := by
  induction width generalizing value with
  | zero =>
      rfl
  | succ width inductionHypothesis =>
      rw [leBytes, inductionHypothesis, List.range_succ_eq_map,
        List.map_cons, List.map_map]
      congr 1
      · rw [byteAt, pow_zero, Nat.div_one]
      · apply List.map_congr_left
        intro index _
        rw [Function.comp_apply, byteAt, byteAt, Nat.div_div_eq_div_mul,
          Nat.succ_eq_add_one, pow_succ']

theorem byteAt_xor (left right index : Nat) :
    byteAt (left ^^^ right) index =
      byteAt left index ^^^ byteAt right index := by
  have power : (256 : Nat) ^ index = 2 ^ (8 * index) :=
    (pow_mul 2 8 index).symm
  rw [byteAt, byteAt, byteAt, power, Nat.xor_div_two_pow,
    UInt8.ofNat_xor]

/-- A byte moved up by whole bytes is found at its new place only. -/
theorem byteAt_mul_pow (byte : UInt8) (place index : Nat) :
    byteAt (byte.toNat * 256 ^ place) index =
      if place = index then byte else 0 := by
  have small : byte.toNat < 256 := byte.toNat_lt
  rw [byteAt]
  rcases Nat.lt_trichotomy place index with below | same | above
  · obtain ⟨extra, rfl⟩ : ∃ extra, index = place + (extra + 1) :=
      ⟨index - place - 1, by omega⟩
    have gone :
        byte.toNat * 256 ^ place / 256 ^ (place + (extra + 1)) = 0 := by
      rw [pow_add, ← Nat.div_div_eq_div_mul,
        Nat.mul_div_cancel _ (Nat.pow_pos (by decide))]
      apply Nat.div_eq_of_lt
      calc
        byte.toNat < 256 := small
        _ = 256 ^ 1 := rfl
        _ ≤ 256 ^ (extra + 1) :=
          Nat.pow_le_pow_right (by decide) (by omega)
    rw [gone, if_neg (by omega)]
    rfl
  · subst same
    rw [Nat.mul_div_cancel _ (Nat.pow_pos (by decide)), if_pos rfl,
      UInt8.ofNat_toNat]
  · obtain ⟨extra, rfl⟩ : ∃ extra, place = index + (extra + 1) :=
      ⟨place - index - 1, by omega⟩
    have whole :
        byte.toNat * 256 ^ (index + (extra + 1)) / 256 ^ index =
          256 * (byte.toNat * 256 ^ extra) := by
      rw [pow_add, Nat.mul_left_comm,
        Nat.mul_div_cancel_left _ (Nat.pow_pos (by decide)), pow_succ']
      exact Nat.mul_left_comm _ _ _
    rw [whole, if_neg (by omega)]
    apply UInt8.toNat_inj.mp
    rw [UInt8.toNat_ofNat', UInt8.toNat_zero]
    omega

end PackedCodec.Words

/-- A fixed-width byte encoding whose reader undoes its writer, whatever bytes
come after the encoded value. -/
structure PackedCodec (α : Type*) where
  size : Nat
  encode : α → List UInt8
  decode : List UInt8 → α
  encode_length : ∀ value, (encode value).length = size
  decode_encode_append :
    ∀ value suffix, decode (encode value ++ suffix) = value

namespace PackedCodec

open Words

variable {α β : Type*}

theorem decode_encode (codec : PackedCodec α) (value : α) :
    codec.decode (codec.encode value) = value := by
  simpa using codec.decode_encode_append value []

/-- Little-endian words of any type that embeds into the naturals below
`256 ^ width`. -/
def word
    (width : Nat) (toNat : α → Nat) (ofNat : Nat → α)
    (small : ∀ value, toNat value < 256 ^ width)
    (recovers : ∀ value, ofNat (toNat value) = value) :
    PackedCodec α where
  size := width
  encode value := leBytes width (toNat value)
  decode bytes := ofNat (leValue (bytes.take width))
  encode_length value := leBytes_length width (toNat value)
  decode_encode_append value suffix := by
    have whole :
        (leBytes width (toNat value) ++ suffix).take width =
          leBytes width (toNat value) :=
      List.take_left' (leBytes_length width (toNat value))
    rw [whole, leValue_leBytes, Nat.mod_eq_of_lt (small value),
      recovers]

def u16 : PackedCodec UInt16 :=
  word 2 UInt16.toNat UInt16.ofNat UInt16.toNat_lt
    fun _ => UInt16.ofNat_toNat

def u32 : PackedCodec UInt32 :=
  word 4 UInt32.toNat UInt32.ofNat UInt32.toNat_lt
    fun _ => UInt32.ofNat_toNat

def u64 : PackedCodec UInt64 :=
  word 8 UInt64.toNat UInt64.ofNat UInt64.toNat_lt
    fun _ => UInt64.ofNat_toNat

/-- Two packed fields in a row. -/
def pair (first : PackedCodec α) (second : PackedCodec β) :
    PackedCodec (α × β) where
  size := first.size + second.size
  encode value := first.encode value.1 ++ second.encode value.2
  decode bytes :=
    (first.decode bytes, second.decode (bytes.drop first.size))
  encode_length value := by
    rw [List.length_append, first.encode_length, second.encode_length]
  decode_encode_append value suffix := by
    have behind :
        (first.encode value.1 ++
            (second.encode value.2 ++ suffix)).drop first.size =
          second.encode value.2 ++ suffix :=
      List.drop_left' (first.encode_length value.1)
    rw [List.append_assoc, first.decode_encode_append, behind,
      second.decode_encode_append]

/-- Read and write a record through an equivalent tuple of its fields. -/
def along (codec : PackedCodec α) (fields : β ≃ α) :
    PackedCodec β where
  size := codec.size
  encode value := codec.encode (fields value)
  decode bytes := fields.symm (codec.decode bytes)
  encode_length value := codec.encode_length (fields value)
  decode_encode_append value suffix := by
    rw [codec.decode_encode_append, Equiv.symm_apply_apply]

/-! ## Codecs that every byte string belongs to -/

/-- Writing undoes reading: every byte string of the codec's size is the
encoding of some value. -/
def Exact (codec : PackedCodec α) : Prop :=
  ∀ bytes, bytes.length = codec.size →
    codec.encode (codec.decode bytes) = bytes

/-- Only the bytes in front matter to the reader. -/
theorem Exact.encode_decode_take
    {codec : PackedCodec α} (isExact : codec.Exact) {bytes : List UInt8}
    (long : codec.size ≤ bytes.length) :
    codec.encode (codec.decode bytes) = bytes.take codec.size := by
  have front :=
    isExact (bytes.take codec.size) (List.length_take_of_le long)
  have value :
      codec.decode bytes = codec.decode (bytes.take codec.size) := by
    calc
      codec.decode bytes
          = codec.decode
              (bytes.take codec.size ++ bytes.drop codec.size) := by
            rw [List.take_append_drop]
      _ = codec.decode
            (codec.encode (codec.decode (bytes.take codec.size)) ++
              bytes.drop codec.size) := by
            rw [front]
      _ = codec.decode (bytes.take codec.size) :=
            codec.decode_encode_append _ _
  rw [value, front]

theorem exact_word
    {width : Nat} {toNat : α → Nat} {ofNat : Nat → α}
    {small : ∀ value, toNat value < 256 ^ width}
    {recovers : ∀ value, ofNat (toNat value) = value}
    (fits : ∀ number, number < 256 ^ width → toNat (ofNat number) = number) :
    (word width toNat ofNat small recovers).Exact := by
  intro bytes sized
  change bytes.length = width at sized
  change leBytes width (toNat (ofNat (leValue (bytes.take width)))) = bytes
  rw [List.take_of_length_le (Nat.le_of_eq sized)]
  have bound := leValue_lt bytes
  rw [sized] at bound
  rw [fits _ bound, ← sized, leBytes_leValue]

theorem exact_u16 : u16.Exact :=
  exact_word fun _ small => UInt16.toNat_ofNat_of_lt' small

theorem exact_u32 : u32.Exact :=
  exact_word fun _ small => UInt32.toNat_ofNat_of_lt' small

theorem exact_u64 : u64.Exact :=
  exact_word fun _ small => UInt64.toNat_ofNat_of_lt' small

theorem Exact.pair
    {first : PackedCodec α} {second : PackedCodec β}
    (firstExact : first.Exact) (secondExact : second.Exact) :
    (first.pair second).Exact := by
  intro bytes sized
  change bytes.length = first.size + second.size at sized
  have front : first.size ≤ bytes.length := by omega
  have back : (bytes.drop first.size).length = second.size := by
    rw [List.length_drop]
    omega
  change
    first.encode (first.decode bytes) ++
        second.encode (second.decode (bytes.drop first.size)) =
      bytes
  rw [firstExact.encode_decode_take front, secondExact _ back,
    List.take_append_drop]

theorem Exact.along
    {codec : PackedCodec α} (isExact : codec.Exact) (fields : β ≃ α) :
    (codec.along fields).Exact := by
  intro bytes sized
  change codec.encode (fields (fields.symm (codec.decode bytes))) = bytes
  rw [Equiv.apply_symm_apply, isExact bytes sized]

/-- A four-byte string reads as `value` exactly when it is the encoding of
`value`. -/
theorem u32_decode_eq_iff
    {bytes : List UInt8} (four : bytes.length = 4) (value : UInt32) :
    u32.decode bytes = value ↔ bytes = u32.encode value := by
  constructor
  · intro reads
    have whole : bytes.take 4 = bytes := List.take_of_length_le (by omega)
    have small : leValue bytes < 2 ^ 32 := by
      have bound := leValue_lt bytes
      rw [four] at bound
      exact bound
    have natural : value.toNat = leValue bytes := by
      rw [← reads]
      change (UInt32.ofNat (leValue (bytes.take 4))).toNat = leValue bytes
      rw [whole, UInt32.toNat_ofNat', Nat.mod_eq_of_lt small]
    change bytes = leBytes 4 value.toNat
    rw [natural, ← four, leBytes_leValue]
  · rintro rfl
    exact u32.decode_encode value

end PackedCodec
