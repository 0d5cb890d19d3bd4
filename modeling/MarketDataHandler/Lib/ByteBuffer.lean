import Mathlib.Data.List.Basic

/-!
# Bounds-checked byte buffers

A fixed block of bytes addressed from zero.  Its contents are never assumed to
be initialised, and every access is checked: an access that leaves the block
has no result, so a program that returns has stayed inside its buffers.
-/

/-- A block of `capacity` bytes with arbitrary contents. -/
structure ByteBuffer (capacity : Nat) where
  contents : Nat → UInt8

namespace ByteBuffer

variable {capacity source : Nat}

/-- The `count` bytes that start at `start`. -/
def slice (buffer : ByteBuffer capacity) (start count : Nat) :
    List UInt8 :=
  (List.range' start count).map buffer.contents

/-- Overwrite the bytes that start at `start`. -/
def write (buffer : ByteBuffer capacity) (start : Nat)
    (bytes : List UInt8) : ByteBuffer capacity where
  contents index :=
    if index < start then
      buffer.contents index
    else
      bytes.getD (index - start) (buffer.contents index)

/-- Checked read. -/
def load (buffer : ByteBuffer capacity) (start count : Nat) :
    Option (List UInt8) :=
  if start + count ≤ capacity then
    some (buffer.slice start count)
  else
    none

/-- Checked write. -/
def store (buffer : ByteBuffer capacity) (start : Nat)
    (bytes : List UInt8) : Option (ByteBuffer capacity) :=
  if start + bytes.length ≤ capacity then
    some (buffer.write start bytes)
  else
    none

/-- Checked block copy.  The source bytes are read before any is written, as
for overlapping blocks. -/
def copy (target : ByteBuffer capacity) (targetStart : Nat)
    (origin : ByteBuffer source) (originStart count : Nat) :
    Option (ByteBuffer capacity) := do
  let bytes ← origin.load originStart count
  target.store targetStart bytes

/-- The buffer that holds exactly the given bytes. -/
def ofList (bytes : List UInt8) : ByteBuffer bytes.length where
  contents index := bytes.getD index 0

@[simp]
theorem slice_length (buffer : ByteBuffer capacity) (start count : Nat) :
    (buffer.slice start count).length = count := by
  simp [slice]

@[simp]
theorem slice_zero (buffer : ByteBuffer capacity) (start : Nat) :
    buffer.slice start 0 = [] :=
  rfl

theorem slice_append (buffer : ByteBuffer capacity)
    (start first second : Nat) :
    buffer.slice start first ++ buffer.slice (start + first) second =
      buffer.slice start (first + second) := by
  unfold slice
  rw [← List.map_append, List.range'_append_1]

theorem slice_drop (buffer : ByteBuffer capacity)
    (start count skipped : Nat) :
    (buffer.slice start count).drop skipped =
      buffer.slice (start + skipped) (count - skipped) := by
  unfold slice
  rw [← List.map_drop, List.drop_range', Nat.mul_one]

theorem slice_take (buffer : ByteBuffer capacity)
    {start count taken : Nat} (enough : taken ≤ count) :
    (buffer.slice start count).take taken =
      buffer.slice start taken := by
  unfold slice
  rw [← List.map_take, List.take_range'_of_length_ge enough]

/-- Reading back what was written. -/
theorem slice_write_self (buffer : ByteBuffer capacity) (start : Nat)
    (bytes : List UInt8) :
    (buffer.write start bytes).slice start bytes.length = bytes := by
  apply List.ext_getElem (by simp)
  intro index inside _
  have notBefore : ¬ start + index < start := by omega
  have offset : start + index - start = index := by omega
  simp only [slice_length] at inside
  simp [slice, write, notBefore, offset, inside]

/-- Bytes in front of a write are kept. -/
theorem slice_write_before (buffer : ByteBuffer capacity)
    {start count target : Nat} (before : start + count ≤ target)
    (bytes : List UInt8) :
    (buffer.write target bytes).slice start count =
      buffer.slice start count := by
  unfold slice
  apply List.map_congr_left
  intro index member
  have bounds := List.mem_range'_1.mp member
  have inFront : index < target := by omega
  simp [write, inFront]

@[simp]
theorem slice_ofList (bytes : List UInt8) :
    (ofList bytes).slice 0 bytes.length = bytes := by
  apply List.ext_getElem (by simp)
  intro index inside _
  simp only [slice_length] at inside
  simp [slice, ofList, inside]

theorem load_eq_some (buffer : ByteBuffer capacity)
    {start count : Nat} (inside : start + count ≤ capacity) :
    buffer.load start count = some (buffer.slice start count) :=
  if_pos inside

theorem copy_eq_some (target : ByteBuffer capacity)
    (origin : ByteBuffer source)
    {targetStart originStart count : Nat}
    (targetInside : targetStart + count ≤ capacity)
    (originInside : originStart + count ≤ source) :
    target.copy targetStart origin originStart count =
      some (target.write targetStart (origin.slice originStart count)) := by
  unfold copy
  rw [load_eq_some origin originInside]
  simp [store, targetInside]

/-- A copy that asks for more than the origin holds has no result. -/
theorem copy_eq_none (target : ByteBuffer capacity)
    (origin : ByteBuffer source)
    (targetStart : Nat) {originStart count : Nat}
    (outside : source < originStart + count) :
    target.copy targetStart origin originStart count = none := by
  have refused : ¬ originStart + count ≤ source := by omega
  simp [copy, load, refused]

end ByteBuffer
