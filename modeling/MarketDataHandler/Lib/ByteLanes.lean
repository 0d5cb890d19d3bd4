import Mathlib.Data.List.Basic

/-!
# Exclusive-or lanes

Lane `j` of a byte string with a given period is the exclusive or of the bytes
at positions congruent to `j`.  A change confined to one period of consecutive
positions meets every lane at most once, so it shows in some lane.
-/

namespace ByteLanes

/-- Lane of a byte string whose first byte has position `index`. -/
def laneXor (period lane : Nat) : Nat → List UInt8 → UInt8
  | _, [] => 0
  | index, byte :: rest =>
      (if index % period = lane then byte else 0) ^^^
        laneXor period lane (index + 1) rest

variable {period lane : Nat}

theorem laneXor_append (index : Nat) (first second : List UInt8) :
    laneXor period lane index (first ++ second) =
      laneXor period lane index first ^^^
        laneXor period lane (index + first.length) second := by
  induction first generalizing index with
  | nil =>
      simp [laneXor]
  | cons byte rest inductionHypothesis =>
      simp only [List.cons_append, laneXor, inductionHypothesis,
        UInt8.xor_assoc, List.length_cons]
      rw [Nat.add_right_comm, Nat.add_assoc]

/-- Only the residue of the first position matters. -/
theorem laneXor_of_mod
    {first second : Nat} (same : first % period = second % period)
    (bytes : List UInt8) :
    laneXor period lane first bytes =
      laneXor period lane second bytes := by
  induction bytes generalizing first second with
  | nil =>
      rfl
  | cons byte rest inductionHypothesis =>
      have next : (first + 1) % period = (second + 1) % period := by
        rw [Nat.add_mod, same, ← Nat.add_mod]
      rw [laneXor, laneXor, same, inductionHypothesis next]

/-- A lane is the same wherever its positions are counted from. -/
theorem laneXor_shift
    {otherLane first second : Nat}
    (same :
      ∀ offset, (first + offset) % period = lane ↔
        (second + offset) % period = otherLane)
    (bytes : List UInt8) :
    laneXor period lane first bytes =
      laneXor period otherLane second bytes := by
  induction bytes generalizing first second with
  | nil =>
      rfl
  | cons byte rest inductionHypothesis =>
      have here := same 0
      have next (offset : Nat) :
          (first + 1 + offset) % period = lane ↔
            (second + 1 + offset) % period = otherLane := by
        rw [Nat.add_assoc, Nat.add_assoc, Nat.add_comm 1]
        exact same (offset + 1)
      rw [Nat.add_zero, Nat.add_zero] at here
      rw [laneXor, laneXor, inductionHypothesis next]
      simp only [here]

/-- The lanes of the differences of two byte strings. -/
theorem laneXor_zipWith
    (index : Nat) {left right : List UInt8}
    (sameLength : left.length = right.length) :
    laneXor period lane index (List.zipWith (· ^^^ ·) left right) =
      laneXor period lane index left ^^^
        laneXor period lane index right := by
  induction left generalizing index right with
  | nil =>
      rw [List.eq_nil_of_length_eq_zero sameLength.symm]
      exact UInt8.xor_self.symm
  | cons byte rest inductionHypothesis =>
      cases right with
      | nil =>
          simp at sameLength
      | cons other others =>
          rw [List.zipWith_cons_cons, laneXor,
            inductionHypothesis _ (by simpa using sameLength), laneXor,
            laneXor]
          by_cases inLane : index % period = lane
          · simp only [if_pos inLane]
            ac_rfl
          · simp only [if_neg inLane, UInt8.zero_xor]

theorem laneXor_congr
    {index : Nat} {left right : List UInt8}
    (sameLength : left.length = right.length)
    (agree :
      ∀ offset, (index + offset) % period = lane →
        left[offset]? = right[offset]?) :
    laneXor period lane index left =
      laneXor period lane index right := by
  induction left generalizing index right with
  | nil =>
      rw [List.eq_nil_of_length_eq_zero sameLength.symm]
  | cons byte rest inductionHypothesis =>
      cases right with
      | nil =>
          simp at sameLength
      | cons other others =>
          have tails :
              laneXor period lane (index + 1) rest =
                laneXor period lane (index + 1) others := by
            apply inductionHypothesis (by simpa using sameLength)
            intro offset inLane
            have shifted := agree (offset + 1) (by
              rw [← inLane]
              congr 1
              omega)
            simpa using shifted
          rw [laneXor, laneXor, tails]
          by_cases inLane : index % period = lane
          · have heads := agree 0 inLane
            simp only [List.getElem?_cons_zero, Option.some.injEq] at heads
            rw [heads]
          · rw [if_neg inLane, if_neg inLane]

private theorem laneXor_split
    {position : Nat} {bytes : List UInt8}
    (inside : position < bytes.length)
    (inLane : position % period = lane) :
    laneXor period lane 0 bytes =
      laneXor period lane 0 (bytes.take position) ^^^
        (bytes[position] ^^^
          laneXor period lane (position + 1)
            (bytes.drop (position + 1))) := by
  have parts :
      bytes =
        bytes.take position ++
          bytes[position] :: bytes.drop (position + 1) := by
    rw [← List.drop_eq_getElem_cons inside, List.take_append_drop]
  have front : (bytes.take position).length = position := by
    rw [List.length_take]
    omega
  conv_lhs => rw [parts]
  rw [laneXor_append, front, Nat.zero_add, laneXor, if_pos inLane]

private theorem eq_of_same_lane
    {start first second : Nat}
    (sameLane : first % period = second % period)
    (firstNear : start ≤ first ∧ first < start + period)
    (secondNear : start ≤ second ∧ second < start + period) :
    first = second := by
  rcases Nat.le_total first second with below | above
  · have distance := Nat.sub_mod_eq_zero_of_mod_eq sameLane.symm
    rw [Nat.mod_eq_of_lt (by omega)] at distance
    omega
  · have distance := Nat.sub_mod_eq_zero_of_mod_eq sameLane
    rw [Nat.mod_eq_of_lt (by omega)] at distance
    omega

/-- A change that is confined to one period of consecutive positions changes
some lane. -/
theorem exists_laneXor_ne_of_burst
    {start : Nat} {left right : List UInt8}
    (sameLength : left.length = right.length)
    (confined :
      ∀ position, position < start ∨ start + period ≤ position →
        left[position]? = right[position]?)
    (different : left ≠ right) :
    ∃ lane < period,
      laneXor period lane 0 left ≠ laneXor period lane 0 right := by
  have differs :
      ∃ position : Nat, left[position]? ≠ right[position]? := by
    by_contra nowhere
    push Not at nowhere
    exact different (List.ext_getElem? nowhere)
  obtain ⟨position, differs⟩ := differs
  have window : start ≤ position ∧ position < start + period := by
    by_contra outside
    exact differs (confined position (by omega))
  have inside : position < left.length := by
    by_contra beyond
    apply differs
    rw [List.getElem?_eq_none (by omega),
      List.getElem?_eq_none (by omega)]
  have otherInside : position < right.length := by omega
  have elsewhere :
      ∀ other, other % period = position % period →
        other ≠ position → left[other]? = right[other]? := by
    intro other sameLane distinct
    apply confined
    by_contra near
    exact distinct (eq_of_same_lane sameLane (by omega) window)
  have fronts :
      laneXor period (position % period) 0 (left.take position) =
        laneXor period (position % period) 0 (right.take position) := by
    apply laneXor_congr (by simp [sameLength])
    intro offset inLane
    rw [Nat.zero_add] at inLane
    rw [List.getElem?_take, List.getElem?_take]
    by_cases before : offset < position
    · rw [if_pos before, if_pos before]
      exact elsewhere offset inLane (by omega)
    · rw [if_neg before, if_neg before]
  have backs :
      laneXor period (position % period) (position + 1)
          (left.drop (position + 1)) =
        laneXor period (position % period) (position + 1)
          (right.drop (position + 1)) := by
    apply laneXor_congr (by simp [sameLength])
    intro offset inLane
    rw [List.getElem?_drop, List.getElem?_drop]
    exact elsewhere (position + 1 + offset) inLane (by omega)
  refine ⟨position % period, Nat.mod_lt _ (by omega), ?_⟩
  rw [laneXor_split inside rfl, laneXor_split otherInside rfl, fronts,
    backs]
  intro same
  rw [UInt8.xor_right_inj, UInt8.xor_left_inj] at same
  apply differs
  rw [List.getElem?_eq_getElem inside,
    List.getElem?_eq_getElem otherInside, same]

end ByteLanes
