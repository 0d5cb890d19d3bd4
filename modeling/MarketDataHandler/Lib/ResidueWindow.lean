import Mathlib.Data.Nat.ModEq

/-!
# Residues of consecutive numbers

Which residues, and which pairs of residues, occur among consecutive numbers.
-/

namespace ResidueWindow

/-- Every residue occurs among as many consecutive numbers as the modulus. -/
theorem exists_residue
    {modulus residue : Nat} (small : residue < modulus) (start : Nat) :
    ∃ offset < modulus, (start + offset) % modulus = residue := by
  have positive : 0 < modulus := Nat.zero_lt_of_lt small
  refine ⟨(residue + (modulus - start % modulus)) % modulus,
    Nat.mod_lt _ positive, ?_⟩
  have below : start % modulus < modulus := Nat.mod_lt start positive
  calc
    (start + (residue + (modulus - start % modulus)) % modulus) % modulus
        = (start % modulus +
            (residue + (modulus - start % modulus))) % modulus := by
      rw [Nat.add_mod_mod, Nat.mod_add_mod]
    _ = (residue + modulus) % modulus := by
      congr 1
      omega
    _ = residue := by
      rw [Nat.add_mod_right, Nat.mod_eq_of_lt small]

/-- Two residues that agree modulo the common divisor of their moduli occur
together among as many consecutive numbers as the product of the moduli. -/
theorem exists_residues
    {first second a b : Nat} (firstSmall : a < first)
    (secondSmall : b < second)
    (compatible : a ≡ b [MOD Nat.gcd first second]) (start : Nat) :
    ∃ offset < first * second,
      (start + offset) % first = a ∧ (start + offset) % second = b := by
  obtain ⟨common, isFirst, isSecond⟩ := Nat.chineseRemainder' compatible
  have positive : 0 < first * second :=
    Nat.mul_pos (Nat.zero_lt_of_lt firstSmall)
      (Nat.zero_lt_of_lt secondSmall)
  obtain ⟨offset, inside, same⟩ :=
    exists_residue (Nat.mod_lt common positive) start
  have congruent : start + offset ≡ common [MOD first * second] := same
  refine ⟨offset, inside, ?_, ?_⟩
  · have residue :=
      (congruent.of_dvd (Nat.dvd_mul_right first second)).trans isFirst
    rwa [Nat.ModEq, Nat.mod_eq_of_lt firstSmall] at residue
  · have residue :=
      (congruent.of_dvd (Nat.dvd_mul_left second first)).trans isSecond
    rwa [Nat.ModEq, Nat.mod_eq_of_lt secondSmall] at residue

end ResidueWindow
