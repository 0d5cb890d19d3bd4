import Mathlib.Data.List.Sort

/-!
# Order statistics of a list

The smallest entries of a list in order, found by counting.
-/

namespace OrderStatistics

variable {α : Type*} [LinearOrder α]

/-- The entry at a place of the sorted list, counted from one. -/
def kthSmallest (entries : List α) (rank : Nat) : Option α :=
  if rank = 0 then
    none
  else
    (entries.insertionSort (· ≤ ·))[rank - 1]?

/-- A property that passes to smaller entries. -/
def Downward (holds : α → Bool) : Prop :=
  ∀ smaller larger, smaller ≤ larger →
    holds larger = true → holds smaller = true

theorem downward_le (bound : α) :
    Downward fun entry => decide (entry ≤ bound) := by
  intro smaller larger ordered below
  simp only [decide_eq_true_eq] at below ⊢
  exact ordered.trans below

/-- In a sorted list the entries with such a property come first. -/
theorem sorted_getElem_iff
    {holds : α → Bool} (downward : Downward holds) {sorted : List α}
    (ordered : sorted.Pairwise (· ≤ ·)) {index : Nat} {entry : α}
    (found : sorted[index]? = some entry) :
    holds entry = true ↔ index < sorted.countP holds := by
  induction sorted generalizing index with
  | nil =>
      simp at found
  | cons head tail inductionHypothesis =>
      obtain ⟨least, rest⟩ := List.pairwise_cons.mp ordered
      by_cases first : holds head = true
      · rw [List.countP_cons_of_pos first]
        cases index with
        | zero =>
            have same : head = entry := by simpa using found
            subst entry
            simp [first]
        | succ index =>
            rw [List.getElem?_cons_succ] at found
            rw [inductionHypothesis rest found]
            omega
      · -- What is not below the property at the head never is again.
        have none_ : ∀ other ∈ head :: tail, ¬ holds other = true := by
          intro other member has
          rcases List.mem_cons.mp member with same | later
          · exact first (same ▸ has)
          · exact first (downward _ _ (least other later) has)
        have zero : (head :: tail).countP holds = 0 :=
          List.countP_eq_zero.mpr none_
        rw [zero]
        have member : entry ∈ head :: tail :=
          List.mem_of_getElem? found
        simp [none_ entry member]

/-- The entry of a rank has such a property exactly if at least that many
entries have it. -/
theorem kthSmallest_iff
    {holds : α → Bool} (downward : Downward holds) {entries : List α}
    {rank : Nat} {entry : α}
    (found : kthSmallest entries rank = some entry) :
    holds entry = true ↔ rank ≤ entries.countP holds := by
  rw [kthSmallest] at found
  split at found
  · cases found
  · rename_i positive
    have same :
        (entries.insertionSort (· ≤ ·)).countP holds =
          entries.countP holds :=
      (List.perm_insertionSort (· ≤ ·) entries).countP_eq holds
    rw [sorted_getElem_iff downward
      (List.pairwise_insertionSort (· ≤ ·) entries) found, same]
    omega

theorem exists_kthSmallest
    {entries : List α} {rank : Nat} (positive : 1 ≤ rank)
    (inside : rank ≤ entries.length) :
    ∃ entry, kthSmallest entries rank = some entry := by
  rw [kthSmallest, if_neg (by omega)]
  refine ⟨_, List.getElem?_eq_getElem ?_⟩
  rw [List.length_insertionSort]
  omega

theorem mem_of_kthSmallest
    {entries : List α} {rank : Nat} {entry : α}
    (found : kthSmallest entries rank = some entry) :
    entry ∈ entries := by
  rw [kthSmallest] at found
  split at found
  · cases found
  · exact (List.mem_insertionSort (· ≤ ·)).mp (List.mem_of_getElem? found)

/-- A smaller rank has a smaller entry. -/
theorem kthSmallest_mono
    {entries : List α} {lower higher : Nat} (ordered : lower ≤ higher)
    {low high : α} (lowFound : kthSmallest entries lower = some low)
    (highFound : kthSmallest entries higher = some high) :
    low ≤ high := by
  have reached :=
    (kthSmallest_iff (downward_le high) highFound).mp (by simp)
  have below :=
    (kthSmallest_iff (downward_le high) lowFound).mpr
      (Nat.le_trans ordered reached)
  simpa using below

/-- The first entry of a sorted list that is not below one of its entries is
that entry. -/
theorem find?_le_of_sorted
    {sorted : List α} (ordered : sorted.Pairwise (· < ·)) {bound : α}
    (member : bound ∈ sorted) :
    sorted.find? (fun entry => decide (bound ≤ entry)) = some bound := by
  rw [List.find?_eq_some_iff_append]
  obtain ⟨before, after, split⟩ := List.append_of_mem member
  refine ⟨by simp, before, after, split, ?_⟩
  intro earlier inFront
  rw [split] at ordered
  have below : earlier < bound :=
    (List.pairwise_append.mp ordered).2.2 earlier inFront bound
      List.mem_cons_self
  simpa using below

end OrderStatistics
