import Mathlib.Algebra.BigOperators.Group.Finset.Piecewise
import Mathlib.Data.Multiset.MapFold

/-!
# Threads over a shared memory

A thread has a local state; an atomic step of it reads and writes the shared
state and its own local state, and may be given an input: the call that starts
next, or whether a weak compare-exchange fails spuriously.  A run is a list of
moves, each of which names the thread that takes its next step.

`run_invariant` is the rule for invariants of such runs, with a guard on the
moves.  `Ledger` is the rule for shared cells that are updated by commuting
operations: whatever the schedule, the updates that have been performed and
those that the threads still have to perform add up to all of them.
-/

namespace Interleaving

/-! ## Weak compare-exchange -/

/-- The new value of the cell, and on failure the value found in it. -/
def compareExchangeWeak {α : Type*} [DecidableEq α]
    (cell expected desired : α) (spurious : Bool) : α × Option α :=
  if cell = expected ∧ spurious = false then
    (desired, none)
  else
    (cell, some cell)

theorem compareExchangeWeak_cases {α : Type*} [DecidableEq α]
    (cell expected desired : α) (spurious : Bool) :
    (cell = expected ∧ spurious = false ∧
        compareExchangeWeak cell expected desired spurious =
          (desired, none)) ∨
      compareExchangeWeak cell expected desired spurious =
        (cell, some cell) := by
  rw [compareExchangeWeak]
  split
  · rename_i succeeds
    exact Or.inl ⟨succeeds.1, succeeds.2, rfl⟩
  · exact Or.inr rfl

/-! ## Runs -/

structure Config (τ σ ℓ : Type*) where
  shared : σ
  locals : τ → ℓ

variable {τ σ ℓ ι : Type*} [DecidableEq τ]

/-- A thread leaves a new shared state and a new local state behind. -/
def Config.after (config : Config τ σ ℓ) (thread : τ) (result : σ × ℓ) :
    Config τ σ ℓ where
  shared := result.1
  locals := Function.update config.locals thread result.2

@[simp]
theorem Config.after_self
    (config : Config τ σ ℓ) (thread : τ) (result : σ × ℓ) :
    (config.after thread result).locals thread = result.2 :=
  Function.update_self _ _ _

theorem Config.after_other
    (config : Config τ σ ℓ) {thread other : τ}
    (different : other ≠ thread) (result : σ × ℓ) :
    (config.after thread result).locals other = config.locals other :=
  Function.update_of_ne different _ _

def step (atomic : ι → σ → ℓ → σ × ℓ) (config : Config τ σ ℓ)
    (move : τ × ι) : Config τ σ ℓ :=
  config.after move.1
    (atomic move.2 config.shared (config.locals move.1))

def run (atomic : ι → σ → ℓ → σ × ℓ) (config : Config τ σ ℓ)
    (schedule : List (τ × ι)) : Config τ σ ℓ :=
  schedule.foldl (step atomic) config

variable (atomic : ι → σ → ℓ → σ × ℓ)

/-- Every move meets the guard in the state in which it is made. -/
def Guarded (guard : Config τ σ ℓ → τ × ι → Prop) :
    Config τ σ ℓ → List (τ × ι) → Prop
  | _, [] => True
  | config, move :: schedule =>
      guard config move ∧ Guarded guard (step atomic config move) schedule

instance decidableGuarded (guard : Config τ σ ℓ → τ × ι → Prop)
    [∀ config move, Decidable (guard config move)] :
    (config : Config τ σ ℓ) → (schedule : List (τ × ι)) →
      Decidable (Guarded atomic guard config schedule)
  | _, [] => isTrue trivial
  | config, move :: schedule =>
      have :=
        decidableGuarded guard (step atomic config move) schedule
      inferInstanceAs (Decidable (_ ∧ _))

/-- What holds at the start and is preserved by every guarded move holds at
the end of every guarded run. -/
theorem run_invariant
    (invariant : Config τ σ ℓ → Prop)
    {guard : Config τ σ ℓ → τ × ι → Prop}
    (preserved :
      ∀ config move,
        guard config move →
        invariant config →
          invariant (step atomic config move))
    {config : Config τ σ ℓ} {schedule : List (τ × ι)}
    (initially : invariant config)
    (guarded : Guarded atomic guard config schedule) :
    invariant (run atomic config schedule) := by
  induction schedule generalizing config with
  | nil =>
      exact initially
  | cons move schedule inductionHypothesis =>
      obtain ⟨now, later⟩ := guarded
      exact inductionHypothesis (preserved config move now initially) later

/-! ## Commuting updates of a shared cell -/

section Ledger

variable [Fintype τ] {α β : Type*}
variable (perform : α → β → α) [RightCommutative perform]
variable (cell : σ → α) (pending : ℓ → Multiset β)

/-- The cell holds the updates performed so far, and together with those that
the threads still have to perform these are all. -/
def Ledger (start : α) (total : Multiset β) (config : Config τ σ ℓ) :
    Prop :=
  ∃ done : Multiset β,
    done + ∑ thread, pending (config.locals thread) = total ∧
      cell config.shared = done.foldl perform start

/-- A step of one thread performs none or one of its updates. -/
def PerformsAtMostOne : Prop :=
  ∀ input shared own,
    (cell (atomic input shared own).1 = cell shared ∧
        pending (atomic input shared own).2 = pending own) ∨
      ∃ update,
        pending own = update ::ₘ pending (atomic input shared own).2 ∧
          cell (atomic input shared own).1 =
            perform (cell shared) update

theorem sum_pending_update
    (locals : τ → ℓ) (thread : τ) (own : ℓ) :
    pending (locals thread) +
        ∑ other, pending (Function.update locals thread own other) =
      pending own + ∑ other, pending (locals other) := by
  have split (after : τ → ℓ) :
      ∑ other, pending (after other) =
        pending (after thread) +
          ∑ other ∈ Finset.univ.erase thread, pending (after other) :=
    (Finset.add_sum_erase _ _ (Finset.mem_univ thread)).symm
  have others :
      ∑ other ∈ Finset.univ.erase thread,
          pending (Function.update locals thread own other) =
        ∑ other ∈ Finset.univ.erase thread, pending (locals other) := by
    apply Finset.sum_congr rfl
    intro other member
    rw [Function.update_of_ne (Finset.ne_of_mem_erase member)]
  rw [split locals, split (Function.update locals thread own), others,
    Function.update_self]
  exact add_left_comm _ _ _

variable {atomic perform cell pending}

theorem Ledger.step
    (atMostOne : PerformsAtMostOne atomic perform cell pending)
    {start : α} {total : Multiset β} {config : Config τ σ ℓ}
    (ledger : Ledger perform cell pending start total config)
    (move : τ × ι) :
    Ledger perform cell pending start total
      (Interleaving.step atomic config move) := by
  obtain ⟨done, balance, value⟩ := ledger
  obtain ⟨thread, input⟩ := move
  have moved :=
    sum_pending_update pending config.locals thread
      (atomic input config.shared (config.locals thread)).2
  rcases atMostOne input config.shared (config.locals thread) with
    ⟨same, kept⟩ | ⟨update, taken, performed⟩
  · refine ⟨done, ?_, ?_⟩
    · rw [kept] at moved
      rw [← balance]
      exact congrArg (done + ·) (add_left_cancel moved)
    · exact same.trans value
  · refine ⟨update ::ₘ done, ?_, ?_⟩
    · rw [taken, Multiset.cons_add, ← Multiset.add_cons] at moved
      rw [Multiset.cons_add, ← Multiset.add_cons, ← balance]
      exact congrArg (done + ·) (add_left_cancel moved)
    · rw [← Multiset.singleton_add, add_comm, Multiset.foldl_add,
        ← value]
      exact performed

theorem Ledger.run
    (atMostOne : PerformsAtMostOne atomic perform cell pending)
    {start : α} {total : Multiset β} {config : Config τ σ ℓ}
    (ledger : Ledger perform cell pending start total config)
    (schedule : List (τ × ι)) :
    Ledger perform cell pending start total
      (Interleaving.run atomic config schedule) := by
  induction schedule generalizing config with
  | nil =>
      exact ledger
  | cons move schedule inductionHypothesis =>
      exact inductionHypothesis (ledger.step atMostOne move)

omit [DecidableEq τ] in
/-- Nothing has been performed yet. -/
theorem Ledger.initially {start : α} {config : Config τ σ ℓ}
    (initial : cell config.shared = start) :
    Ledger perform cell pending start
      (∑ thread, pending (config.locals thread)) config :=
  ⟨0, Multiset.zero_add _, initial⟩

omit [DecidableEq τ] in
/-- Once no thread has anything left to perform, the cell holds all
updates. -/
theorem Ledger.finished
    {start : α} {total : Multiset β} {config : Config τ σ ℓ}
    (ledger : Ledger perform cell pending start total config)
    (idle : ∀ thread, pending (config.locals thread) = 0) :
    cell config.shared = total.foldl perform start := by
  obtain ⟨done, balance, value⟩ := ledger
  have nothing : ∑ thread, pending (config.locals thread) = 0 :=
    Finset.sum_eq_zero fun thread _ => idle thread
  rw [nothing, Multiset.add_zero] at balance
  rw [value, balance]

end Ledger

end Interleaving
