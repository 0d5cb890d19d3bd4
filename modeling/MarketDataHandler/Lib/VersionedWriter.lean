import Mathlib.Data.List.Basic
import Mathlib.Logic.Function.Iterate

/-!
# A single writer under a version counter

The writer increments a version word, performs the accesses of one update one
by one, and increments the word again.  Between two updates the word is where
it started modulo two and the data is that of a whole number of updates;
inside an update nothing is promised about the data.

`Quiescent` and `Updating` are these two phases.  `AtUpdate` says that one of
them holds, and the writer keeps it.  The number of increments is recorded
next to the word, since the word itself wraps.
-/

namespace VersionedWriter

variable {α ρ δ : Type*}

/-- What the writer does in one step. -/
inductive Op (α : Type*) where
  | bump
  | access (action : α)
  deriving DecidableEq, Repr

/-- The memory together with the writer's register and program. -/
structure State (α ρ δ : Type*) where
  version : UInt32
  bumps : Nat
  register : ρ
  data : δ
  pending : List (Op α)

/-- The steps of one update. -/
def updateOps (body : List α) : List (Op α) :=
  .bump :: (body.map Op.access ++ [.bump])

def program (updates : List (List α)) : List (Op α) :=
  updates.flatMap updateOps

def start (version : UInt32) (register : ρ) (data : δ)
    (updates : List (List α)) : State α ρ δ where
  version := version
  bumps := 0
  register := register
  data := data
  pending := program updates

variable (perform : α → ρ × δ → ρ × δ)

def step (state : State α ρ δ) : State α ρ δ :=
  match state.pending with
  | [] => state
  | .bump :: pending =>
      { state with
        version := state.version + 1
        bumps := state.bumps + 1
        pending := pending }
  | .access action :: pending =>
      { state with
        register := (perform action (state.register, state.data)).1
        data := (perform action (state.register, state.data)).2
        pending := pending }

/-- One update performed without interruption. -/
def effect (body : List α) (cells : ρ × δ) : ρ × δ :=
  body.foldl (fun current action => perform action current) cells

/-- Successive updates performed without interruption. -/
def effects (updates : List (List α)) (cells : ρ × δ) : ρ × δ :=
  updates.foldl (fun current body => effect perform body current) cells

/-- The writer is between two updates. -/
structure Quiescent (updates : List (List α)) (cells : ρ × δ)
    (completed : Nat) (state : State α ρ δ) : Prop where
  bounded : completed ≤ updates.length
  bumps : state.bumps = 2 * completed
  pending : state.pending = program (updates.drop completed)
  cells :
    (state.register, state.data) =
      effects perform (updates.take completed) cells

/-- The writer is inside an update. -/
structure Updating (updates : List (List α)) (cells : ρ × δ)
    (completed : Nat) (rest : List α) (state : State α ρ δ) : Prop where
  bounded : completed < updates.length
  bumps : state.bumps = 2 * completed + 1
  pending :
    state.pending =
      rest.map Op.access ++
        .bump :: program (updates.drop (completed + 1))
  cells :
    effect perform rest (state.register, state.data) =
      effects perform (updates.take (completed + 1)) cells

/-- One of the two phases. -/
def AtUpdate (updates : List (List α)) (cells : ρ × δ)
    (state : State α ρ δ) : Prop :=
  ∃ completed,
    Quiescent perform updates cells completed state ∨
      ∃ rest, Updating perform updates cells completed rest state

variable {perform}

theorem quiescent_start
    (version : UInt32) (register : ρ) (data : δ)
    (updates : List (List α)) :
    Quiescent perform updates (register, data) 0
      (start version register data updates) where
  bounded := Nat.zero_le _
  bumps := rfl
  pending := rfl
  cells := rfl

/-- A step from between two updates starts the next one, if there is one. -/
theorem Quiescent.step_cases
    {updates : List (List α)} {cells : ρ × δ} {completed : Nat}
    {state : State α ρ δ}
    (quiescent : Quiescent perform updates cells completed state) :
    step perform state = state ∨
      ((step perform state).bumps = state.bumps + 1 ∧
        ∃ rest,
          Updating perform updates cells completed rest
            (step perform state)) := by
  by_cases finished : completed = updates.length
  · left
    have nothing : state.pending = [] := by
      rw [quiescent.pending, finished, List.drop_length]
      rfl
    rw [step, nothing]
  · right
    have more : completed < updates.length := by
      have bounded := quiescent.bounded
      omega
    have pending :
        state.pending =
          .bump :: (updates[completed].map Op.access ++
            .bump :: program (updates.drop (completed + 1))) := by
      rw [quiescent.pending, List.drop_eq_getElem_cons more, program,
        List.flatMap_cons, updateOps, List.cons_append,
        List.append_assoc]
      rfl
    have stepEq :
        step perform state =
          { state with
            version := state.version + 1
            bumps := state.bumps + 1
            pending :=
              updates[completed].map Op.access ++
                .bump :: program (updates.drop (completed + 1)) } := by
      rw [step, pending]
    rw [stepEq]
    refine ⟨rfl, updates[completed], more, ?_, rfl, ?_⟩
    · change state.bumps + 1 = _
      rw [quiescent.bumps]
    · change effect perform _ (state.register, state.data) = _
      rw [quiescent.cells, List.take_succ_eq_append_getElem more,
        effects, effects, List.foldl_append]
      rfl

/-- A step from inside an update performs one access of it or ends it. -/
theorem Updating.step_cases
    {updates : List (List α)} {cells : ρ × δ} {completed : Nat}
    {rest : List α} {state : State α ρ δ}
    (updating : Updating perform updates cells completed rest state) :
    (∃ later,
        Updating perform updates cells completed later
          (step perform state)) ∨
      Quiescent perform updates cells (completed + 1)
        (step perform state) := by
  have pending := updating.pending
  cases rest with
  | nil =>
      right
      have stepEq :
          step perform state =
            { state with
              version := state.version + 1
              bumps := state.bumps + 1
              pending := program (updates.drop (completed + 1)) } := by
        rw [step, pending]
        rfl
      rw [stepEq]
      refine ⟨updating.bounded, ?_, rfl, updating.cells⟩
      change state.bumps + 1 = _
      rw [updating.bumps]
      omega
  | cons action rest =>
      left
      have stepEq :
          step perform state =
            { state with
              register :=
                (perform action (state.register, state.data)).1
              data := (perform action (state.register, state.data)).2
              pending :=
                rest.map Op.access ++
                  .bump :: program (updates.drop (completed + 1)) } := by
        rw [step, pending]
        rfl
      rw [stepEq]
      exact ⟨rest, updating.bounded, updating.bumps, rfl, updating.cells⟩

theorem AtUpdate.step
    {updates : List (List α)} {cells : ρ × δ} {state : State α ρ δ}
    (phase : AtUpdate perform updates cells state) :
    AtUpdate perform updates cells (step perform state) := by
  obtain ⟨completed, quiescent | ⟨rest, updating⟩⟩ := phase
  · rcases quiescent.step_cases with unchanged | ⟨_, updating⟩
    · rw [unchanged]
      exact ⟨completed, Or.inl quiescent⟩
    · exact ⟨completed, Or.inr updating⟩
  · rcases updating.step_cases with later | quiescent
    · exact ⟨completed, Or.inr later⟩
    · exact ⟨completed + 1, Or.inl quiescent⟩

/-- An even number of increments means that no update is in progress. -/
theorem AtUpdate.quiescent
    {updates : List (List α)} {cells : ρ × δ} {state : State α ρ δ}
    (phase : AtUpdate perform updates cells state)
    (even : state.bumps % 2 = 0) :
    Quiescent perform updates cells (state.bumps / 2) state := by
  obtain ⟨completed, quiescent | ⟨rest, updating⟩⟩ := phase
  · have half : state.bumps / 2 = completed := by
      rw [quiescent.bumps]
      omega
    rw [half]
    exact quiescent
  · have odd := updating.bumps
    omega

theorem bumps_le_step (state : State α ρ δ) :
    state.bumps ≤ (step perform state).bumps := by
  rw [step]
  split
  · exact Nat.le_refl _
  · exact Nat.le_succ _
  · exact Nat.le_refl _

/-- The version word is the number of increments behind its first value. -/
theorem version_step
    {first : UInt32} {state : State α ρ δ}
    (counted : state.version = first + UInt32.ofNat state.bumps) :
    (step perform state).version =
      first + UInt32.ofNat (step perform state).bumps := by
  rw [step]
  split
  · exact counted
  · change
      state.version + 1 = first + UInt32.ofNat (state.bumps + 1)
    rw [counted, UInt32.ofNat_add, UInt32.add_assoc]
    rfl
  · exact counted

/-! ## Any number of steps -/

/-- What an operation does to the register and the data. -/
def Op.effect (perform : α → ρ × δ → ρ × δ) (cells : ρ × δ) :
    Op α → ρ × δ
  | .bump => cells
  | .access action => perform action cells

variable (perform) in
theorem cells_iterate (state : State α ρ δ) (count : Nat) :
    (((step perform)^[count] state).register,
        ((step perform)^[count] state).data) =
      (state.pending.take count).foldl (Op.effect perform)
        (state.register, state.data) := by
  induction count generalizing state with
  | zero =>
      rfl
  | succ count inductionHypothesis =>
      rw [Function.iterate_succ_apply, inductionHypothesis, step]
      cases pending : state.pending with
      | nil =>
          simp [pending]
      | cons op later =>
          cases op <;> rfl

variable (perform) in
theorem bumps_iterate [DecidableEq α] (state : State α ρ δ)
    (count : Nat) :
    ((step perform)^[count] state).bumps =
      state.bumps + (state.pending.take count).count .bump := by
  induction count generalizing state with
  | zero =>
      rfl
  | succ count inductionHypothesis =>
      rw [Function.iterate_succ_apply, inductionHypothesis, step]
      cases pending : state.pending with
      | nil =>
          simp [pending]
      | cons op later =>
          cases op with
          | bump =>
              rw [List.take_succ_cons, List.count_cons_self]
              exact Nat.add_right_comm _ _ _
          | access action =>
              have other : Op.access action ≠ Op.bump := by
                intro same
                cases same
              rw [List.take_succ_cons, List.count_cons_of_ne other]

end VersionedWriter
