import Mathlib.Data.List.Basic

/-!
# Runs of step functions with output

A step function answers every input with a new state and a list of outputs.
`Mealy.run` chains the steps.  `Mealy.Guarded` restricts what may happen in
which state, and `Mealy.run_invariant` is the induction from which facts about
whole guarded runs are derived.
-/

namespace Mealy

variable {σ ι ω : Type*}

/-- Process the inputs in order and collect the outputs. -/
def run (step : σ → ι → σ × List ω) : σ → List ι → σ × List ω
  | state, [] => (state, [])
  | state, input :: inputs =>
      let now := step state input
      let later := run step now.1 inputs
      (later.1, now.2 ++ later.2)

variable (step : σ → ι → σ × List ω)

@[simp]
theorem run_nil (state : σ) : run step state [] = (state, []) :=
  rfl

theorem run_cons (state : σ) (input : ι) (inputs : List ι) :
    run step state (input :: inputs) =
      ((run step (step state input).1 inputs).1,
        (step state input).2 ++
          (run step (step state input).1 inputs).2) :=
  rfl

theorem run_append (state : σ) (first second : List ι) :
    run step state (first ++ second) =
      ((run step (run step state first).1 second).1,
        (run step state first).2 ++
          (run step (run step state first).1 second).2) := by
  induction first generalizing state with
  | nil =>
      simp
  | cons input inputs inductionHypothesis =>
      rw [List.cons_append, run_cons, inductionHypothesis, run_cons]
      simp [List.append_assoc]

/-- A step that is a run of smaller steps can be taken apart. -/
theorem run_flatMap
    {κ : Type*} (parts : κ → List ι) (state : σ) (inputs : List κ) :
    run (fun state input => run step state (parts input)) state inputs =
      run step state (inputs.flatMap parts) := by
  induction inputs generalizing state with
  | nil =>
      rfl
  | cons input inputs inductionHypothesis =>
      rw [run_cons, inductionHypothesis, List.flatMap_cons, run_append]

/-- Every input meets the guard in the state in which it is processed. -/
def Guarded (guard : σ → ι → Prop) : σ → List ι → Prop
  | _, [] => True
  | state, input :: inputs =>
      guard state input ∧ Guarded guard (step state input).1 inputs

instance decidableGuarded
    (guard : σ → ι → Prop)
    [∀ state input, Decidable (guard state input)] :
    ∀ state inputs, Decidable (Guarded step guard state inputs)
  | _, [] => isTrue trivial
  | state, input :: inputs =>
      haveI := decidableGuarded guard (step state input).1 inputs
      inferInstanceAs (Decidable (_ ∧ _))

theorem guarded_of_forall
    {guard : σ → ι → Prop} {inputs : List ι}
    (always : ∀ input ∈ inputs, ∀ state, guard state input) (state : σ) :
    Guarded step guard state inputs := by
  induction inputs generalizing state with
  | nil =>
      exact trivial
  | cons input inputs inductionHypothesis =>
      refine ⟨always input List.mem_cons_self state, ?_⟩
      apply inductionHypothesis
      intro later member
      exact always later (List.mem_cons_of_mem input member)

theorem guarded_append
    {guard : σ → ι → Prop} (state : σ) (first second : List ι) :
    Guarded step guard state (first ++ second) ↔
      Guarded step guard state first ∧
        Guarded step guard (run step state first).1 second := by
  induction first generalizing state with
  | nil =>
      simp [Guarded]
  | cons input inputs inductionHypothesis =>
      rw [List.cons_append, Guarded, Guarded, inductionHypothesis,
        and_assoc]
      rfl

theorem guarded_and
    {first second : σ → ι → Prop} {state : σ} {inputs : List ι}
    (firstGuarded : Guarded step first state inputs)
    (secondGuarded : Guarded step second state inputs) :
    Guarded step
      (fun state input => first state input ∧ second state input) state
      inputs := by
  induction inputs generalizing state with
  | nil =>
      exact trivial
  | cons input inputs inductionHypothesis =>
      exact ⟨⟨firstGuarded.1, secondGuarded.1⟩,
        inductionHypothesis firstGuarded.2 secondGuarded.2⟩

/-- If the guard of a step guards its parts, a guarded run is guarded part by
part. -/
theorem guarded_flatMap
    {κ : Type*} (parts : κ → List ι)
    {whole : σ → κ → Prop} {guard : σ → ι → Prop}
    (refined :
      ∀ state input, whole state input →
        Guarded step guard state (parts input))
    {state : σ} {inputs : List κ}
    (guarded :
      Guarded (fun state input => run step state (parts input)) whole
        state inputs) :
    Guarded step guard state (inputs.flatMap parts) := by
  induction inputs generalizing state with
  | nil =>
      exact trivial
  | cons input inputs inductionHypothesis =>
      obtain ⟨now, later⟩ := guarded
      rw [List.flatMap_cons, guarded_append]
      exact ⟨refined state input now, inductionHypothesis later⟩

private theorem run_invariant_after
    {invariant : σ → List ω → Prop} {guard : σ → ι → Prop}
    (preserved :
      ∀ state past input,
        guard state input →
        invariant state past →
          invariant (step state input).1
            (past ++ (step state input).2))
    {state : σ} {past : List ω} {inputs : List ι}
    (initially : invariant state past)
    (guarded : Guarded step guard state inputs) :
    invariant (run step state inputs).1
      (past ++ (run step state inputs).2) := by
  induction inputs generalizing state past with
  | nil =>
      simpa using initially
  | cons input inputs inductionHypothesis =>
      obtain ⟨now, later⟩ := guarded
      have stepped := preserved state past input now initially
      have finished := inductionHypothesis stepped later
      rw [run_cons]
      simpa [List.append_assoc] using finished

/-- A relation between the state and everything output so far that every
guarded step preserves holds at the end of every guarded run. -/
theorem run_invariant
    (invariant : σ → List ω → Prop) {guard : σ → ι → Prop}
    (preserved :
      ∀ state past input,
        guard state input →
        invariant state past →
          invariant (step state input).1
            (past ++ (step state input).2))
    {state : σ} {inputs : List ι}
    (initially : invariant state [])
    (guarded : Guarded step guard state inputs) :
    invariant (run step state inputs).1 (run step state inputs).2 := by
  have finished :=
    run_invariant_after step preserved initially guarded
  rw [List.nil_append] at finished
  exact finished

/-! ## The parts of a trace -/

section Since

variable [DecidableEq ω]

/-- The outputs behind the latest occurrence of a mark, all of them if there
is none. -/
def since (mark : ω) (trace : List ω) : List ω :=
  trace.foldl
    (fun current output =>
      if output = mark then [] else current ++ [output]) []

@[simp]
theorem since_concat_mark (mark : ω) (trace : List ω) :
    since mark (trace ++ [mark]) = [] := by
  rw [since, List.foldl_concat, if_pos rfl]

theorem since_append
    {mark : ω} {outputs : List ω} (unmarked : mark ∉ outputs)
    (trace : List ω) :
    since mark (trace ++ outputs) = since mark trace ++ outputs := by
  rw [since, List.foldl_append]
  change outputs.foldl _ (since mark trace) = _
  generalize since mark trace = current
  induction outputs generalizing current with
  | nil =>
      exact (List.append_nil current).symm
  | cons output outputs inductionHypothesis =>
      obtain ⟨first, later⟩ := not_or.mp (List.mem_cons.not.mp unmarked)
      rw [List.foldl_cons, if_neg (Ne.symm first),
        inductionHypothesis later, List.append_assoc]
      rfl

/-- The parts of a trace behind each occurrence of a mark, and in front of the
first one if anything is there. -/
def parts (mark : ω) (trace : List ω) : List (List ω) :=
  trace.foldl
    (fun done output =>
      if output = mark then
        done ++ [[]]
      else
        done.dropLast ++ [done.getLastD [] ++ [output]]) []

theorem parts_concat_mark (mark : ω) (trace : List ω) :
    parts mark (trace ++ [mark]) = parts mark trace ++ [[]] := by
  rw [parts, List.foldl_concat, if_pos rfl]
  rfl

theorem parts_concat
    {mark output : ω} (unmarked : output ≠ mark) (trace : List ω) :
    parts mark (trace ++ [output]) =
      (parts mark trace).dropLast ++
        [(parts mark trace).getLastD [] ++ [output]] := by
  rw [parts, List.foldl_concat, if_neg unmarked]
  rfl

end Since

end Mealy
