import MarketDataHandler.Lib.Mealy

/-!
# Incremental scanners

A scanner looks at the front of the unread input and either waits for more or
consumes a positive number of symbols.  A decision, once possible, is not
changed by input that arrives later.  That stability is the only reason why a
stream may be cut anywhere: `run_append` derives from it that a scan may be
interrupted and resumed with what it left unread.
-/

/-- A scanner with state `σ`, outputs `ε` and input symbols `α`.  `step` is
`none` while the front of the input is undecided. -/
structure StreamScanner (σ ε α : Type*) where
  step : σ → List α → Option (σ × List ε × Nat)
  step_pos :
    ∀ {state input next output count},
      step state input = some (next, output, count) → 0 < count
  step_le :
    ∀ {state input next output count},
      step state input = some (next, output, count) →
        count ≤ input.length
  step_append :
    ∀ {state input decision} (more : List α),
      step state input = some decision →
        step state (input ++ more) = some decision

namespace StreamScanner

variable {σ ε α : Type*}

/-- Where a scan stopped: final state, everything output, unread input. -/
@[ext]
structure Outcome (σ ε α : Type*) where
  state : σ
  output : List ε
  rest : List α
  deriving DecidableEq

namespace Outcome

/-- Put earlier outputs in front of an outcome. -/
def after (earlier : List ε) (outcome : Outcome σ ε α) :
    Outcome σ ε α :=
  { outcome with output := earlier ++ outcome.output }

@[simp]
theorem after_nil (outcome : Outcome σ ε α) :
    outcome.after [] = outcome :=
  rfl

@[simp]
theorem after_after (first second : List ε) (outcome : Outcome σ ε α) :
    (outcome.after second).after first =
      outcome.after (first ++ second) := by
  simp [after]

@[simp]
theorem after_state (earlier : List ε) (outcome : Outcome σ ε α) :
    (outcome.after earlier).state = outcome.state :=
  rfl

@[simp]
theorem after_output (earlier : List ε) (outcome : Outcome σ ε α) :
    (outcome.after earlier).output = earlier ++ outcome.output :=
  rfl

@[simp]
theorem after_rest (earlier : List ε) (outcome : Outcome σ ε α) :
    (outcome.after earlier).rest = outcome.rest :=
  rfl

end Outcome

variable (scanner : StreamScanner σ ε α)

/-- Scan with a bound on the number of decisions. -/
def runFuel : Nat → σ → List α → Outcome σ ε α
  | 0, state, input => ⟨state, [], input⟩
  | fuel + 1, state, input =>
      match scanner.step state input with
      | none => ⟨state, [], input⟩
      | some (next, output, count) =>
          (runFuel fuel next (input.drop count)).after output

/-- Scan until the front of the input is undecided.  Every decision consumes
a symbol, so as many decisions as there are symbols are enough. -/
def run (state : σ) (input : List α) : Outcome σ ε α :=
  scanner.runFuel input.length state input

/-! ## The loop equations -/

private theorem step_nil (state : σ) : scanner.step state [] = none := by
  cases decision : scanner.step state [] with
  | none =>
      rfl
  | some value =>
      obtain ⟨next, output, count⟩ := value
      have positive := scanner.step_pos decision
      have bounded := scanner.step_le decision
      simp at bounded
      omega

private theorem runFuel_succ_of_le
    {fuel : Nat} {state : σ} {input : List α}
    (enough : input.length ≤ fuel) :
    scanner.runFuel (fuel + 1) state input =
      scanner.runFuel fuel state input := by
  induction fuel generalizing state input with
  | zero =>
      have empty : input = [] :=
        List.eq_nil_of_length_eq_zero (by omega)
      subst input
      simp [runFuel, scanner.step_nil]
  | succ fuel inductionHypothesis =>
      rw [runFuel, runFuel]
      cases decision : scanner.step state input with
      | none =>
          rfl
      | some value =>
          obtain ⟨next, output, count⟩ := value
          have positive := scanner.step_pos decision
          have shorter : (input.drop count).length ≤ fuel := by
            rw [List.length_drop]
            omega
          simp only
          rw [inductionHypothesis shorter]

/-- More fuel than symbols changes nothing. -/
theorem runFuel_eq_run
    {fuel : Nat} {state : σ} {input : List α}
    (enough : input.length ≤ fuel) :
    scanner.runFuel fuel state input = scanner.run state input := by
  induction fuel with
  | zero =>
      have empty : input.length = 0 := by omega
      rw [run, empty]
  | succ fuel inductionHypothesis =>
      by_cases exact : input.length = fuel + 1
      · rw [run, exact]
      · have smaller : input.length ≤ fuel := by omega
        rw [scanner.runFuel_succ_of_le smaller,
          inductionHypothesis smaller]

theorem run_of_step_none
    {state : σ} {input : List α}
    (waits : scanner.step state input = none) :
    scanner.run state input = ⟨state, [], input⟩ := by
  rw [← scanner.runFuel_eq_run (Nat.le_succ input.length), runFuel,
    waits]

theorem run_of_step_some
    {state next : σ} {input : List α} {output : List ε} {count : Nat}
    (decides : scanner.step state input = some (next, output, count)) :
    scanner.run state input =
      (scanner.run next (input.drop count)).after output := by
  rw [← scanner.runFuel_eq_run (Nat.le_succ input.length), runFuel,
    decides]
  simp only
  rw [scanner.runFuel_eq_run]
  rw [List.length_drop]
  omega

/-- Induction along a scan: the undecided front, and one decision followed by
the scan of what is left. -/
theorem run_induction
    {motive : σ → List α → Outcome σ ε α → Prop}
    (waits :
      ∀ state input,
        scanner.step state input = none →
          motive state input ⟨state, [], input⟩)
    (decides :
      ∀ state input next output count,
        scanner.step state input = some (next, output, count) →
        motive next (input.drop count)
          (scanner.run next (input.drop count)) →
          motive state input
            ((scanner.run next (input.drop count)).after output))
    (state : σ) (input : List α) :
    motive state input (scanner.run state input) := by
  induction size : input.length using Nat.strongRecOn
    generalizing state input with
  | _ size inductionHypothesis =>
      cases decision : scanner.step state input with
      | none =>
          rw [scanner.run_of_step_none decision]
          exact waits state input decision
      | some value =>
          obtain ⟨next, output, count⟩ := value
          have positive := scanner.step_pos decision
          have bounded := scanner.step_le decision
          rw [scanner.run_of_step_some decision]
          apply decides state input next output count decision
          apply inductionHypothesis (input.drop count).length _ _ _ rfl
          rw [List.length_drop]
          omega

/-- A scan stops only where the front of the input is undecided. -/
theorem run_stops (state : σ) (input : List α) :
    scanner.step (scanner.run state input).state
      (scanner.run state input).rest = none := by
  refine scanner.run_induction
    (motive := fun _ _ outcome =>
      scanner.step outcome.state outcome.rest = none) ?_ ?_ state input
  · intro state input waits
    exact waits
  · intro _ _ _ _ _ _ inductionHypothesis
    exact inductionHypothesis

/-- What a scan leaves unread is a tail of its input. -/
theorem run_rest (state : σ) (input : List α) :
    ∃ count,
      count ≤ input.length ∧
        (scanner.run state input).rest = input.drop count := by
  refine scanner.run_induction
    (motive := fun _ input outcome =>
      ∃ count, count ≤ input.length ∧ outcome.rest = input.drop count)
    ?_ ?_ state input
  · intro state input _
    exact ⟨0, Nat.zero_le _, rfl⟩
  · rintro _ input _ _ first decision ⟨count, bounded, shape⟩
    have firstBounded := scanner.step_le decision
    rw [List.length_drop] at bounded
    refine ⟨first + count, by omega, ?_⟩
    rw [Outcome.after_rest, shape, List.drop_drop]

/-! ## Fragmentation -/

/-- Scanning a stream is scanning a front part of it, then what that left
unread together with the remainder. -/
theorem run_append (state : σ) (input more : List α) :
    scanner.run state (input ++ more) =
      (scanner.run (scanner.run state input).state
          ((scanner.run state input).rest ++ more)).after
        (scanner.run state input).output := by
  refine scanner.run_induction
    (motive := fun state input outcome =>
      scanner.run state (input ++ more) =
        (scanner.run outcome.state (outcome.rest ++ more)).after
          outcome.output) ?_ ?_ state input
  · intro state input _
    rfl
  · intro state input next output count decision inductionHypothesis
    have bounded := scanner.step_le decision
    have rest :
        (input ++ more).drop count = input.drop count ++ more :=
      List.drop_append_of_le_length bounded
    rw [scanner.run_of_step_some (scanner.step_append more decision),
      rest, inductionHypothesis]
    simp

/-! ## Self-delimiting tokens -/

/-- If the scanner consumes each token whole, whatever follows it, a stream of
tokens is processed token by token. -/
theorem run_tokens
    {τ : Type*} {bytes : τ → List α}
    {react : σ → τ → σ × List ε}
    (delimits :
      ∀ state token rest,
        scanner.step state (bytes token ++ rest) =
          some ((react state token).1, (react state token).2,
            (bytes token).length))
    (state : σ) (tokens : List τ) (rest : List α) :
    scanner.run state (tokens.flatMap bytes ++ rest) =
      (scanner.run (Mealy.run react state tokens).1 rest).after
        (Mealy.run react state tokens).2 := by
  induction tokens generalizing state with
  | nil =>
      simp
  | cons token tokens inductionHypothesis =>
      rw [List.flatMap_cons, List.append_assoc,
        scanner.run_of_step_some (delimits state token _),
        List.drop_left' rfl, inductionHypothesis, Mealy.run_cons]
      simp

/-- If, besides, it waits on every proper beginning of a token, then of a
stream of tokens that is cut off anywhere it processes the tokens that are
whole and leaves the beginning of the next one.  Behind the tokens there may be
a tail on which it waits. -/
theorem run_tokens_prefix
    {τ : Type*} {bytes : τ → List α}
    {react : σ → τ → σ × List ε}
    (delimits :
      ∀ state token rest,
        scanner.step state (bytes token ++ rest) =
          some ((react state token).1, (react state token).2,
            (bytes token).length))
    (waits :
      ∀ state token front,
        front <+: bytes token → front ≠ bytes token →
          scanner.step state front = none)
    {tail : List α}
    (waitsBehind :
      ∀ state front, front <+: tail → scanner.step state front = none)
    (state : σ) {tokens : List τ} {input : List α}
    (cut : input <+: tokens.flatMap bytes ++ tail) :
    ∃ count rest,
      input = (tokens.take count).flatMap bytes ++ rest ∧
        scanner.run state input =
          ⟨(Mealy.run react state (tokens.take count)).1,
            (Mealy.run react state (tokens.take count)).2, rest⟩ ∧
        ((tokens.length ≤ count ∧ rest <+: tail) ∨
          ∃ token,
            tokens[count]? = some token ∧
              rest <+: bytes token ∧ rest ≠ bytes token) := by
  induction tokens generalizing state input with
  | nil =>
      exact ⟨0, input, rfl,
        scanner.run_of_step_none (waitsBehind state input cut),
        Or.inl ⟨Nat.le_refl 0, cut⟩⟩
  | cons token tokens inductionHypothesis =>
      rw [List.flatMap_cons, List.append_assoc] at cut
      by_cases whole : bytes token <+: input
      · obtain ⟨more, rfl⟩ := whole
        rw [List.prefix_append_right_inj] at cut
        obtain ⟨count, rest, split, scanned, left⟩ :=
          inductionHypothesis (react state token).1 cut
        refine ⟨count + 1, rest, ?_, ?_, ?_⟩
        · rw [List.take_succ_cons, List.flatMap_cons, List.append_assoc,
            ← split]
        · rw [scanner.run_of_step_some (delimits state token more),
            List.drop_left' rfl, scanned, List.take_succ_cons,
            Mealy.run_cons]
          rfl
        · rcases left with ⟨all, behind⟩ | next
          · exact Or.inl ⟨Nat.succ_le_succ all, behind⟩
          · exact Or.inr next
      · have inside : input <+: bytes token :=
          (List.prefix_or_prefix_of_prefix cut
            (List.prefix_append (bytes token) _)).resolve_right whole
        have proper : input ≠ bytes token := by
          rintro rfl
          exact whole (List.prefix_refl _)
        exact ⟨0, input, rfl,
          scanner.run_of_step_none (waits state token input inside proper),
          Or.inr ⟨token, rfl, inside, proper⟩⟩

end StreamScanner
