import MarketDataHandler.Server.Pacing

/-!
# Rates over a whole run

A window of the run loop ends with the first reading of the clock a second
behind its start, and a window has no more ticks than its length, in exact
nanoseconds, calls for.  So from the start of a run to any iteration there are
no more ticks than the whole time calls for, and the heartbeats are those of
the seconds, late by less than the time between two iterations each.
-/

namespace MarketDataHandler

/-- Readings of a clock that does not go back, at most `gap` apart. -/
def Steady (gap : Nat) (readings : List Nat) : Prop :=
  readings.IsChain fun earlier later =>
    earlier ≤ later ∧ later ≤ earlier + gap

theorem count_quiet
    {outputs : List LoopOutput}
    (quiet : ∀ output ∈ outputs, output.isQuiet) :
    outputs.count .generate = 0 ∧ outputs.count .reset = 0 := by
  constructor
  · apply List.count_eq_zero_of_not_mem
    exact fun member => absurd (quiet _ member) Bool.false_ne_true
  · apply List.count_eq_zero_of_not_mem
    exact fun member => absurd (quiet _ member) Bool.false_ne_true

namespace RunLoop

variable {G : Type} (process : PriceProcess G) (loop : RunLoop G)

/-- Whether an iteration ends the window. -/
def endsWindow (inputs : Iteration) : Bool :=
  decide (10 ^ 9 ≤ inputs.now - loop.lastTick)

theorem tick_counts (inputs : Iteration) :
    let ticked := loop.tick process inputs
    loop.ticksThisSecond + ticked.2.count .generate =
        loop.ticksAfter inputs ∧
      ticked.2.count .reset = 0 ∧
      ticked.1.lastTick = loop.lastTick := by
  simp only [tick, ticksAfter]
  split
  · obtain ⟨_, window, quiet⟩ :=
      (publishes_generateAndBroadcast process
        { loop.reorder inputs.tickOrder with
          faultInjection := inputs.faultInjection }
        inputs.tickNs inputs.tickSends).pace
    obtain ⟨noTick, noReset⟩ := count_quiet quiet
    refine ⟨?_, ?_, window⟩
    · rw [List.count_cons_of_ne (by simp), List.count_cons_self, noTick]
    · rw [List.count_cons_of_ne (by simp),
        List.count_cons_of_ne (by simp), noReset]
  · exact ⟨by simp, by simp, rfl⟩

theorem second_counts (inputs : Iteration) :
    let ended := loop.second inputs
    ended.2.count .generate = 0 ∧
      ended.2.count .reset = (loop.endsWindow inputs).toNat := by
  simp only [second, endsWindow]
  split
  · rename_i isOver
    obtain ⟨_, _, quiet⟩ :=
      (publishes_broadcastHeartbeat
        { loop.reorder inputs.heartbeatOrder with
          lastTick := inputs.now
          ticksThisSecond := 0 }
        inputs.heartbeatNs inputs.heartbeatSends).pace
    obtain ⟨noTick, noReset⟩ := count_quiet quiet
    rw [List.count_cons_of_ne (by simp), List.count_cons_self, noTick,
      noReset, decide_eq_true isOver]
    exact ⟨rfl, rfl⟩
  · rename_i inside
    rw [decide_eq_false inside]
    exact ⟨rfl, rfl⟩

/-- The ticks and the windows of an iteration. -/
theorem iterate_counts (inputs : Iteration) :
    let next := loop.iterate process inputs
    loop.ticksThisSecond + next.2.count .generate =
        loop.ticksAfter inputs ∧
      next.2.count .reset = (loop.endsWindow inputs).toNat := by
  rw [iterate_eq]
  dsimp only
  obtain ⟨ticks, window, quiet⟩ := loop.events_pace process inputs.events
  obtain ⟨noTick, noReset⟩ := count_quiet quiet
  generalize
    Mealy.run (step process) loop (inputs.events.map .event) = handled at *
  obtain ⟨made, unset, sameWindow⟩ := handled.1.tick_counts process inputs
  obtain ⟨unmade, resets⟩ :=
    (handled.1.tick process inputs).1.second_counts inputs
  have sameTarget : handled.1.ticksAfter inputs = loop.ticksAfter inputs := by
    rw [ticksAfter, ticksAfter, ticks, window]
  have sameEnd :
      (handled.1.tick process inputs).1.endsWindow inputs =
        loop.endsWindow inputs := by
    rw [endsWindow, endsWindow, sameWindow, window]
  rw [List.count_cons_of_ne (by simp), List.count_cons_of_ne (by simp),
    List.count_append, List.count_append, List.count_append,
    List.count_append, noTick, noReset, unset, unmade, resets, sameEnd,
    ← sameTarget, ← made, ticks]
  constructor
  · omega
  · omega

end RunLoop

/-- What has been spent of the time since the start of a run, which is now. -/
structure Spent {G : Type} (rate : UInt32) (gap start now : Nat)
    (loop : RunLoop G) (trace : List LoopOutput) : Prop where
  counted : ticksSinceReset trace = loop.ticksThisSecond
  started : start ≤ loop.lastTick
  inside : loop.lastTick ≤ now
  recent : now - loop.lastTick < 10 ^ 9
  /-- The ticks of the windows that are over. -/
  closed :
    10 ^ 9 * trace.count .generate ≤
      10 ^ 9 * loop.ticksThisSecond +
        (loop.lastTick - start) * rate.toNat
  window :
    10 ^ 9 * loop.ticksThisSecond ≤ (now - loop.lastTick) * rate.toNat
  seconds : 10 ^ 9 * trace.count .reset ≤ loop.lastTick - start
  punctual :
    loop.lastTick - start ≤ (10 ^ 9 + gap) * trace.count .reset

namespace Spent

variable {G : Type} {process : PriceProcess G} {rate : UInt32}
  {gap start now : Nat} {loop : RunLoop G} {trace : List LoopOutput}

/-- The ticks of the window stay below what its length calls for. -/
theorem ticksAfter_le
    (spent : Spent rate gap start now loop trace) {inputs : Iteration}
    (later : now ≤ inputs.now) (allowed : inputs.tickRate ≤ rate) :
    10 ^ 9 * loop.ticksAfter inputs ≤
      (inputs.now - loop.lastTick) * rate.toNat := by
  have before : (now - loop.lastTick) * rate.toNat ≤
      (inputs.now - loop.lastTick) * rate.toNat :=
    Nat.mul_le_mul_right _ (Nat.sub_le_sub_right later _)
  rw [RunLoop.ticksAfter]
  split
  · rename_i behind
    calc
      10 ^ 9 * (loop.ticksThisSecond + 1)
          ≤ 10 ^ 9 *
              targetTicks (inputs.now - loop.lastTick) inputs.tickRate :=
        Nat.mul_le_mul_left _ behind
      _ ≤ (inputs.now - loop.lastTick) * inputs.tickRate.toNat :=
        Nat.mul_div_le _ _
      _ ≤ (inputs.now - loop.lastTick) * rate.toNat :=
        Nat.mul_le_mul_left _ (UInt32.le_iff_toNat_le.mp allowed)
  · exact Nat.le_trans spent.window before

/-- One more iteration. -/
theorem iterate
    (spent : Spent rate gap start now loop trace) {inputs : Iteration}
    (later : now ≤ inputs.now) (soon : inputs.now ≤ now + gap)
    (allowed : inputs.tickRate ≤ rate) :
    Spent rate gap start inputs.now (loop.iterate process inputs).1
      (trace ++ (loop.iterate process inputs).2) := by
  obtain ⟨counted, ticks, window⟩ :=
    loop.iterate_pace process spent.counted inputs
  obtain ⟨made, resets⟩ := loop.iterate_counts process inputs
  have within := spent.ticksAfter_le later allowed
  have ticksBefore := spent.closed
  have secondsBefore := spent.seconds
  have latestBefore := spent.punctual
  have started := spent.started
  have inside := spent.inside
  have lately := spent.recent
  by_cases isOver : 10 ^ 9 ≤ inputs.now - loop.lastTick
  · rw [RunLoop.endsWindow, decide_eq_true isOver, Bool.toNat_true] at resets
    rw [if_pos isOver] at ticks window
    have whole :
        (inputs.now - start) * rate.toNat =
          (inputs.now - loop.lastTick) * rate.toNat +
            (loop.lastTick - start) * rate.toNat := by
      rw [← Nat.add_mul]
      congr 1
      omega
    refine ⟨counted, ?_, ?_, ?_, ?_, ?_, ?_, ?_⟩
    · omega
    · omega
    · omega
    · rw [ticks, window, List.count_append, whole]
      omega
    · rw [ticks]
      omega
    · rw [window, List.count_append, resets]
      omega
    · rw [window, List.count_append, resets, Nat.mul_add]
      omega
  · rw [RunLoop.endsWindow, decide_eq_false isOver,
      Bool.toNat_false] at resets
    rw [if_neg isOver] at ticks window
    refine ⟨counted, ?_, ?_, ?_, ?_, ?_, ?_, ?_⟩
    · omega
    · omega
    · omega
    · rw [ticks, window, List.count_append]
      omega
    · rw [ticks, window]
      exact within
    · rw [window, List.count_append, resets]
      exact secondsBefore
    · rw [window, List.count_append, resets]
      exact latestBefore

theorem run
    (spent : Spent rate gap start now loop trace)
    {iterations : List Iteration} {last : Iteration}
    (tail : iterations.getLast? = some last)
    (steady : Steady gap (now :: iterations.map Iteration.now))
    (allowed : ∀ inputs ∈ iterations, inputs.tickRate ≤ rate) :
    Spent rate gap start last.now (loop.run process iterations).1
      (trace ++ (loop.run process iterations).2) := by
  induction iterations generalizing now loop trace with
  | nil =>
      cases tail
  | cons inputs iterations inductionHypothesis =>
      obtain ⟨⟨later, soon⟩, rest⟩ := List.isChain_cons_cons.mp steady
      have next :=
        @iterate _ process _ _ _ _ _ _ spent inputs later soon
          (allowed inputs List.mem_cons_self)
      rw [RunLoop.run, Mealy.run_cons, ← List.append_assoc]
      cases iterations with
      | nil =>
          cases tail
          change Spent rate gap start inputs.now _ (trace ++ _ ++ [])
          rw [List.append_nil]
          exact next
      | cons second iterations =>
          exact inductionHypothesis next tail rest fun inputs member =>
            allowed inputs (List.mem_cons_of_mem _ member)

end Spent

namespace RunLoop

variable {G : Type} {process : PriceProcess G}

/-- From the start of a run to any of its iterations the ticks are at most
those that the time, in exact nanoseconds, calls for at the highest rate, and
the windows are over a second long, by less than the time between two
iterations. -/
theorem run_rates
    {loop : RunLoop G} (unticked : loop.ticksThisSecond = 0)
    {iterations : List Iteration} {last : Iteration}
    (tail : iterations.getLast? = some last)
    {gap : Nat}
    (steady :
      Steady gap (loop.lastTick :: iterations.map Iteration.now))
    {rate : UInt32}
    (allowed : ∀ inputs ∈ iterations, inputs.tickRate ≤ rate) :
    let trace := (loop.run process iterations).2
    let elapsed := last.now - loop.lastTick
    trace.count .generate ≤ targetTicks elapsed rate ∧
      10 ^ 9 * trace.count .reset ≤ elapsed ∧
      elapsed < (10 ^ 9 + gap) * (trace.count .reset + 1) := by
  intro trace elapsed
  have start :
      Spent rate gap loop.lastTick loop.lastTick loop [] := by
    refine ⟨?_, le_rfl, le_rfl, ?_, ?_, ?_, ?_, ?_⟩ <;>
      simp [unticked, ticksSinceReset, Mealy.since]
  have spent :=
    @Spent.run _ process _ _ _ _ _ _ start _ _ tail steady allowed
  rw [List.nil_append] at spent
  have closed := spent.closed
  have window := spent.window
  have seconds := spent.seconds
  have punctual := spent.punctual
  have started := spent.started
  have inside := spent.inside
  have lately := spent.recent
  generalize (loop.run process iterations).1 = final at *
  change 10 ^ 9 * trace.count .generate ≤ _ at closed
  change 10 ^ 9 * trace.count .reset ≤ _ at seconds
  change _ ≤ (10 ^ 9 + gap) * trace.count .reset at punctual
  have whole :
      elapsed * rate.toNat =
        (last.now - final.lastTick) * rate.toNat +
          (final.lastTick - loop.lastTick) * rate.toNat := by
    rw [← Nat.add_mul]
    congr 1
    omega
  refine ⟨?_, ?_, ?_⟩
  · rw [targetTicks, Nat.le_div_iff_mul_le (by decide), whole,
      Nat.mul_comm]
    omega
  · omega
  · rw [Nat.mul_add]
    omega

/-- A tick at half a second, another with the end of the first window, and none
in the second one yet. -/
theorem run_rates_threeReadings :
    let iterations :=
      [Iteration.quiet 3 500000000, Iteration.quiet 3 1100000000,
        Iteration.quiet 3 1200000000]
    let trace := (idle.run PriceProcess.still iterations).2
    trace.count .generate ≤ targetTicks 1200000000 3 ∧
      10 ^ 9 * trace.count .reset ≤ 1200000000 ∧
      1200000000 < (10 ^ 9 + 600000000) * (trace.count .reset + 1) :=
  @run_rates Unit .still idle rfl _ (.quiet 3 1200000000) rfl 600000000
    (by simp [Steady, idle, Iteration.quiet]) 3
    (by simp [Iteration.quiet])

end RunLoop

end MarketDataHandler
