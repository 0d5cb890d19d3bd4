import MarketDataHandler.Server.RunLoop
import Mathlib.Algebra.Order.Ring.Nat

/-!
# Tick pacing

The counter `ticks_this_second` is the number of ticks since `last_tick`, and
an iteration compares it with the number that the elapsed time, in exact
nanoseconds, and the rate call for.  It is never ahead (`ticks_le_target`).  An iteration makes one tick
and no more, so it keeps up exactly while that number rises by at most one
from each iteration of a window to the next (`Paced`).
-/

namespace MarketDataHandler

/-! ## Counting ticks -/

/-- The calls of `generate_and_broadcast` since `last_tick` was set. -/
def ticksSinceReset (trace : List LoopOutput) : Nat :=
  (Mealy.since .reset trace).count .generate

/-- The number of ticks that the readings of the clock call for rises by at
most one from each iteration to the next.  `lastTick` is where the present
window starts and `made` what the iteration before called for. -/
def Paced (rate : UInt32) : Nat → Nat → List Nat → Prop
  | _, _, [] => True
  | lastTick, made, now :: readings =>
      targetTicks (now - lastTick) rate ≤ made + 1 ∧
        if 10 ^ 9 ≤ now - lastTick then
          Paced rate now 0 readings
        else
          Paced rate lastTick (targetTicks (now - lastTick) rate) readings

/-- An iteration up to its tick. -/
def Iteration.untilTick (inputs : Iteration) : List LoopStep :=
  .wait :: inputs.events.map .event ++ [.tick inputs]

/-- In every iteration the ticks since `last_tick`, counted behind the tick
generation, compare in the given way with what the elapsed time calls for.
`past` is the trace before the first iteration. -/
def TicksCompare {G : Type} (compare : Nat → Nat → Prop)
    (process : PriceProcess G) (past : List LoopOutput)
    (loop : RunLoop G) (iterations : List Iteration) : Prop :=
  ∀ before inputs,
    before ++ [inputs] <+: iterations →
      compare
        (ticksSinceReset
          (past ++
            ((loop.run process before).2 ++
              (Mealy.run (RunLoop.step process)
                (loop.run process before).1 inputs.untilTick).2)))
        (targetTicks
          (inputs.now - (loop.run process before).1.lastTick)
          inputs.tickRate)

/-- The loop is neither ahead of the rate nor behind it. -/
def KeepsPace {G : Type} (process : PriceProcess G) (loop : RunLoop G)
    (iterations : List Iteration) : Prop :=
  TicksCompare (fun ticks target => ticks = target) process [] loop
    iterations

/-- Neither a tick nor the start of a window. -/
def LoopOutput.isQuiet : LoopOutput → Bool
  | .generate => false
  | .reset => false
  | _ => true

theorem ticksSinceReset_quiet
    {outputs : List LoopOutput}
    (quiet : ∀ output ∈ outputs, output.isQuiet)
    (past : List LoopOutput) :
    ticksSinceReset (past ++ outputs) = ticksSinceReset past := by
  have notReset : .reset ∉ outputs := fun member =>
    absurd (quiet _ member) (by decide)
  have notGenerate : .generate ∉ outputs := fun member =>
    absurd (quiet _ member) (by decide)
  rw [ticksSinceReset, Mealy.since_append notReset, List.count_append,
    List.count_eq_zero_of_not_mem notGenerate, Nat.add_zero]
  rfl

/-- One tick among quiet outputs. -/
theorem ticksSinceReset_generate
    (past : List LoopOutput) {front back : List LoopOutput}
    (frontQuiet : ∀ output ∈ front, output.isQuiet)
    (backQuiet : ∀ output ∈ back, output.isQuiet) :
    ticksSinceReset (past ++ (front ++ .generate :: back)) =
      ticksSinceReset past + 1 := by
  have one :
      ticksSinceReset (past ++ front ++ [.generate]) =
        ticksSinceReset (past ++ front) + 1 := by
    rw [ticksSinceReset, Mealy.since_append (by decide),
      List.count_append]
    rfl
  rw [← List.append_assoc, List.append_cons, ticksSinceReset_quiet backQuiet,
    one, ticksSinceReset_quiet frontQuiet]

/-- A new window. -/
theorem ticksSinceReset_reset
    (past : List LoopOutput) {back : List LoopOutput}
    (backQuiet : ∀ output ∈ back, output.isQuiet) :
    ticksSinceReset (past ++ .reset :: back) = 0 := by
  rw [List.append_cons, ticksSinceReset_quiet backQuiet, ticksSinceReset,
    Mealy.since_concat_mark]
  rfl

/-! ## The parts of an iteration -/

theorem broadcastCalls_quiet
    (clients : List Nat) (data : List UInt8)
    (sends : Nat → List SendOutcome) :
    ∀ output ∈ broadcastCalls clients data sends, output.isQuiet := by
  intro output member
  rcases List.mem_append.mp member with sent | closed
  · obtain ⟨fd, _, called⟩ := List.mem_flatMap.mp sent
    obtain ⟨call, _, rfl⟩ := List.mem_map.mp called
    rfl
  · obtain ⟨fd, _, called⟩ := List.mem_flatMap.mp closed
    simp only [disconnectCalls, List.mem_cons, List.not_mem_nil,
      or_false] at called
    rcases called with rfl | rfl <;> rfl

namespace RunLoop

variable {G : Type} (process : PriceProcess G) (loop : RunLoop G)

/-- Events neither tick nor touch the window. -/
theorem handleEvent_pace (event : ReadyEvent) :
    (loop.handleEvent event).1.ticksThisSecond = loop.ticksThisSecond ∧
      (loop.handleEvent event).1.lastTick = loop.lastTick ∧
      ∀ output ∈ (loop.handleEvent event).2, output.isQuiet := by
  have handles := loop.handles_handleEvent event
  generalize loop.handleEvent event = result at handles ⊢
  cases handles with
  | accepts listening =>
      refine ⟨rfl, rfl, ?_⟩
      cases event.accepted <;>
        simp [handleNewConnection, LoopOutput.isQuiet]
  | keeps other shape positive =>
      refine ⟨rfl, rfl, ?_⟩
      rcases shape with rfl | rfl <;> simp [LoopOutput.isQuiet]
  | closes other shape =>
      refine ⟨rfl, rfl, ?_⟩
      rcases shape with rfl | rfl <;>
        simp [disconnectCalls, LoopOutput.isQuiet]

theorem events_pace (events : List ReadyEvent) :
    let handled := Mealy.run (step process) loop (events.map .event)
    handled.1.ticksThisSecond = loop.ticksThisSecond ∧
      handled.1.lastTick = loop.lastTick ∧
      ∀ output ∈ handled.2, output.isQuiet := by
  induction events generalizing loop with
  | nil =>
      exact ⟨rfl, rfl, by simp⟩
  | cons event events inductionHypothesis =>
      obtain ⟨ticks, window, quiet⟩ := loop.handleEvent_pace event
      obtain ⟨laterTicks, laterWindow, laterQuiet⟩ :=
        inductionHypothesis (loop.handleEvent event).1
      refine ⟨laterTicks.trans ticks, laterWindow.trans window, ?_⟩
      intro output member
      rcases List.mem_append.mp member with now | later
      · exact quiet output now
      · exact laterQuiet output later

/-- The counter behind the tick generation of an iteration. -/
def ticksAfter (inputs : Iteration) : Nat :=
  if loop.ticksThisSecond <
      targetTicks (inputs.now - loop.lastTick) inputs.tickRate then
    loop.ticksThisSecond + 1
  else
    loop.ticksThisSecond

variable {loop} in
/-- Neither do messages. -/
theorem Publishes.pace
    {sends : Nat → List SendOutcome}
    {result : RunLoop G × List LoopOutput}
    (publishes : Publishes loop sends result) :
    result.1.ticksThisSecond = loop.ticksThisSecond ∧
      result.1.lastTick = loop.lastTick ∧
      ∀ output ∈ result.2, output.isQuiet := by
  cases publishes with
  | silent =>
      exact ⟨rfl, rfl, by simp⟩
  | message seqNo gen data =>
      exact ⟨rfl, rfl, broadcastCalls_quiet _ _ _⟩

theorem tick_pace
    {past : List LoopOutput}
    (counted : ticksSinceReset past = loop.ticksThisSecond)
    (inputs : Iteration) :
    let ticked := loop.tick process inputs
    ticked.1.ticksThisSecond = loop.ticksAfter inputs ∧
      ticked.1.lastTick = loop.lastTick ∧
      ticksSinceReset (past ++ ticked.2) = loop.ticksAfter inputs := by
  simp only [tick, ticksAfter]
  split
  · obtain ⟨_, window, quiet⟩ :=
      (publishes_generateAndBroadcast process
        { loop.reorder inputs.tickOrder with
          faultInjection := inputs.faultInjection }
        inputs.tickNs inputs.tickSends).pace
    have clockQuiet :
        ∀ output ∈ [LoopOutput.clock inputs.now], output.isQuiet := by
      simp [LoopOutput.isQuiet]
    refine ⟨rfl, window, ?_⟩
    rw [← counted]
    exact ticksSinceReset_generate past clockQuiet quiet
  · refine ⟨rfl, rfl, ?_⟩
    rw [← counted]
    exact ticksSinceReset_quiet (by simp [LoopOutput.isQuiet]) past

theorem second_pace
    {past : List LoopOutput}
    (counted : ticksSinceReset past = loop.ticksThisSecond)
    (inputs : Iteration) :
    let ended := loop.second inputs
    ticksSinceReset (past ++ ended.2) = ended.1.ticksThisSecond ∧
      ended.1.ticksThisSecond =
        (if 10 ^ 9 ≤ inputs.now - loop.lastTick then
          0
        else
          loop.ticksThisSecond) ∧
      ended.1.lastTick =
        if 10 ^ 9 ≤ inputs.now - loop.lastTick then
          inputs.now
        else
          loop.lastTick := by
  simp only [second]
  split
  · obtain ⟨ticks, window, quiet⟩ :=
      (publishes_broadcastHeartbeat
        { loop.reorder inputs.heartbeatOrder with
          lastTick := inputs.now
          ticksThisSecond := 0 }
        inputs.heartbeatNs inputs.heartbeatSends).pace
    refine ⟨?_, ticks, window⟩
    exact (ticksSinceReset_reset past quiet).trans ticks.symm
  · refine ⟨?_, rfl, rfl⟩
    rw [List.append_nil]
    exact counted

/-- An iteration up to its tick: the counter and the trace agree. -/
theorem untilTick_pace
    {past : List LoopOutput}
    (counted : ticksSinceReset past = loop.ticksThisSecond)
    (inputs : Iteration) :
    let ticked := Mealy.run (step process) loop inputs.untilTick
    ticksSinceReset (past ++ ticked.2) = loop.ticksAfter inputs ∧
      ticked.1.ticksThisSecond = loop.ticksAfter inputs ∧
      ticked.1.lastTick = loop.lastTick := by
  obtain ⟨ticks, window, quiet⟩ := loop.events_pace process inputs.events
  have waited :
      ∀ output ∈
        LoopOutput.epollWait ::
          (Mealy.run (step process) loop (inputs.events.map .event)).2,
        output.isQuiet := by
    intro output member
    rcases List.mem_cons.mp member with rfl | later
    · rfl
    · exact quiet output later
  have handled :=
    (ticksSinceReset_quiet waited past).trans (counted.trans ticks.symm)
  have same :
      (Mealy.run (step process) loop
          (inputs.events.map .event)).1.ticksAfter inputs =
        loop.ticksAfter inputs := by
    rw [ticksAfter, ticksAfter, ticks, window]
  obtain ⟨tickedCount, tickedWindow, tickedTrace⟩ :=
    tick_pace process _ handled inputs
  have parts :
      Mealy.run (step process) loop inputs.untilTick =
        let handled :=
          Mealy.run (step process) loop (inputs.events.map .event)
        ((handled.1.tick process inputs).1,
          (LoopOutput.epollWait :: handled.2) ++
            (handled.1.tick process inputs).2) := by
    simp only [Iteration.untilTick, List.cons_append, Mealy.run_cons,
      Mealy.run_append, Mealy.run_nil, List.append_nil]
    rfl
  simp only [parts]
  rw [← List.append_assoc]
  exact ⟨tickedTrace.trans same, tickedCount.trans same,
    tickedWindow.trans window⟩

/-- The count at the end of an iteration, and the window of the next. -/
theorem iterate_pace
    {past : List LoopOutput}
    (counted : ticksSinceReset past = loop.ticksThisSecond)
    (inputs : Iteration) :
    let next := loop.iterate process inputs
    ticksSinceReset (past ++ next.2) = next.1.ticksThisSecond ∧
      next.1.ticksThisSecond =
        (if 10 ^ 9 ≤ inputs.now - loop.lastTick then
          0
        else
          loop.ticksAfter inputs) ∧
      next.1.lastTick =
        if 10 ^ 9 ≤ inputs.now - loop.lastTick then
          inputs.now
        else
          loop.lastTick := by
  obtain ⟨trace, ticks, window⟩ := loop.untilTick_pace process counted inputs
  obtain ⟨endTrace, endTicks, endWindow⟩ :=
    second_pace _ (trace.trans ticks.symm) inputs
  have parts :
      loop.iterate process inputs =
        let ticked := Mealy.run (step process) loop inputs.untilTick
        ((ticked.1.second inputs).1,
          ticked.2 ++ (ticked.1.second inputs).2) := by
    have split : inputs.steps = inputs.untilTick ++ [.second inputs] := by
      simp [Iteration.steps, Iteration.untilTick]
    rw [iterate, split, Mealy.run_append, Mealy.run_cons, Mealy.run_nil,
      List.append_nil]
    rfl
  simp only [parts]
  rw [← List.append_assoc]
  rw [window] at endTicks endWindow
  rw [ticks] at endTicks
  exact ⟨endTrace, endTicks, endWindow⟩

end RunLoop

/-! ## Whole runs -/

theorem targetTicks_mono
    {earlier later : Nat} (order : earlier ≤ later) (rate : UInt32) :
    targetTicks earlier rate ≤ targetTicks later rate :=
  Nat.div_le_div_right (Nat.mul_le_mul_right rate.toNat order)

section Runs

variable {G : Type} (process : PriceProcess G)

/-- The first iteration, then the others. -/
theorem ticksCompare_cons
    (compare : Nat → Nat → Prop) (past : List LoopOutput)
    (loop : RunLoop G) (inputs : Iteration)
    (iterations : List Iteration) :
    TicksCompare compare process past loop (inputs :: iterations) ↔
      compare
        (ticksSinceReset
          (past ++
            (Mealy.run (RunLoop.step process) loop
              inputs.untilTick).2))
        (targetTicks (inputs.now - loop.lastTick) inputs.tickRate) ∧
      TicksCompare compare process
        (past ++ (loop.iterate process inputs).2)
        (loop.iterate process inputs).1 iterations := by
  constructor
  · intro compared
    refine ⟨compared [] inputs ⟨iterations, rfl⟩, ?_⟩
    intro before last reached
    have whole :=
      compared (inputs :: before) last
        ((List.prefix_cons_inj inputs).mpr reached)
    rw [List.append_assoc]
    simpa [RunLoop.run, Mealy.run_cons] using whole
  · intro all before last reached
    obtain ⟨now, later⟩ := all
    cases before with
    | nil =>
        obtain ⟨rest, split⟩ := reached
        cases split
        exact now
    | cons head before =>
        rw [List.cons_append] at reached
        obtain ⟨rfl, rest⟩ := List.cons_prefix_cons.mp reached
        have whole := later before last rest
        rw [List.append_assoc] at whole
        simpa [RunLoop.run, Mealy.run_cons] using whole

/-- At no reading to come is the counter ahead. -/
def NotAhead (rate : UInt32) (loop : RunLoop G)
    (iterations : List Iteration) : Prop :=
  ∀ inputs ∈ iterations,
    loop.ticksThisSecond ≤ targetTicks (inputs.now - loop.lastTick) rate

theorem ticksAfter_le
    {loop : RunLoop G} {inputs : Iteration}
    (behind :
      loop.ticksThisSecond ≤
        targetTicks (inputs.now - loop.lastTick) inputs.tickRate) :
    loop.ticksAfter inputs ≤
      targetTicks (inputs.now - loop.lastTick) inputs.tickRate := by
  rw [RunLoop.ticksAfter]
  split <;> omega

/-- An iteration does not put the counter ahead. -/
theorem notAhead_iterate
    {rate : UInt32} {past : List LoopOutput} {loop : RunLoop G}
    {inputs : Iteration} {iterations : List Iteration}
    (counted : ticksSinceReset past = loop.ticksThisSecond)
    (constant : inputs.tickRate = rate)
    (nondecreasing : ∀ later ∈ iterations, inputs.now ≤ later.now)
    (behind : NotAhead rate loop (inputs :: iterations)) :
    NotAhead rate (loop.iterate process inputs).1 iterations := by
  obtain ⟨_, ticks, window⟩ := loop.iterate_pace process counted inputs
  intro later member
  rw [ticks, window]
  split
  · exact Nat.zero_le _
  · have now := behind inputs List.mem_cons_self
    rw [← constant] at now
    calc
      loop.ticksAfter inputs
          ≤ targetTicks (inputs.now - loop.lastTick) inputs.tickRate :=
        ticksAfter_le now
      _ ≤ targetTicks (later.now - loop.lastTick) inputs.tickRate :=
        targetTicks_mono
          (Nat.sub_le_sub_right (nondecreasing later member) _) _
      _ = targetTicks (later.now - loop.lastTick) rate := by
        rw [constant]

/-- The loop is never ahead of its rate. -/
theorem ticks_le_target
    {rate : UInt32} {past : List LoopOutput} {loop : RunLoop G}
    {iterations : List Iteration}
    (counted : ticksSinceReset past = loop.ticksThisSecond)
    (constant : ∀ inputs ∈ iterations, inputs.tickRate = rate)
    (nondecreasing : (iterations.map Iteration.now).Pairwise (· ≤ ·))
    (behind : NotAhead rate loop iterations) :
    TicksCompare (fun ticks target => ticks ≤ target) process past loop
      iterations := by
  induction iterations generalizing past loop with
  | nil =>
      intro before inputs reached
      simp at reached
  | cons inputs iterations inductionHypothesis =>
      obtain ⟨laterReadings, rest⟩ := List.pairwise_cons.mp nondecreasing
      have rates := constant inputs List.mem_cons_self
      obtain ⟨trace, _, _⟩ := loop.untilTick_pace process counted inputs
      rw [ticksCompare_cons, trace]
      refine ⟨?_, ?_⟩
      · have now := behind inputs List.mem_cons_self
        rw [← rates] at now
        exact ticksAfter_le now
      · apply inductionHypothesis
          (loop.iterate_pace process counted inputs).1
          (fun later member =>
            constant later (List.mem_cons_of_mem inputs member))
          rest
        apply notAhead_iterate process counted rates _ behind
        intro later member
        exact laterReadings _ (List.mem_map_of_mem member)

theorem ticksCompare_eq_iff_paced
    {rate : UInt32} {past : List LoopOutput} {loop : RunLoop G}
    {iterations : List Iteration}
    (counted : ticksSinceReset past = loop.ticksThisSecond)
    (constant : ∀ inputs ∈ iterations, inputs.tickRate = rate)
    (nondecreasing : (iterations.map Iteration.now).Pairwise (· ≤ ·))
    (behind : NotAhead rate loop iterations) :
    TicksCompare (fun ticks target => ticks = target) process past loop
        iterations ↔
      Paced rate loop.lastTick loop.ticksThisSecond
        (iterations.map Iteration.now) := by
  induction iterations generalizing past loop with
  | nil =>
      simp [TicksCompare, Paced]
  | cons inputs iterations inductionHypothesis =>
      obtain ⟨laterReadings, rest⟩ := List.pairwise_cons.mp nondecreasing
      have rates := constant inputs List.mem_cons_self
      have now := behind inputs List.mem_cons_self
      obtain ⟨trace, _, _⟩ := loop.untilTick_pace process counted inputs
      obtain ⟨nextTrace, nextTicks, nextWindow⟩ :=
        loop.iterate_pace process counted inputs
      have later :=
        inductionHypothesis nextTrace
          (fun later member =>
            constant later (List.mem_cons_of_mem inputs member))
          rest
          (notAhead_iterate process counted rates
            (fun later member =>
              laterReadings _ (List.mem_map_of_mem member))
            behind)
      have first :
          loop.ticksAfter inputs =
              targetTicks (inputs.now - loop.lastTick) rate ↔
            targetTicks (inputs.now - loop.lastTick) rate ≤
              loop.ticksThisSecond + 1 := by
        rw [RunLoop.ticksAfter, rates]
        split <;> omega
      rw [ticksCompare_cons, trace, rates, first, later, List.map_cons,
        Paced, nextTicks, nextWindow]
      apply and_congr_right
      intro reaches
      rw [first.mpr reaches]
      split <;> rfl

/-- With a constant rate and a clock that does not run backwards, the loop
keeps pace exactly when the number of ticks called for rises by at most one
from each iteration of a window to the next. -/
theorem keepsPace_iff_paced
    (rate : UInt32) {loop : RunLoop G}
    (fresh : loop.ticksThisSecond = 0)
    {iterations : List Iteration}
    (constant : ∀ inputs ∈ iterations, inputs.tickRate = rate)
    (nondecreasing : (iterations.map Iteration.now).Pairwise (· ≤ ·)) :
    KeepsPace process loop iterations ↔
      Paced rate loop.lastTick 0 (iterations.map Iteration.now) := by
  have counted : ticksSinceReset [] = loop.ticksThisSecond := fresh.symm
  rw [KeepsPace, ← fresh]
  apply ticksCompare_eq_iff_paced process counted constant nondecreasing
  intro inputs _
  rw [fresh]
  exact Nat.zero_le _

end Runs

/-- At a thousand ticks a second and an iteration each millisecond the loop
keeps pace. -/
theorem keepsPace_each_millisecond :
    KeepsPace PriceProcess.still RunLoop.idle
      [.quiet 1000 1000000, .quiet 1000 2000000, .quiet 1000 2500000] := by
  apply
    (keepsPace_iff_paced PriceProcess.still 1000 rfl (by decide)
      (by decide)).mpr
  simp [Paced, Iteration.quiet, RunLoop.idle, targetTicks]

/-- At the default rate the first millisecond calls for a hundred ticks, and
the iteration makes one. -/
theorem not_keepsPace_default_rate :
    ¬ KeepsPace PriceProcess.still RunLoop.idle
      [.quiet 100000 1000000] := by
  intro pace
  have first := pace [] _ (List.prefix_refl _)
  exact absurd first (by decide)

end MarketDataHandler
