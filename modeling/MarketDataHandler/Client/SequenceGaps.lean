import MarketDataHandler.Client.FrameStream

/-!
# Gap counting

The exchange numbers its messages with a 32-bit counter that wraps.  A loss
of `g` messages between two delivered frames shows as a distance of `g + 1`
between their numbers.  The parser counts such a loss unless the frame before
it carries number zero, which the parser takes for "nothing received yet", or
the counter wraps inside the lost range, where the later number is the
smaller one.
-/

namespace MarketDataHandler

/-- Consecutive frames together with the number of messages lost between
them. -/
inductive LossChain : List Frame → List Nat → Prop
  | empty : LossChain [] []
  | single (frame : Frame) : LossChain [frame] []
  | lose {frame next : Frame} {frames : List Frame}
      {loss : Nat} {losses : List Nat} :
      loss < 2 ^ 31 →
      next.seqNo = frame.seqNo + 1 + UInt32.ofNat loss →
      LossChain (next :: frames) losses →
      LossChain (frame :: next :: frames) (loss :: losses)

/-- A loss behind number `seq` that the gap test can see. -/
def CountableLoss (seq : UInt32) (loss : Nat) : Prop :=
  loss = 0 ∨
    (seq ≠ 0 ∧
      (seq.toNat + 1 + loss < 2 ^ 32 ∨ seq.toNat + 1 = 2 ^ 32))

instance (seq : UInt32) (loss : Nat) : Decidable (CountableLoss seq loss) :=
  inferInstanceAs (Decidable (_ ∨ _))

/-- What the parser adds to `seq_gaps_` for a loss behind number `seq`. -/
def countedLoss (seq : UInt32) (loss : Nat) : Nat :=
  if CountableLoss seq loss then loss else 0

/-! ## One gap test -/

private theorem seqNo_after_loss (seq : UInt32) (loss : Nat) :
    (seq + 1 + UInt32.ofNat loss).toNat =
      (seq.toNat + 1 + loss) % 2 ^ 32 := by
  rw [UInt32.toNat_add, UInt32.toNat_add, UInt32.toNat_ofNat']
  change
    ((seq.toNat + 1) % 2 ^ 32 + loss % 2 ^ 32) % 2 ^ 32 = _
  omega

/-- The gap test succeeds exactly on the visible non-empty losses. -/
theorem hasGap_after_loss
    {counters : ParseCounters} {loss : Nat} (small : loss < 2 ^ 32) :
    counters.hasGap (counters.lastSeq + 1 + UInt32.ofNat loss) = true ↔
      loss ≠ 0 ∧ CountableLoss counters.lastSeq loss := by
  have bound := counters.lastSeq.toNat_lt
  have number := seqNo_after_loss counters.lastSeq loss
  have successor :
      (counters.lastSeq + 1).toNat =
        (counters.lastSeq.toNat + 1) % 2 ^ 32 :=
    UInt32.toNat_add _ _
  simp only [ParseCounters.hasGap, CountableLoss, Bool.and_eq_true,
    decide_eq_true_eq, ne_eq, ← UInt32.toNat_inj,
    UInt32.lt_iff_toNat_lt, number, successor, UInt32.toNat_zero]
  constructor
  · rintro ⟨positive, different, later⟩
    omega
  · rintro ⟨nonempty, visible⟩
    omega

private theorem distance_after_loss
    (seq : UInt32) {loss : Nat} (small : loss < 2 ^ 32) :
    (seq + 1 + UInt32.ofNat loss - seq - 1).toUInt64 =
      UInt64.ofNat loss := by
  have bound := seq.toNat_lt
  have number := seqNo_after_loss seq loss
  apply UInt64.toNat_inj.mp
  rw [UInt32.toNat_toUInt64, UInt32.toNat_sub, UInt32.toNat_sub, number,
    UInt64.toNat_ofNat']
  change
    (2 ^ 32 - 1 +
      (2 ^ 32 - seq.toNat + (seq.toNat + 1 + loss) % 2 ^ 32) % 2 ^ 32) %
        2 ^ 32 = loss % 2 ^ 64
  omega

/-- Accepting the frame behind a loss adds what is countable of it. -/
theorem seqGaps_accept_after_loss
    (counters : ParseCounters) {loss : Nat} (small : loss < 2 ^ 32) :
    (counters.accept
        (counters.lastSeq + 1 + UInt32.ofNat loss)).1.seqGaps =
      counters.seqGaps +
        UInt64.ofNat (countedLoss counters.lastSeq loss) := by
  have test := @hasGap_after_loss counters loss small
  have distance := distance_after_loss counters.lastSeq small
  simp only [ParseCounters.accept, countedLoss]
  by_cases visible : CountableLoss counters.lastSeq loss
  · by_cases nothing : loss = 0
    · have quiet :
          ¬ counters.hasGap
            (counters.lastSeq + 1 + UInt32.ofNat loss) = true := by
        intro found
        exact (test.mp found).1 nothing
      rw [if_neg quiet, if_pos visible, nothing]
      exact (UInt64.add_zero _).symm
    · rw [if_pos (test.mpr ⟨nothing, visible⟩), if_pos visible,
        distance]
  · have quiet :
        ¬ counters.hasGap
          (counters.lastSeq + 1 + UInt32.ofNat loss) = true := by
      intro found
      exact visible (test.mp found).2
    rw [if_neg quiet, if_neg visible]
    exact (UInt64.add_zero _).symm

/-! ## Whole chains -/

/-- Everything the parser adds to `seq_gaps_` along a chain. -/
def countedLosses (frames : List Frame) (losses : List Nat) : Nat :=
  ((frames.zip losses).map fun pair =>
    countedLoss pair.1.seqNo pair.2).sum

/-- Delivering the rest of a chain adds the countable losses. -/
theorem seqGaps_deliverAll_chain
    {frame : Frame} {frames : List Frame} {losses : List Nat}
    (chain : LossChain (frame :: frames) losses)
    (counters : ParseCounters)
    (last : counters.lastSeq = frame.seqNo) :
    (counters.deliverAll frames).1.seqGaps =
      counters.seqGaps +
        UInt64.ofNat (countedLosses (frame :: frames) losses) := by
  induction frames generalizing frame losses counters with
  | nil =>
      cases chain with
      | single =>
          exact (UInt64.add_zero _).symm
  | cons next frames inductionHypothesis =>
      cases chain with
      | @lose _ _ _ loss losses small number rest =>
          rw [← last] at number
          have first :=
            seqGaps_accept_after_loss counters
              (Nat.lt_trans small (by decide))
          rw [← number] at first
          have later :=
            inductionHypothesis rest (counters.accept next.seqNo).1 rfl
          rw [ParseCounters.deliverAll_cons, later, first]
          simp only [countedLosses, List.zip_cons_cons, List.map_cons,
            List.sum_cons, UInt64.ofNat_add, ← last]
          rw [UInt64.add_assoc]

/-- A fresh parser counts exactly the countable losses, modulo the width of
its counter. -/
theorem seqGaps_chain
    {frames : List Frame} {losses : List Nat}
    (chain : LossChain frames losses) :
    (ParseCounters.zero.deliverAll frames).1.seqGaps =
      UInt64.ofNat (countedLosses frames losses) := by
  cases frames with
  | nil =>
      cases chain
      rfl
  | cons frame frames =>
      rw [ParseCounters.deliverAll_cons,
        seqGaps_deliverAll_chain chain _ rfl]
      exact UInt64.zero_add _

theorem countedLoss_le (seq : UInt32) (loss : Nat) :
    countedLoss seq loss ≤ loss := by
  unfold countedLoss
  split
  · exact Nat.le_refl loss
  · exact Nat.zero_le loss

theorem countedLoss_eq_iff (seq : UInt32) (loss : Nat) :
    countedLoss seq loss = loss ↔ CountableLoss seq loss := by
  unfold countedLoss
  constructor
  · intro counted
    by_contra hidden
    rw [if_neg hidden] at counted
    exact hidden (Or.inl counted.symm)
  · intro visible
    exact if_pos visible

theorem countedLosses_le (frames : List Frame) (losses : List Nat) :
    countedLosses frames losses ≤ losses.sum := by
  induction frames generalizing losses with
  | nil =>
      exact Nat.zero_le _
  | cons frame frames inductionHypothesis =>
      cases losses with
      | nil =>
          exact Nat.zero_le _
      | cons loss losses =>
          have first := countedLoss_le frame.seqNo loss
          have later := inductionHypothesis losses
          simp only [countedLosses, List.zip_cons_cons, List.map_cons,
            List.sum_cons] at later ⊢
          omega

/-- Nothing is missed exactly when every single loss is countable. -/
theorem countedLosses_eq_iff
    {frames : List Frame} {losses : List Nat}
    (chain : LossChain frames losses) :
    countedLosses frames losses = losses.sum ↔
      ∀ pair ∈ frames.zip losses, CountableLoss pair.1.seqNo pair.2 := by
  induction chain with
  | empty =>
      simp [countedLosses]
  | single frame =>
      simp [countedLosses]
  | @lose frame next frames loss losses _ _ _ inductionHypothesis =>
      have first := countedLoss_le frame.seqNo loss
      have later := countedLosses_le (next :: frames) losses
      have unfolded :
          countedLosses (frame :: next :: frames) (loss :: losses) =
            countedLoss frame.seqNo loss +
              countedLosses (next :: frames) losses :=
        rfl
      rw [unfolded, List.sum_cons, List.zip_cons_cons,
        List.forall_mem_cons, ← countedLoss_eq_iff,
        ← inductionHypothesis]
      dsimp only
      omega

/-- The gap counter of a fresh parser equals the number of lost messages
exactly when that number fits the counter and every loss is countable: the
frame in front of it is not number zero, and the counter does not wrap inside
the lost range. -/
theorem seqGaps_eq_losses_iff
    {parser : Parser} (fresh : parser.Fresh)
    {frames : List Frame} {losses : List Nat}
    (chain : LossChain frames losses)
    {chunks : List (List UInt8)}
    (cuts : chunks.flatten = frames.flatMap Frame.bytes)
    (bounded : ∀ chunk ∈ chunks, chunk.length ≤ 65536) :
    (∃ final events,
        parser.feedAll chunks = some (final, events) ∧
          final.seqGaps.toNat = losses.sum) ↔
      losses.sum < 2 ^ 64 ∧
        ∀ pair ∈ frames.zip losses,
          CountableLoss pair.1.seqNo pair.2 := by
  obtain ⟨final, feedAllEq, counters, _⟩ :=
    fresh.feedAll_frames cuts bounded
  have counted : final.seqGaps.toNat =
      countedLosses frames losses % 2 ^ 64 := by
    rw [counters, seqGaps_chain chain, UInt64.toNat_ofNat']
  have below := countedLosses_le frames losses
  rw [← countedLosses_eq_iff chain]
  constructor
  · rintro ⟨other, events, sameFeed, exact⟩
    rw [feedAllEq] at sameFeed
    cases sameFeed
    rw [counted] at exact
    omega
  · rintro ⟨fits, complete⟩
    refine ⟨final, _, feedAllEq, ?_⟩
    rw [counted, complete, Nat.mod_eq_of_lt fits]

/-- Numbers one and five, as in the unit test: three messages are missing. -/
theorem seqGaps_eq_losses_three :
    let frames :=
      [TickGenerator.heartbeatFrame 1 0, TickGenerator.heartbeatFrame 5 0]
    ∃ final events,
      (Parser.new ⟨fun _ => 0⟩).feedAll (frames.map Frame.bytes) =
          some (final, events) ∧
        final.seqGaps.toNat = 3 := by
  intro frames
  have chain : LossChain frames [3] :=
    LossChain.lose (by decide) (by decide) (LossChain.single _)
  exact
    (seqGaps_eq_losses_iff (Parser.Fresh.constructed ⟨fun _ => 0⟩) chain
      (show (frames.map Frame.bytes).flatten = frames.flatMap Frame.bytes
        from rfl)
      (by decide)).mpr ⟨by decide, by decide⟩

/-- Number `2 ^ 32 - 1` is lost between two heartbeats: the counter stays at
zero. -/
theorem seqGaps_misses_loss_before_wrap :
    ¬ ∀ (parser : Parser), parser.Fresh →
        ∀ (frames : List Frame) (losses : List Nat),
          LossChain frames losses →
          ∀ chunks : List (List UInt8),
            chunks.flatten = frames.flatMap Frame.bytes →
            (∀ chunk ∈ chunks, chunk.length ≤ 65536) →
              ∃ final events,
                parser.feedAll chunks = some (final, events) ∧
                  final.seqGaps.toNat = losses.sum := by
  intro always
  let frames :=
    [TickGenerator.heartbeatFrame 4294967294 0,
      TickGenerator.heartbeatFrame 0 0]
  have chain : LossChain frames [1] :=
    LossChain.lose (by decide) (by decide) (LossChain.single _)
  have silent :
      ((Parser.new ⟨fun _ => 0⟩).feedAll (frames.map Frame.bytes)).map
          (fun result => result.1.seqGaps.toNat) =
        some 0 := by
    decide
  obtain ⟨final, events, fed, counted⟩ :=
    always (Parser.new ⟨fun _ => 0⟩) (Parser.Fresh.constructed _)
      frames [1] chain (frames.map Frame.bytes) rfl (by decide)
  rw [fed] at silent
  simp only [Option.map_some, Option.some.injEq] at silent
  rw [silent] at counted
  exact absurd counted (by decide)

end MarketDataHandler
