import MarketDataHandler.Client.CacheSemantics
import Mathlib.Logic.Function.Iterate

/-!
# What every snapshot tells

A snapshot that `get_snapshot` returns may be torn: its members need not
belong to one moment.  Each of them is still what the memory held at some
moment of the call, and the moments follow the order of the copy.  So the
update count, which is copied last, counts every update that was complete when
the call started, and it does not go back from one call to the next.
-/

namespace MarketDataHandler

/-! ## Copies of members -/

namespace StateField

theorem mem_all (field : StateField) : field ∈ all := by
  cases field <;> decide

theorem copy_copy_self (field : StateField)
    (source snap : MarketState) :
    field.copy source (field.copy source snap) =
      field.copy source snap := by
  cases field <;> rfl

/-- Copies of different members do not see each other. -/
theorem copy_comm {first second : StateField} (different : first ≠ second)
    (source other snap : MarketState) :
    first.copy source (second.copy other snap) =
      second.copy other (first.copy source snap) := by
  cases first <;> cases second <;>
    first | exact absurd rfl different | rfl

end StateField

namespace SnapshotSystem

/-! ## The memory behind the steps of the writer -/

/-- The memory after some further steps of the writer. -/
def memoryAfter (start : SnapshotSystem) (steps : Nat) : MarketState :=
  let writer :=
    (VersionedWriter.step FieldAccess.perform)^[steps] start.writer
  { toMarketData := writer.data
    version := writer.version }

theorem writer_run (start : SnapshotSystem) (schedule : List Actor) :
    (start.run schedule).writer =
      (VersionedWriter.step FieldAccess.perform)^[
        schedule.count .writer] start.writer := by
  induction schedule using List.reverseRecOn with
  | nil =>
      rfl
  | append_singleton schedule actor inductionHypothesis =>
      rw [run_concat, List.count_append]
      cases actor with
      | writer =>
          rw [List.count_singleton_self, Function.iterate_succ_apply',
            ← inductionHypothesis]
          rfl
      | reader =>
          exact inductionHypothesis

theorem shared_run (start : SnapshotSystem) (schedule : List Actor) :
    (start.run schedule).shared =
      start.memoryAfter (schedule.count .writer) := by
  rw [shared, writer_run, memoryAfter]

/-! ## Collected members -/

/-- The members were copied one after the other, each as it was at some moment
since the start. -/
structure Collected (start : SnapshotSystem) (now : Nat)
    (fields : List StateField) (snap : MarketState)
    (moment : StateField → Nat) : Prop where
  ordered : (fields.map moment).Pairwise (· ≤ ·)
  past : ∀ field ∈ fields, moment field ≤ now
  copied :
    ∀ field ∈ fields,
      field.copy (start.memoryAfter (moment field)) snap = snap

theorem Collected.later
    {start : SnapshotSystem} {now later : Nat}
    {fields : List StateField} {snap : MarketState}
    {moment : StateField → Nat}
    (collected : Collected start now fields snap moment)
    (ordered : now ≤ later) :
    Collected start later fields snap moment where
  ordered := collected.ordered
  past := fun field member =>
    Nat.le_trans (collected.past field member) ordered
  copied := collected.copied

/-- One more member is copied now. -/
theorem Collected.concat
    {start : SnapshotSystem} {now : Nat}
    {fields : List StateField} {snap : MarketState}
    {moment : StateField → Nat}
    (collected : Collected start now fields snap moment)
    {field : StateField} (fresh : field ∉ fields) :
    Collected start now (fields ++ [field])
      (field.copy (start.memoryAfter now) snap)
      (Function.update moment field now) := by
  have others {other : StateField} (member : other ∈ fields) :
      other ≠ field := fun same => fresh (same ▸ member)
  have kept :
      fields.map (Function.update moment field now) =
        fields.map moment := by
    apply List.map_congr_left
    intro other member
    exact Function.update_of_ne (others member) _ _
  refine ⟨?_, ?_, ?_⟩
  · rw [List.map_append, kept, List.pairwise_append]
    refine ⟨collected.ordered, List.pairwise_singleton _ _, ?_⟩
    intro earlier before last isLast
    obtain ⟨other, member, rfl⟩ := List.mem_map.mp before
    rw [List.map_singleton, Function.update_self,
      List.mem_singleton] at isLast
    rw [isLast]
    exact collected.past other member
  · intro other member
    rcases List.mem_append.mp member with inside | last
    · rw [Function.update_of_ne (others inside)]
      exact collected.past other inside
    · rw [List.mem_singleton.mp last, Function.update_self]
  · intro other member
    rcases List.mem_append.mp member with inside | last
    · rw [Function.update_of_ne (others inside),
        StateField.copy_comm (others inside),
        collected.copied other inside]
    · rw [List.mem_singleton.mp last, Function.update_self,
        StateField.copy_copy_self]

/-- What has been copied when the reader is at the given place.  In front of a
first load nothing may have been; then `v2` is still zero. -/
def ReaderCollects (start : SnapshotSystem) (now : Nat) : ReaderPc → Prop
  | .loadFirst v2 snap =>
      v2 = 0 ∨ ∃ moment, Collected start now StateField.all snap moment
  | .copying _ snap fields =>
      ∃ done moment,
        done ++ fields = StateField.all ∧
          Collected start now done snap moment
  | .returned snap =>
      ∃ moment, Collected start now StateField.all snap moment

theorem ReaderCollects.later
    {start : SnapshotSystem} {now later : Nat} {pc : ReaderPc}
    (collects : ReaderCollects start now pc) (ordered : now ≤ later) :
    ReaderCollects start later pc := by
  cases pc with
  | loadFirst v2 snap =>
      rcases collects with zero | ⟨moment, collected⟩
      · exact Or.inl zero
      · exact Or.inr ⟨moment, collected.later ordered⟩
  | copying v1 snap fields =>
      obtain ⟨done, moment, split, collected⟩ := collects
      exact ⟨done, moment, split, collected.later ordered⟩
  | returned snap =>
      obtain ⟨moment, collected⟩ := collects
      exact ⟨moment, collected.later ordered⟩

theorem ReaderCollects.step
    {start : SnapshotSystem} {now : Nat} {pc : ReaderPc}
    (collects : ReaderCollects start now pc) :
    ReaderCollects start now (pc.step (start.memoryAfter now)) := by
  cases pc with
  | loadFirst v2 snap =>
      rw [ReaderPc.step]
      split
      · rename_i odd
        split
        · exact collects
        · rename_i same
          rw [not_not] at same
          rcases collects with zero | collected
          · rw [same, zero] at odd
            exact absurd rfl odd
          · exact collected
      · exact ⟨[], fun _ => 0, rfl, List.Pairwise.nil,
          List.forall_mem_nil _, List.forall_mem_nil _⟩
  | copying v1 snap fields =>
      obtain ⟨done, moment, split, collected⟩ := collects
      cases fields with
      | nil =>
          rw [List.append_nil] at split
          rw [split] at collected
          rw [ReaderPc.step]
          split_ifs
          · exact Or.inr ⟨moment, collected⟩
          · exact ⟨moment, collected⟩
      | cons field fields =>
          have nodup : (done ++ field :: fields).Nodup := by
            rw [split]
            decide
          have fresh : field ∉ done := fun member =>
            (List.nodup_append.mp nodup).2.2 field member field
              List.mem_cons_self rfl
          refine ⟨done ++ [field], _, ?_, collected.concat fresh⟩
          rw [List.append_assoc]
          exact split
  | returned snap =>
      exact collects

theorem readerCollects_run
    {start : SnapshotSystem} (entry : start.reader = ReaderPc.entry)
    (schedule : List Actor) :
    ReaderCollects start (schedule.count .writer)
      (start.run schedule).reader := by
  induction schedule using List.reverseRecOn with
  | nil =>
      change ReaderCollects start 0 start.reader
      rw [entry]
      exact Or.inl rfl
  | append_singleton schedule actor inductionHypothesis =>
      rw [run_concat, List.count_append]
      cases actor with
      | writer =>
          exact inductionHypothesis.later (Nat.le_add_right _ _)
      | reader =>
          change
            ReaderCollects start (schedule.count .writer)
              ((start.run schedule).reader.step
                (start.run schedule).shared)
          rw [shared_run]
          exact inductionHypothesis.step

/-- Every member of a returned snapshot is as it was at some moment of the
call, and the moments are in the order of the copy. -/
theorem returned_collected
    {start : SnapshotSystem} (entry : start.reader = ReaderPc.entry)
    {schedule : List Actor} {snap : MarketState}
    (returned : (start.run schedule).reader = .returned snap) :
    ∃ moment : StateField → Nat,
      (StateField.all.map moment).Pairwise (· ≤ ·) ∧
        ∀ field,
          moment field ≤ schedule.count .writer ∧
            field.copy (start.memoryAfter (moment field)) snap =
              snap := by
  have collects := readerCollects_run entry schedule
  rw [returned] at collects
  obtain ⟨moment, collected⟩ := collects
  refine ⟨moment, collected.ordered, ?_⟩
  intro field
  exact ⟨collected.past field field.mem_all,
    collected.copied field field.mem_all⟩

/-- A trade is written up to its quantity while the reader is in front of that
member, and still is when the reader looks at the version again. -/
def tornSchedule : List Actor :=
  List.replicate 7 .reader ++ List.replicate 3 .writer ++
    List.replicate 5 .reader

theorem returned_collected_torn :
    let start := call MarketState.initial 0 [.trade 11 12 13] 0
    let snap := { MarketState.initial with lastTradedQuantity := 12 }
    (start.run tornSchedule).reader = .returned snap ∧
      ∃ moment : StateField → Nat,
        (StateField.all.map moment).Pairwise (· ≤ ·) ∧
          ∀ field,
            moment field ≤ tornSchedule.count .writer ∧
              field.copy (start.memoryAfter (moment field)) snap =
                snap := by
  intro start snap
  have returned : (start.run tornSchedule).reader = .returned snap := by
    decide
  exact ⟨returned, returned_collected rfl returned⟩

end SnapshotSystem

/-! ## The update count -/

/-- The step that stores the incremented update count. -/
def countStore : VersionedWriter.Op FieldAccess :=
  .access .storeUpdateCount

namespace CacheUpdate

/-- The steps of an update up to the load of the update count. -/
def loadOps (update : CacheUpdate) :
    List (VersionedWriter.Op FieldAccess) :=
  let loading : List FieldAccess :=
    update.stores ++
      [.storeLastUpdateTime update.time, .loadUpdateCount]
  .bump :: loading.map .access

theorem updateOps_accesses (update : CacheUpdate) :
    VersionedWriter.updateOps update.accesses =
      update.loadOps ++ [countStore, .bump] := by
  cases update <;> rfl

theorem countStore_notMem_loadOps (update : CacheUpdate) :
    countStore ∉ update.loadOps := by
  cases update <;> simp [loadOps, stores, countStore]

theorem count_bump_loadOps (update : CacheUpdate) :
    update.loadOps.count .bump = 1 := by
  cases update <;> rfl

/-- The count is in the register. -/
theorem loadOps_register
    (update : CacheUpdate) (cells : UInt64 × MarketData) :
    let loaded :=
      update.loadOps.foldl
        (VersionedWriter.Op.effect FieldAccess.perform) cells
    loaded.1 = loaded.2.updateCount := by
  cases update <;> rfl

end CacheUpdate

theorem updateCount_of_notMem
    {ops : List (VersionedWriter.Op FieldAccess)}
    (silent : countStore ∉ ops) (cells : UInt64 × MarketData) :
    (ops.foldl (VersionedWriter.Op.effect FieldAccess.perform)
        cells).2.updateCount =
      cells.2.updateCount := by
  induction ops generalizing cells with
  | nil =>
      rfl
  | cons op ops inductionHypothesis =>
      obtain ⟨first, later⟩ := not_or.mp (List.mem_cons.not.mp silent)
      rw [List.foldl_cons, inductionHypothesis later]
      cases op with
      | bump =>
          rfl
      | access access =>
          cases access with
          | storeUpdateCount =>
              exact absurd rfl first
          | _ =>
              rfl

/-- Wherever the writer is, the count is that of the stores so far, and these
keep up with the version. -/
theorem updateCount_program
    (updates : List CacheUpdate) (steps : Nat)
    (cells : UInt64 × MarketData) :
    let ops :=
      (VersionedWriter.program
        (updates.map CacheUpdate.accesses)).take steps
    (ops.foldl (VersionedWriter.Op.effect FieldAccess.perform)
          cells).2.updateCount =
        cells.2.updateCount + UInt64.ofNat (ops.count countStore) ∧
      2 * ops.count countStore ≤ ops.count .bump + 1 ∧
      ops.count .bump ≤ 2 * ops.count countStore + 1 := by
  induction updates generalizing steps cells with
  | nil =>
      simp [VersionedWriter.program]
  | cons update updates inductionHypothesis =>
      have program :
          VersionedWriter.program
              ((update :: updates).map CacheUpdate.accesses) =
            update.loadOps ++
              countStore :: .bump ::
                VersionedWriter.program
                  (updates.map CacheUpdate.accesses) := by
        rw [List.map_cons, VersionedWriter.program, List.flatMap_cons,
          update.updateOps_accesses, List.append_assoc]
        rfl
      have bumped := update.count_bump_loadOps
      have silent := update.countStore_notMem_loadOps
      have unstored := List.count_eq_zero_of_not_mem silent
      have loaded :=
        updateCount_of_notMem silent cells
      have register := update.loadOps_register cells
      rw [program, List.take_append]
      by_cases inside : steps ≤ update.loadOps.length
      · have prefixSilent :
            countStore ∉ update.loadOps.take steps := fun member =>
          silent (List.mem_of_mem_take member)
        have fewer :=
          (List.take_sublist steps update.loadOps).count_le .bump
        rw [Nat.sub_eq_zero_of_le inside, List.take_zero, List.append_nil]
        dsimp only
        rw [updateCount_of_notMem prefixSilent,
          List.count_eq_zero_of_not_mem prefixSilent]
        exact ⟨(UInt64.add_zero _).symm, by omega, by omega⟩
      · obtain ⟨beyond, split⟩ :=
          Nat.exists_eq_add_of_lt (Nat.lt_of_not_le inside)
        have behind : steps - update.loadOps.length = beyond + 1 := by
          omega
        rw [List.take_of_length_le (by omega), behind,
          List.take_succ_cons]
        dsimp only
        rw [List.foldl_append, List.foldl_cons, List.count_append,
          List.count_append, unstored, bumped, List.count_cons_self,
          List.count_cons_of_ne (by decide)]
        generalize
          update.loadOps.foldl
            (VersionedWriter.Op.effect FieldAccess.perform) cells = now
          at loaded register ⊢
        have stored :
            (VersionedWriter.Op.effect FieldAccess.perform now
                countStore).2.updateCount =
              cells.2.updateCount + 1 := by
          rw [← loaded, ← register]
          rfl
        generalize
          VersionedWriter.Op.effect FieldAccess.perform now countStore =
            next
          at stored ⊢
        cases beyond with
        | zero =>
            rw [List.take_zero, List.count_nil, List.count_nil]
            exact ⟨stored, by decide, by decide⟩
        | succ beyond =>
            obtain ⟨count, upper, lower⟩ :=
              inductionHypothesis beyond next
            rw [List.take_succ_cons, List.foldl_cons,
              List.count_cons_self, List.count_cons_of_ne (by decide)]
            refine ⟨?_, by omega, by omega⟩
            refine Eq.trans count ?_
            rw [stored, UInt64.add_assoc, Nat.zero_add,
              Nat.add_comm _ 1, UInt64.ofNat_add]
            rfl

/-- How many updates have stored their count after some steps of the
writer. -/
def countedAfter (updates : List CacheUpdate) (steps : Nat) : Nat :=
  ((VersionedWriter.program
    (updates.map CacheUpdate.accesses)).take steps).count countStore

theorem countedAfter_mono (updates : List CacheUpdate)
    {earlier later : Nat} (ordered : earlier ≤ later) :
    countedAfter updates earlier ≤ countedAfter updates later :=
  (List.take_sublist_take_left ordered).count_le countStore

namespace SnapshotSystem

variable {initial : MarketState} {register : UInt64}
variable {updates : List CacheUpdate}

theorem call_writer (elapsed : Nat) :
    (call initial register updates elapsed).writer =
      (VersionedWriter.step FieldAccess.perform)^[elapsed]
        (VersionedWriter.start initial.version register
          initial.toMarketData (updates.map CacheUpdate.accesses)) := by
  rw [call, writer_run, List.count_replicate_self]

/-- The update count in memory, in terms of the time of the writer. -/
theorem memoryAfter_updateCount (elapsed steps : Nat) :
    ((call initial register updates elapsed).memoryAfter
        steps).updateCount =
      initial.updateCount +
        UInt64.ofNat (countedAfter updates (elapsed + steps)) := by
  rw [memoryAfter, call_writer, ← Function.iterate_add_apply,
    Nat.add_comm steps]
  have cells :=
    VersionedWriter.cells_iterate FieldAccess.perform
      (VersionedWriter.start initial.version register
        initial.toMarketData (updates.map CacheUpdate.accesses))
      (elapsed + steps)
  have data := congrArg (fun cells => cells.2.updateCount) cells
  exact data.trans (updateCount_program updates _ _).1

/-- The count lies between the updates that are complete and those that have
been started. -/
theorem countedAfter_bounds
    {start : SnapshotSystem} {elapsed steps : Nat}
    (writer :
      start.writer =
        (VersionedWriter.step FieldAccess.perform)^[steps]
          (call initial register updates elapsed).writer) :
    start.writer.bumps / 2 ≤ countedAfter updates (elapsed + steps) ∧
      countedAfter updates (elapsed + steps) ≤ start.started := by
  have bumps :=
    VersionedWriter.bumps_iterate FieldAccess.perform
      (VersionedWriter.start initial.version register
        initial.toMarketData (updates.map CacheUpdate.accesses))
      (elapsed + steps)
  rw [Nat.add_comm elapsed, Function.iterate_add_apply, ← call_writer,
    ← writer, Nat.add_comm steps] at bumps
  obtain ⟨_, upper, lower⟩ :=
    updateCount_program updates (elapsed + steps)
      (register, initial.toMarketData)
  change
    start.writer.bumps =
      0 +
        ((VersionedWriter.program
          (updates.map CacheUpdate.accesses)).take
            (elapsed + steps)).count .bump at bumps
  rw [started, countedAfter]
  omega

/-- What the count of a returned snapshot counts. -/
theorem returned_updateCount
    {elapsed : Nat} {schedule : List Actor} {snap : MarketState}
    (returned :
      ((call initial register updates elapsed).run schedule).reader =
        .returned snap) :
    ∃ steps ≤ schedule.count .writer,
      snap.updateCount =
        initial.updateCount +
          UInt64.ofNat (countedAfter updates (elapsed + steps)) := by
  obtain ⟨entry, _⟩ := call_reader initial register updates elapsed
  have collects := readerCollects_run entry schedule
  rw [returned] at collects
  obtain ⟨moment, collected⟩ := collects
  have counted := StateField.updateCount.mem_all
  refine ⟨moment .updateCount, collected.past .updateCount counted, ?_⟩
  rw [← memoryAfter_updateCount elapsed (moment .updateCount)]
  exact
    (congrArg (·.updateCount)
      (collected.copied .updateCount counted)).symm

end SnapshotSystem

/-- Of two calls one after the other, whatever the writer does meanwhile and
even if the snapshots are torn: each counts at least the updates that were
complete when it started and no other than those started when it returned, and
the second one counts no fewer than the first. -/
theorem updateCounts_advance
    (initial : MarketState) (register : UInt64)
    (updates : List CacheUpdate) {elapsed later : Nat}
    {schedule laterSchedule : List Actor} {snap laterSnap : MarketState}
    (behind : elapsed + schedule.count .writer ≤ later)
    (returned :
      ((SnapshotSystem.call initial register updates elapsed).run
        schedule).reader = .returned snap)
    (laterReturned :
      ((SnapshotSystem.call initial register updates later).run
        laterSchedule).reader = .returned laterSnap) :
    let start := SnapshotSystem.call initial register updates elapsed
    let laterStart := SnapshotSystem.call initial register updates later
    ∃ counted laterCounted,
      snap.updateCount =
          initial.updateCount + UInt64.ofNat counted ∧
        laterSnap.updateCount =
            initial.updateCount + UInt64.ofNat laterCounted ∧
          start.writer.bumps / 2 ≤ counted ∧
          counted ≤ (start.run schedule).started ∧
          laterStart.writer.bumps / 2 ≤ laterCounted ∧
          laterCounted ≤ (laterStart.run laterSchedule).started ∧
          counted ≤ laterCounted := by
  intro start laterStart
  obtain ⟨steps, past, counted⟩ :=
    SnapshotSystem.returned_updateCount returned
  obtain ⟨laterSteps, laterPast, laterCounted⟩ :=
    SnapshotSystem.returned_updateCount laterReturned
  have bounds (time : Nat) (steps : List Actor) :
      let call := SnapshotSystem.call initial register updates time
      call.writer.bumps / 2 ≤ countedAfter updates time ∧
        countedAfter updates (time + steps.count .writer) ≤
          (call.run steps).started := by
    intro call
    have now : call.writer =
        (VersionedWriter.step FieldAccess.perform)^[0] call.writer := rfl
    exact ⟨(SnapshotSystem.countedAfter_bounds now).1,
      (SnapshotSystem.countedAfter_bounds
        (SnapshotSystem.writer_run call steps)).2⟩
  obtain ⟨lower, upper⟩ := bounds elapsed schedule
  obtain ⟨laterLower, laterUpper⟩ := bounds later laterSchedule
  refine ⟨_, _, counted, laterCounted, ?_, ?_, ?_, ?_, ?_⟩
  · exact Nat.le_trans lower (countedAfter_mono updates (by omega))
  · exact Nat.le_trans (countedAfter_mono updates (by omega)) upper
  · exact Nat.le_trans laterLower (countedAfter_mono updates (by omega))
  · exact Nat.le_trans (countedAfter_mono updates (by omega)) laterUpper
  · exact countedAfter_mono updates (by omega)

/-- The first snapshot is torn, the second is taken when the trade is
complete. -/
theorem updateCounts_advance_torn :
    let updates : List CacheUpdate := [.trade 11 12 13]
    let start := SnapshotSystem.call MarketState.initial 0 updates 0
    let laterStart := SnapshotSystem.call MarketState.initial 0 updates 7
    let schedule := SnapshotSystem.tornSchedule
    let laterSchedule : List Actor := List.replicate 11 .reader
    ∃ counted laterCounted,
      (0 : UInt64) = 0 + UInt64.ofNat counted ∧
        (1 : UInt64) = 0 + UInt64.ofNat laterCounted ∧
          start.writer.bumps / 2 ≤ counted ∧
          counted ≤ (start.run schedule).started ∧
          laterStart.writer.bumps / 2 ≤ laterCounted ∧
          laterCounted ≤ (laterStart.run laterSchedule).started ∧
          counted ≤ laterCounted := by
  intro updates start laterStart schedule laterSchedule
  exact
    @updateCounts_advance MarketState.initial 0 updates 0 7 schedule
      laterSchedule
      { MarketState.initial with lastTradedQuantity := 12 }
      { bestBid := 0
        bestAsk := 0
        bidQuantity := 0
        askQuantity := 0
        lastTradedPrice := 11
        lastTradedQuantity := 12
        lastUpdateTime := 13
        updateCount := 1
        version := 2 }
      (by decide) (by decide) (by decide)

/-! ## Calls return -/

namespace ReaderPc

variable {shared : MarketState}

/-- A pass over a state that nobody writes, with an even version. -/
theorem step_iterate_loadFirst (even : shared.version &&& 1 = 0)
    (v2 : UInt32) (snap : MarketState) :
    (step shared)^[StateField.all.length + 2] (.loadFirst v2 snap) =
      .returned shared := by
  have first :
      step shared (.loadFirst v2 snap) =
        .copying shared.version snap StateField.all :=
    if_neg (not_not_intro even)
  rw [Function.iterate_succ_apply, first, Function.iterate_succ_apply',
    step_iterate_copying, StateField.copyAll_all]
  exact if_neg (not_not_intro rfl)

theorem step_iterate_returned (snap : MarketState) (steps : Nat) :
    (step shared)^[steps] (.returned snap) = .returned snap :=
  Function.iterate_fixed rfl _

/-- From the middle of a pass it takes the rest of the pass and one more. -/
theorem returned_of_even (even : shared.version &&& 1 = 0)
    {pc : ReaderPc}
    (pass :
      ∀ v1 snap fields, pc = .copying v1 snap fields →
        fields.length ≤ StateField.all.length) :
    ∃ snap,
      (step shared)^[2 * StateField.all.length + 3] pc =
        .returned snap := by
  cases pc with
  | loadFirst v2 snap =>
      refine ⟨shared, ?_⟩
      rw [show 2 * StateField.all.length + 3 =
          StateField.all.length + 1 + (StateField.all.length + 2) by omega,
        Function.iterate_add_apply, step_iterate_loadFirst even,
        step_iterate_returned]
  | copying v1 snap fields =>
      have short := pass v1 snap fields rfl
      have split :
          2 * StateField.all.length + 3 =
            (StateField.all.length - fields.length) +
              ((StateField.all.length + 2) + (1 + fields.length)) := by
        omega
      have passed :
          (step shared)^[1 + fields.length] (.copying v1 snap fields) =
            if v1 ≠ shared.version then
              .loadFirst shared.version
                (StateField.copyAll fields shared snap)
            else
              .returned (StateField.copyAll fields shared snap) := by
        rw [Function.iterate_add_apply, step_iterate_copying]
        rfl
      rw [split,
        Function.iterate_add_apply _
          (StateField.all.length - fields.length),
        Function.iterate_add_apply _ (StateField.all.length + 2), passed]
      split_ifs
      · refine ⟨shared, ?_⟩
        rw [step_iterate_loadFirst even, step_iterate_returned]
      · refine ⟨StateField.copyAll fields shared snap, ?_⟩
        rw [step_iterate_returned, step_iterate_returned]
  | returned snap =>
      exact ⟨snap, step_iterate_returned snap _⟩

end ReaderPc

namespace SnapshotSystem

theorem run_readers (system : SnapshotSystem) (steps : Nat) :
    (system.run (List.replicate steps .reader)).reader =
      (ReaderPc.step system.shared)^[steps] system.reader := by
  induction steps generalizing system with
  | zero =>
      rfl
  | succ steps inductionHypothesis =>
      exact inductionHypothesis (system.step .reader)

/-- Whenever the writer pauses between two updates, a call that is under way
returns within 21 steps of the reader; a pass that starts in the pause
returns the memory as it is. -/
theorem returns_between_updates
    {start : SnapshotSystem} (entry : start.reader = ReaderPc.entry)
    {schedule : List Actor}
    (pause : (start.run schedule).shared.version &&& 1 = 0) :
    (∃ snap,
        (start.run (schedule ++ List.replicate 21 .reader)).reader =
          .returned snap) ∧
      ((start.run schedule).reader.atFirstLoad →
        (start.run (schedule ++ List.replicate 11 .reader)).reader =
          .returned (start.run schedule).shared) := by
  have readers (steps : Nat) :
      (start.run (schedule ++ List.replicate steps .reader)).reader =
        (ReaderPc.step (start.run schedule).shared)^[steps]
          (start.run schedule).reader := by
    rw [← run_readers]
    exact congrArg _ List.foldl_append
  rw [readers, readers]
  constructor
  · apply ReaderPc.returned_of_even pause
    intro v1 snap fields copying
    have collects := readerCollects_run entry schedule
    rw [copying] at collects
    obtain ⟨done, _, split, _⟩ := collects
    rw [← split, List.length_append]
    exact Nat.le_add_left _ _
  · intro first
    cases pc : (start.run schedule).reader with
    | loadFirst v2 snap =>
        exact ReaderPc.step_iterate_loadFirst pause v2 snap
    | _ =>
        rw [pc] at first
        cases first

/-- The writer pauses in front of its first update while the reader is in the
middle of a pass. -/
theorem returns_between_updates_passing :
    let start := call MarketState.initial 0 [.trade 11 12 13] 0
    let schedule : List Actor := List.replicate 4 .reader
    (∃ snap,
        (start.run (schedule ++ List.replicate 21 .reader)).reader =
          .returned snap) ∧
      ((start.run schedule).reader.atFirstLoad →
        (start.run (schedule ++ List.replicate 11 .reader)).reader =
          .returned (start.run schedule).shared) := by
  intro start schedule
  exact returns_between_updates rfl (by decide)

end SnapshotSystem

end MarketDataHandler
